import Comp4511.ShellMain

/-!
# The second shell and its input

`Sh2Step` takes a line as the words in `argv`. Here the words come from
standard input: a session is the machine of `Sh2Step` with what is left of
the input, and a line it reads is the one that `enter` makes of that, with
`$?` as `child_status` is at the time. Where `enter` does not come to the
chain of comparisons, a session has no next step.

A session goes through the turns of `mainTurn` (`session_turns`): with what
is in `child_status` after each line that is run as the answer, the loop
comes to the same prompts. So a session that has exited has read a chunk
that makes the shell leave (`session_ends`).
-/

namespace Comp4511

namespace Sh2

/-- The shell, and what it has not yet read. -/
structure Session where
  shell : State
  stdin : List Char

/-- A line is the next one of the input; everything else is a step of the
shell. -/
def sessionStep (pid : ℕ) (s : Session) (a : Act) : Option Session :=
  match a with
  | .line l =>
      match enter pid s.shell.childStatus s.stdin with
      | (.line l', rest) =>
          if l = l' then (step s.shell (.line l)).map fun t => ⟨t, rest⟩ else none
      | (.over _, _) => none
  | a => (step s.shell a).map fun t => ⟨t, s.stdin⟩

/-- What a step of a session does. -/
inductive SessionStep (pid : ℕ) (s : Session) : Act → Session → Prop
  | blank {rest : List Char} : s.shell.pc = .prompt →
      enter pid s.shell.childStatus s.stdin = (.line .blank, rest) →
      SessionStep pid s (.line .blank) { s with stdin := rest }
  | words {argv : List String} {background : Bool} {rest : List Char} : s.shell.pc = .prompt →
      enter pid s.shell.childStatus s.stdin = (.line (.words argv background), rest) →
      SessionStep pid s (.line (.words argv background))
        ⟨{ s.shell with pc := dispatch argv background }, rest⟩
  | other {a : Act} {t : State} : (∀ l, a ≠ .line l) → Step s.shell a t →
      SessionStep pid s a { s with shell := t }

section Cases

variable {pid : ℕ} {s s' : Session}

theorem sessionStep_line_cases {l : Line} (h : sessionStep pid s (.line l) = some s') :
    SessionStep pid s (.line l) s' := by
  rw [sessionStep] at h
  split at h
  · next l' rest henter =>
      obtain ⟨rfl, hsome⟩ := Option.ite_none_right_eq_some.mp h
      obtain ⟨t, hstep, rfl⟩ := Option.map_eq_some_iff.mp hsome
      cases (step_cases hstep).2 with
      | blank hpc => exact .blank hpc henter
      | words hpc => exact .words hpc henter
  · cases h

theorem sessionStep_cases {a : Act} (h : sessionStep pid s a = some s') :
    s.shell.pc ≠ .exited ∧ SessionStep pid s a s' := by
  have hother : (step s.shell a).map (fun t => (⟨t, s.stdin⟩ : Session)) = some s' →
      (∀ l, a ≠ .line l) → s.shell.pc ≠ .exited ∧ SessionStep pid s a s' := by
    intro h hline
    obtain ⟨t, hstep, rfl⟩ := Option.map_eq_some_iff.mp h
    exact ⟨(step_cases hstep).1, .other hline (step_cases hstep).2⟩
  cases a with
  | line l =>
      have hstep := sessionStep_line_cases h
      refine ⟨?_, hstep⟩
      cases hstep with
      | blank hpc => simp [hpc]
      | words hpc => simp [hpc]
      | other hline => exact absurd rfl (hline l)
  | main => exact hother h fun l heq => by cases heq
  | fork p => exact hother h fun l heq => by cases heq
  | waitAny choice => exact hother h fun l heq => by cases heq
  | kids b => exact hother h fun l heq => by cases heq

end Cases

/-! ## Turns -/

/-- The answer for each line that is run. -/
def answers (as : List ℕ) (n : ℕ) : ℕ := as.getD n 0

/-- With the answers `as`, whatever the later ones are, the loop comes to
the prompt `p`. -/
def Comes (pid : ℕ) (stdin : List Char) (as : List ℕ) (p : Prompt) : Prop :=
  ∀ more, Relation.ReflTransGen (Loop.Again (mainTurn pid (answers (as ++ more))))
    ⟨stdin, 0, 0⟩ p

/-- The loop comes to a prompt behind a line with the answer `v`. -/
def Turned (pid : ℕ) (stdin rest : List Char) (v : ℕ) : Prop :=
  ∃ as, Comes pid stdin (as ++ [v]) ⟨rest, v, as.length + 1⟩

/-- Where the loop of turns is when a session is in the state `s`. -/
def Turns (pid : ℕ) (stdin : List Char) (s : Session) : Prop :=
  match s.shell.pc with
  | .prompt => ∃ as, Comes pid stdin as ⟨s.stdin, s.shell.childStatus, as.length⟩
  | .exited => ∃ as p, Comes pid stdin as p ∧ mainTurn pid (answers as) p = .done (.exit 0)
  | .fork false | .wait _ => ∀ v, Turned pid stdin s.stdin v
  | .done v => Turned pid stdin s.stdin v
  | _ => Turned pid stdin s.stdin 0

section Turns

variable {pid : ℕ} {stdin rest : List Char} {as : List ℕ} {p q : Prompt} {s s' : Session}

theorem Comes.more (h : Comes pid stdin as p) (bs : List ℕ) : Comes pid stdin (as ++ bs) p := by
  intro more
  rw [List.append_assoc]
  exact h (bs ++ more)

theorem Comes.again (h : Comes pid stdin as p)
    (hturn : ∀ more, mainTurn pid (answers (as ++ more)) p = .again q) : Comes pid stdin as q :=
  fun more => (h more).tail (hturn more)

theorem answers_last (as : List ℕ) (v : ℕ) (more : List ℕ) :
    answers (as ++ [v] ++ more) as.length = v := by
  simp [answers]

/-- A line is read at the prompt. -/
theorem Turns.words {argv : List String} {background : Bool}
    (hcomes : Comes pid stdin as ⟨s.stdin, s.shell.childStatus, as.length⟩)
    (henter : enter pid s.shell.childStatus s.stdin = (.line (.words argv background), rest)) :
    Turns pid stdin ⟨{ s.shell with pc := dispatch argv background }, rest⟩ := by
  have hzero : (∀ answer, mainTurn pid answer ⟨s.stdin, s.shell.childStatus, as.length⟩ =
      .again ⟨rest, 0, as.length + 1⟩) → Turned pid stdin rest 0 :=
    fun hagain => ⟨as, (hcomes.more [0]).again fun more => hagain _⟩
  unfold Turns
  dsimp only
  cases argv with
  | nil =>
      refine ⟨as, hcomes.again fun more => ?_⟩
      simp only [mainTurn, henter, dispatch]
  | cons cmd args =>
      simp only [dispatch]
      split_ifs with hexit hcd hback hjobs
      · refine ⟨as, _, hcomes, ?_⟩
        simp only [mainTurn, henter, dispatch, if_pos hexit]
      · refine hzero fun answer => ?_
        simp only [mainTurn, henter, dispatch, if_neg hexit, if_pos hcd, if_pos hback]
      · refine hzero fun answer => ?_
        simp only [mainTurn, henter, dispatch, if_neg hexit, if_pos hcd, if_neg hback]
      · refine hzero fun answer => ?_
        simp only [mainTurn, henter, dispatch, if_neg hexit, if_neg hcd, if_pos hjobs]
      · have hfork : dispatch (cmd :: args) background = .fork background := by
          simp only [dispatch, if_neg hexit, if_neg hcd, if_neg hjobs]
        cases background with
        | true =>
            refine hzero fun answer => ?_
            simp only [mainTurn, henter, hfork]
        | false =>
            refine fun v => ⟨as, (hcomes.more [v]).again fun more => ?_⟩
            simp only [mainTurn, henter, hfork, answers_last]

theorem Turns.step {a : Act} (h : Turns pid stdin s) (hstep : SessionStep pid s a s') :
    Turns pid stdin s' := by
  unfold Turns at h
  cases hstep with
  | blank hpc henter =>
      rw [hpc] at h
      obtain ⟨as, hcomes⟩ := h
      unfold Turns
      dsimp only
      rw [hpc]
      refine ⟨as, hcomes.again fun more => ?_⟩
      rw [mainTurn, henter]
  | words hpc henter =>
      rw [hpc] at h
      obtain ⟨as, hcomes⟩ := h
      exact Turns.words hcomes henter
  | other hline hstep =>
      unfold Turns
      cases hstep with
      | kids => exact h
      | blank => exact absurd rfl (hline _)
      | words => exact absurd rfl (hline _)
      | @fork background q k hpc =>
          rw [hpc] at h
          cases background with
          | true => exact h
          | false => exact h
      | wait hpc =>
          rw [hpc] at h
          exact h _
      | @done status hpc =>
          rw [hpc] at h
          obtain ⟨as, hcomes⟩ := h
          refine ⟨as ++ [status], ?_⟩
          rwa [List.length_append, List.length_singleton]
      | forkCd hpc | jobsPipe hpc | jobsFork hpc | jobsClose hpc | jobsWait hpc | jobsRead hpc =>
          rw [hpc] at h
          exact h

variable {table : Fd.Table Fd.End} {pipes : ℕ} {h : List (Session × Act)}

theorem turns_of_run (hrun : Lts.Run (sessionStep pid) ⟨boot table pipes, stdin⟩ h s) :
    Turns pid stdin s :=
  hrun.inv (fun _ _ _ hs hstep => hs.step (sessionStep_cases hstep).2) ⟨[], fun _ => .refl⟩

/-- Every session goes through turns of `main`: at a prompt the loop is
there with the same input and the same `child_status`, and when the shell
has exited the loop has. -/
theorem session_turns (hrun : Lts.Run (sessionStep pid) ⟨boot table pipes, stdin⟩ h s) :
    (s.shell.pc = .prompt → ∃ answer n, Relation.ReflTransGen (Loop.Again (mainTurn pid answer))
      ⟨stdin, 0, 0⟩ ⟨s.stdin, s.shell.childStatus, n⟩)
    ∧ (s.shell.pc = .exited → ∃ answer n,
      Loop.run (mainTurn pid answer) n ⟨stdin, 0, 0⟩ = some (.exit 0)) := by
  have hturns := turns_of_run hrun
  unfold Turns at hturns
  refine ⟨fun hpc => ?_, fun hpc => ?_⟩
  · rw [hpc] at hturns
    obtain ⟨as, hcomes⟩ := hturns
    exact ⟨_, _, hcomes []⟩
  · rw [hpc] at hturns
    obtain ⟨as, p, hcomes, hdone⟩ := hturns
    have hcomes := hcomes []
    rw [List.append_nil] at hcomes
    exact ⟨_, Loop.exists_run hcomes hdone⟩

/-- A session that has exited has read a chunk that makes the shell leave. -/
theorem session_ends (hrun : Lts.Run (sessionStep pid) ⟨boot table pipes, stdin⟩ h s)
    (hpc : s.shell.pc = .exited) : Ends fate (allChunks maxCmdlineLen stdin) := by
  obtain ⟨answer, n, hexit⟩ := (session_turns hrun).2 hpc
  exact (follows pid answer).ends_of_exit (by decide) hexit (Nat.le_refl _)

end Turns

end Sh2

end Comp4511
