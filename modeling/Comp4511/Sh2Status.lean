import Comp4511.Sh2Step

/-!
# `$?` after a foreground command

`main` waits for its foreground child by pid, and the handler of `SIGCHLD`
takes any child. Whichever comes first gets the wait status; if it is the
handler, the status is thrown away, `waitpid` in `main` fails and
`status` keeps its zero.

`Foreground` follows the child of one command from its `fork` to the next
prompt, and `Since` follows `child_status` from there up to the next
expansion of `$?`. For every line with a word that `main` does not wait for,
it puts a zero into `child_status` again.

`child_status_iff` is the result for every run: what `$?` is expanded from
is the wait status of the last foreground command exactly when the handler
did not take its child and no such line came in between, or the status was
zero anyway. In `reaped_status_lost` a child exits before `main` has reached
its `waitpid`.
-/

namespace Comp4511

namespace Sh2

abbrev Entry := State × Act

/-- What happens in a history. -/
def acts (h : List Entry) : List Act := h.map Prod.snd

/-- Child `p` exits with `status` in the history. -/
def Ended (h : List Entry) (p status : ℕ) : Prop :=
  .kids (.exit p status) ∈ acts h

/-- A run of the handler takes child `p`. -/
def HandlerTook (h : List Entry) (p : ℕ) : Prop :=
  .kids (.reap (some p)) ∈ acts h

/-- No line with a word on it is read. -/
def NoLine (h : List Entry) : Prop :=
  ∀ argv background, .line (.words argv background) ∉ acts h

/-- Every line that is read has no word, or only an `&`. -/
def Idle (h : List Entry) : Prop :=
  ∀ argv background, .line (.words argv background) ∈ acts h → argv = []

/-- No command is started in the foreground. -/
def NoForeground (h : List Entry) : Prop :=
  ∀ x ∈ h, x.1.pc ≠ .fork false

/-- Child `p` exits in the history, with `status`. -/
def StatusIs (h : List Entry) (p status : ℕ) : Prop :=
  ∀ status', Ended h p status' ↔ status' = status

theorem mem_acts_append {h : List Entry} {x : Entry} {a : Act} :
    a ∈ acts (h ++ [x]) ↔ a ∈ acts h ∨ x.2 = a := by
  rw [acts, List.map_append, List.mem_append]
  exact or_congr_right (List.mem_singleton.trans eq_comm)

/-- What the child `p` of a foreground command and `main` have come to in
the history `h` since the `fork`. -/
inductive Foreground (p : ℕ) (h : List Entry) (s : State) : Prop
  | alive {c : Wait.Child Unit} : s.pc = .wait p → s.kids.child p = some c →
      (∀ status, c.life ≠ .zombie status) → (∀ status, ¬ Ended h p status) →
      ¬ HandlerTook h p → Foreground p h s
  | zombie {status : ℕ} : s.pc = .wait p → s.kids.exitStatus p = some status →
      StatusIs h p status → ¬ HandlerTook h p → Foreground p h s
  | taken {status : ℕ} : s.pc = .wait p → s.kids.child p = none →
      StatusIs h p status → HandlerTook h p → Foreground p h s
  | waited {status v : ℕ} : s.pc = .done v ∨ s.pc = .prompt ∧ s.childStatus = v →
      s.kids.child p = none → StatusIs h p status →
      (v = status ∧ ¬ HandlerTook h p ∨ v = 0 ∧ HandlerTook h p) → Foreground p h s

section Step

variable {p : ℕ} {h : List Entry} {s s' : State}

/-- An entry that is not about `p` leaves its part of the history alone. -/
theorem ended_append_other {x : Entry} {status : ℕ} (hx : ∀ status, x.2 ≠ .kids (.exit p status)) :
    Ended (h ++ [x]) p status ↔ Ended h p status := by
  exact mem_acts_append.trans (or_iff_left (hx status))

theorem handlerTook_append_other {x : Entry} (hx : x.2 ≠ .kids (.reap (some p))) :
    HandlerTook (h ++ [x]) p ↔ HandlerTook h p := by
  exact mem_acts_append.trans (or_iff_left hx)

theorem StatusIs.append {x : Entry} {status : ℕ} (hs : StatusIs h p status)
    (hx : ∀ status, x.2 ≠ .kids (.exit p status)) : StatusIs (h ++ [x]) p status := by
  intro status'
  rw [ended_append_other hx]
  exact hs status'

/-- A change of another child, or of the signal. -/
theorem Foreground.other {b : Wait.Act} {k : Wait.Kids Unit} (hf : Foreground p h s)
    (hb : Wait.Kids.target b ≠ some p) (hk : k.child p = s.kids.child p) :
    Foreground p (h ++ [(s, .kids b)]) { s with kids := k } := by
  have hexit : ∀ status, Act.kids b ≠ .kids (.exit p status) := by
    rintro status heq
    obtain rfl := Act.kids.inj heq
    exact hb rfl
  have hreap : Act.kids b ≠ .kids (.reap (some p)) := by
    intro heq
    obtain rfl := Act.kids.inj heq
    exact hb rfl
  have htook := handlerTook_append_other (h := h) (x := (s, .kids b)) hreap
  cases hf with
  | alive hpc hc hlife hnone hnot =>
      refine .alive hpc (hk.trans hc) hlife (fun status => ?_) ?_
      · rw [ended_append_other hexit]
        exact hnone status
      · rw [htook]
        exact hnot
  | zombie hpc hz hstatus hnot =>
      refine .zombie hpc ?_ (hstatus.append hexit) ?_
      · rw [Wait.Kids.exitStatus_congr hk]
        exact hz
      · rw [htook]
        exact hnot
  | taken hpc hc hstatus htaken =>
      exact .taken hpc (hk.trans hc) (hstatus.append hexit) (htook.mpr htaken)
  | waited hpc hc hstatus hv =>
      refine .waited hpc (hk.trans hc) (hstatus.append hexit) ?_
      rw [htook]
      exact hv

/-- Only a child that exists and has not exited can stop, go on or exit. -/
theorem Foreground.of_alive {life : Wait.Life} {a : Unit} (hf : Foreground p h s)
    (hc : s.kids.child p = some ⟨life, a⟩) (hlife : ∀ status, life ≠ .zombie status) :
    s.pc = .wait p ∧ (∀ status, ¬ Ended h p status) ∧ ¬ HandlerTook h p := by
  cases hf with
  | alive hpc _ _ hnone hnot => exact ⟨hpc, hnone, hnot⟩
  | zombie _ hz =>
      rw [Wait.Kids.exitStatus_eq_none_of_child hc hlife] at hz
      exact nomatch hz
  | taken _ hnone =>
      rw [hc] at hnone
      exact nomatch hnone
  | waited _ hnone =>
      rw [hc] at hnone
      exact nomatch hnone

/-- The child stops or goes on. -/
theorem Foreground.notify {b : Wait.Act} {life life' : Wait.Life} {a : Unit}
    (hf : Foreground p h s) (hb : b = .stop p ∨ b = .cont p)
    (hc : s.kids.child p = some ⟨life, a⟩) (hlife : ∀ status, life ≠ .zombie status)
    (hlife' : ∀ status, life' ≠ .zombie status) :
    Foreground p (h ++ [(s, .kids b)])
      { s with kids := (s.kids.set p ⟨life', a⟩).signal } := by
  obtain ⟨hpc, hnone, hnot⟩ := hf.of_alive hc hlife
  have hchild : (s.kids.set p ⟨life', a⟩).signal.child p = some ⟨life', a⟩ := by
    rw [Wait.Kids.child_signal, Wait.Kids.child_set, if_pos rfl]
  refine .alive hpc hchild hlife' (fun status hended => ?_) fun htook => ?_
  · rcases mem_acts_append.mp hended with hended | heq
    · exact hnone status hended
    · rcases hb with rfl | rfl <;> exact nomatch heq
  · rcases mem_acts_append.mp htook with htook | heq
    · exact hnot htook
    · rcases hb with rfl | rfl <;> exact nomatch heq

/-- The child exits. -/
theorem Foreground.exit {status : ℕ} {life : Wait.Life} {a : Unit} (hf : Foreground p h s)
    (hc : s.kids.child p = some ⟨life, a⟩) (hlife : ∀ status, life ≠ .zombie status) :
    Foreground p (h ++ [(s, .kids (.exit p status))])
      { s with kids := (s.kids.set p ⟨.zombie status, a⟩).signal } := by
  obtain ⟨hpc, hnone, hnot⟩ := hf.of_alive hc hlife
  have hz : (s.kids.set p ⟨.zombie status, a⟩).signal.exitStatus p = some status := by
    refine Wait.Kids.exitStatus_eq_some.mpr ⟨a, ?_⟩
    rw [Wait.Kids.child_signal, Wait.Kids.child_set, if_pos rfl]
  refine .zombie hpc hz (fun status' => ?_) ?_
  · refine (mem_acts_append.trans (or_iff_right (hnone status'))).trans ?_
    constructor
    · intro heq
      exact (Wait.Act.exit.inj (Act.kids.inj heq)).2.symm
    · rintro rfl
      rfl
  · exact (handlerTook_append_other (x := (s, .kids (.exit p status))) nofun).not.mpr hnot

/-- The handler takes the child. -/
theorem Foreground.reap (hf : Foreground p h s) (hp : p ∈ s.kids.zombies) :
    Foreground p (h ++ [(s, .kids (.reap (some p)))])
      { s with kids := { s.kids.remove p with handler := .leaving } } := by
  have hsome := Wait.Kids.mem_zombies.mp hp
  have hgone : (s.kids.remove p).child p = none := by
    rw [Wait.Kids.child_remove, if_pos rfl]
  cases hf with
  | alive _ hc hlife =>
      rw [Wait.Kids.exitStatus_eq_none_of_child hc hlife] at hsome
      exact nomatch hsome
  | zombie hpc _ hstatus _ =>
      exact .taken hpc hgone (hstatus.append fun _ => nofun) (mem_acts_append.mpr (.inr rfl))
  | taken _ hc =>
      rw [Wait.Kids.exitStatus_eq_none_of_no_child hc] at hsome
      exact nomatch hsome
  | waited _ hc =>
      rw [Wait.Kids.exitStatus_eq_none_of_no_child hc] at hsome
      exact nomatch hsome

theorem Foreground.kids {b : Wait.Act} {k : Wait.Kids Unit} (hf : Foreground p h s)
    (hk : Wait.Kids.Change id s.kids b k) :
    Foreground p (h ++ [(s, .kids b)]) { s with kids := k } := by
  by_cases hb : Wait.Kids.target b = some p
  case neg => exact hf.other hb (hk.child_of_ne hb)
  cases hk with
  | exit hc hlife =>
      obtain rfl := Option.some.inj hb
      exact hf.exit hc hlife
  | stop hc =>
      obtain rfl := Option.some.inj hb
      exact hf.notify (.inl rfl) hc nofun nofun
  | cont hc =>
      obtain rfl := Option.some.inj hb
      exact hf.notify (.inr rfl) hc nofun nofun
  | deliver => exact nomatch hb
  | reap _ hq =>
      obtain rfl := Option.some.inj hb
      exact hf.reap hq
  | reapNone => exact nomatch hb
  | leave => exact nomatch hb

/-- `waitpid` returns: with the status of the child, or without a child if
the handler took it. -/
theorem Foreground.wait {r : Wait.Result} {k : Wait.Kids Unit} (hf : Foreground p h s)
    (hpc : s.pc = .wait p) (hwait : s.kids.waitpid p false = some (r, k)) :
    Foreground p (h ++ [(s, .main)]) { s with kids := k, pc := .done (statusOf r) } := by
  have htook := handlerTook_append_other (h := h) (x := (s, .main)) (p := p) nofun
  rcases Wait.Kids.waitpid_cases hwait with
    ⟨rfl, hnone, rfl⟩ | ⟨status, rfl, hz, rfl⟩ | ⟨htraced, -⟩
  · cases hf with
    | alive _ hc =>
        rw [hnone] at hc
        exact nomatch hc
    | zombie _ hz =>
        rw [Wait.Kids.exitStatus_eq_none_of_no_child hnone] at hz
        exact nomatch hz
    | taken _ _ hstatus htaken =>
        exact .waited (.inl rfl) hnone (hstatus.append fun _ => nofun)
          (.inr ⟨rfl, htook.mpr htaken⟩)
    | waited hpc' =>
        rw [hpc] at hpc'
        exact nomatch hpc'
  · have hgone : (s.kids.remove p).child p = none := by
      rw [Wait.Kids.child_remove, if_pos rfl]
    cases hf with
    | alive _ hc hlife =>
        rw [Wait.Kids.exitStatus_eq_none_of_child hc hlife] at hz
        exact nomatch hz
    | zombie _ hz' hstatus hnot =>
        obtain rfl := Option.some.inj (hz.symm.trans hz')
        exact .waited (.inl rfl) hgone (hstatus.append fun _ => nofun)
          (.inl ⟨rfl, htook.not.mpr hnot⟩)
    | taken _ hnone =>
        rw [Wait.Kids.exitStatus_eq_none_of_no_child hnone] at hz
        exact nomatch hz
    | waited hpc' =>
        rw [hpc] at hpc'
        exact nomatch hpc'
  · exact nomatch htraced

/-- `main` ends the loop body. -/
theorem Foreground.done {v : ℕ} (hf : Foreground p h s) (hpc : s.pc = .done v) :
    Foreground p (h ++ [(s, .main)]) { s with childStatus := v, pc := .prompt } := by
  have htook := handlerTook_append_other (h := h) (x := (s, .main)) (p := p) nofun
  cases hf with
  | alive hpc' =>
      rw [hpc] at hpc'
      exact nomatch hpc'
  | zombie hpc' =>
      rw [hpc] at hpc'
      exact nomatch hpc'
  | taken hpc' =>
      rw [hpc] at hpc'
      exact nomatch hpc'
  | waited hpc' hnone hstatus hv =>
      rcases hpc' with hdone | ⟨hprompt, -⟩
      · obtain rfl := Pc.done.inj (hpc.symm.trans hdone)
        refine .waited (.inr ⟨rfl, rfl⟩) hnone (hstatus.append fun _ => nofun) ?_
        rw [htook]
        exact hv
      · rw [hpc] at hprompt
        exact nomatch hprompt

/-- An empty line changes nothing. -/
theorem Foreground.blank (hf : Foreground p h s) :
    Foreground p (h ++ [(s, .line .blank)]) s := by
  have htook := handlerTook_append_other (h := h) (x := (s, .line .blank)) (p := p) nofun
  have hended : ∀ status, Ended (h ++ [(s, .line .blank)]) p status ↔ Ended h p status :=
    fun status => ended_append_other fun _ => nofun
  cases hf with
  | alive hpc hc hlife hnone hnot =>
      exact .alive hpc hc hlife (fun status => (hended status).not.mpr (hnone status))
        (htook.not.mpr hnot)
  | zombie hpc hz hstatus hnot =>
      exact .zombie hpc hz (hstatus.append fun _ => nofun) (htook.not.mpr hnot)
  | taken hpc hc hstatus htaken =>
      exact .taken hpc hc (hstatus.append fun _ => nofun) (htook.mpr htaken)
  | waited hpc hc hstatus hv =>
      refine .waited hpc hc (hstatus.append fun _ => nofun) ?_
      rw [htook]
      exact hv

theorem Foreground.pc (hf : Foreground p h s) :
    s.pc = .wait p ∨ (∃ v, s.pc = .done v) ∨ s.pc = .prompt := by
  cases hf with
  | alive hpc => exact .inl hpc
  | zombie hpc => exact .inl hpc
  | taken hpc => exact .inl hpc
  | waited hpc =>
      rcases hpc with hdone | ⟨hprompt, -⟩
      · exact .inr (.inl ⟨_, hdone⟩)
      · exact .inr (.inr hprompt)

theorem Foreground.step {a : Act} (hf : Foreground p h s) (hstep : Step s a s')
    (hline : ∀ argv background, a ≠ .line (.words argv background)) :
    Foreground p (h ++ [(s, a)]) s' := by
  have hpc := hf.pc
  cases hstep with
  | kids hk => exact hf.kids (Wait.Kids.step_cases hk)
  | blank => exact hf.blank
  | words => exact absurd rfl (hline _ _)
  | @wait q r k hwait hret =>
      rw [hwait] at hpc
      obtain heq | ⟨_, hdone⟩ | hprompt := hpc
      · obtain rfl := Pc.wait.inj heq
        exact hf.wait hwait hret
      · exact nomatch hdone
      · exact nomatch hprompt
  | done hdone => exact hf.done hdone
  | fork hfork => simp [hfork] at hpc
  | forkCd hfork => simp [hfork] at hpc
  | jobsPipe hjobs => simp [hjobs] at hpc
  | jobsFork hjobs => simp [hjobs] at hpc
  | jobsClose hjobs => simp [hjobs] at hpc
  | jobsWait hjobs => simp [hjobs] at hpc
  | jobsRead hjobs => simp [hjobs] at hpc

end Step

/-! ## The next prompt -/

/-- Right after the `fork`. -/
theorem foreground_fork {s s' : State} {p : ℕ} (hpc : s.pc = .fork false)
    (hfork : step s (.fork p) = some s') : Foreground p [] s' := by
  cases (step_cases hfork).2 with
  | @fork background q k hpc' hk =>
      obtain rfl : background = false := by
        rw [hpc] at hpc'
        exact (Pc.fork.inj hpc').symm
      obtain ⟨-, rfl⟩ := Wait.Kids.fork_eq hk
      refine .alive (c := ⟨.running, ()⟩) rfl ?_ (fun _ => nofun) (fun _ => ?_) ?_
      · show (s.kids.set p _).child p = _
        rw [Wait.Kids.child_set, if_pos rfl]
      · exact List.not_mem_nil
      · exact List.not_mem_nil
  | forkCd hpc' =>
      rw [hpc] at hpc'
      exact nomatch hpc'
  | jobsFork hpc' =>
      rw [hpc] at hpc'
      exact nomatch hpc'

theorem foreground_of_run {s s' : State} {p : ℕ} {h : List Entry} (hs : Foreground p [] s)
    (hrun : Lts.Run step s h s') (hline : NoLine h) : Foreground p h s' := by
  have hkeep : ∀ h s a t, (NoLine h → Foreground p h s) → step s a = some t →
      NoLine (h ++ [(s, a)]) → Foreground p (h ++ [(s, a)]) t := by
    intro h s a t hf hstep hno
    have hbefore : NoLine h := fun argv background hmem =>
      hno argv background (mem_acts_append.mpr (.inl hmem))
    have hlast : ∀ argv background, a ≠ .line (.words argv background) :=
      fun argv background heq => hno argv background (mem_acts_append.mpr (.inr heq))
    exact (hf hbefore).step (step_cases hstep).2 hlast
  exact hrun.inv_history (I := fun h s => NoLine h → Foreground p h s) hkeep (fun _ => hs) hline

/-! ## The next expansion -/

/-- At the next prompt `child_status` is zero. -/
def Zeroes (s : State) : Prop :=
  match s.pc with
  | .prompt => s.childStatus = 0
  | .done status => status = 0
  | .wait _ => False
  | _ => True

/-- What has become of `child_status` in the history `h` since a prompt at
which it was `v`. -/
inductive Since (v : ℕ) (h : List Entry) (s : State) : Prop
  | idle : Idle h → s.pc = .prompt → s.childStatus = v → Since v h s
  | zeroes : ¬ Idle h → Zeroes s → Since v h s

section Later

variable {v : ℕ} {h : List Entry} {s s' : State}

theorem zeroes_dispatch {argv : List String} (hargv : argv ≠ []) (background : Bool) :
    Zeroes { s with pc := dispatch argv background } := by
  cases argv with
  | nil => exact absurd rfl hargv
  | cons cmd args =>
      unfold Zeroes dispatch
      dsimp only
      split_ifs <;> trivial

theorem Zeroes.step {a : Act} (hz : Zeroes s) (hstep : Step s a s') (hfork : s.pc ≠ .fork false) :
    Zeroes s' := by
  unfold Zeroes at hz
  cases hstep with
  | kids => exact hz
  | blank => exact hz
  | @words argv background hpc =>
      rw [hpc] at hz
      cases argv with
      | nil => exact hz
      | cons cmd args => exact zeroes_dispatch (List.cons_ne_nil cmd args) background
  | @fork background p k hpc =>
      cases background with
      | false => exact absurd hpc hfork
      | true => exact rfl
  | wait hpc =>
      rw [hpc] at hz
      exact hz.elim
  | done hpc =>
      rw [hpc] at hz
      exact hz
  | forkCd => exact rfl
  | jobsRead => exact rfl
  | jobsPipe | jobsFork | jobsClose | jobsWait => exact trivial

/-- Another entry leaves the lines of a history as they are. -/
theorem idle_append {x : Entry} (hx : ∀ argv background, x.2 ≠ .line (.words argv background)) :
    Idle (h ++ [x]) ↔ Idle h := by
  refine forall₂_congr fun argv background => imp_congr_left ?_
  exact mem_acts_append.trans (or_iff_left (hx argv background))

/-- A line is read at the prompt. -/
theorem Since.words {argv : List String} {background : Bool} (hs : Since v h s)
    (hpc : s.pc = .prompt) :
    Since v (h ++ [(s, .line (.words argv background))])
      { s with pc := dispatch argv background } := by
  have hbefore : Idle (h ++ [(s, .line (.words argv background))]) → Idle h :=
    fun hidle argv' background' hmem => hidle argv' background' (mem_acts_append.mpr (.inl hmem))
  cases hs with
  | idle hidle _ hstatus =>
      cases argv with
      | nil =>
          refine .idle (fun argv' background' hmem => ?_) rfl hstatus
          rcases mem_acts_append.mp hmem with hmem | heq
          · exact hidle argv' background' hmem
          · exact (Line.words.inj (Act.line.inj heq)).1.symm
      | cons cmd args =>
          refine .zeroes (fun hidle => ?_) (zeroes_dispatch (List.cons_ne_nil cmd args) background)
          exact absurd (hidle _ _ (mem_acts_append.mpr (.inr rfl))) (List.cons_ne_nil cmd args)
  | zeroes hnot hz =>
      exact .zeroes (mt hbefore hnot) (hz.step (.words hpc) (by rw [hpc]; exact nofun))

theorem Since.step {a : Act} (hs : Since v h s) (hstep : Step s a s')
    (hfork : s.pc ≠ .fork false) : Since v (h ++ [(s, a)]) s' := by
  by_cases hline : ∃ argv background, a = .line (.words argv background)
  · obtain ⟨argv, background, rfl⟩ := hline
    cases hstep with
    | words hpc => exact hs.words hpc
  · have hkeep := idle_append (h := h) (x := (s, a)) fun argv background heq =>
      hline ⟨argv, background, heq⟩
    cases hs with
    | zeroes hnot hz => exact .zeroes (hkeep.not.mpr hnot) (hz.step hstep hfork)
    | idle hidle hpc hstatus =>
        -- at the prompt only the children and empty lines go on
        cases hstep with
        | kids => exact .idle (hkeep.mpr hidle) hpc hstatus
        | blank => exact .idle (hkeep.mpr hidle) hpc hstatus
        | words => exact absurd ⟨_, _, rfl⟩ hline
        | _ hother => rw [hpc] at hother; cases hother

/-- Between two prompts with no foreground command `child_status` is kept,
or set to zero by the first line with a word. -/
theorem since_of_run (hpc : s.pc = .prompt) (hrun : Lts.Run step s h s') (hnone : NoForeground h) :
    Since s.childStatus h s' := by
  have hkeep : ∀ h t a u, (NoForeground h → Since s.childStatus h t) → Sh2.step t a = some u →
      NoForeground (h ++ [(t, a)]) → Since s.childStatus (h ++ [(t, a)]) u := by
    intro h t a u hs hstep hno
    have hbefore : NoForeground h := fun x hx => hno x (List.mem_append_left _ hx)
    have hlast : t.pc ≠ .fork false :=
      hno (t, a) (List.mem_append_right _ (List.mem_singleton_self _))
    exact (hs hbefore).step (step_cases hstep).2 hlast
  refine hrun.inv_history (I := fun h t => NoForeground h → Since s.childStatus h t) hkeep
    (fun _ => ?_) hnone
  exact .idle (fun _ _ hmem => absurd hmem List.not_mem_nil) hpc rfl

end Later

/-- The exit code that `$?` is replaced by. -/
theorem wexitstatus_exitedWith (code : UInt8) : wexitstatus (exitedWith code) = code.toNat := by
  unfold wexitstatus exitedWith
  have hlt : code.toNat < 256 := code.toNat_lt
  omega

/-- At the first prompt behind a foreground command. -/
theorem status_at_prompt {h : List Entry} {s₁ s₂ s₃ : State} {p : ℕ} (hpc : s₁.pc = .fork false)
    (hfork : step s₁ (.fork p) = some s₂) (hrun : Lts.Run step s₂ h s₃)
    (hprompt : s₃.pc = .prompt) (hline : NoLine h) :
    ∃ status, StatusIs h p status ∧
      (s₃.childStatus = status ∧ ¬ HandlerTook h p ∨ s₃.childStatus = 0 ∧ HandlerTook h p) := by
  cases foreground_of_run (foreground_fork hpc hfork) hrun hline with
  | alive hpc' =>
      rw [hprompt] at hpc'
      cases hpc'
  | zombie hpc' =>
      rw [hprompt] at hpc'
      cases hpc'
  | taken hpc' =>
      rw [hprompt] at hpc'
      cases hpc'
  | @waited status v hpc' _ hstatus hv =>
      obtain rfl : s₃.childStatus = v := by
        rcases hpc' with hdone | ⟨-, hv'⟩
        · rw [hprompt] at hdone
          cases hdone
        · exact hv'
      exact ⟨status, hstatus, hv⟩

/-- Every foreground command, in every run, up to any prompt before the next
one: its child has exited when the first prompt is reached, with one wait
status. `child_status` is that status exactly when no run of the handler
took the child and only lines without a word have been read since, or the
status is zero; and then `$?` shows the exit code. -/
theorem child_status_iff {h₁ h₂ : List Entry} {s₁ s₂ s₃ s₄ : State} {p : ℕ}
    (hpc : s₁.pc = .fork false) (hfork : step s₁ (.fork p) = some s₂)
    (hrun₁ : Lts.Run step s₂ h₁ s₃) (hprompt₃ : s₃.pc = .prompt) (hline : NoLine h₁)
    (hrun₂ : Lts.Run step s₃ h₂ s₄) (hprompt₄ : s₄.pc = .prompt) (hnone : NoForeground h₂) :
    ∃ status, StatusIs h₁ p status ∧
      (s₄.childStatus = status ↔ ¬ HandlerTook h₁ p ∧ Idle h₂ ∨ status = 0) ∧
      (¬ HandlerTook h₁ p ∧ Idle h₂ ∨ status = 0 →
        ∀ code, status = exitedWith code → s₄.stat = toString code.toNat) := by
  obtain ⟨status, hstatus, hfirst⟩ := status_at_prompt hpc hfork hrun₁ hprompt₃ hline
  have hiff : s₄.childStatus = status ↔ ¬ HandlerTook h₁ p ∧ Idle h₂ ∨ status = 0 := by
    cases since_of_run hprompt₃ hrun₂ hnone with
    | idle hidle _ hkept =>
        rw [hkept, and_iff_left hidle]
        rcases hfirst with ⟨heq, hnot⟩ | ⟨hzero, htook⟩
        · exact iff_of_true heq (.inl hnot)
        · rw [hzero, or_iff_right (not_not_intro htook)]
          exact eq_comm
    | zeroes hnot hz =>
        have hzero : s₄.childStatus = 0 := by
          rwa [Zeroes, hprompt₄] at hz
        rw [hzero, or_iff_right fun hcond => hnot hcond.2]
        exact eq_comm
  refine ⟨status, hstatus, hiff, ?_⟩
  rintro hcond code rfl
  rw [State.stat, hiff.mpr hcond, wexitstatus_exitedWith]

/-- `false` has been typed at the first prompt. -/
def typedFalse : State := { boot Fd.standard 0 with pc := .fork false }

/-- Its child has been forked. -/
def forkedFalse : State :=
  { typedFalse with pc := .wait 7, kids := Wait.Kids.empty.set 7 ⟨.running, ()⟩ }

theorem typedFalse_run :
    Lts.Run step (boot Fd.standard 0) [(boot Fd.standard 0, .line (.words ["false"] false))] typedFalse :=
  .cons rfl (.nil _)

/-- The child exits while `main` waits. -/
def waitedRun : List Act :=
  [.kids (.exit 7 256), .main, .kids .deliver, .kids (.reap none), .kids .leave, .main]

theorem exists_run {s t : State} {as : List Act} (hexec : Lts.exec step s as = some t) :
    ∃ h, Lts.Run step s h t ∧ acts h = as :=
  ⟨_, Lts.exec_run hexec, Lts.labels_trace hexec⟩

/-- And then `$?` is asked for behind an empty line and one with only `&`. -/
theorem child_status_iff_waited : ∃ h₁ h₂ s₃ s₄, Lts.Run step forkedFalse h₁ s₃ ∧
    Lts.Run step s₃ h₂ s₄ ∧ s₄.pc = .prompt ∧ Act.line (.words [] true) ∈ acts h₂ ∧
    StatusIs h₁ 7 (exitedWith 1) ∧ s₄.childStatus = exitedWith 1 ∧ s₄.stat = "1" := by
  let later : List Act := [.line .blank, .line (.words [] true)]
  have hseen : (Lts.exec step forkedFalse waitedRun).any (fun s => decide (s.pc = .prompt ∧
      (Lts.exec step s later).any (fun t => decide (t.pc = .prompt)) = true ∧
      ∀ x ∈ Lts.trace step s later, x.1.pc ≠ .fork false)) = true := by
    decide +kernel
  obtain ⟨s₃, hexec, hthere⟩ := (Option.any_eq_true _ _).mp hseen
  obtain ⟨hprompt₃, hlater, hnone⟩ := of_decide_eq_true hthere
  obtain ⟨s₄, hexec', hprompt₄⟩ := (Option.any_eq_true _ _).mp hlater
  obtain ⟨h, hrun, hacts⟩ := exists_run hexec
  have hline : NoLine h := by
    intro argv background
    rw [hacts]
    simp [waitedRun]
  have hnot : ¬ HandlerTook h 7 := by
    rw [HandlerTook, hacts]
    decide
  have hended : Ended h 7 (exitedWith 1) := by
    rw [Ended, hacts]
    decide
  have hacts' : acts (Lts.trace step s₃ later) = later := Lts.labels_trace hexec'
  have hidle : Idle (Lts.trace step s₃ later) := by
    intro argv background hmem
    rw [hacts'] at hmem
    have hline : argv = [] ∧ background = true := by simpa [later] using hmem
    exact hline.1
  have hfork : step typedFalse (.fork 7) = some forkedFalse := rfl
  obtain ⟨status, hstatus, hiff, hstat⟩ := child_status_iff rfl hfork hrun hprompt₃ hline
    (Lts.exec_run hexec') (of_decide_eq_true hprompt₄) hnone
  obtain rfl : exitedWith 1 = status := (hstatus (exitedWith 1)).mp hended
  refine ⟨h, _, s₃, s₄, hrun, Lts.exec_run hexec', of_decide_eq_true hprompt₄, ?_, hstatus,
    hiff.mpr (.inl ⟨hnot, hidle⟩), hstat (.inl ⟨hnot, hidle⟩) 1 rfl⟩
  rw [hacts']
  decide

/-- `sleep 100 &` behind it makes `$?` zero. -/
example : (Lts.exec step forkedFalse
    (waitedRun ++ [.line (.words ["sleep", "100"] true), .fork 8, .main])).map State.stat =
      some "0" := by
  decide +kernel

/-- The child exits, and the handler runs, before `main` has reached its
`waitpid`. -/
def reapedRun : List Act :=
  [.kids (.exit 7 256), .kids .deliver, .kids (.reap (some 7)), .kids .leave, .main, .main]

theorem reaped_status_lost : ∃ h h' s, Lts.Run step (boot Fd.standard 0) h typedFalse ∧
    typedFalse.pc = .fork false ∧ step typedFalse (.fork 7) = some forkedFalse ∧
    Lts.Run step forkedFalse h' s ∧ s.pc = .prompt ∧ NoLine h' ∧
    StatusIs h' 7 (exitedWith 1) ∧ s.childStatus ≠ exitedWith 1 ∧ s.stat = "0" := by
  have hseen : (Lts.exec step forkedFalse reapedRun).map (fun s => (s.pc, s.childStatus, s.stat))
      = some (.prompt, 0, "0") := by
    decide +kernel
  obtain ⟨s, hexec, hs⟩ := Option.map_eq_some_iff.mp hseen
  obtain ⟨hprompt, hstatus, hstat⟩ : s.pc = .prompt ∧ s.childStatus = 0 ∧ s.stat = "0" := by
    simpa using hs
  obtain ⟨h, hrun, hacts⟩ := exists_run hexec
  refine ⟨_, h, s, typedFalse_run, rfl, rfl, hrun, hprompt, ?_, ?_, ?_, hstat⟩
  · intro argv background
    rw [hacts]
    simp [reapedRun]
  · intro status
    rw [Ended, hacts]
    simp [reapedRun, exitedWith]
  · rw [hstatus]
    decide

end Sh2

end Comp4511
