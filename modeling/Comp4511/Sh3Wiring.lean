import Comp4511.ShellFds

/-!
# Pipelines of the third shell

Every stage has a copy of the shell's descriptors from the moment of its
`fork`, and the numbers the shell closes are taken again by the next
`pipe`. Two things carry the argument over any order of the steps of the
shell and of the stages. What a stage's descriptors will be when it comes
to `argv_cmd` is fixed at its `fork`: it is what the rest of its `code`
makes of them (`run`), and a step of the stage does not change that. And a
child's descriptors refer to no more write ends than they did, or are the
shell's own at the `fork` (`children_step`), so a write end that the shell
has closed can only disappear.

`pipeline_wiring` is the result for every run. While the loop runs, `Loop`
is its invariant: the read end of the last pipe is in `fd_in`, and the
write ends before are sealed in their stages.

Read ends are another matter: the shell keeps them all until it has waited
for the stages, so a writer never loses its last reader
(`reader_never_alone`).
-/

namespace Comp4511

namespace Sh3

/-- A descriptor of the table refers to the write end of pipe `i`. -/
def Writes (t : Fd.Table Fd.End) (i : ℕ) : Prop := ∃ d, Fd.get t d = some (.writeEnd i)

/-- What a list of calls makes of the descriptors. -/
def run (code : List Instr) (t : Fd.Table Fd.End) : Fd.Table Fd.End :=
  code.foldl (fun t i => i.onTable t) t

/-! ## The children along a step -/

/-- No call of a child makes a new reference to a write end. -/
theorem writes_onTable {i : Instr} {t : Fd.Table Fd.End} {n : ℕ} (h : Writes (i.onTable t) n) :
    Writes t n := by
  obtain ⟨d, hd⟩ := h
  cases i with
  | dup2 old new => exact Fd.exists_get_of_dup2 hd
  | close fd => exact ⟨d, Fd.get_of_close hd⟩
  | setpgid pgid => exact ⟨d, hd⟩
  | execlp => exact ⟨d, hd⟩
  | argvCmd => exact ⟨d, hd⟩

/-- What becomes of a child in a step: its part stays, it gets no new
write ends, and while it lives its code leads to the same descriptors. -/
structure Descends (c c' : Wait.Child Proc) : Prop where
  role : c'.data.role = c.data.role
  writes : ∀ i, Writes c'.data.table i → Writes c.data.table i
  alive : (∀ status, c'.life ≠ .zombie status) →
    (∀ status, c.life ≠ .zombie status) ∧
      run c'.data.code c'.data.table = run c.data.code c.data.table

theorem Descends.of_goes {c c' : Wait.Child Proc} (h : Wait.Kids.Goes c c') : Descends c c' := by
  obtain ⟨hdata, hlife⟩ := h
  refine ⟨?_, ?_, ?_⟩
  · rw [hdata]
  · rw [hdata]
    exact fun _ hi => hi
  · intro halive
    rw [hdata]
    exact ⟨hlife halive, rfl⟩

theorem Descends.refl (c : Wait.Child Proc) : Descends c c := .of_goes (.refl c)

/-- A child that the shell forks in state `s`. -/
structure Forked (s : State) (c : Wait.Child Proc) : Prop where
  table : c.data.table = s.table
  role : ((∃ t fd₀ fd₁, s.pc = .psFork t fd₀ fd₁) ∧ c.data.role = .ps) ∨
    (∃ cmd, s.pc = .fork cmd ∧ c.data.role = .stage cmd ∧ c.data.code = stageCode cmd) ∨
    ∃ cmd, s.pc = .forkOne cmd ∧ c.data.role = .stage cmd

section Children

variable {s s' : State} {q : ℕ} {c' : Wait.Child Proc}

theorem descends_kids {b : Wait.Act} {k : Wait.Kids Proc}
    (hk : Wait.Kids.Change Proc.exit s.kids b k) (hc' : k.child q = some c') :
    ∃ c, s.kids.child q = some c ∧ Descends c c' := by
  obtain ⟨c, hc, hgoes | ⟨hdata, status, hlife⟩⟩ := hk.child hc'
  · exact ⟨c, hc, .of_goes hgoes⟩
  · refine ⟨c, hc, ?_, ?_, ?_⟩
    · rw [hdata]
      rfl
    · rintro i ⟨d, hd⟩
      rw [hdata] at hd
      exact nomatch (Fd.get_nil d).symm.trans hd
    · intro halive
      exact absurd hlife (halive status)

theorem descends_modify {p g : ℕ} {k : Wait.Kids Proc}
    (hc' : (k.modify p fun proc => { proc with pgrp := g }).child q = some c') :
    ∃ c, k.child q = some c ∧ Descends c c' := by
  rw [Wait.Kids.child_modify] at hc'
  split at hc'
  · next hq =>
      subst hq
      obtain ⟨c, hc, rfl⟩ := Option.map_eq_some_iff.mp hc'
      exact ⟨c, hc, rfl, fun _ hi => hi, fun halive => ⟨halive, rfl⟩⟩
  · exact ⟨c', hc', .refl c'⟩

theorem descends_setpgidChild {shell p pgid : ℕ} {k : Wait.Kids Proc}
    (hc' : (setpgidChild shell k p pgid).child q = some c') :
    ∃ c, k.child q = some c ∧ Descends c c' := by
  rcases setpgidChild_cases shell k p pgid with heq | ⟨g, heq⟩
  · rw [heq] at hc'
    exact ⟨c', hc', .refl c'⟩
  · rw [heq] at hc'
    exact descends_modify hc'

theorem descends_called {shell p g : ℕ} {k : Wait.Kids Proc} {role : Role}
    {t : Fd.Table Fd.End} {i : Instr} {code : List Instr}
    (hp : k.child p = some ⟨.running, ⟨role, t, g, i :: code⟩⟩)
    (hc' : (called shell k p role t g i code).child q = some c') :
    ∃ c, k.child q = some c ∧ Descends c c' := by
  obtain ⟨g', heq⟩ := called_eq shell k p role t g i code
  rw [heq, Wait.Kids.child_set] at hc'
  split at hc'
  · next hq =>
      subst hq
      obtain rfl := Option.some.inj hc'
      refine ⟨_, hp, rfl, fun n hn => writes_onTable hn, fun _ => ⟨fun _ => nofun, rfl⟩⟩
  · exact ⟨c', hc', .refl c'⟩

theorem descends_fork {p : ℕ} {proc : Proc} {k : Wait.Kids Proc}
    (hk : s.kids.fork p proc = some k) (hc' : k.child q = some c') :
    (∃ c, s.kids.child q = some c ∧ Descends c c') ∨ q = p ∧ c' = ⟨.running, proc⟩ := by
  obtain ⟨-, rfl⟩ := Wait.Kids.fork_eq hk
  rw [Wait.Kids.child_set] at hc'
  split at hc'
  · next hq => exact .inr ⟨hq, (Option.some.inj hc').symm⟩
  · exact .inl ⟨c', hc', .refl c'⟩

/-- Every child was there before the step, or is forked in it. -/
theorem children_step {a : Act} (hstep : Step s a s') (hc' : s'.kids.child q = some c') :
    (∃ c, s.kids.child q = some c ∧ Descends c c') ∨ a = .fork q ∧ Forked s c' := by
  cases hstep with
  | kids hk => exact .inl (descends_kids (Wait.Kids.step_cases hk) hc')
  | child hp => exact .inl (descends_called hp hc')
  | psFork hpc hk =>
      rcases descends_fork hk hc' with hold | ⟨rfl, rfl⟩
      · exact .inl hold
      · exact .inr ⟨rfl, rfl, .inl ⟨⟨_, _, _, hpc⟩, rfl⟩⟩
  | @fork cmd p k hpc hk =>
      rcases descends_fork hk hc' with hold | ⟨rfl, rfl⟩
      · exact .inl hold
      · exact .inr ⟨rfl, rfl, .inr (.inl ⟨cmd, hpc, rfl, rfl⟩)⟩
  | @forkOne cmd p k hpc hk =>
      rcases descends_fork hk hc' with hold | ⟨rfl, rfl⟩
      · exact .inl hold
      · exact .inr ⟨rfl, rfl, .inr (.inr ⟨cmd, hpc, rfl⟩)⟩
  | setpgid => exact .inl (descends_setpgidChild hc')
  | setpgidOne => exact .inl (descends_setpgidChild hc')
  | psWait hpc hwait =>
      obtain ⟨c, hc, hgoes⟩ := Wait.Kids.child_waitpid hwait hc'
      exact .inl ⟨c, hc, .of_goes hgoes⟩
  | wait hpc hx hwait =>
      obtain ⟨c, hc, hgoes⟩ := Wait.Kids.child_waitpid hwait hc'
      exact .inl ⟨c, hc, .of_goes hgoes⟩
  | _ => exact .inl ⟨c', hc', .refl c'⟩

/-- A new pipe has one write end. -/
theorem writes_pipe {t t' : Fd.Table Fd.End} {n fd₀ fd₁ d i : ℕ}
    (hpipe : Fd.pipe t (.readEnd n) (.writeEnd n) = ((fd₀, fd₁), t'))
    (hd : Fd.get t' d = some (.writeEnd i)) :
    Fd.get t d = some (.writeEnd i) ∨ d = fd₁ ∧ i = n := by
  obtain ⟨-, -, -, hread, hwrite, hother⟩ := Fd.pipe_spec hpipe
  by_cases h₁ : d = fd₁
  · subst h₁
    rw [hwrite] at hd
    exact .inr ⟨rfl, (Fd.End.writeEnd.inj (Option.some.inj hd)).symm⟩
  by_cases h₀ : d = fd₀
  · subst h₀
    rw [hread] at hd
    exact nomatch hd
  · exact .inl ((hother d h₀ h₁).symm.trans hd)

/-- The shell makes a reference to a write end only with a new pipe. -/
theorem writes_step {a : Act} {i : ℕ} (hstep : Step s a s') (hi : Writes s'.table i) :
    Writes s.table i ∨ i = s.pipes ∧ s'.pipes = s.pipes + 1 := by
  obtain ⟨d, hd⟩ := hi
  cases hstep with
  | psPipe hpc hpipe =>
      rcases writes_pipe hpipe hd with hold | ⟨-, rfl⟩
      · exact .inl ⟨d, hold⟩
      · exact .inr ⟨rfl, rfl⟩
  | pipe hpc hx hpipe =>
      rcases writes_pipe hpipe hd with hold | ⟨-, rfl⟩
      · exact .inl ⟨d, hold⟩
      · exact .inr ⟨rfl, rfl⟩
  | psClose => exact .inl ⟨d, Fd.get_of_close hd⟩
  | close => exact .inl ⟨d, Fd.get_of_close hd⟩
  | closeAll => exact .inl ⟨d, Fd.get_of_close hd⟩
  | _ => exact .inl ⟨d, hd⟩

theorem pipes_le {a : Act} (hstep : Step s a s') : s.pipes ≤ s'.pipes := by
  cases hstep <;> first | exact Nat.le_refl _ | exact Nat.le_succ _

end Children

/-! ## Sealed write ends -/

/-- Only stage `x`, with pid `p`, has the write end of its pipe. -/
structure SealedIn (first x p : ℕ) (s : State) : Prop where
  made : first + x < s.pipes
  shell : ¬ Writes s.table (first + x)
  stage : ∀ q c, s.kids.child q = some c → Writes c.data.table (first + x) →
    q = p ∧ ∃ cmd, c.data.role = .stage cmd ∧ cmd.firstPipe = first ∧ cmd.x = x

/-- Pipes that have not been made are nowhere. -/
structure Fresh (s : State) : Prop where
  shell : ∀ i, Writes s.table i → i < s.pipes
  children : ∀ q c, s.kids.child q = some c → ∀ i, Writes c.data.table i → i < s.pipes

section Sealed

variable {s s' : State} {a : Act}

/-- What is sealed stays sealed: the stage's descriptors become fewer, and
every new child has the shell's, which do not have the write end. -/
theorem SealedIn.step {first x p : ℕ} (h : SealedIn first x p s) (hstep : Step s a s') :
    SealedIn first x p s' := by
  have hmade := h.made
  refine ⟨Nat.lt_of_lt_of_le h.made (pipes_le hstep), ?_, ?_⟩
  · intro hw
    rcases writes_step hstep hw with hw | ⟨heq, -⟩
    · exact h.shell hw
    · omega
  · intro q c' hc' hw
    rcases children_step hstep hc' with ⟨c, hc, hdesc⟩ | ⟨-, hforked⟩
    · obtain ⟨hq, cmd, hrole, hcmd⟩ := h.stage q c hc (hdesc.writes _ hw)
      exact ⟨hq, cmd, hdesc.role.trans hrole, hcmd⟩
    · rw [hforked.table] at hw
      exact absurd hw h.shell

theorem Fresh.step (h : Fresh s) (hstep : Step s a s') : Fresh s' := by
  have hle := pipes_le hstep
  refine ⟨?_, ?_⟩
  · intro i hw
    rcases writes_step hstep hw with hw | ⟨rfl, hpipes⟩
    · exact Nat.lt_of_lt_of_le (h.shell i hw) hle
    · omega
  · intro q c' hc' i hw
    rcases children_step hstep hc' with ⟨c, hc, hdesc⟩ | ⟨-, hforked⟩
    · exact Nat.lt_of_lt_of_le (h.children q c hc i (hdesc.writes i hw)) hle
    · rw [hforked.table] at hw
      exact Nat.lt_of_lt_of_le (h.shell i hw) hle

end Sealed

/-! ## One stage -/

/-- What stage `x` reads from: the shell's input, or the pipe before. -/
def Cmd.input (c : Cmd) (stdin : Fd.End) : Fd.End :=
  if c.x = 0 then stdin else .readEnd (c.firstPipe + c.x - 1)

/-- What stage `x` writes to: its pipe, or the shell's output. -/
def Cmd.output (c : Cmd) (stdout : Fd.End) : Fd.End :=
  if c.x + 1 < c.numPipe then .writeEnd (c.firstPipe + c.x) else stdout

/-- The shell has made the pipe of the stage, and not yet closed its write
end. -/
structure Piped (stdin : Fd.End) (c : Cmd) (s : State) : Prop where
  made : s.pipes = c.firstPipe + c.x + 1
  input : Fd.get s.table c.fdIn = some (c.input stdin)
  readEnd : Fd.get s.table (c.fd.getD (c.x * 2) 0) = some (.readEnd (c.firstPipe + c.x))
  writeEnd : Fd.get s.table (c.fd.getD (c.x * 2 + 1) 0) = some (.writeEnd (c.firstPipe + c.x))
  only : ∀ d, Fd.get s.table d = some (.writeEnd (c.firstPipe + c.x)) →
    d = c.fd.getD (c.x * 2 + 1) 0

/-- The calls of a stage, from the shell's descriptors, connect it. -/
theorem run_stageCode {stdin stdout : Fd.End} {c : Cmd} {s : State} (h : Piped stdin c s)
    (hlen : c.fd.length = c.x * 2 + 2) (h₀ : Fd.Kept c.fd 0 stdin s.table)
    (h₁ : Fd.Kept c.fd 1 stdout s.table) :
    Fd.get (run (stageCode c) s.table) 0 = some (c.input stdin) ∧
      Fd.get (run (stageCode c) s.table) 1 = some (c.output stdout) := by
  -- the numbers of the new pipe are not those of the shell's own files
  have hr : c.fd.getD (c.x * 2) 0 ∈ c.fd := getD_mem (by omega)
  have hw : c.fd.getD (c.x * 2 + 1) 0 ∈ c.fd := getD_mem (by omega)
  have hr₀ : 0 ≠ c.fd.getD (c.x * 2) 0 := fun heq => h₀.2 (heq ▸ hr)
  have hr₁ : 1 ≠ c.fd.getD (c.x * 2) 0 := fun heq => h₁.2 (heq ▸ hr)
  have hw₀ : c.fd.getD (c.x * 2 + 1) 0 ≠ 0 := fun heq => h₀.2 (heq ▸ hw)
  -- after `dup2(fd_in, 0)`
  have hin : ∀ d, Fd.get (Fd.dup2 s.table c.fdIn 0) d
      = if d = 0 then some (c.input stdin) else Fd.get s.table d := Fd.get_dup2 h.input 0
  by_cases hx : c.x + 1 < c.numPipe
  · have hrun : run (stageCode c) s.table = Fd.close (Fd.dup2 (Fd.dup2 s.table c.fdIn 0)
        (c.fd.getD (c.x * 2 + 1) 0) 1) (c.fd.getD (c.x * 2) 0) := by
      unfold run stageCode
      rw [if_pos hx]
      rfl
    have hwrite : Fd.get (Fd.dup2 s.table c.fdIn 0) (c.fd.getD (c.x * 2 + 1) 0)
        = some (.writeEnd (c.firstPipe + c.x)) := by
      rw [hin, if_neg hw₀]
      exact h.writeEnd
    rw [hrun, Fd.get_close_of_ne _ hr₀, Fd.get_close_of_ne _ hr₁, Fd.get_dup2 hwrite,
      Fd.get_dup2 hwrite, if_neg Nat.zero_ne_one, if_pos rfl, hin, if_pos rfl, Cmd.output,
      if_pos hx]
    exact ⟨rfl, rfl⟩
  · have hrun : run (stageCode c) s.table
        = Fd.close (Fd.dup2 s.table c.fdIn 0) (c.fd.getD (c.x * 2) 0) := by
      unfold run stageCode
      rw [if_neg hx]
      rfl
    rw [hrun, Fd.get_close_of_ne _ hr₀, Fd.get_close_of_ne _ hr₁, hin, hin, if_pos rfl,
      if_neg Nat.one_ne_zero, Cmd.output, if_neg hx]
    exact ⟨rfl, h₁.1⟩

/-! ## The loop over the stages -/

/-- The first `m` stages have their write ends to themselves; the last
stage of the pipeline has none that matters. -/
def Sealed (c : Cmd) (m : ℕ) (s : State) : Prop :=
  ∀ y, y < m → y + 1 < c.numPipe → SealedIn c.firstPipe y (c.pid.getD y 0) s

/-- A child with the write end of the stage's pipe is the stage, with pid
`p`. -/
def Holds (c : Cmd) (p : ℕ) (s : State) : Prop :=
  ∀ q ch, s.kids.child q = some ch → Writes ch.data.table (c.firstPipe + c.x) →
    q = p ∧ ∃ cmd, ch.data.role = .stage cmd ∧ cmd.firstPipe = c.firstPipe ∧ cmd.x = c.x

/-- Before the `pipe` of stage `x`, or behind the last stage. -/
structure AtPipe (stdin : Fd.End) (c : Cmd) (s : State) : Prop where
  many : 1 < c.numPipe
  pids : c.pid.length = c.x
  made : s.pipes = c.firstPipe + c.x
  input : c.x < c.numPipe → Fd.get s.table c.fdIn = some (c.input stdin)
  isSealed : Sealed c c.x s

/-- Before the `fork` of stage `x`. -/
structure AtFork (stdin : Fd.End) (c : Cmd) (s : State) : Prop where
  many : 1 < c.numPipe
  pids : c.pid.length = c.x
  piped : Piped stdin c s
  free : ∀ q ch, s.kids.child q = some ch → ¬ Writes ch.data.table (c.firstPipe + c.x)
  isSealed : Sealed c c.x s

/-- After the `fork` of stage `x`. -/
structure AtClose (stdin : Fd.End) (c : Cmd) (s : State) : Prop where
  many : 1 < c.numPipe
  pids : c.pid.length = c.x + 1
  piped : Piped stdin c s
  holds : Holds c (c.pid.getD c.x 0) s
  isSealed : Sealed c c.x s

/-- The invariant of the loop at each of its places, and what it leaves. -/
def Loop (stdin : Fd.End) (s : State) : Pc → Prop
  | .pipe c => AtPipe stdin c s
  | .fork c => AtFork stdin c s
  | .setpgid c | .close c => AtClose stdin c s
  | .wait c _ | .closeAll c _ => 1 < c.numPipe → Sealed c c.numPipe s
  | _ => True

section Loop

variable {stdin stdout : Fd.End} {s s' : State} {a : Act} {c : Cmd}

theorem Sealed.step {m : ℕ} (h : Sealed c m s) (hstep : Step s a s') : Sealed c m s' :=
  fun y hy hlt => (h y hy hlt).step hstep

theorem Piped.same (h : Piped stdin c s) (htable : s'.table = s.table)
    (hpipes : s'.pipes = s.pipes) : Piped stdin c s' := by
  obtain ⟨hmade, hinput, hread, hwrite, honly⟩ := h
  rw [← htable] at hinput hread hwrite honly
  exact ⟨hpipes.trans hmade, hinput, hread, hwrite, honly⟩

/-- Children that are not forked in a step hold no more than before. -/
theorem Holds.step {p : ℕ} (h : Holds c p s) (hstep : Step s a s') (hfork : ∀ q, a ≠ .fork q) :
    Holds c p s' := by
  intro q ch' hch' hw
  rcases children_step hstep hch' with ⟨ch, hch, hdesc⟩ | ⟨heq, -⟩
  · obtain ⟨hq, cmd, hrole, hcmd⟩ := h q ch hch (hdesc.writes _ hw)
    exact ⟨hq, cmd, hdesc.role.trans hrole, hcmd⟩
  · exact absurd heq (hfork q)

/-- A step of a child or of the handler does not disturb the loop. -/
theorem Loop.aside (h : Loop stdin s s.pc) (hstep : Step s a s') (hpc : s'.pc = s.pc)
    (htable : s'.table = s.table) (hpipes : s'.pipes = s.pipes) (hfork : ∀ q, a ≠ .fork q) :
    Loop stdin s' s'.pc := by
  rw [hpc]
  cases hplace : s.pc with
  | pipe c =>
      rw [hplace] at h
      obtain ⟨hmany, hpids, hmade, hinput, hsealed⟩ := h
      refine ⟨hmany, hpids, hpipes.trans hmade, ?_, hsealed.step hstep⟩
      rw [htable]
      exact hinput
  | fork c =>
      rw [hplace] at h
      obtain ⟨hmany, hpids, hpiped, hfree, hsealed⟩ := h
      refine ⟨hmany, hpids, hpiped.same htable hpipes, ?_, hsealed.step hstep⟩
      intro q ch' hch' hw
      rcases children_step hstep hch' with ⟨ch, hch, hdesc⟩ | ⟨heq, -⟩
      · exact hfree q ch hch (hdesc.writes _ hw)
      · exact hfork q heq
  | setpgid c =>
      rw [hplace] at h
      obtain ⟨hmany, hpids, hpiped, hholds, hsealed⟩ := h
      exact ⟨hmany, hpids, hpiped.same htable hpipes, hholds.step hstep hfork,
        hsealed.step hstep⟩
  | close c =>
      rw [hplace] at h
      obtain ⟨hmany, hpids, hpiped, hholds, hsealed⟩ := h
      exact ⟨hmany, hpids, hpiped.same htable hpipes, hholds.step hstep hfork,
        hsealed.step hstep⟩
  | wait c x =>
      rw [hplace] at h
      exact fun hmany => (h hmany).step hstep
  | closeAll c x =>
      rw [hplace] at h
      exact fun hmany => (h hmany).step hstep
  | prompt | exited | psPipe t | psFork t fd₀ fd₁ | psClose t fd₀ fd₁ p | psWait t fd₀ p
  | psRead t fd₀ | forkOne c | setpgidOne c => trivial

theorem loop_afterFork (h : 1 < c.numPipe → Sealed c c.numPipe s) :
    Loop stdin s (afterFork c) := by
  unfold afterFork
  split <;> exact h

/-- The start of a command. -/
theorem loop_afterPs (t : Todo) (h₀ : Fd.get s.table 0 = some stdin) :
    Loop stdin s (afterPs s.pipes t) := by
  cases t with
  | jobs => trivial
  | command background numPipe =>
      unfold afterPs
      dsimp only
      split
      · next hmany =>
          exact ⟨hmany, rfl, rfl, fun _ => h₀, fun y hy => absurd hy (Nat.not_lt_zero y)⟩
      · next hfew =>
          split
          · trivial
          · exact loop_afterFork fun hmany => absurd hmany hfew

/-- `pipe` in the loop. -/
theorem AtPipe.pipe {fd₀ fd₁ : ℕ} {t' : Fd.Table Fd.End} (h : AtPipe stdin c s)
    (hfresh : Fresh s) (hlen : c.fd.length = c.x * 2) (hpc : s.pc = .pipe c)
    (hx : c.x < c.numPipe)
    (hpipe : Fd.pipe s.table (.readEnd s.pipes) (.writeEnd s.pipes) = ((fd₀, fd₁), t')) :
    AtFork stdin (c.piped fd₀ fd₁)
      { s with table := t', pipes := s.pipes + 1, pc := .fork (c.piped fd₀ fd₁) } := by
  obtain ⟨hmany, hpids, hmade, hinput, hsealed⟩ := h
  obtain ⟨hfree₀, hfree₁, -, hread, hwrite, hother⟩ := Fd.pipe_spec hpipe
  have hget₀ : (c.fd ++ [fd₀, fd₁]).getD (c.x * 2) 0 = fd₀ := by
    rw [List.getD_append_right _ _ _ _ (by omega), hlen, Nat.sub_self]
    rfl
  have hget₁ : (c.fd ++ [fd₀, fd₁]).getD (c.x * 2 + 1) 0 = fd₁ := by
    rw [List.getD_append_right _ _ _ _ (by omega), hlen, Nat.add_sub_cancel_left]
    rfl
  have hin := hinput hx
  have hne : ∀ {d}, Fd.get s.table d = none → c.fdIn ≠ d := by
    rintro d hd rfl
    rw [hin] at hd
    exact nomatch hd
  rw [hmade] at hread hwrite
  refine ⟨hmany, hpids, ⟨?_, ?_, ?_, ?_, ?_⟩, ?_, hsealed.step (.pipe hpc hx hpipe)⟩
  · show s.pipes + 1 = c.firstPipe + c.x + 1
    rw [hmade]
  · exact (hother c.fdIn (hne hfree₀) (hne hfree₁)).trans hin
  · show Fd.get t' ((c.fd ++ [fd₀, fd₁]).getD (c.x * 2) 0) = _
    rw [hget₀]
    exact hread
  · show Fd.get t' ((c.fd ++ [fd₀, fd₁]).getD (c.x * 2 + 1) 0) = _
    rw [hget₁]
    exact hwrite
  · intro d hd
    show d = (c.fd ++ [fd₀, fd₁]).getD (c.x * 2 + 1) 0
    rw [hget₁]
    rcases writes_pipe hpipe hd with hold | ⟨rfl, -⟩
    · -- the pipe has just been made
      have hlt := hfresh.shell _ ⟨d, hold⟩
      rw [hmade] at hlt
      exact absurd hlt (Nat.lt_irrefl _)
    · rfl
  · intro q ch hch hw
    have hlt := hfresh.children q ch hch _ hw
    rw [hmade] at hlt
    exact Nat.lt_irrefl _ hlt

/-- `fork` in the loop: the new stage is the only child with the write end. -/
theorem AtFork.fork {p : ℕ} {k : Wait.Kids Proc} (h : AtFork stdin c s) (hpc : s.pc = .fork c)
    (hk : s.kids.fork p ⟨.stage c, s.table, s.pgrp, stageCode c⟩ = some k) :
    AtClose stdin (c.forked p) { s with kids := k, pc := .setpgid (c.forked p) } := by
  obtain ⟨hmany, hpids, hpiped, hfree, hsealed⟩ := h
  have hself : (c.pid ++ [p]).getD c.x 0 = p := by
    rw [List.getD_append_right _ _ _ _ (by omega), hpids, Nat.sub_self]
    rfl
  have hsame : Piped stdin (c.forked p) { s with kids := k, pc := .setpgid (c.forked p) } :=
    ⟨hpiped.made, hpiped.input, hpiped.readEnd, hpiped.writeEnd, hpiped.only⟩
  refine ⟨hmany, ?_, hsame, ?_, ?_⟩
  · show (c.pid ++ [p]).length = c.x + 1
    rw [List.length_append, hpids]
    rfl
  · show Holds c ((c.pid ++ [p]).getD c.x 0) _
    rw [hself]
    intro q ch' hch' hw
    rcases descends_fork hk hch' with ⟨ch, hch, hdesc⟩ | ⟨rfl, rfl⟩
    · exact absurd (hdesc.writes _ hw) (hfree q ch hch)
    · exact ⟨rfl, c, rfl, rfl, rfl⟩
  · intro y hy hlt
    have hold : (c.pid ++ [p]).getD y 0 = c.pid.getD y 0 :=
      List.getD_append _ _ _ _ (by rw [hpids]; exact hy)
    show SealedIn c.firstPipe y ((c.pid ++ [p]).getD y 0) _
    rw [hold]
    exact (hsealed y hy hlt).step (.fork hpc hk)

/-- `close` in the loop seals the write end in its stage, and the read end
is the next stage's input. -/
theorem AtClose.close (h : AtClose stdin c s) (hpc : s.pc = .close c)
    (hx : c.x + 1 < c.numPipe) :
    AtPipe stdin c.next
      { s with table := Fd.close s.table (c.fd.getD (c.x * 2 + 1) 0), pc := .pipe c.next } := by
  obtain ⟨hmany, hpids, ⟨hmade, -, hread, hwrite, honly⟩, hholds, hsealed⟩ := h
  have hne : c.fd.getD (c.x * 2) 0 ≠ c.fd.getD (c.x * 2 + 1) 0 := by
    intro heq
    rw [heq, hwrite] at hread
    exact nomatch hread
  refine ⟨hmany, hpids, ?_, ?_, ?_⟩
  · show s.pipes = c.firstPipe + (c.x + 1)
    omega
  · intro _
    show Fd.get (Fd.close s.table _) (c.fd.getD (c.x * 2) 0) = some (c.next.input stdin)
    rw [Fd.get_close_of_ne _ hne, hread]
    unfold Cmd.input Cmd.next
    rw [if_neg (Nat.succ_ne_zero _)]
    rfl
  · intro y hy hlt
    rcases Nat.lt_succ_iff_lt_or_eq.mp hy with hy | rfl
    · exact (hsealed y hy hlt).step (.close hpc hx)
    · refine ⟨?_, ?_, hholds.step (.close hpc hx) fun q => nofun⟩
      · show c.firstPipe + c.x < s.pipes
        omega
      · rintro ⟨d, hd⟩
        have hd' := honly d (Fd.get_of_close hd)
        rw [hd', Fd.get_close_self] at hd
        exact nomatch hd

theorem AtClose.last (h : AtClose stdin c s) (hpc : s.pc = .close c)
    (hx : ¬ c.x + 1 < c.numPipe) :
    AtPipe stdin { c with x := c.x + 1 } { s with pc := .pipe { c with x := c.x + 1 } } := by
  obtain ⟨hmany, hpids, ⟨hmade, -, -, -, -⟩, -, hsealed⟩ := h
  refine ⟨hmany, hpids, ?_, fun hlt => absurd hlt hx, ?_⟩
  · show s.pipes = c.firstPipe + (c.x + 1)
    omega
  · intro y hy hlt
    rcases Nat.lt_succ_iff_lt_or_eq.mp hy with hy | rfl
    · exact (hsealed y hy hlt).step (.lastStage hpc hx)
    · exact absurd hlt hx

theorem loop_step (hstored : Stored s.pc) (h₀ : Fd.get s.table 0 = some stdin) (hfresh : Fresh s)
    (h : Loop stdin s s.pc) (hstep : Step s a s') : Loop stdin s' s'.pc := by
  have hcase := hstep
  cases hcase with
  | kids => exact h.aside hstep rfl rfl rfl nofun
  | child => exact h.aside hstep rfl rfl rfl nofun
  | blank => exact h
  | exit | run | psPipe | psFork | psClose | psWait | forkOne | closeEnd => trivial
  | psRead => exact loop_afterPs _ h₀
  | pipe hpc hx hpipe =>
      rw [hpc] at h hstored
      exact h.pipe hfresh hstored.1 hpc hx hpipe
  | @loopEnd c hpc hx =>
      rw [hpc] at h hstored
      have heq : c.x = c.numPipe := Nat.le_antisymm hstored.2 (Nat.le_of_not_lt hx)
      refine loop_afterFork fun _ => ?_
      rw [← heq]
      exact h.isSealed.step hstep
  | fork hpc hk =>
      rw [hpc] at h
      exact h.fork hpc hk
  | setpgid hpc =>
      rw [hpc] at h
      obtain ⟨hmany, hpids, hpiped, hholds, hsealed⟩ := h
      exact ⟨hmany, hpids, hpiped.same rfl rfl, hholds.step hstep nofun, hsealed.step hstep⟩
  | close hpc hx =>
      rw [hpc] at h
      exact h.close hpc hx
  | lastStage hpc hx =>
      rw [hpc] at h
      exact h.last hpc hx
  | @setpgidOne c hpc =>
      rw [hpc] at hstored
      have hone : c.numPipe = 1 := hstored
      exact loop_afterFork fun hmany => by omega
  | wait hpc =>
      rw [hpc] at h
      exact fun hmany => (h hmany).step hstep
  | waitEnd hpc =>
      rw [hpc] at h
      exact fun hmany => (h hmany).step hstep
  | closeAll hpc =>
      rw [hpc] at h
      exact fun hmany => (h hmany).step hstep

end Loop

/-! ## Whole runs -/

/-- The child is a stage of a pipeline, and its code leads to its input and
output. -/
def Connected (stdin stdout : Fd.End) (ch : Wait.Child Proc) : Prop :=
  ∀ cmd, ch.data.role = .stage cmd → 1 < cmd.numPipe → (∀ status, ch.life ≠ .zombie status) →
    Fd.get (run ch.data.code ch.data.table) 0 = some (cmd.input stdin) ∧
      Fd.get (run ch.data.code ch.data.table) 1 = some (cmd.output stdout)

/-- The invariant of every run. -/
structure Wiring (stdin stdout : Fd.End) (s : State) : Prop where
  stored : Stored s.pc
  input : Fd.Kept (own s.pc) 0 stdin s.table
  output : Fd.Kept (own s.pc) 1 stdout s.table
  fresh : Fresh s
  loop : Loop stdin s s.pc
  connected : ∀ q ch, s.kids.child q = some ch → Connected stdin stdout ch

theorem Descends.connected {stdin stdout : Fd.End} {c c' : Wait.Child Proc} (h : Descends c c')
    (hc : Connected stdin stdout c) : Connected stdin stdout c' := by
  intro cmd hrole hmany halive
  obtain ⟨halive', hrun⟩ := h.alive halive
  rw [hrun]
  exact hc cmd (h.role.symm.trans hrole) hmany halive'

theorem Forked.connected {stdin stdout : Fd.End} {s : State} {ch : Wait.Child Proc}
    (h : Forked s ch) (hs : Wiring stdin stdout s) : Connected stdin stdout ch := by
  obtain ⟨htable, hplace⟩ := h
  intro cmd hrole hmany _
  rcases hplace with ⟨-, hps⟩ | ⟨cmd', hpc, hstage, hcode⟩ | ⟨cmd', hpc, hstage⟩
  · rw [hrole] at hps
    exact nomatch hps
  · obtain rfl : cmd = cmd' := Role.stage.inj (hrole.symm.trans hstage)
    have hstored := hs.stored
    have hin := hs.input
    have hout := hs.output
    have hloop := hs.loop
    rw [hpc] at hstored hin hout hloop
    rw [hcode, htable]
    exact run_stageCode hloop.piped hstored.1 hin hout
  · obtain rfl : cmd = cmd' := Role.stage.inj (hrole.symm.trans hstage)
    have hstored := hs.stored
    rw [hpc] at hstored
    have hone : cmd.numPipe = 1 := hstored
    omega

theorem Wiring.step {stdin stdout : Fd.End} {s s' : State} {a : Act}
    (h : Wiring stdin stdout s) (hstep : Step s a s') : Wiring stdin stdout s' := by
  refine ⟨stored_step h.stored hstep, kept_step h.stored h.input hstep,
    kept_step h.stored h.output hstep, h.fresh.step hstep,
    loop_step h.stored h.input.1 h.fresh h.loop hstep, ?_⟩
  intro q ch' hch'
  rcases children_step hstep hch' with ⟨ch, hch, hdesc⟩ | ⟨-, hforked⟩
  · exact hdesc.connected (h.connected q ch hch)
  · exact hforked.connected h

theorem wiring_boot {stdin stdout : Fd.End} {table : Fd.Table Fd.End} {pipes pgrp : ℕ}
    (h₀ : Fd.get table 0 = some stdin) (h₁ : Fd.get table 1 = some stdout)
    (hpipes : ∀ i, Writes table i → i < pipes) :
    Wiring stdin stdout (boot table pipes pgrp) := by
  refine ⟨trivial, ⟨h₀, List.not_mem_nil⟩, ⟨h₁, List.not_mem_nil⟩, ⟨hpipes, ?_⟩, trivial, ?_⟩
  · intro q ch hch
    exact nomatch (AList.lookup_empty q).symm.trans hch
  · intro q ch hch
    exact nomatch (AList.lookup_empty q).symm.trans hch

/-- The shell is behind the fork loop of the pipeline `c`. -/
def LoopOver (c : Cmd) (s : State) : Prop :=
  1 < c.numPipe ∧ ∃ x, s.pc = .wait c x ∨ s.pc = .closeAll c x

/-- Every pipeline, in every run of the shell and its children. A stage
that has come to `argv_cmd` reads from the pipe before it and writes to
its own, the first from the shell's input and the last to its output. And
once the fork loop is over, from then on the write end of every pipe but
the last is open in no process other than its stage. -/
theorem pipeline_wiring {stdin stdout : Fd.End} {table : Fd.Table Fd.End} {pipes pgrp : ℕ}
    (h₀ : Fd.get table 0 = some stdin) (h₁ : Fd.get table 1 = some stdout)
    (hpipes : ∀ i, Writes table i → i < pipes) {h : List (State × Act)} {s : State}
    (hrun : Lts.Run step (boot table pipes pgrp) h s) :
    (∀ p life cmd t g, s.kids.child p = some ⟨life, ⟨.stage cmd, t, g, [.argvCmd]⟩⟩ →
      1 < cmd.numPipe → (∀ status, life ≠ .zombie status) →
      Fd.get t 0 = some (cmd.input stdin) ∧ Fd.get t 1 = some (cmd.output stdout)) ∧
    ∀ c, LoopOver c s → ∀ s', Lts.Reaches step s s' → ∀ x, x + 1 < c.numPipe →
      ¬ Writes s'.table (c.firstPipe + x) ∧
      ∀ q ch, s'.kids.child q = some ch → Writes ch.data.table (c.firstPipe + x) →
        q = c.pid.getD x 0 ∧
        ∃ cmd, ch.data.role = .stage cmd ∧ cmd.firstPipe = c.firstPipe ∧ cmd.x = x := by
  have hs : Wiring stdin stdout s := by
    refine hrun.inv ?_ (wiring_boot h₀ h₁ hpipes)
    intro s a t hw hstep
    exact hw.step (step_cases hstep).2
  constructor
  · intro p life cmd t g hp hmany halive
    exact hs.connected p _ hp cmd rfl hmany halive
  · rintro c ⟨hmany, y, hpc⟩ s' hreach x hx
    have hsealed : Sealed c c.numPipe s := by
      have hloop := hs.loop
      rcases hpc with hpc | hpc
      · rw [hpc] at hloop
        exact hloop hmany
      · rw [hpc] at hloop
        exact hloop hmany
    have hsealed' : SealedIn c.firstPipe x (c.pid.getD x 0) s' := by
      refine hreach.inv ?_ (hsealed x (by omega) hx)
      intro s a t hin hstep
      exact hin.step (step_cases hstep).2
    exact ⟨hsealed'.shell, hsealed'.stage⟩

/-- A pipeline of two stages, `7` and `8`, up to `waitpid` in the shell and
`argv_cmd` in both stages. -/
def twoStages : List Act :=
  [.line (.run (.command false 2)), .main, .fork 6, .main, .kids (.exit 6 0), .main,
   .kids .deliver, .kids (.reap none), .kids .leave, .main, .main, .fork 7, .main, .main,
   .main, .fork 8, .main, .main, .main, .child 7, .child 7, .child 7, .child 7,
   .child 8, .child 8, .child 8]

/-- The variables at the `fork` of the second stage, and after the loop. -/
def secondStage : Cmd where
  background := false
  numPipe := 2
  firstPipe := 1
  x := 1
  fd := [4, 5, 5, 6]
  fdIn := 4
  pgid := 7
  pid := [7]

def bothStages : Cmd := { secondStage with x := 2, pid := [7, 8] }

theorem pipeline_wiring_two : ∃ s t, Lts.exec step (boot Fd.standard 0 5) twoStages = some s ∧
    s.kids.child 8 = some ⟨.running, ⟨.stage secondStage, t, 7, [.argvCmd]⟩⟩ ∧
    Fd.get t 0 = some (.readEnd 1) ∧ Fd.get t 1 = some (.file 1) ∧
    LoopOver bothStages s ∧ ¬ Writes s.table 1 := by
  have hseen : (Lts.exec step (boot Fd.standard 0 5) twoStages).map
      (fun s => (s.pc, s.kids.child 8)) = some (.wait bothStages 0,
        some ⟨.running, ⟨.stage secondStage, [some (.readEnd 1), some (.file 1), some (.file 2),
          some (.readEnd 0), some (.readEnd 1), none, some (.writeEnd 2)], 7, [.argvCmd]⟩⟩) := by
    decide +kernel
  obtain ⟨s, hexec, hs⟩ := Option.map_eq_some_iff.mp hseen
  obtain ⟨hpc, hchild⟩ := Prod.mk.inj hs
  have hpipes : ∀ i, Writes Fd.standard i → i < 0 := by
    rintro i ⟨d, hd⟩
    match d with
    | 0 | 1 | 2 | _ + 3 => exact nomatch hd
  obtain ⟨hwired, hsealed⟩ := pipeline_wiring rfl rfl hpipes (Lts.exec_run hexec)
  obtain ⟨hin, hout⟩ := hwired _ _ _ _ _ hchild (by decide) fun _ => nofun
  have hover : LoopOver bothStages s := ⟨by decide, 0, .inl hpc⟩
  exact ⟨s, _, hexec, hchild, hin, hout, hover,
    (hsealed bothStages hover s ⟨[], .nil s⟩ 0 (by decide)).1⟩

/-! ## Read ends -/

/-- A descriptor of the table refers to the read end of pipe `i`. -/
def Reads (t : Fd.Table Fd.End) (i : ℕ) : Prop := ∃ d, Fd.get t d = some (.readEnd i)

/-- Nobody but the next stage has the read end of the pipe of stage `x`. -/
def ReaderAlone (c : Cmd) (x : ℕ) (s : State) : Prop :=
  ¬ Reads s.table (c.firstPipe + x) ∧
    ∀ q ch, s.kids.child q = some ch → Reads ch.data.table (c.firstPipe + x) →
      q = c.pid.getD (x + 1) 0

/-- The shell has the read ends of the first `m` stages. -/
def HasReads (c : Cmd) (m : ℕ) (t : Fd.Table Fd.End) : Prop :=
  ∀ y, y < m → Fd.get t (c.fd.getD (y * 2) 0) = some (.readEnd (c.firstPipe + y))

/-- The shell closes no read end in the fork loop. -/
def Reading (s : State) : Pc → Prop
  | .pipe c => s.pipes = c.firstPipe + c.x ∧ HasReads c c.x s.table
  | .fork c | .setpgid c | .close c =>
      s.pipes = c.firstPipe + c.x + 1 ∧ HasReads c (c.x + 1) s.table ∧
        ∃ i, Fd.get s.table (c.fd.getD (c.x * 2 + 1) 0) = some (.writeEnd i)
  | .wait c _ => 1 < c.numPipe → HasReads c c.numPipe s.table
  | _ => True

section Reading

variable {s s' : State} {a : Act} {c : Cmd}

theorem reading_afterFork (h : 1 < c.numPipe → HasReads c c.numPipe s.table) :
    Reading s (afterFork c) := by
  unfold afterFork
  split
  · trivial
  · exact h

theorem reading_afterPs (t : Todo) : Reading s (afterPs s.pipes t) := by
  cases t with
  | jobs => trivial
  | command background numPipe =>
      unfold afterPs
      dsimp only
      split
      · exact ⟨rfl, fun y hy => absurd hy (Nat.not_lt_zero y)⟩
      · next hfew =>
          split
          · trivial
          · exact reading_afterFork fun hmany => absurd hmany hfew

/-- A new pipe takes free numbers, so the read ends stay where they are. -/
theorem HasReads.pipe {fd₀ fd₁ : ℕ} {t' : Fd.Table Fd.End} (h : HasReads c c.x s.table)
    (hlen : c.fd.length = c.x * 2) (hmade : s.pipes = c.firstPipe + c.x)
    (hpipe : Fd.pipe s.table (.readEnd s.pipes) (.writeEnd s.pipes) = ((fd₀, fd₁), t')) :
    HasReads (c.piped fd₀ fd₁) (c.x + 1) t' ∧
      Fd.get t' ((c.fd ++ [fd₀, fd₁]).getD (c.x * 2 + 1) 0) = some (.writeEnd s.pipes) := by
  obtain ⟨hfree₀, hfree₁, -, hread, hwrite, hother⟩ := Fd.pipe_spec hpipe
  constructor
  · intro y hy
    show Fd.get t' ((c.fd ++ [fd₀, fd₁]).getD (y * 2) 0) = some (.readEnd (c.firstPipe + y))
    rcases Nat.lt_succ_iff_lt_or_eq.mp hy with hy | rfl
    · have hold := h y hy
      rw [List.getD_append _ _ _ _ (by omega), hother, hold]
      · rintro heq
        rw [heq, hfree₀] at hold
        exact nomatch hold
      · rintro heq
        rw [heq, hfree₁] at hold
        exact nomatch hold
    · rw [List.getD_append_right _ _ _ _ (by omega), hlen, Nat.sub_self, ← hmade]
      exact hread
  · rw [List.getD_append_right _ _ _ _ (by omega), hlen, Nat.add_sub_cancel_left]
    exact hwrite

/-- The shell closes write ends in the loop. -/
theorem HasReads.close {m d i : ℕ} (h : HasReads c m s.table)
    (hd : Fd.get s.table d = some (.writeEnd i)) : HasReads c m (Fd.close s.table d) := by
  intro y hy
  have hold := h y hy
  rw [Fd.get_close_of_ne _ fun heq => ?_]
  · exact hold
  · rw [heq, hd] at hold
    exact nomatch hold

theorem reading_step (hstored : Stored s.pc) (h : Reading s s.pc) (hstep : Step s a s') :
    Reading s' s'.pc := by
  cases hstep with
  | kids => exact h
  | child => exact h
  | blank => exact h
  | exit | run | psPipe | psFork | psClose | psWait | forkOne | waitEnd | closeAll | closeEnd =>
      trivial
  | psRead => exact reading_afterPs _
  | pipe hpc hx hpipe =>
      rw [hpc] at h hstored
      obtain ⟨hmade, hreads⟩ := h
      obtain ⟨hreads', hwrite⟩ := hreads.pipe hstored.1 hmade hpipe
      exact ⟨congrArg (· + 1) hmade, hreads', _, hwrite⟩
  | @loopEnd c hpc hx =>
      rw [hpc] at h hstored
      have heq : c.x = c.numPipe := Nat.le_antisymm hstored.2 (Nat.le_of_not_lt hx)
      exact reading_afterFork fun _ => heq ▸ h.2
  | fork hpc =>
      rw [hpc] at h
      exact h
  | setpgid hpc =>
      rw [hpc] at h
      exact h
  | close hpc =>
      rw [hpc] at h
      obtain ⟨hmade, hreads, i, hwrite⟩ := h
      exact ⟨hmade, hreads.close hwrite⟩
  | lastStage hpc =>
      rw [hpc] at h
      exact ⟨h.1, h.2.1⟩
  | @setpgidOne c hpc =>
      rw [hpc] at hstored
      have hone : c.numPipe = 1 := hstored
      exact reading_afterFork fun hmany => by omega
  | wait hpc =>
      rw [hpc] at h
      exact h

end Reading

/-- While the shell waits for the stages of a pipeline it has the read ends
of all its pipes, so no writer is ever left without a reader. -/
theorem reader_never_alone {table : Fd.Table Fd.End} {pipes pgrp : ℕ} {h : List (State × Act)}
    {s : State} (hrun : Lts.Run step (boot table pipes pgrp) h s) {c : Cmd} {y : ℕ}
    (hwait : s.pc = .wait c y) {x : ℕ} (hx : x + 1 < c.numPipe) :
    Reads s.table (c.firstPipe + x) ∧ ¬ ReaderAlone c x s := by
  have hs : Stored s.pc ∧ Reading s s.pc := by
    refine hrun.inv (I := fun s => Stored s.pc ∧ Reading s s.pc) ?_ ?_
    · intro s a t hi hstep
      have hstep' := (step_cases hstep).2
      exact ⟨stored_step hi.1 hstep', reading_step hi.1 hi.2 hstep'⟩
    · exact ⟨trivial, trivial⟩
  obtain ⟨-, hreads⟩ := hs
  rw [hwait] at hreads
  have hread : Reads s.table (c.firstPipe + x) :=
    ⟨_, hreads (by omega) x (by omega)⟩
  exact ⟨hread, fun halone => halone.1 hread⟩

theorem reader_never_alone_two : ∃ s, Lts.exec step (boot Fd.standard 0 5) twoStages = some s ∧
    s.pc = .wait bothStages 0 ∧ Reads s.table 1 ∧ ¬ ReaderAlone bothStages 0 s := by
  have hseen : (Lts.exec step (boot Fd.standard 0 5) twoStages).map State.pc
      = some (.wait bothStages 0) := by
    decide +kernel
  obtain ⟨s, hexec, hpc⟩ := Option.map_eq_some_iff.mp hseen
  exact ⟨s, hexec, hpc, reader_never_alone (Lts.exec_run hexec) hpc (x := 0) (by decide)⟩

/-- The second stage exits at once and the handler takes it. The shell
waits for the first stage and has the read end of its pipe open. -/
def readerGone : List Act :=
  twoStages ++ [.kids (.exit 8 0), .kids .deliver, .kids (.reap (some 8)), .kids .leave]

theorem gone_reader_unnoticed : ∃ s, Lts.exec step (boot Fd.standard 0 5) readerGone = some s ∧
    s.pc = .wait bothStages 0 ∧ s.kids.child 8 = none ∧ ¬ ReaderAlone bothStages 0 s := by
  have hseen : (Lts.exec step (boot Fd.standard 0 5) readerGone).map
      (fun s => (s.pc, s.kids.child 8, Fd.get s.table 4))
        = some (.wait bothStages 0, none, some (.readEnd 1)) := by
    decide +kernel
  obtain ⟨s, hexec, hs⟩ := Option.map_eq_some_iff.mp hseen
  obtain ⟨hpc, hrest⟩ := Prod.mk.inj hs
  obtain ⟨hchild, hread⟩ := Prod.mk.inj hrest
  exact ⟨s, hexec, hpc, hchild, fun halone => halone.1 ⟨4, hread⟩⟩

end Sh3

end Comp4511
