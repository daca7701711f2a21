import Comp4511.Sh2Step
import Comp4511.Sh3Step

/-!
# Zombies of the two shells

Both handlers of `SIGCHLD` make one `waitpid(-1, NULL, WNOHANG)`. The
signal is one bit, so two children that exit while it is pending get one
handler run between them. Each shell is an instance of `Wait`: its own
steps take a child only where they wait for it, and never make a zombie,
so the rules there give the invariant `Covered` for every run whose
changes are attended, and a left-over zombie after any change that is not.

`zombies_reaped` is the result for both shells. In `coalesced_exits` two
background children exit before the handler runs, and one stays a zombie.
-/

namespace Comp4511

namespace Sh2

/-- The child that `main` is waiting for. For `jobs` it is `ps`, although
`wait` takes any child. -/
def awaited : Pc → Finset ℕ
  | .wait p => {p}
  | .jobsWait _ p => {p}
  | _ => ∅

/-- When no signal is pending and the handler does not run, every child
that has exited is being waited for. -/
def Reaped (s : State) : Prop := s.kids.Quiet → s.kids.zombies ⊆ awaited s.pc

/-- The step leaves every zombie that nobody waits for its handler run. -/
def Attended (s : State) : Act → Prop
  | .kids b => s.kids.Attended (awaited s.pc) b
  | _ => True

theorem covered_step {s s' : State} {a : Act} (h : s.kids.Covered (awaited s.pc))
    (hatt : Attended s a) (hstep : step s a = some s') : s'.kids.Covered (awaited s'.pc) := by
  cases (step_cases hstep).2 with
  | kids hk => exact h.step hatt hk
  | blank => exact h
  | words hpc =>
      rw [hpc] at h
      exact h.same ⟨rfl, rfl⟩ rfl (Finset.empty_subset _)
  | fork hpc hk =>
      rw [hpc] at h
      exact h.same (Wait.Kids.sameSignal_fork hk) (Wait.Kids.zombies_fork hk)
        (Finset.empty_subset _)
  | wait hpc hwait =>
      rw [hpc] at h
      exact h.waitpid hwait
  | forkCd hpc hk =>
      rw [hpc] at h
      exact h.same (Wait.Kids.sameSignal_fork hk) (Wait.Kids.zombies_fork hk)
        (Finset.empty_subset _)
  | jobsPipe hpc =>
      rw [hpc] at h
      exact h
  | jobsFork hpc hk =>
      rw [hpc] at h
      exact h.same (Wait.Kids.sameSignal_fork hk) (Wait.Kids.zombies_fork hk)
        (Finset.empty_subset _)
  | jobsClose hpc =>
      rw [hpc] at h
      exact h.same ⟨rfl, rfl⟩ rfl (Finset.empty_subset _)
  | jobsWait hpc hwait =>
      rw [hpc] at h
      exact h.waitAny hwait
  | jobsRead hpc =>
      rw [hpc] at h
      exact h
  | done hpc =>
      rw [hpc] at h
      exact h

theorem covered_of_run {table : Fd.Table Fd.End} {pipes : ℕ} {h : List (State × Act)} {s : State}
    (hrun : Lts.Run step (boot table pipes) h s) (hatt : ∀ x ∈ h, Attended x.1 x.2) :
    s.kids.Covered (awaited s.pc) := by
  refine hrun.inv_where (P := Attended) (I := fun s => s.kids.Covered (awaited s.pc)) ?_ hatt ?_
  · intro s a t hs ha hstep
    exact covered_step hs ha hstep
  · exact Nat.zero_le _

theorem exists_unreaped {s s' : State} {a : Act} (hatt : ¬ Attended s a)
    (hstep : step s a = some s') : ∃ t, Lts.Reaches step s' t ∧ ¬ Reaped t := by
  obtain ⟨hpc, hcase⟩ := step_cases hstep
  cases hcase with
  | @kids b k hk =>
      obtain ⟨k', hreach, hquiet, p, hp, hnot⟩ :=
        Wait.Kids.exists_unattended id (Wait.Kids.not_covered_step hatt hk)
      refine ⟨{ s with kids := k' }, ?_, fun hreaped => hnot (hreaped hquiet hp)⟩
      -- what happens to the children happens in the shell
      refine hreach.map (f := fun k => { s with kids := k }) fun k₁ b k₂ hk₂ => ?_
      exact ⟨.kids b, step_kids (s := { s with kids := k₁ }) hpc hk₂⟩
  | _ => exact absurd trivial hatt

end Sh2

namespace Sh3

/-- The child that the shell is waiting for. -/
def awaited : Pc → Finset ℕ
  | .psWait _ _ p => {p}
  | .wait c x => if x < c.numPipe then {c.pid.getD x 0} else ∅
  | _ => ∅

def Reaped (s : State) : Prop := s.kids.Quiet → s.kids.zombies ⊆ awaited s.pc

def Attended (s : State) : Act → Prop
  | .kids b => s.kids.Attended (awaited s.pc) b
  | _ => True

theorem covered_setpgidChild {shell p pgid : ℕ} {k : Wait.Kids Proc} {waited waited' : Finset ℕ}
    (h : k.Covered waited) (hsub : waited ⊆ waited') :
    (setpgidChild shell k p pgid).Covered waited' := by
  rcases setpgidChild_cases shell k p pgid with heq | ⟨g, heq⟩
  · rw [heq]
    exact h.same ⟨rfl, rfl⟩ rfl hsub
  · rw [heq]
    exact h.same (Wait.Kids.sameSignal_modify _) (Wait.Kids.zombies_modify _) hsub

theorem covered_called {shell p g : ℕ} {k : Wait.Kids Proc} {waited : Finset ℕ} {role : Role}
    {t : Fd.Table Fd.End} {i : Instr} {code : List Instr} (h : k.Covered waited)
    (hc : k.child p = some ⟨.running, ⟨role, t, g, i :: code⟩⟩) :
    (called shell k p role t g i code).Covered waited := by
  obtain ⟨g', heq⟩ := called_eq shell k p role t g i code
  rw [heq]
  refine h.same ⟨rfl, rfl⟩ ?_ (Finset.Subset.refl _)
  exact Wait.Kids.zombies_set (Wait.Kids.exitStatus_eq_none_of_child hc fun _ => nofun)
    fun _ => nofun

theorem covered_step {s s' : State} {a : Act} (h : s.kids.Covered (awaited s.pc))
    (hatt : Attended s a) (hstep : step s a = some s') : s'.kids.Covered (awaited s'.pc) := by
  cases (step_cases hstep).2 with
  | kids hk => exact h.step hatt hk
  | child hc => exact covered_called h hc
  | blank => exact h
  | exit hpc =>
      rw [hpc] at h
      exact h
  | run hpc =>
      rw [hpc] at h
      exact h
  | psPipe hpc =>
      rw [hpc] at h
      exact h
  | psFork hpc hk =>
      rw [hpc] at h
      exact h.same (Wait.Kids.sameSignal_fork hk) (Wait.Kids.zombies_fork hk)
        (Finset.empty_subset _)
  | psClose hpc =>
      rw [hpc] at h
      exact h.same ⟨rfl, rfl⟩ rfl (Finset.empty_subset _)
  | psWait hpc hwait =>
      rw [hpc] at h
      exact h.waitpid hwait
  | psRead hpc =>
      rw [hpc] at h
      exact h.same ⟨rfl, rfl⟩ rfl (Finset.empty_subset _)
  | pipe hpc =>
      rw [hpc] at h
      exact h
  | loopEnd hpc =>
      rw [hpc] at h
      exact h.same ⟨rfl, rfl⟩ rfl (Finset.empty_subset _)
  | fork hpc hk =>
      rw [hpc] at h
      exact h.same (Wait.Kids.sameSignal_fork hk) (Wait.Kids.zombies_fork hk)
        (Finset.empty_subset _)
  | setpgid hpc =>
      rw [hpc] at h
      exact covered_setpgidChild h (Finset.empty_subset _)
  | close hpc =>
      rw [hpc] at h
      exact h
  | lastStage hpc =>
      rw [hpc] at h
      exact h
  | forkOne hpc hk =>
      rw [hpc] at h
      exact h.same (Wait.Kids.sameSignal_fork hk) (Wait.Kids.zombies_fork hk)
        (Finset.empty_subset _)
  | setpgidOne hpc =>
      rw [hpc] at h
      exact covered_setpgidChild h (Finset.empty_subset _)
  | wait hpc hx hwait =>
      rw [hpc, awaited, if_pos hx] at h
      exact h.waitpid hwait
  | waitEnd hpc hx =>
      rw [hpc, awaited, if_neg hx] at h
      exact h
  | closeAll hpc =>
      rw [hpc] at h
      exact h
  | closeEnd hpc =>
      rw [hpc] at h
      exact h

theorem covered_of_run {table : Fd.Table Fd.End} {pipes pgrp : ℕ} {h : List (State × Act)}
    {s : State} (hrun : Lts.Run step (boot table pipes pgrp) h s)
    (hatt : ∀ x ∈ h, Attended x.1 x.2) : s.kids.Covered (awaited s.pc) := by
  refine hrun.inv_where (P := Attended) (I := fun s => s.kids.Covered (awaited s.pc)) ?_ hatt ?_
  · intro s a t hs ha hstep
    exact covered_step hs ha hstep
  · exact Nat.zero_le _

theorem exists_unreaped {s s' : State} {a : Act} (hatt : ¬ Attended s a)
    (hstep : step s a = some s') : ∃ t, Lts.Reaches step s' t ∧ ¬ Reaped t := by
  obtain ⟨hpc, hcase⟩ := step_cases hstep
  cases hcase with
  | @kids b k hk =>
      obtain ⟨k', hreach, hquiet, p, hp, hnot⟩ :=
        Wait.Kids.exists_unattended Proc.exit (Wait.Kids.not_covered_step hatt hk)
      refine ⟨{ s with kids := k' }, ?_, fun hreaped => hnot (hreaped hquiet hp)⟩
      -- what happens to the children happens in the shell
      refine hreach.map (f := fun k => { s with kids := k }) fun k₁ b k₂ hk₂ => ?_
      exact ⟨.kids b, step_kids (s := { s with kids := k₁ }) hpc hk₂⟩
  | _ => exact absurd trivial hatt

end Sh3

/-! ## Both shells -/

/-- In every run of either shell whose steps are all attended, no zombie
is left that nobody waits for whenever the signal is not pending and the
handler does not run. A step that is not attended can be followed by
handler runs that leave one. -/
theorem zombies_reaped (table : Fd.Table Fd.End) (pipes pgrp : ℕ) :
    (∀ h s, Lts.Run Sh2.step (Sh2.boot table pipes) h s →
      (∀ x ∈ h, Sh2.Attended x.1 x.2) → Sh2.Reaped s) ∧
    (∀ h s, Lts.Run Sh3.step (Sh3.boot table pipes pgrp) h s →
      (∀ x ∈ h, Sh3.Attended x.1 x.2) → Sh3.Reaped s) ∧
    (∀ s a s', ¬ Sh2.Attended s a → Sh2.step s a = some s' →
      ∃ t, Lts.Reaches Sh2.step s' t ∧ ¬ Sh2.Reaped t) ∧
    (∀ s a s', ¬ Sh3.Attended s a → Sh3.step s a = some s' →
      ∃ t, Lts.Reaches Sh3.step s' t ∧ ¬ Sh3.Reaped t) := by
  refine ⟨?_, ?_, ?_, ?_⟩
  · intro h s hrun hatt
    exact (Sh2.covered_of_run hrun hatt).quiet
  · intro h s hrun hatt
    exact (Sh3.covered_of_run hrun hatt).quiet
  · intro s a s' hatt hstep
    exact Sh2.exists_unreaped hatt hstep
  · intro s a s' hatt hstep
    exact Sh3.exists_unreaped hatt hstep

instance (s : Sh2.State) (a : Sh2.Act) : Decidable (Sh2.Attended s a) :=
  match a with
  | .kids _ => inferInstanceAs (Decidable (Wait.Kids.Attended ..))
  | .line _ | .main | .fork _ | .waitAny _ => .isTrue trivial

/-- Two background commands, `7` and `8`, exit at the prompt one after the
other, and each time the handler takes the one that has. -/
def Sh2.takenRun : List Sh2.Act :=
  [.line (.words ["sleep"] true), .fork 7, .main, .line (.words ["sleep"] true), .fork 8, .main,
   .kids (.exit 7 0), .kids .deliver, .kids (.reap (some 7)), .kids .leave,
   .kids (.exit 8 0), .kids .deliver, .kids (.reap (some 8)), .kids .leave]

theorem zombies_reaped_two : ∃ s, Lts.exec Sh2.step (Sh2.boot Fd.standard 0) Sh2.takenRun
    = some s ∧ s.kids.Quiet ∧ s.kids.zombies = ∅ := by
  have hseen : (Lts.exec Sh2.step (Sh2.boot Fd.standard 0) Sh2.takenRun).map
      (fun s => (s.pc, s.kids.pending, s.kids.handler)) = some (.prompt, false, .idle) := by
    decide +kernel
  obtain ⟨s, hexec, hs⟩ := Option.map_eq_some_iff.mp hseen
  simp only [Prod.mk.injEq] at hs
  obtain ⟨hpc, hpending, hhandler⟩ := hs
  have hatt : ∀ x ∈ Lts.trace Sh2.step (Sh2.boot Fd.standard 0) Sh2.takenRun,
      Sh2.Attended x.1 x.2 := by
    decide +kernel
  have hsub := (zombies_reaped Fd.standard 0 0).1 _ s (Lts.exec_run hexec) hatt ⟨hpending, hhandler⟩
  rw [hpc] at hsub
  exact ⟨s, hexec, ⟨hpending, hhandler⟩, Finset.subset_empty.mp hsub⟩

/-- The two exit before the handler runs. -/
def Sh2.coalescedRun : List Sh2.Act :=
  [.line (.words ["sleep"] true), .fork 7, .main, .line (.words ["sleep"] true), .fork 8, .main,
   .kids (.exit 7 0), .kids (.exit 8 0), .kids .deliver, .kids (.reap (some 7)), .kids .leave]

/-- A background command of the third shell, with the snapshot of `ps`
before it. -/
def Sh3.backgroundLine (ps pid : ℕ) : List Sh3.Act :=
  [.line (.run (.command true 1)), .main, .fork ps, .main, .kids (.exit ps 0), .main,
   .kids .deliver, .kids (.reap none), .kids .leave, .main, .fork pid, .main, .main]

def Sh3.coalescedRun : List Sh3.Act :=
  Sh3.backgroundLine 6 7 ++ Sh3.backgroundLine 6 8 ++
    [.kids (.exit 7 0), .kids (.exit 8 0), .kids .deliver, .kids (.reap (some 7)), .kids .leave]

theorem coalesced_exits :
    (∃ h s, Lts.Run Sh2.step (Sh2.boot Fd.standard 0) h s ∧ ¬ Sh2.Reaped s) ∧
    ∃ h s, Lts.Run Sh3.step (Sh3.boot Fd.standard 0 5) h s ∧ ¬ Sh3.Reaped s := by
  constructor
  · have hseen : (Lts.exec Sh2.step (Sh2.boot Fd.standard 0) Sh2.coalescedRun).map (fun s =>
        (s.pc, s.kids.pending, s.kids.handler, s.kids.zombies))
        = some (.prompt, false, .idle, {8}) := by
      decide +kernel
    obtain ⟨s, hexec, hs⟩ := Option.map_eq_some_iff.mp hseen
    simp only [Prod.mk.injEq] at hs
    obtain ⟨hpc, hpending, hhandler, hz⟩ := hs
    refine ⟨_, s, Lts.exec_run hexec, fun hreaped => ?_⟩
    have hsub := hreaped ⟨hpending, hhandler⟩
    rw [hz, hpc] at hsub
    exact absurd (hsub (Finset.mem_singleton_self 8)) (Finset.notMem_empty 8)
  · have hseen : (Lts.exec Sh3.step (Sh3.boot Fd.standard 0 5) Sh3.coalescedRun).map (fun s =>
        (s.pc, s.kids.pending, s.kids.handler, s.kids.zombies))
        = some (.prompt, false, .idle, {8}) := by
      decide +kernel
    obtain ⟨s, hexec, hs⟩ := Option.map_eq_some_iff.mp hseen
    simp only [Prod.mk.injEq] at hs
    obtain ⟨hpc, hpending, hhandler, hz⟩ := hs
    refine ⟨_, s, Lts.exec_run hexec, fun hreaped => ?_⟩
    have hsub := hreaped ⟨hpending, hhandler⟩
    rw [hz, hpc] at hsub
    exact absurd (hsub (Finset.mem_singleton_self 8)) (Finset.notMem_empty 8)

end Comp4511
