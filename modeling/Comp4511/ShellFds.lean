import Mathlib.Data.List.GetD
import Comp4511.Sh2Step
import Comp4511.Sh3Step

/-!
# Descriptors of the two shells

Both shells read the output of `ps` through a pipe and never close its
read end: the second for every `jobs`, the third for every line. A shell
closes only descriptors that it has opened since the prompt and whose
numbers it still has (`own`), so whatever else is open stays so
(`kept_step`), the read ends included.

`descriptors_kept_iff` is the result for every run of either shell: the
descriptors open at a prompt are those of the first prompt exactly when no
line before it made a pipe to `ps`.
-/

namespace Comp4511

namespace Sh2

/-- The descriptors that `main` will close. -/
def own : Pc → List ℕ
  | .jobsFork _ fd₁ => [fd₁]
  | .jobsClose _ fd₁ _ => [fd₁]
  | _ => []

theorem kept_step {s s' : State} {a : Act} {d : ℕ} {v : Fd.End}
    (h : Fd.Kept (own s.pc) d v s.table) (hstep : Step s a s') :
    Fd.Kept (own s'.pc) d v s'.table := by
  have hnone : own s'.pc = [] → Fd.Kept (own s'.pc) d v s.table := by
    intro hown
    rw [hown]
    exact ⟨h.1, List.not_mem_nil⟩
  cases hstep with
  | kids => exact h
  | blank => exact h
  | @words argv background hpc =>
      refine hnone ?_
      show own (dispatch argv background) = []
      unfold dispatch
      split
      · rfl
      · split_ifs <;> rfl
  | @fork background p k hpc =>
      refine hnone ?_
      cases background <;> rfl
  | wait => exact hnone rfl
  | forkCd => exact hnone rfl
  | jobsPipe hpc hpipe => exact h.pipe hpipe fun m hm => .inr (.inr (List.mem_singleton.mp hm))
  | jobsFork hpc =>
      rw [hpc] at h
      exact h
  | jobsClose hpc =>
      rw [hpc] at h
      exact h.close (List.mem_singleton_self _) fun m hm => nomatch hm
  | jobsWait => exact hnone rfl
  | jobsRead => exact hnone rfl
  | done => exact hnone rfl

/-- A line that lists the jobs. -/
def IsJobs (a : Act) : Prop := ∃ argv background, a = .line (.words ("jobs" :: argv) background)

/-- `main` is in the branch of `jobs`, from its `pipe` on. -/
def inJobs : Pc → Bool
  | .jobsPipe | .jobsFork .. | .jobsClose .. | .jobsWait .. | .jobsRead _ => true
  | _ => false

theorem dispatch_jobs (argv : List String) (background : Bool) :
    dispatch ("jobs" :: argv) background = .jobsPipe := by
  simp [dispatch]

theorem inJobs_dispatch {argv : List String} {background : Bool}
    (h : ∀ argv', argv ≠ "jobs" :: argv') : inJobs (dispatch argv background) = false := by
  unfold dispatch
  split
  · rfl
  · next cmd argv' =>
      have hcmd : cmd ≠ "jobs" := by
        rintro rfl
        exact h argv' rfl
      rw [if_neg hcmd]
      split_ifs <;> rfl

theorem leaky : Fd.Leaky step (fun _ => True) State.table (fun s => own s.pc) IsJobs
    (fun s => s.pc = .jobsPipe) (fun s => inJobs s.pc = false) := by
  refine ⟨fun _ _ _ _ _ => trivial, ?_, ?_, ?_, ?_⟩
  · intro s a t d v _ hstep hkept
    exact kept_step hkept (step_cases hstep).2
  · intro s a t hcalm hjobs hstep
    cases (step_cases hstep).2 with
    | kids => exact ⟨hcalm, rfl⟩
    | blank => exact ⟨hcalm, rfl⟩
    | @words argv background hpc =>
        refine ⟨inJobs_dispatch fun argv' hargv => hjobs ⟨argv', background, ?_⟩, rfl⟩
        rw [hargv]
    | @fork background p k hpc =>
        refine ⟨?_, rfl⟩
        cases background <;> rfl
    | wait => exact ⟨rfl, rfl⟩
    | forkCd => exact ⟨rfl, rfl⟩
    | done => exact ⟨rfl, rfl⟩
    | jobsPipe hpc | jobsFork hpc | jobsClose hpc | jobsWait hpc | jobsRead hpc =>
        simp [hpc, inJobs] at hcalm
  · rintro s a t ⟨argv, background, rfl⟩ hstep
    cases (step_cases hstep).2 with
    | words => exact dispatch_jobs argv background
  · intro s a t hdue hstep
    cases (step_cases hstep).2 with
    | kids => exact .inl hdue
    | @jobsPipe fd₀ fd₁ t' _ hpipe =>
        exact .inr ⟨fd₀, _, (Fd.pipe_spec hpipe).1, Fd.kept_readEnd hpipe⟩
    | blank hpc => exact .inl hdue
    | words hpc | fork hpc | wait hpc | forkCd hpc | jobsFork hpc | jobsClose hpc | jobsWait hpc
    | jobsRead hpc | done hpc =>
        simp [hdue] at hpc

end Sh2

namespace Sh3

/-- The descriptors that the shell will close. -/
def own : Pc → List ℕ
  | .psFork _ _ fd₁ => [fd₁]
  | .psClose _ _ fd₁ _ => [fd₁]
  | .pipe c | .fork c | .setpgid c | .close c | .forkOne c | .setpgidOne c => c.fd
  | .wait c _ | .closeAll c _ => c.fd
  | _ => []

/-- As many descriptors are stored in `fd` as the code after takes from
it. -/
def Stored : Pc → Prop
  | .pipe c => c.fd.length = c.x * 2 ∧ c.x ≤ c.numPipe
  | .fork c | .setpgid c | .close c => c.fd.length = c.x * 2 + 2 ∧ c.x < c.numPipe
  | .forkOne c | .setpgidOne c => c.numPipe = 1
  | .wait c _ | .closeAll c _ => (c.numPipe - 1) * 2 ≤ c.fd.length
  | _ => True

theorem stored_afterFork {c : Cmd} (h : (c.numPipe - 1) * 2 ≤ c.fd.length) :
    Stored (afterFork c) := by
  unfold afterFork
  split <;> exact h

theorem stored_afterPs (pipes : ℕ) (t : Todo) : Stored (afterPs pipes t) := by
  cases t with
  | jobs => trivial
  | command background numPipe =>
      unfold afterPs
      dsimp only
      split
      · exact ⟨rfl, Nat.zero_le _⟩
      · split
        · next hone => exact hone
        · refine stored_afterFork ?_
          show (numPipe - 1) * 2 ≤ 0
          omega

theorem stored_step {s s' : State} {a : Act} (h : Stored s.pc) (hstep : Step s a s') :
    Stored s'.pc := by
  cases hstep with
  | kids => exact h
  | child => exact h
  | blank => exact h
  | exit => trivial
  | run => trivial
  | psPipe => trivial
  | psFork => trivial
  | psClose => trivial
  | psWait => trivial
  | psRead => exact stored_afterPs ..
  | pipe hpc hx =>
      rw [hpc] at h
      refine ⟨?_, hx⟩
      show (_ ++ [_, _]).length = _
      rw [List.length_append, h.1]
      rfl
  | loopEnd hpc hx =>
      rw [hpc] at h
      obtain ⟨hlen, hle⟩ := h
      refine stored_afterFork ?_
      omega
  | fork hpc =>
      rw [hpc] at h
      exact h
  | setpgid hpc =>
      rw [hpc] at h
      exact h
  | @close c hpc hx =>
      rw [hpc] at h
      obtain ⟨hlen, hlt⟩ := h
      refine ⟨?_, hlt⟩
      show c.fd.length = (c.x + 1) * 2
      omega
  | @lastStage c hpc hx =>
      rw [hpc] at h
      obtain ⟨hlen, hlt⟩ := h
      refine ⟨?_, hlt⟩
      show c.fd.length = (c.x + 1) * 2
      omega
  | forkOne hpc =>
      rw [hpc] at h
      exact h
  | @setpgidOne c hpc =>
      rw [hpc] at h
      have hone : c.numPipe = 1 := h
      refine stored_afterFork ?_
      omega
  | wait hpc =>
      rw [hpc] at h
      exact h
  | waitEnd hpc =>
      rw [hpc] at h
      exact h
  | closeAll hpc =>
      rw [hpc] at h
      exact h
  | closeEnd => trivial

theorem getD_mem {l : List ℕ} {i : ℕ} (h : i < l.length) : l.getD i 0 ∈ l := by
  rw [List.getD_eq_getElem l 0 h]
  exact List.getElem_mem h

theorem own_afterFork (c : Cmd) : own (afterFork c) = c.fd := by
  unfold afterFork
  split <;> rfl

theorem own_afterPs (pipes : ℕ) (t : Todo) : own (afterPs pipes t) = [] := by
  cases t with
  | jobs => rfl
  | command background numPipe =>
      unfold afterPs
      dsimp only
      split
      · rfl
      · split
        · rfl
        · exact own_afterFork _

theorem kept_step {s s' : State} {a : Act} {d : ℕ} {v : Fd.End} (hstored : Stored s.pc)
    (h : Fd.Kept (own s.pc) d v s.table) (hstep : Step s a s') :
    Fd.Kept (own s'.pc) d v s'.table := by
  have hnone : own s'.pc = [] → Fd.Kept (own s'.pc) d v s.table := by
    intro hown
    rw [hown]
    exact ⟨h.1, List.not_mem_nil⟩
  cases hstep with
  | kids => exact h
  | child => exact h
  | blank => exact h
  | exit => exact hnone rfl
  | run => exact hnone rfl
  | psPipe hpc hpipe => exact h.pipe hpipe fun m hm => .inr (.inr (List.mem_singleton.mp hm))
  | psFork hpc =>
      rw [hpc] at h
      exact h
  | psClose hpc =>
      rw [hpc] at h
      exact h.close (List.mem_singleton_self _) fun m hm => nomatch hm
  | psWait => exact hnone rfl
  | psRead => exact hnone (own_afterPs ..)
  | pipe hpc hx hpipe =>
      rw [hpc] at h
      refine h.pipe hpipe fun m hm => ?_
      rcases List.mem_append.mp hm with hm | hm
      · exact .inl hm
      · exact .inr (by simpa using hm)
  | loopEnd hpc =>
      rw [hpc] at h
      show Fd.Kept (own (afterFork _)) d v s.table
      rw [own_afterFork]
      exact h
  | fork hpc =>
      rw [hpc] at h
      exact h
  | setpgid hpc =>
      rw [hpc] at h
      exact h
  | @close c hpc =>
      rw [hpc] at h hstored
      obtain ⟨hlen, -⟩ := hstored
      have hin : c.x * 2 + 1 < c.fd.length := by omega
      exact h.close (getD_mem hin) fun m hm => hm
  | lastStage hpc =>
      rw [hpc] at h
      exact h
  | forkOne hpc =>
      rw [hpc] at h
      exact h
  | setpgidOne hpc =>
      rw [hpc] at h
      show Fd.Kept (own (afterFork _)) d v s.table
      rw [own_afterFork]
      exact h
  | wait hpc =>
      rw [hpc] at h
      exact h
  | waitEnd hpc =>
      rw [hpc] at h
      exact h
  | closeAll hpc hx =>
      rw [hpc] at h hstored
      exact h.close (getD_mem (Nat.lt_of_lt_of_le hx hstored)) fun m hm => hm
  | closeEnd => exact hnone rfl

/-- A line that is neither empty nor `exit`. -/
def IsRun (a : Act) : Prop := ∃ t, a = .line (.run t)

theorem leaky : Fd.Leaky step (fun s => Stored s.pc) State.table (fun s => own s.pc) IsRun
    (fun s => ∃ t, s.pc = .psPipe t) (fun s => s.pc = .prompt ∨ s.pc = .exited) := by
  refine ⟨?_, ?_, ?_, ?_, ?_⟩
  · intro s a t hstored hstep
    exact stored_step hstored (step_cases hstep).2
  · intro s a t d v hstored hstep hkept
    exact kept_step hstored hkept (step_cases hstep).2
  · intro s a t hcalm hrun hstep
    obtain ⟨hexited, hcase⟩ := step_cases hstep
    have hprompt : s.pc = .prompt := hcalm.resolve_right hexited
    cases hcase with
    | kids => exact ⟨hcalm, rfl⟩
    | child => exact ⟨hcalm, rfl⟩
    | blank => exact ⟨hcalm, rfl⟩
    | exit => exact ⟨.inr rfl, rfl⟩
    | @run t hpc => exact absurd ⟨t, rfl⟩ hrun
    | psPipe hpc | psFork hpc | psClose hpc | psWait hpc | psRead hpc | pipe hpc | loopEnd hpc
    | fork hpc | setpgid hpc | close hpc | lastStage hpc | forkOne hpc | setpgidOne hpc
    | wait hpc | waitEnd hpc | closeAll hpc | closeEnd hpc =>
        simp [hprompt] at hpc
  · rintro s a t ⟨todo, rfl⟩ hstep
    cases (step_cases hstep).2 with
    | run => exact ⟨todo, rfl⟩
  · rintro s a t ⟨todo, hdue⟩ hstep
    cases (step_cases hstep).2 with
    | kids => exact .inl ⟨todo, hdue⟩
    | child => exact .inl ⟨todo, hdue⟩
    | blank => exact .inl ⟨todo, hdue⟩
    | @psPipe t fd₀ fd₁ t' _ hpipe =>
        exact .inr ⟨fd₀, _, (Fd.pipe_spec hpipe).1, Fd.kept_readEnd hpipe⟩
    | exit hpc | run hpc | psFork hpc | psClose hpc | psWait hpc | psRead hpc | pipe hpc
    | loopEnd hpc | fork hpc | setpgid hpc | close hpc | lastStage hpc | forkOne hpc
    | setpgidOne hpc | wait hpc | waitEnd hpc | closeAll hpc | closeEnd hpc =>
        simp [hdue] at hpc

end Sh3

/-! ## Both shells -/

/-- At every prompt of either shell the descriptors open are those of the
first prompt exactly when, in the third shell, every line before was
empty, and in the second, none was `jobs`. -/
theorem descriptors_kept_iff (table : Fd.Table Fd.End) (pipes pgrp : ℕ) :
    (∀ h s, Lts.Run Sh3.step (Sh3.boot table pipes pgrp) h s → s.pc = .prompt →
      (Fd.SameOpen s.table table ↔ ∀ x ∈ h, ¬ Sh3.IsRun x.2)) ∧
    ∀ h s, Lts.Run Sh2.step (Sh2.boot table pipes) h s → s.pc = .prompt →
      (Fd.SameOpen s.table table ↔ ∀ x ∈ h, ¬ Sh2.IsJobs x.2) := by
  constructor
  · intro h s hrun hpc
    refine Sh3.leaky.sameOpen_iff hrun trivial (.inl rfl) rfl ?_
    rintro ⟨t, hdue⟩
    rw [hpc] at hdue
    exact nomatch hdue
  · intro h s hrun hpc
    refine Sh2.leaky.sameOpen_iff hrun trivial rfl rfl ?_
    intro hdue
    rw [hpc] at hdue
    exact nomatch hdue

/-- A command of the second shell that is not `jobs`. -/
def Sh2.plainRun : List Sh2.Act :=
  [.line (.words ["ls"] false), .fork 7, .kids (.exit 7 0), .main, .main]

theorem descriptors_kept_iff_plain : ∃ s,
    Lts.exec Sh2.step (Sh2.boot Fd.standard 0) Sh2.plainRun = some s ∧
      Fd.SameOpen s.table Fd.standard := by
  have hseen : (Lts.exec Sh2.step (Sh2.boot Fd.standard 0) Sh2.plainRun).map Sh2.State.pc
      = some .prompt := by
    decide +kernel
  obtain ⟨s, hexec, hpc⟩ := Option.map_eq_some_iff.mp hseen
  refine ⟨s, hexec, ((descriptors_kept_iff Fd.standard 0 0).2 _ s (Lts.exec_run hexec) hpc).mpr ?_⟩
  rintro x hx ⟨argv, background, heq⟩
  have hmem := Lts.mem_trace hx
  rw [heq] at hmem
  simp [Sh2.plainRun] at hmem

/-- `jobs` at the first prompt of either shell. -/
def Sh3.jobsRun : List Sh3.Act :=
  [.line (.run .jobs), .main, .fork 6, .main, .kids (.exit 6 0), .main, .kids .deliver,
   .kids (.reap none), .kids .leave, .main]

def Sh2.jobsRun : List Sh2.Act :=
  [.line (.words ["jobs"] false), .main, .fork 6, .main, .kids (.exit 6 0),
   .waitAny (some 6), .kids .deliver, .kids (.reap none), .kids .leave, .main, .main]

/-- The read end of the pipe to `ps` is open at the next prompt. -/
theorem ps_pipe_leaks :
    (∃ h s, Lts.Run Sh3.step (Sh3.boot Fd.standard 0 5) h s ∧ s.pc = .prompt ∧
      ¬ Fd.SameOpen s.table Fd.standard) ∧
    ∃ h s, Lts.Run Sh2.step (Sh2.boot Fd.standard 0) h s ∧ s.pc = .prompt ∧
      ¬ Fd.SameOpen s.table Fd.standard := by
  constructor
  · have hseen : (Lts.exec Sh3.step (Sh3.boot Fd.standard 0 5) Sh3.jobsRun).map (fun s =>
        (s.pc, Fd.get s.table 3)) = some (.prompt, some (.readEnd 0)) := by
      decide +kernel
    obtain ⟨s, hexec, hs⟩ := Option.map_eq_some_iff.mp hseen
    obtain ⟨hpc, hopen⟩ := Prod.mk.inj hs
    refine ⟨_, s, Lts.exec_run hexec, hpc, fun hsame => ?_⟩
    have hthree := hsame 3
    rw [hopen] at hthree
    exact nomatch hthree
  · have hseen : (Lts.exec Sh2.step (Sh2.boot Fd.standard 0) Sh2.jobsRun).map (fun s =>
        (s.pc, Fd.get s.table 3)) = some (.prompt, some (.readEnd 0)) := by
      decide +kernel
    obtain ⟨s, hexec, hs⟩ := Option.map_eq_some_iff.mp hseen
    obtain ⟨hpc, hopen⟩ := Prod.mk.inj hs
    refine ⟨_, s, Lts.exec_run hexec, hpc, fun hsame => ?_⟩
    have hthree := hsame 3
    rw [hopen] at hthree
    exact nomatch hthree

end Comp4511
