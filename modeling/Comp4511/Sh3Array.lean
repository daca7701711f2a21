import Comp4511.Sh3Groups

/-!
# The array of descriptors

`process_cmd` declares `fd` with `(num_pipe - 1) * 2` elements, two for each
pipe between two stages. Its fork loop calls `pipe(fd + x * 2)` for every
stage, the last included, and the last stage closes `fd[x * 2]`. `touches` is
what a step of the shell or of a stage stores in the array or takes from it.

`touch_within_iff` says that an access stays inside the array just when it is
not one of the last stage; every element that is read has been stored. As
the loop goes through the last stage always, no pipeline keeps to its array
(`fd_array_overrun`).
-/

namespace Comp4511

namespace Sh3

/-! ## Accesses -/

/-- An element of `fd` is written or read. -/
inductive Access where
  | store (i : ℕ)
  | load (i : ℕ)
deriving Repr, DecidableEq

def Access.index : Access → ℕ
  | .store i | .load i => i

/-- Inside the array of the pipeline. -/
def Access.Within (c : Cmd) (t : Access) : Prop := t.index < (c.numPipe - 1) * 2

/-- What is read has been stored before. -/
def Access.Filled (c : Cmd) : Access → Prop
  | .store _ => True
  | .load i => i < c.fd.length

/-- The shell: the call of `pipe`, the end of the loop body, and the closing
loop. -/
def Pc.touches : Pc → List (Cmd × Access)
  | .pipe c =>
      if c.x < c.numPipe then [(c, .store (c.x * 2)), (c, .store (c.x * 2 + 1))] else []
  | .close c =>
      if c.x + 1 < c.numPipe then [(c, .load (c.x * 2 + 1)), (c, .load (c.x * 2))] else []
  | .closeAll c x => if x < (c.numPipe - 1) * 2 then [(c, .load x)] else []
  | _ => []

/-- A stage: `dup2(fd[x * 2 + 1], 1)` and `close(fd[x * 2])`. -/
def Instr.touches (c : Cmd) : Instr → List (Cmd × Access)
  | .dup2 _ 1 => [(c, .load (c.x * 2 + 1))]
  | .close _ => [(c, .load (c.x * 2))]
  | _ => []

/-- The accesses of a step, with the variables of `process_cmd` in the
process that makes them. -/
def touches (s : State) : Act → List (Cmd × Access)
  | .main => s.pc.touches
  | .child p =>
      match s.kids.child p with
      | some ⟨.running, ⟨.stage c, _, _, i :: _⟩⟩ => i.touches c
      | _ => []
  | _ => []

/-- Every access that was made to the array of the pipeline `c` is inside,
and reads what has been stored. -/
def ArraySafe (c : Cmd) (h : List (State × Act)) : Prop :=
  ∀ x ∈ h, ∀ t ∈ touches x.1 x.2, t.1.firstPipe = c.firstPipe →
    t.2.Within t.1 ∧ t.2.Filled t.1

/-! ## Stages -/

/-- The array is as `process_cmd` has left it at the `fork` of the stage, and
the calls that are left are some of the stage's. -/
structure Indexed (proc : Proc) : Prop where
  filled : ∀ c, proc.role = .stage c → 1 < c.numPipe → c.fd.length = c.x * 2 + 2 ∧ c.x < c.numPipe
  stage : ∀ c, proc.role = .stage c → 1 < c.numPipe → ∀ i ∈ proc.code, i ∈ stageCode c
  single : ∀ c, proc.role = .stage c → ¬ 1 < c.numPipe → ∀ i ∈ proc.code, i ∈ singleCode

section Indexed

variable {s s' : State} {a : Act}

/-- The calls of a child are used up one by one. -/
theorem Becomes.code {q : ℕ} {c c' : Wait.Child Proc} (h : Becomes s a q c c') :
    ∀ i ∈ c'.data.code, i ∈ c.data.code := by
  intro i hi
  cases h with
  | same _ _ hcode => exact hcode ▸ hi
  | call _ _ _ _ hcode => exact hcode ▸ List.mem_cons_of_mem _ hi
  | join _ _ _ _ hcode => exact hcode ▸ List.mem_cons_of_mem _ hi
  | placed _ _ _ _ hcode => exact hcode ▸ hi

theorem Indexed.becomes {q : ℕ} {c c' : Wait.Child Proc} (h : Indexed c.data)
    (hb : Becomes s a q c c') : Indexed c'.data := by
  have hrole := hb.role
  refine ⟨fun cmd hcmd => h.filled cmd (hrole ▸ hcmd), fun cmd hcmd hmany i hi => ?_,
    fun cmd hcmd hfew i hi => ?_⟩
  · exact h.stage cmd (hrole ▸ hcmd) hmany i (hb.code i hi)
  · exact h.single cmd (hrole ▸ hcmd) hfew i (hb.code i hi)

/-- The shell is in the fork loop of a pipeline just when that has stages
enough. -/
def Many : Pc → Prop
  | .pipe c | .fork c | .setpgid c | .close c => 1 < c.numPipe
  | .wait c _ | .closeAll c _ => 1 < c.numPipe → c.x = c.numPipe
  | _ => True

theorem indexed_started {proc : Proc} (hstored : Stored s.pc) (hmany : Many s.pc)
    (h : Started s proc) : Indexed proc := by
  cases h with
  | ps => exact ⟨nofun, nofun, nofun⟩
  | @stage c hpc =>
      rw [hpc] at hstored hmany
      refine ⟨fun cmd hcmd _ => ?_, fun cmd hcmd _ i hi => ?_, fun cmd hcmd hfew => ?_⟩
      · obtain rfl := Role.stage.inj hcmd
        exact hstored
      · obtain rfl := Role.stage.inj hcmd
        exact hi
      · obtain rfl := Role.stage.inj hcmd
        exact absurd hmany hfew
  | @single c hpc =>
      rw [hpc] at hstored
      have hone : c.numPipe = 1 := hstored
      refine ⟨fun cmd hcmd hmany => ?_, fun cmd hcmd hmany => ?_, fun cmd hcmd _ i hi => hi⟩
      · obtain rfl := Role.stage.inj hcmd
        omega
      · obtain rfl := Role.stage.inj hcmd
        omega

theorem many_afterFork {c : Cmd} (h : 1 < c.numPipe → c.x = c.numPipe) : Many (afterFork c) := by
  unfold afterFork
  split <;> exact h

theorem many_afterPs (pipes : ℕ) (t : Todo) : Many (afterPs pipes t) := by
  cases t with
  | jobs => trivial
  | command background numPipe =>
      unfold afterPs
      dsimp only
      split
      · next hmany => exact hmany
      · next hfew =>
          split
          · trivial
          · exact many_afterFork fun hmany => absurd hmany hfew

theorem many_step (hstored : Stored s.pc) (h : Many s.pc) (hstep : Step s a s') :
    Many s'.pc := by
  cases hstep with
  | kids => exact h
  | child => exact h
  | blank => exact h
  | exit | run | psPipe | psFork | psClose | psWait | forkOne | closeEnd => trivial
  | psRead => exact many_afterPs ..
  | @loopEnd c hpc hx =>
      rw [hpc] at hstored
      exact many_afterFork fun _ => Nat.le_antisymm hstored.2 (Nat.le_of_not_lt hx)
  | @setpgidOne c hpc =>
      rw [hpc] at hstored
      have hone : c.numPipe = 1 := hstored
      exact many_afterFork fun hmany => by omega
  | pipe hpc | fork hpc | setpgid hpc | close hpc | lastStage hpc | wait hpc | waitEnd hpc
  | closeAll hpc =>
      rw [hpc] at h
      exact h

end Indexed

/-! ## Runs -/

structure Arrayed (s : State) : Prop where
  stored : Stored s.pc
  many : Many s.pc
  kids : ∀ q c, s.kids.child q = some c → Indexed c.data

theorem Arrayed.step {s s' : State} {a : Act} (h : Arrayed s) (hstep : Step s a s') :
    Arrayed s' := by
  refine ⟨stored_step h.stored hstep, many_step h.stored h.many hstep, fun q c' hc' => ?_⟩
  rcases becomes_step hstep hc' with ⟨c, hc, hb⟩ | ⟨-, -, hstarted⟩
  · exact (h.kids q c hc).becomes hb
  · exact indexed_started h.stored h.many hstarted

theorem arrayed_boot (table : Fd.Table Fd.End) (pipes pgrp : ℕ) :
    Arrayed (boot table pipes pgrp) :=
  ⟨trivial, trivial, fun q _ hc => nomatch (AList.lookup_empty q).symm.trans hc⟩

section Touch

variable {s : State} {c : Cmd} {t : Access}

theorem pc_touch_within_iff (hstored : Stored s.pc) (hmany : Many s.pc)
    (ht : (c, t) ∈ s.pc.touches) : t.Filled c ∧ (t.Within c ↔ c.x + 1 ≠ c.numPipe) := by
  cases hpc : s.pc with
  | pipe cmd =>
      rw [hpc] at hstored hmany ht
      obtain ⟨hlen, hle⟩ := hstored
      have hmany : 1 < cmd.numPipe := hmany
      simp only [Pc.touches, List.mem_ite_nil_right, List.mem_cons, List.not_mem_nil, or_false,
        Prod.mk.injEq] at ht
      obtain ⟨hx, ⟨rfl, rfl⟩ | ⟨rfl, rfl⟩⟩ := ht
      · simp only [Access.Filled, Access.Within, Access.index, true_and]
        omega
      · simp only [Access.Filled, Access.Within, Access.index, true_and]
        omega
  | close cmd =>
      rw [hpc] at hstored ht
      obtain ⟨hlen, hlt⟩ := hstored
      simp only [Pc.touches, List.mem_ite_nil_right, List.mem_cons, List.not_mem_nil, or_false,
        Prod.mk.injEq] at ht
      obtain ⟨hx, ⟨rfl, rfl⟩ | ⟨rfl, rfl⟩⟩ := ht
      · simp only [Access.Filled, Access.Within, Access.index]
        omega
      · simp only [Access.Filled, Access.Within, Access.index]
        omega
  | closeAll cmd y =>
      rw [hpc] at hstored hmany ht
      have hlen : (cmd.numPipe - 1) * 2 ≤ cmd.fd.length := hstored
      have hmany : 1 < cmd.numPipe → cmd.x = cmd.numPipe := hmany
      simp only [Pc.touches, List.mem_ite_nil_right, List.mem_singleton, Prod.mk.injEq] at ht
      obtain ⟨hx, rfl, rfl⟩ := ht
      simp only [Access.Filled, Access.Within, Access.index]
      omega
  | _ =>
      rw [hpc] at ht
      exact nomatch ht

/-- The calls of a stage. Only the last stage makes no `dup2` from its own
pipe. -/
theorem instr_touch_within_iff {cmd : Cmd} {proc : Proc} {i : Instr} (h : Indexed proc)
    (hrole : proc.role = .stage cmd) (hi : i ∈ proc.code) (ht : (c, t) ∈ i.touches cmd) :
    t.Filled c ∧ (t.Within c ↔ c.x + 1 ≠ c.numPipe) := by
  by_cases hmany : 1 < cmd.numPipe
  · obtain ⟨hlen, hlt⟩ := h.filled cmd hrole hmany
    have hmem := h.stage cmd hrole hmany i hi
    unfold stageCode at hmem
    cases i with
    | dup2 old new =>
        unfold Instr.touches at ht
        split at ht
        · next heq =>
            obtain ⟨rfl, rfl⟩ := Instr.dup2.inj heq
            obtain ⟨rfl, rfl⟩ := Prod.mk.inj (List.mem_singleton.mp ht)
            have hx : c.x + 1 < c.numPipe := by
              by_contra hlast
              simp [hlast] at hmem
            simp only [Access.Filled, Access.Within, Access.index]
            omega
        · next heq => cases heq
        · cases ht
    | close fd =>
        obtain ⟨rfl, rfl⟩ := Prod.mk.inj (List.mem_singleton.mp ht)
        simp only [Access.Filled, Access.Within, Access.index]
        omega
    | setpgid | execlp | argvCmd => cases ht
  · have hmem := h.single cmd hrole hmany i hi
    simp only [singleCode, List.mem_cons, List.not_mem_nil, or_false] at hmem
    rcases hmem with rfl | rfl <;> cases ht

/-- An access stays inside the array just when it is not one of the last
stage, and every element that is read has been stored. -/
theorem touch_within_iff {a : Act} (h : Arrayed s) (ht : (c, t) ∈ touches s a) :
    t.Filled c ∧ (t.Within c ↔ c.x + 1 ≠ c.numPipe) := by
  cases a with
  | main => exact pc_touch_within_iff h.stored h.many ht
  | child p =>
      simp only [touches] at ht
      split at ht
      · next cmd table g i code hc =>
          exact instr_touch_within_iff (h.kids p _ hc) rfl (List.mem_cons_self ..) ht
      · exact nomatch ht
  | line | fork | kids => exact nomatch ht

end Touch

/-! ## The last stage -/

/-- A step of the history went outside the array of the pipeline `c`. -/
def Overrun (c : Cmd) (h : List (State × Act)) : Prop :=
  ∃ x ∈ h, ∃ t ∈ touches x.1 x.2, t.1.firstPipe = c.firstPipe ∧ ¬ t.2.Within t.1

/-- Once the shell has called `pipe` for the last stage. -/
def Past (h : List (State × Act)) : Pc → Prop
  | .pipe c => c.x = c.numPipe → Overrun c h
  | .fork c | .setpgid c | .close c => c.x + 1 = c.numPipe → Overrun c h
  | .wait c _ | .closeAll c _ => 1 < c.numPipe → Overrun c h
  | _ => True

section Past

variable {s s' : State} {a : Act} {h : List (State × Act)}

theorem Overrun.append {c : Cmd} (ho : Overrun c h) (h' : List (State × Act)) :
    Overrun c (h ++ h') := by
  obtain ⟨x, hx, ht⟩ := ho
  exact ⟨x, List.mem_append_left _ hx, ht⟩

theorem Past.append {pc : Pc} (hp : Past h pc) (h' : List (State × Act)) :
    Past (h ++ h') pc := by
  cases pc with
  | pipe | fork | setpgid | close | wait | closeAll => exact fun heq => (hp heq).append h'
  | _ => trivial

theorem past_afterFork {c : Cmd} (hp : 1 < c.numPipe → Overrun c h) : Past h (afterFork c) := by
  unfold afterFork
  split <;> exact hp

theorem past_afterPs (pipes : ℕ) (t : Todo) : Past h (afterPs pipes t) := by
  cases t with
  | jobs => trivial
  | command background numPipe =>
      unfold afterPs
      dsimp only
      split
      · next hmany =>
          intro heq
          have heq : 0 = numPipe := heq
          omega
      · next hfew =>
          split
          · trivial
          · exact past_afterFork fun hmany => absurd hmany hfew

/-- The `pipe` of the last stage stores behind the end of the array. -/
theorem overrun_pipe {c : Cmd} (hpc : s.pc = .pipe c) (hx : c.x + 1 = c.numPipe) :
    Overrun c (h ++ [(s, .main)]) := by
  refine ⟨(s, .main), by simp, (c, .store (c.x * 2)), ?_, rfl, ?_⟩
  · show (c, Access.store (c.x * 2)) ∈ s.pc.touches
    rw [hpc, Pc.touches, if_pos (by omega)]
    exact List.mem_cons_self ..
  · simp only [Access.Within, Access.index]
    omega

theorem past_step (hstored : Stored s.pc) (hp : Past h s.pc) (hstep : Step s a s') :
    Past (h ++ [(s, a)]) s'.pc := by
  have hold := hp.append [(s, a)]
  cases hstep with
  | kids => exact hold
  | child => exact hold
  | blank => exact hold
  | exit | run | psPipe | psFork | psClose | psWait | forkOne | closeEnd => trivial
  | psRead => exact past_afterPs ..
  | @pipe c _ _ _ hpc =>
      intro hx
      have hover : Overrun c (h ++ [(s, .main)]) := overrun_pipe hpc hx
      exact hover
  | @loopEnd c hpc hx =>
      rw [hpc] at hold hstored
      exact past_afterFork fun _ => hold (Nat.le_antisymm hstored.2 (Nat.le_of_not_lt hx))
  | @close c hpc hx =>
      intro heq
      have heq : c.x + 1 = c.numPipe := heq
      omega
  | @setpgidOne c hpc =>
      rw [hpc] at hstored
      have hone : c.numPipe = 1 := hstored
      exact past_afterFork fun hmany => by omega
  | fork hpc | setpgid hpc | lastStage hpc | wait hpc | waitEnd hpc | closeAll hpc =>
      rw [hpc] at hold
      exact hold

end Past

/-- In every run each access to the array stays inside it just when it is
not one of the last stage, and reads what has been stored; and whenever the
fork loop of a pipeline is over, there has been one outside. -/
theorem fd_array_overrun {table : Fd.Table Fd.End} {pipes pgrp : ℕ} {h : List (State × Act)}
    {s : State} (hrun : Lts.Run step (boot table pipes pgrp) h s) :
    (∀ x ∈ h, ∀ t ∈ touches x.1 x.2,
      t.2.Filled t.1 ∧ (t.2.Within t.1 ↔ t.1.x + 1 ≠ t.1.numPipe)) ∧
    ∀ c, LoopOver c s → ¬ ArraySafe c h := by
  have hs : (∀ x ∈ h, Arrayed x.1) ∧ Arrayed s ∧ Past h s.pc := by
    refine hrun.inv_history
      (I := fun h s => (∀ x ∈ h, Arrayed x.1) ∧ Arrayed s ∧ Past h s.pc) ?_
      ⟨List.forall_mem_nil _, arrayed_boot table pipes pgrp, trivial⟩
    rintro h s a t ⟨hall, hs, hpast⟩ hstep
    have hstep' := (step_cases hstep).2
    refine ⟨?_, hs.step hstep', past_step hs.stored hpast hstep'⟩
    simp only [List.mem_append, List.mem_singleton]
    rintro x (hx | rfl)
    · exact hall x hx
    · exact hs
  obtain ⟨hall, -, hpast⟩ := hs
  refine ⟨fun x hx t ht => touch_within_iff (hall x hx) ht, ?_⟩
  rintro c ⟨hmany, y, hpc⟩ hsafe
  have hover : Overrun c h := by
    rcases hpc with hpc | hpc
    · rw [hpc] at hpast
      exact hpast hmany
    · rw [hpc] at hpast
      exact hpast hmany
  obtain ⟨x, hx, t, ht, hfirst, hnot⟩ := hover
  exact hnot (hsafe x hx t ht hfirst).1

theorem fd_array_overrun_two : ∃ s h, Lts.Run step (boot Fd.standard 0 5) h s ∧
    h.map Prod.snd = twoStages ∧ ¬ ArraySafe bothStages h := by
  have hseen : (Lts.exec step (boot Fd.standard 0 5) twoStages).map State.pc
      = some (.wait bothStages 0) := by
    decide +kernel
  obtain ⟨s, hexec, hpc⟩ := Option.map_eq_some_iff.mp hseen
  have hrun := Lts.exec_run hexec
  exact ⟨s, _, hrun, Lts.labels_trace hexec,
    (fd_array_overrun hrun).2 bothStages ⟨by decide, 0, .inl hpc⟩⟩

/-- The variables at the `pipe` of the second stage. -/
def beforeSecond : Cmd := { secondStage with fd := [4, 5] }

/-- With two stages the array has two elements, and the `pipe` of the second
stage stores in the third and the fourth. -/
theorem second_pipe_outside :
    (∃ s, Lts.exec step (boot Fd.standard 0 5) (twoStages.take 14) = some s ∧
      touches s .main = [(beforeSecond, .store 2), (beforeSecond, .store 3)]) ∧
    ¬ ArraySafe bothStages (Lts.trace step (boot Fd.standard 0 5) twoStages) := by
  have hseen : (Lts.exec step (boot Fd.standard 0 5) (twoStages.take 14)).map State.pc
      = some (.pipe beforeSecond) := by
    decide +kernel
  obtain ⟨s, hexec, hpc⟩ := Option.map_eq_some_iff.mp hseen
  have htouch : touches s .main = [(beforeSecond, .store 2), (beforeSecond, .store 3)] := by
    show s.pc.touches = _
    rw [hpc]
    rfl
  refine ⟨⟨s, hexec, htouch⟩, fun hsafe => ?_⟩
  have htrace : Lts.trace step (boot Fd.standard 0 5) (twoStages.take 14 ++ twoStages.drop 14)
      = _ ++ Lts.trace step s (twoStages.drop 14) := Lts.trace_append hexec
  rw [List.take_append_drop] at htrace
  have hmem : (s, Act.main) ∈ Lts.trace step (boot Fd.standard 0 5) twoStages := by
    rw [htrace]
    exact List.mem_append_right _ (List.mem_cons_self ..)
  have hwithin := (hsafe _ hmem (beforeSecond, .store 2)
    (by rw [htouch]; exact List.mem_cons_self ..) rfl).1
  exact absurd hwithin (by simp [Access.Within, Access.index, beforeSecond, secondStage])

end Sh3

end Comp4511
