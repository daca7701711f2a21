import Comp4511.SchedReach

/-!
# Which task is picked

`pick_next_task_ts` scans the forty lists from the best level down and
takes the head of the first list that is not empty. The lists are in
stamp order, so that is the queued task with the least priority and,
among those, the least stamp (`pickNextTaskTs_least`).

The core's `pick_next_task` has a shortcut for the case that only fair
tasks are runnable, guarded by a comparison of two counters. TS tasks are
in neither, so the guard also holds when TS tasks are queued next to the
fair ones: the shortcut then picks a fair task, or the idle thread, over
all of them. `pickNextTask_eq_pickLoop_iff` says exactly when this
happens.

Both are stated for every state in which `__schedule` can call the pick
(`AtPick`), the reachable ones among them.
-/

namespace Comp4511

namespace Sched

open ListTable

/-! ## The states of a pick -/

/-- The states in which `pick_next_task` is called on `cpu`: a reachable
state, after the first half of `__schedule`. -/
def AtPick (cpu : Nat) (k : Kernel) : Prop :=
  ∃ k₀ preempt signalPending wake hook, Reachable k₀ ∧ (∀ w ∈ wake, k₀.Named w)
    ∧ k = schedBlock k₀ cpu preempt signalPending wake hook

/-- The first half of `__schedule` may have nothing to do. -/
theorem Reachable.atPick {k : Kernel} (h : Reachable k) (cpu : Nat) : AtPick cpu k :=
  ⟨k, true, false, none, false, h, fun _ hw => (by cases hw), by simp [schedBlock]⟩

theorem AtPick.inv {cpu : Nat} {k : Kernel} (h : AtPick cpu k) : ∃ x, InvBut x k := by
  obtain ⟨k₀, preempt, signalPending, wake, hook, hk, hwake, rfl⟩ := h
  exact ⟨_, hk.inv.schedBlock cpu preempt signalPending hwake hook⟩

theorem AtPick.tasksOk {cpu : Nat} {k : Kernel} (h : AtPick cpu k) : TasksOk k := by
  obtain ⟨k₀, preempt, signalPending, wake, hook, hk, -, rfl⟩ := h
  intro q hq
  rw [(schedBlock_frame ..).live] at hq
  have hok := hk.tasksOk q hq
  rcases schedBlock_params k₀ cpu preempt signalPending wake hook
    (fun _ => ClassPick.head) with hto | ⟨w, -, hto⟩
  · exact hok.congr (hto q)
  · rcases hto.split q with ⟨rfl, hto⟩ | ⟨-, hto⟩
    · exact (taskOk_wokenTask hok).congr hto
    · exact hok.congr hto

/-! ## The scan -/

/-- The scan ends at the highest list that is not empty. -/
theorem scanQueues_spec (queue : Slot → List Pid) (n : Nat) :
    (scanQueues queue n = -1 ∧ ∀ m : Nat, m < n → queue (.ts m) = [])
    ∨ ∃ m : Nat, m < n ∧ scanQueues queue n = m ∧ queue (.ts m) ≠ []
      ∧ ∀ j : Nat, m < j → j < n → queue (.ts j) = [] := by
  induction n with
  | zero => exact Or.inl ⟨rfl, fun m hm => absurd hm (Nat.not_lt_zero m)⟩
  | succ n ih =>
      rw [scanQueues]
      by_cases hn : queue (.ts n) = []
      · rw [if_neg (not_not.mpr hn)]
        have hlast : ∀ {j : Nat}, j < n + 1 → (j < n → queue (.ts j) = []) →
            queue (.ts j) = [] := by
          intro j hj hlt
          rcases Nat.lt_succ_iff_lt_or_eq.mp hj with hj | rfl
          · exact hlt hj
          · exact hn
        rcases ih with ⟨hx, hall⟩ | ⟨m, hm, hx, hne, hall⟩
        · exact Or.inl ⟨hx, fun j hj => hlast hj (hall j)⟩
        · exact Or.inr ⟨m, by omega, hx, hne, fun j hmj hj => hlast hj (hall j hmj)⟩
      · rw [if_pos hn]
        exact Or.inr ⟨n, Nat.lt_succ_self n, rfl, hn, fun j hnj hj => by omega⟩

/-- The list of a queued TS task is one the scan looks at. -/
theorem ts_slot {x : Option Pid} {k : Kernel} (hinv : InvBut x k) (hok : TasksOk k) {p : Pid}
    (hp : QueuedTs k p) : ∃ m : Nat, m < 40 ∧ (m : Int) = prioQueue (k.task p).prio
      ∧ p ∈ (k.rq (k.task p).cpu).queue (.ts m) := by
  obtain ⟨hlo, hhi⟩ := prioQueue_range ((hok p hp.1).tsRange hp.2.2)
  obtain ⟨m, hm⟩ := Int.eq_ofNat_of_zero_le hlo
  refine ⟨m, by omega, hm.symm, ?_⟩
  exact (hinv.mem_ts _ _ p).mpr ⟨hp, rfl, hm.symm⟩

/-! ## The TS class's pick -/

/-- `p` comes before `q`: a better priority, or the same one and an older
stamp. -/
def Before (k : Kernel) (p q : Pid) : Prop :=
  (k.task p).prio < (k.task q).prio
    ∨ ((k.task p).prio = (k.task q).prio ∧ stamp p k.log < stamp q k.log)

theorem pickNextTaskTs_none {x : Option Pid} {k : Kernel} (hinv : InvBut x k)
    (hok : TasksOk k) (cpu : Nat) (prev : Pid) :
    (pickNextTaskTs k cpu prev).1 = none ↔ ∀ p, QueuedTs k p → (k.task p).cpu ≠ cpu := by
  simp only [pickNextTaskTs, putPrevTask]
  rcases scanQueues_spec (k.rq cpu).queue 40 with ⟨hx, hall⟩ | ⟨m, hm, hx, hne, -⟩
  · rw [if_pos hx]
    refine iff_of_true rfl ?_
    rintro p hp rfl
    obtain ⟨m, hm, -, hmem⟩ := ts_slot hinv hok hp
    rw [hall m hm] at hmem
    exact List.not_mem_nil hmem
  · rw [if_neg (by omega), hx]
    obtain ⟨p, l, hl⟩ := List.exists_cons_of_ne_nil hne
    rw [hl]
    refine iff_of_false (by simp) fun hall => ?_
    have hp := (hinv.mem_ts cpu m p).mp (by rw [hl]; exact List.mem_cons_self ..)
    exact hall p hp.1 hp.2.1.symm

theorem pickNextTaskTs_some {x : Option Pid} {k : Kernel} (hinv : InvBut x k)
    (hok : TasksOk k) {cpu : Nat} {prev p : Pid}
    (h : (pickNextTaskTs k cpu prev).1 = some p) :
    QueuedTs k p ∧ (k.task p).cpu = cpu
      ∧ ((k.rq cpu).queue (.ts (prioQueue (k.task p).prio))).head? = some p
      ∧ ∀ q, QueuedTs k q → (k.task q).cpu = cpu → q ≠ p → Before k p q := by
  simp only [pickNextTaskTs, putPrevTask] at h
  rcases scanQueues_spec (k.rq cpu).queue 40 with ⟨hx, -⟩ | ⟨m, hm, hx, -, hall⟩
  · rw [if_pos hx] at h
    cases h
  · rw [if_neg (by omega), hx] at h
    obtain ⟨l, hl⟩ := List.head?_eq_some_iff.mp h
    obtain ⟨hp, hcpu, hslot⟩ := (hinv.mem_ts cpu m p).mp (by rw [hl]; exact List.mem_cons_self ..)
    refine ⟨hp, hcpu.symm, by rw [← hslot]; exact h, ?_⟩
    rintro q hq rfl hqp
    obtain ⟨j, hj, hjslot, hqmem⟩ := ts_slot hinv hok hq
    -- a list above `m` is empty, so `q` is at the level of `p` or below
    have hjm : j ≤ m := by
      by_contra hlt
      rw [hall j (by omega) hj] at hqmem
      exact List.not_mem_nil hqmem
    unfold prioQueue at hslot hjslot
    rcases Nat.lt_or_eq_of_le hjm with hlt | rfl
    · exact Or.inl (by omega)
    · refine Or.inr ⟨by omega, ?_⟩
      exact (hinv.ordered.head_lt (i := ((k.task q).cpu, .ts j)) rfl hl hqmem).resolve_left hqp

/-- The forty lists refine a priority queue with stamps: the pick returns
nothing if and only if no TS task is queued on the CPU, and otherwise the
queued task that comes before all others, which stays at the head of its
list; nothing is changed. -/
theorem pickNextTaskTs_least {cpu : Nat} {k : Kernel} (h : AtPick cpu k) (prev : Pid) :
    ((pickNextTaskTs k cpu prev).1 = none ↔ ∀ p, QueuedTs k p → (k.task p).cpu ≠ cpu)
    ∧ (∀ p, (pickNextTaskTs k cpu prev).1 = some p →
        QueuedTs k p ∧ (k.task p).cpu = cpu
          ∧ ((k.rq cpu).queue (.ts (prioQueue (k.task p).prio))).head? = some p
          ∧ ∀ q, QueuedTs k q → (k.task q).cpu = cpu → q ≠ p → Before k p q)
    ∧ (pickNextTaskTs k cpu prev).2 = k := by
  obtain ⟨x, hinv⟩ := h.inv
  refine ⟨pickNextTaskTs_none hinv h.tasksOk cpu prev, fun p hp => ?_, ?_⟩
  · exact pickNextTaskTs_some hinv h.tasksOk hp
  · exact classPickNextTask_kernel (fun _ => ClassPick.head) k cpu prev .ts

/-- Two TS tasks at one level: the one that was enqueued first is picked. -/
theorem pickNextTaskTs_least_fifo : ∃ k, AtPick 0 k ∧ QueuedTs k (.proc 1)
    ∧ (pickNextTaskTs k 0 (.swapper 0)).1 = some (.proc 0) ∧ Before k (.proc 0) (.proc 1) := by
  obtain ⟨k, hk, hq, hcpu, hpick⟩ := exists_reachable
    (tsRun ++
      [.schedFork 0 1,
        .schedSetscheduler (.proc 1) (schedCopyAttr (some 10) 0 0 0) false true SchedEnv.root
          false,
        .wakeUpNewTask (.proc 1) 0 false])
    (P := fun k => QueuedTs k (.proc 1) ∧ (k.task (.proc 1)).cpu = 0
      ∧ (pickNextTaskTs k 0 (.swapper 0)).1 = some (.proc 0)) (by decide +kernel)
  have hleast := (pickNextTaskTs_least (hk.atPick 0) (.swapper 0)).2.1 _ hpick
  exact ⟨k, hk.atPick 0, hq, hpick, hleast.2.2.2 _ hq hcpu (by decide)⟩

/-! ## The loop over the classes -/

theorem ClassPick.nil (c : ClassPick) : c.pick [] = none := by
  cases h : c.pick [] with
  | none => rfl
  | some p => exact absurd (c.mem h) List.not_mem_nil

section Loop

variable {picks : SchedClass → ClassPick} {k : Kernel} {cpu : Nat} {prev : Pid}

/-- No task of the classes above TS is queued. -/
def NoHigher (rq : Rq) : Prop :=
  rq.queue (.cls .stop) = [] ∧ rq.queue (.cls .dl) = [] ∧ rq.queue (.cls .rt) = []

instance (rq : Rq) : Decidable (NoHigher rq) := inferInstanceAs (Decidable (_ ∧ _ ∧ _))

/-- With nothing queued above, the loop starts at the TS class. -/
theorem pickLoop_noHigher (h : NoHigher (k.rq cpu)) :
    pickLoop picks k cpu prev forEachClass =
      pickLoop picks k cpu prev [.ts, .fair, .idle] := by
  obtain ⟨hstop, hdl, hrt⟩ := h
  have hskip : ∀ {c}, c ≠ .ts → c ≠ .idle → (k.rq cpu).queue (.cls c) = [] →
      (classPickNextTask picks k cpu prev c).1 = none := by
    intro c hts hidle hc
    cases c <;> first | exact absurd rfl hts | exact absurd rfl hidle | skip
    all_goals simp only [classPickNextTask, hc, ClassPick.nil]
  rw [forEachClass, pickLoop_skip (hskip (by decide) (by decide) hstop),
    pickLoop_skip (hskip (by decide) (by decide) hdl),
    pickLoop_skip (hskip (by decide) (by decide) hrt)]

theorem pickNextTask_shortcut (h : fairShortcut k cpu prev = true) :
    (pickNextTask picks k cpu prev).1 = (pickLoop picks k cpu prev [.fair, .idle]).1 := by
  rw [pickNextTask_eq, if_pos h]

end Loop

/-- A class picks tasks of its own. -/
theorem classPickNextTask_class {x : Option Pid} {k : Kernel} (hinv : InvBut x k)
    {picks : SchedClass → ClassPick} {cpu : Nat} {prev p : Pid} {c : SchedClass}
    (h : (classPickNextTask picks k cpu prev c).1 = some p) : (k.task p).schedClass = c := by
  have hlist : ∀ {s}, p ∈ (k.rq cpu).queue s → s = (k.task p).queueSlot := by
    intro s hs
    have hloc := (hinv.linked.mem (cpu, s) p).mp hs
    obtain ⟨hlive, -, -⟩ := hinv.candidate (Or.inr ⟨s, hs⟩)
    rw [loc_of_live hlive] at hloc
    exact (Prod.mk.inj (slot_eq_some hloc).2.2).2
  have hother : ∀ {c}, p ∈ (k.rq cpu).queue (.cls c) → (k.task p).schedClass = c := by
    intro c hc
    have hslot := hlist hc
    unfold TaskStruct.queueSlot at hslot
    split_ifs at hslot
    exact (Slot.cls.inj hslot).symm
  cases c
  case idle =>
    obtain rfl := Option.some.inj h
    rw [hinv.idle]
    exact (hinv.tasks (.swapper cpu) trivial).class_idle.mpr rfl
  case ts =>
    simp only [classPickNextTask, pickNextTaskTs, putPrevTask] at h
    split_ifs at h
    exact ((hinv.mem_ts cpu _ p).mp (List.mem_of_mem_head? h)).1.2.2
  all_goals exact hother ((picks _).mem h)

/-! ## The shortcut -/

/-- The guard of the shortcut, in terms of the lists: nothing is queued
above TS. It says nothing about the TS lists. -/
theorem fairShortcut_iff {x : Option Pid} {k : Kernel} (hinv : InvBut x k) (cpu : Nat)
    (prev : Pid) : fairShortcut k cpu prev = true ↔
      ((k.task prev).schedClass = .idle ∨ (k.task prev).schedClass = .fair)
        ∧ NoHigher (k.rq cpu) := by
  obtain ⟨hnr, hcfs⟩ := hinv.counts cpu
  have hiff : (k.rq cpu).nrRunning = (k.rq cpu).cfsNrRunning ↔ NoHigher (k.rq cpu) := by
    rw [NoHigher, ← List.length_eq_zero_iff, ← List.length_eq_zero_iff,
      ← List.length_eq_zero_iff]
    omega
  rw [fairShortcut, decide_eq_true_eq, hiff]

/-- A task the shortcut picks is not in the TS class. -/
theorem pickLoop_fair_class {x : Option Pid} {k : Kernel} (hinv : InvBut x k)
    {picks : SchedClass → ClassPick} {cpu : Nat} {prev p : Pid}
    (h : (pickLoop picks k cpu prev [.fair, .idle]).1 = some p) :
    (k.task p).schedClass ≠ .ts := by
  obtain ⟨c, hc, hp⟩ := pickLoop_from h
  rw [classPickNextTask_class hinv hp]
  rintro rfl
  revert hc
  decide

/-- A TS task that `pick_next_task` returns is the TS class's own pick. -/
theorem pickNextTask_ts {x : Option Pid} {k : Kernel} (hinv : InvBut x k)
    {picks : SchedClass → ClassPick} {cpu : Nat} {prev p : Pid}
    (h : (pickNextTask picks k cpu prev).1 = some p) (hts : (k.task p).schedClass = .ts) :
    (pickNextTaskTs k cpu prev).1 = some p := by
  by_cases hs : fairShortcut k cpu prev = true
  · rw [pickNextTask_shortcut hs] at h
    exact absurd hts (pickLoop_fair_class hinv h)
  · rw [pickNextTask, if_neg hs] at h
    obtain ⟨c, -, hp⟩ := pickLoop_from h
    rw [classPickNextTask_class hinv hp] at hts
    subst hts
    exact hp

/-- A TS task is queued on the CPU. -/
def HasTs (rq : Rq) : Prop := ∃ i, rq.queue (.ts i) ≠ []

theorem pickNextTaskTs_of_hasTs {x : Option Pid} {k : Kernel} (hinv : InvBut x k)
    (hok : TasksOk k) {cpu : Nat} (h : HasTs (k.rq cpu)) (prev : Pid) :
    ∃ p, (pickNextTaskTs k cpu prev).1 = some p ∧ QueuedTs k p := by
  cases hpick : (pickNextTaskTs k cpu prev).1 with
  | some p => exact ⟨p, rfl, (pickNextTaskTs_some hinv hok hpick).1⟩
  | none =>
      obtain ⟨i, hi⟩ := h
      obtain ⟨p, l, hl⟩ := List.exists_cons_of_ne_nil hi
      have hp := (hinv.mem_ts cpu i p).mp (by rw [hl]; exact List.mem_cons_self ..)
      exact absurd hp.2.1.symm ((pickNextTaskTs_none hinv hok cpu prev).mp hpick p hp.1)

theorem pickNextTaskTs_of_not_hasTs {k : Kernel} {cpu : Nat} (h : ¬HasTs (k.rq cpu))
    (prev : Pid) : (pickNextTaskTs k cpu prev).1 = none := by
  simp only [pickNextTaskTs]
  rcases scanQueues_spec (k.rq cpu).queue 40 with ⟨hx, -⟩ | ⟨m, -, -, hne, -⟩
  · rw [if_pos hx]
  · exact absurd ⟨m, hne⟩ h

/-- `pick_next_task` returns what its loop over the classes would return,
and a TS task whenever one is queued with nothing above it, if and only
if it is not the case that a TS task is queued, nothing is queued above
it, and the previous task is fair or idle. -/
theorem pickNextTask_eq_pickLoop_iff {cpu : Nat} {k : Kernel} (h : AtPick cpu k)
    (picks : SchedClass → ClassPick) :
    ((pickNextTask picks k cpu (k.rq cpu).curr).1 =
        (pickLoop picks k cpu (k.rq cpu).curr forEachClass).1
      ∧ (HasTs (k.rq cpu) → NoHigher (k.rq cpu) →
        ∃ p, (pickNextTask picks k cpu (k.rq cpu).curr).1 = some p ∧ QueuedTs k p))
    ↔ ¬(HasTs (k.rq cpu) ∧ NoHigher (k.rq cpu)
        ∧ ((k.task (k.rq cpu).curr).schedClass = .idle
          ∨ (k.task (k.rq cpu).curr).schedClass = .fair)) := by
  obtain ⟨x, hinv⟩ := h.inv
  have hshort := fairShortcut_iff hinv cpu (k.rq cpu).curr
  constructor
  · rintro ⟨-, hpick⟩ ⟨hts, hno, hclass⟩
    obtain ⟨p, hp, hq⟩ := hpick hts hno
    rw [pickNextTask_shortcut (hshort.mpr ⟨hclass, hno⟩)] at hp
    exact pickLoop_fair_class hinv hp hq.2.2
  · intro hnot
    by_cases hs : fairShortcut k cpu (k.rq cpu).curr = true
    · -- the shortcut is taken, so no TS task is queued
      obtain ⟨hclass, hno⟩ := hshort.mp hs
      have hts : ¬HasTs (k.rq cpu) := fun hts => hnot ⟨hts, hno, hclass⟩
      have hskip : (classPickNextTask picks k cpu (k.rq cpu).curr .ts).1 = none :=
        pickNextTaskTs_of_not_hasTs hts _
      refine ⟨?_, fun hts' => absurd hts' hts⟩
      rw [pickNextTask_shortcut hs, pickLoop_noHigher hno, pickLoop_skip hskip]
    · have heq : pickNextTask picks k cpu (k.rq cpu).curr =
          pickLoop picks k cpu (k.rq cpu).curr forEachClass := by
        rw [pickNextTask, if_neg hs]
      rw [heq]
      refine ⟨rfl, fun hts hno => ?_⟩
      obtain ⟨p, hp, hq⟩ := pickNextTaskTs_of_hasTs hinv h.tasksOk hts (k.rq cpu).curr
      have htake : (classPickNextTask picks k cpu (k.rq cpu).curr .ts).1 = some p := hp
      rw [pickLoop_noHigher hno, pickLoop_take htake]
      exact ⟨p, rfl, hq⟩

/-- While a TS task runs the two agree. -/
theorem pickNextTask_eq_pickLoop_running : ∃ k, AtPick 0 k
    ∧ (pickNextTask (fun _ => ClassPick.head) k 0 (k.rq 0).curr).1 =
      (pickLoop (fun _ => ClassPick.head) k 0 (k.rq 0).curr forEachClass).1 := by
  obtain ⟨k, hk, hts⟩ := exists_reachable
    [.schedFork 0 0, .wakeUpNewTask (.proc 0) 0 false,
      .schedule 0 true false none false (fun _ => ClassPick.head),
      .schedSetscheduler (.proc 0) (schedCopyAttr (some 10) 0 0 0) false true SchedEnv.root false]
    (P := fun k => (k.task (k.rq 0).curr).schedClass = .ts) (by decide +kernel)
  refine ⟨k, hk.atPick 0, ((pickNextTask_eq_pickLoop_iff (hk.atPick 0) _).mpr ?_).1⟩
  rintro ⟨-, -, hclass⟩
  rw [hts] at hclass
  rcases hclass with hclass | hclass <;> cases hclass

/-- Behind the idle thread a queued TS task is never seen. -/
theorem pickNextTask_misses_ts : ¬∀ k, Reachable k → ∀ cpu picks,
    (pickNextTask picks k cpu (k.rq cpu).curr).1 =
        (pickLoop picks k cpu (k.rq cpu).curr forEachClass).1
      ∧ (HasTs (k.rq cpu) → NoHigher (k.rq cpu) →
        ∃ p, (pickNextTask picks k cpu (k.rq cpu).curr).1 = some p ∧ QueuedTs k p) := by
  intro hall
  obtain ⟨k, hk, hpick, hloop⟩ := exists_reachable tsRun
    (P := fun k =>
      (pickNextTask (fun _ => ClassPick.head) k 0 (k.rq 0).curr).1 = some (.swapper 0)
      ∧ (pickLoop (fun _ => ClassPick.head) k 0 (k.rq 0).curr forEachClass).1 =
        some (.proc 0)) (by decide +kernel)
  have hsame := (hall k hk 0 fun _ => ClassPick.head).1
  rw [hpick, hloop] at hsame
  cases hsame

end Sched

end Comp4511
