import Comp4511.RtOrder

/-!
# The books of a real-time runqueue

What holds of the runqueue in every state that is reached: the counts, the
tasks that can be pushed and the share of the class in `nr_running` are
those of the list of `RtOrder` (`books_kept`); `__schedule` always has a
task to switch to, and with no class above that picks it is the first of the list
unless the class is throttled (`schedule_first`).
-/

namespace Comp4511

namespace Rt

open Sched (Pid SchedClass Policy)

/-! ## The counts -/

/-- The counts of a runqueue that serves the tasks `q` in this order. -/
def booked (rq : Rq) (q : List Pid) : Tally :=
  let best := (q.head?.map rq.prio).getD maxRtPrio
  let migr := q.countP fun p => 1 < (rq.task p).nrCpusAllowed
  let overload : Bool := migr ≠ 0 ∧ 1 < q.length
  { rtNrRunning := q.length
    rrNrRunning := q.countP fun p => (rq.task p).policy = .rr
    highestCurr := best
    rtNrMigratory := migr
    rtNrTotal := q.length
    overloaded := overload
    rtoMask := rq.online && overload
    rtoCount := if rq.online && overload then 1 else 0
    cpupri := if rq.online then best else cpupriInvalid }

section Books

variable {b : Bandwidth} {cpu : ℕ} {rq rq' : Rq} {on : Pid → Prop} {kept run : Option Pid}

theorem sum_ite_countP {α : Type*} (P : α → Prop) [DecidablePred P] (l : List α) :
    (l.map fun x => if P x then 1 else 0).sum = l.countP fun x => decide (P x) := by
  induction l with
  | nil => rfl
  | cons x l ih =>
      rw [List.map_cons, List.sum_cons, List.countP_cons, ih, Nat.add_comm]
      simp

theorem Queues.booked (h : Queues on none rq) : rq.tally = booked rq rq.order := by
  obtain ⟨C, hperm, htally⟩ := h.order_perm
  have hbest : bestOf rq C = (rq.order.head?.map rq.prio).getD maxRtPrio := by
    unfold bestOf
    split
    · next hnil =>
        rw [hnil] at hperm
        rw [hperm.eq_nil]
        rfl
    · exact h.sound.findFirst_eq
  have hrr : (C.map fun p => rtSeRrNrRunning (rq.task p)).sum =
      rq.order.countP fun p => (rq.task p).policy = .rr := by
    rw [hperm.countP_eq]
    exact sum_ite_countP (fun p => (rq.task p).policy = .rr) C
  have hmigr : (C.map fun p => migratory (rq.task p)).sum =
      rq.order.countP fun p => 1 < (rq.task p).nrCpusAllowed := by
    rw [hperm.countP_eq]
    exact sum_ite_countP (fun p => 1 < (rq.task p).nrCpusAllowed) C
  rw [htally, tallyOf, tallyAt, hbest, hrr, hmigr, ← hperm.length_eq]
  rfl

theorem Inv.pushable_perm (h : Inv rq) : rq.rt.pushableTasks.Perm
    (rq.order.filter fun p => p ≠ rq.curr ∧ 1 < (rq.task p).nrCpusAllowed) := by
  have hnodup : rq.order.Nodup := h.sane.queues.sound.nodup_order
  refine (List.perm_ext_iff_of_nodup h.sane.pushed.nodup (hnodup.filter _)).mpr fun p => ?_
  rw [h.sane.pushed.mem, List.mem_filter, h.sane.queues.mem_order, decide_eq_true_iff,
    Ne, Option.some.injEq, eq_comm (a := rq.curr)]
  tauto

/-- In every reachable state the order has the queued tasks of the class,
each once, better priorities first, and all counts are those of the order:
the numbers of tasks, the best priority, what the root domain is told, the
tasks that can be pushed, and the share of the class in `nr_running`. -/
theorem books_kept (h : Reachable b cpu rq) :
    rq.order.Nodup
    ∧ (∀ p, p ∈ rq.order ↔ rq.isRt p = true ∧ rq.On p)
    ∧ (rq.order.Pairwise fun p q => rq.prio p ≤ rq.prio q)
    ∧ rq.tally = booked rq rq.order
    ∧ rq.rt.pushableTasks.Perm
        (rq.order.filter fun p => p ≠ rq.curr ∧ 1 < (rq.task p).nrCpusAllowed)
    ∧ (rq.rt.pushableTasks.Pairwise fun p q => rq.prio p ≤ rq.prio q)
    ∧ rq.rt.highestNext = (rq.rt.pushableTasks.head?.map rq.prio).getD maxRtPrio
    ∧ rq.rt.rtQueued = (!rq.rt.rtThrottled && rq.order ≠ [])
    ∧ rq.nrRunning = rq.otherShare + if rq.rt.rtQueued then rq.order.length else 0 := by
  have hinv := h.inv
  have hq := hinv.sane.queues
  have hnil : rq.rt.rtNrRunning ≠ 0 ↔ rq.order ≠ [] := by
    rw [← hq.length_order, Ne, List.length_eq_zero_iff]
  refine ⟨hq.sound.nodup_order, hq.mem_order, hq.sound.sorted, hq.booked, hinv.pushable_perm,
    hinv.sane.pushed.sorted, hinv.sane.pushed.next, ?_, ?_⟩
  · rw [hinv.sane.top.queued, decide_eq_decide.mpr hnil]
  · rw [hq.length_order]
    exact hinv.sane.top.running

/-! ## A run with two tasks -/

theorem exists_reachable (b : Bandwidth) (cpu : ℕ) (as : List Act) {P : Rq → Prop}
    [DecidablePred P]
    (h : (Lts.exec (step b) (boot b cpu) as).any (fun rq => decide (P rq)) = true) :
    ∃ rq, Reachable b cpu rq ∧ P rq := by
  obtain ⟨rq, hrq, hP⟩ := (Option.any_eq_true _ _).mp h
  exact ⟨rq, Lts.exec_reaches hrq, of_decide_eq_true hP⟩

/-- A slice of one tick, and the default share of the CPU. -/
def sampleBandwidth : Bandwidth where
  enabled := true
  rtPeriod := 1000000000
  rtRuntime := 950000000
  rrTimeslice := 1
  runtimeShare := true

/-- Two tasks become round robin ones of one priority and wake up. -/
def twoTasks : List Act :=
  [⟨.change (.proc 0) ⟨.rt, .rr, 50, 2⟩ true false false true, 0⟩,
    ⟨.change (.proc 1) ⟨.rt, .rr, 50, 2⟩ true false false true, 0⟩,
    ⟨.activate (.proc 0) 0, 0⟩, ⟨.activate (.proc 1) 0, 0⟩]

/-- The first of them runs. -/
def firstRuns : List Act := twoTasks ++ [⟨.schedule false none none, 0⟩]

theorem books_kept_two : ∃ rq, Reachable sampleBandwidth 0 rq
    ∧ rq.rt.rtNrRunning = 2 ∧ rq.rt.highestCurr = 50 ∧ rq.rt.overloaded = true
    ∧ rq.rt.pushableTasks = [.proc 1] := by
  obtain ⟨rq, hrq, horder, hcurr, hprio, hcpus⟩ := exists_reachable sampleBandwidth 0 firstRuns
    (P := fun rq => rq.order = [.proc 0, .proc 1] ∧ rq.curr = .proc 0 ∧ rq.prio (.proc 0) = 50 ∧
      (rq.task (.proc 0)).nrCpusAllowed = 2 ∧ (rq.task (.proc 1)).nrCpusAllowed = 2)
    (by decide +kernel)
  obtain ⟨-, -, -, htally, hpush, -⟩ := books_kept hrq
  rw [horder] at htally hpush
  refine ⟨rq, hrq, congrArg Tally.rtNrRunning htally,
    (congrArg Tally.highestCurr htally).trans hprio,
    (congrArg Tally.overloaded htally).trans ?_, ?_⟩
  · simp [booked, hcpus]
  · rw [hcurr] at hpush
    simpa [hcpus] using hpush

/-! ## Who runs -/

/-- A task of the class that runs by the choice of the class. -/
theorem Inv.chosen_first (h : Inv rq) {below : Option Pid}
    (hchosen : Chosen rq rq.curr none below) (hfree : rq.rt.rtThrottled = false) {q : Pid}
    (hrt : rq.isRt q = true) (hon : rq.On q) :
    rq.order.head? = some rq.curr ∧ rq.isRt rq.curr = true ∧ rq.prio rq.curr ≤ rq.prio q := by
  have hmem : q ∈ rq.order := (h.sane.queues.mem_order q).mpr ⟨hrt, hon⟩
  have hqueued : rq.rt.rtQueued = true := by
    have hne : rq.order.length ≠ 0 := (List.length_pos_of_mem hmem).ne'
    rw [h.sane.queues.length_order] at hne
    rw [h.sane.top.queued, hfree]
    simp [hne]
  rw [Chosen, if_pos hqueued] at hchosen
  have hcurr := (h.sane.queues.mem_order rq.curr).mp (List.mem_of_mem_head? hchosen)
  refine ⟨hchosen, hcurr.1, ?_⟩
  have hsorted := h.sane.queues.sound.sorted
  rw [← Rq.order] at hsorted
  obtain ⟨l, hl⟩ := List.head?_eq_some_iff.mp hchosen
  rw [hl, List.pairwise_cons] at hsorted
  rw [hl] at hmem
  rcases List.mem_cons.mp hmem with heq | hmem
  · rw [heq]
  · exact hsorted.1 q hmem

theorem Inv.chosen_below (h : Inv rq) {below : Option Pid}
    (hchosen : Chosen rq rq.curr none below)
    (hnone : rq.rt.rtThrottled = true ∨ ∀ q, rq.On q → rq.isRt q = false) :
    rq.curr = below.getD rq.idle := by
  have hqueued : ¬ rq.rt.rtQueued = true := by
    rw [h.sane.top.queued]
    rcases hnone with hthrottled | hnone
    · simp [hthrottled]
    · have horder : rq.order = [] := List.eq_nil_iff_forall_not_mem.mpr fun q hq => by
        obtain ⟨hrt, hon⟩ := (h.sane.queues.mem_order q).mp hq
        rw [hnone q hon] at hrt
        cases hrt
      have hzero : rq.rt.rtNrRunning = 0 := by
        rw [← h.sane.queues.length_order, horder]
        rfl
      simp [hzero]
  rwa [Chosen, if_neg hqueued] at hchosen

/-- A step that is allowed in a reachable state comes to none of the `BUG_ON`s
in the model: that `nr_running` is not zero when the class is taken off it,
that there is a task to pick in `pick_next_rt_entity`, and that the first
task that can be pushed does not run, may run elsewhere, is queued and is of
the class. After `__schedule` the task runs that a class above picks; if none does, then
while the class is not throttled the first task of the order, which no
queued task of the class beats, and otherwise a task of a class below. -/
theorem schedule_first (h : Reachable b cpu rq) :
    (∀ a : Act, Allowed rq a.op → ∃ rq', step b rq a = some rq')
    ∧ ∀ (blocks : Bool) (above below : Option Pid) (balanced : ℕ) (rq' : Rq),
        step b rq ⟨.schedule blocks above below, balanced⟩ = some rq' →
          (∀ p, above = some p → rq'.curr = p)
          ∧ (above = none → rq'.rt.rtThrottled = false → ∀ q, rq'.isRt q = true → rq'.On q →
              rq'.order.head? = some rq'.curr ∧ rq'.isRt rq'.curr = true ∧
                rq'.prio rq'.curr ≤ rq'.prio q)
          ∧ (above = none → (rq'.rt.rtThrottled = true ∨ ∀ q, rq'.On q → rq'.isRt q = false) →
              rq'.curr = below.getD rq'.idle) := by
  have hinv := h.inv
  refine ⟨fun a hallowed => ?_, fun blocks above below balanced rq' hstep => ?_⟩
  · obtain ⟨rq', hstep, -⟩ := hinv.step hallowed b
    exact ⟨rq', hstep⟩
  · obtain ⟨hallowed, hperform⟩ := step_cases hstep
    obtain ⟨rq'', hsched, hinv', hchosen⟩ := hinv.schedule hallowed ⟨b, balanced⟩
    obtain rfl : rq'' = rq' := Option.some.inj (hsched.symm.trans hperform)
    refine ⟨?_, ?_, ?_⟩
    · rintro p rfl
      exact hchosen
    · rintro rfl hfree q hrt hon
      exact hinv'.chosen_first hchosen hfree hrt hon
    · rintro rfl hnone
      exact hinv'.chosen_below hchosen hnone

/-- The first of two tasks is the one that runs. -/
theorem schedule_first_two : ∃ rq rq', Reachable sampleBandwidth 0 rq
    ∧ step sampleBandwidth rq ⟨.schedule false none none, 0⟩ = some rq'
    ∧ rq'.order.head? = some rq'.curr ∧ rq'.isRt rq'.curr = true := by
  obtain ⟨rq, hrq, hnext⟩ := exists_reachable sampleBandwidth 0 twoTasks
    (P := fun rq => (step sampleBandwidth rq ⟨.schedule false none none, 0⟩).any (fun rq' =>
      rq'.rt.rtThrottled = false ∧ rq'.isRt (.proc 0) = true ∧ (rq'.task (.proc 0)).onRq = true) =
        true)
    (by decide +kernel)
  obtain ⟨rq', hstep, hseen⟩ := (Option.any_eq_true _ _).mp hnext
  obtain ⟨hfree, hrt, hon⟩ := of_decide_eq_true hseen
  obtain ⟨hhead, hcurr, -⟩ := ((schedule_first hrq).2 false none none 0 rq' hstep).2.1 rfl hfree
    (.proc 0) hrt hon
  exact ⟨rq, rq', hrq, hstep, hhead, hcurr⟩

/-- Every step does to the order of service what `served` says. -/
theorem order_refined {a : Act} (h : Reachable b cpu rq) (hstep : step b rq a = some rq') :
    rq'.order = served rq a.op := h.inv.order_served hstep

/-- With the end of its slice a task goes behind the other one. -/
theorem order_refined_tick : ∃ rq rq', Reachable sampleBandwidth 0 rq
    ∧ rq.order = [.proc 0, .proc 1] ∧ step sampleBandwidth rq ⟨.tick, 0⟩ = some rq'
    ∧ rq'.order = [.proc 1, .proc 0] := by
  obtain ⟨rq, hrq, horder, hserved, hnext⟩ := exists_reachable sampleBandwidth 0 firstRuns
    (P := fun rq => rq.order = [.proc 0, .proc 1] ∧ served rq .tick = [.proc 1, .proc 0] ∧
      (step sampleBandwidth rq ⟨.tick, 0⟩).isSome = true)
    (by decide +kernel)
  obtain ⟨rq', hstep⟩ := Option.isSome_iff_exists.mp hnext
  exact ⟨rq, rq', hrq, horder, hstep, (order_refined hrq hstep).trans hserved⟩

end Books

end Rt

end Comp4511
