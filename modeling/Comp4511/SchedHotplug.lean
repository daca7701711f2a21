import Mathlib.Data.Finset.Card
import Comp4511.Loops
import Comp4511.SchedPick

/-!
# Taking a CPU down

`migrate_tasks` empties the runqueue of a dying CPU: with `rq->stop` out
of the way it picks a task as the scheduler would and moves it to the CPU
`select_fallback_rq` names, until `rq->nr_running` is one, the stopper
itself.

The TS class does not count its tasks in `nr_running`. The loop picks by
class, the TS class before the fair class, so TS tasks are moved while a
fair task keeps the count above one, and are left behind when there is
none (`migrateTasks_drains_iff`).
-/

namespace Comp4511

namespace Sched

/-! ## The functions of the source -/

/-- What `migrate_tasks` asks the rest of the kernel: the CPU masks, which
task is a per-CPU kernel thread, how the other classes pick and check
preemption, and what `select_fallback_rq` does: the masks it hands to
`do_set_cpus_allowed` when the task may run nowhere else, and the CPU it
returns. -/
structure HotplugEnv where
  cpuActive : Nat → Bool
  cpuOnline : Nat → Bool
  isPerCpuKthread : Kernel → Pid → Bool
  picks : Kernel → SchedClass → ClassPick
  hook : Kernel → Pid → Bool
  fallbackMasks : Kernel → Pid → List (Nat → Bool)
  fallbackCpu : Kernel → Pid → Nat

section

variable (env : HotplugEnv) (k : Kernel) (cpu : Nat)

def isCpuAllowed (p : Pid) : Bool :=
  if !(k.task p).cpusAllowed cpu then false
  else if env.isPerCpuKthread k p then env.cpuOnline cpu
  else env.cpuActive cpu

/-- `select_fallback_rq`: the CPU, and the kernel with the task's affinity
widened. -/
def selectFallbackRq (p : Pid) : Nat × Kernel :=
  (env.fallbackCpu k p, (env.fallbackMasks k p).foldl (fun k => doSetCpusAllowed k p) k)

/-- `__migrate_task`. -/
def migrateTask (p : Pid) (destCpu : Nat) : Kernel :=
  if !isCpuAllowed env k destCpu p then k
  else moveQueuedTask k p destCpu (env.hook k p)

/-- `pick_next_task` with `fake_task` as `prev`: its class is neither fair
nor idle, so the shortcut is not taken, and its `put_prev_task` is empty.
The stop class has no task to offer while `rq->stop` is `NULL`. -/
def pickNextTaskFake : Option Pid × Kernel :=
  pickLoop (env.picks k) k cpu (k.rq cpu).curr
    (if (k.rq cpu).stop.isSome then forEachClass else [.dl, .rt, .ts, .fair, .idle])

/-- One turn of the loop of `migrate_tasks`; `none` is `BUG_ON(!next)`. -/
def migrateTurn : Loop.Turn Kernel (Option Kernel) :=
  if (k.rq cpu).nrRunning = 1 then .done (some k)
  else
    match pickNextTaskFake env k cpu with
    | (none, _) => .done none
    | (some next, k) =>
        let k := putPrevTask k cpu next
        if (k.task next).cpu ≠ cpu ∨ !taskOnRqQueued (k.task next) then .again k
        else
          let (destCpu, k) := selectFallbackRq env k next
          .again (migrateTask env k next destCpu)

/-- `migrate_tasks`, with at most `fuel` turns of its loop. -/
def migrateTasks (fuel : Nat) : Option (Option Kernel) :=
  let stop := (k.rq cpu).stop
  let k := k.modRq cpu fun rq => { rq with stop := none }
  (Loop.run (fun k => migrateTurn env k cpu) fuel k).map fun r =>
    r.map fun k => k.modRq cpu fun rq => { rq with stop := stop }

end

/-! ## What the environment is relied on for -/

/-- The CPU is down, and `select_fallback_rq` returns a CPU on which the
task is allowed. -/
structure HotplugEnv.Down (env : HotplugEnv) (cpu : Nat) : Prop where
  active : env.cpuActive cpu = false
  online : env.cpuOnline cpu = false
  fallback : ∀ k p, isCpuAllowed env (selectFallbackRq env k p).2
    (selectFallbackRq env k p).1 p = true

/-- The stopper runs on the CPU, alone in its class. -/
structure AtStopper (k : Kernel) (cpu : Nat) (stopper : Pid) : Prop where
  curr : k.curr cpu = stopper
  queue : (k.rq cpu).queue (.cls .stop) = [stopper]

/-- Nothing but the stopper is queued on the CPU. -/
def Drained (k : Kernel) (cpu : Nat) (stopper : Pid) : Prop :=
  ∀ s, ∀ p ∈ (k.rq cpu).queue s, p = stopper

/-- No TS task is queued on the CPU, or a fair task is. -/
def FairOrNoTs (rq : Rq) : Prop :=
  ¬ HasTs rq ∨ rq.queue (.cls .fair) ≠ []

/-! ## Where tasks are after a move -/

theorem doSetCpusAllowed_frame (k : Kernel) (p : Pid) (newMask : Nat → Bool) :
    Frame k (doSetCpusAllowed k p newMask) := saveRestore_frame ..

theorem doSetCpusAllowed_loc (k : Kernel) (p : Pid) (newMask : Nat → Bool) (q : Pid) :
    (doSetCpusAllowed k p newMask).loc q = k.loc q := by
  refine loc_congr (doSetCpusAllowed_frame k p newMask).live (fun r _ => ?_) q
  have htask : (doSetCpusAllowed k p newMask).task
      = Function.update k.task p { k.task p with cpusAllowed := newMask } :=
    saveRestore_task k p _ _ restore_no_wakeup
  rw [htask]
  by_cases hr : r = p
  · subst hr
    rw [Function.update_self]
    rfl
  · rw [Function.update_of_ne hr]

theorem slot_needResched (t : TaskStruct) (b : Bool) :
    ({ t with needResched := b } : TaskStruct).slot = t.slot := rfl

theorem reschedCurr_slot (k : Kernel) (cpu : Nat) (q : Pid) :
    ((reschedCurr k cpu).task q).slot = (k.task q).slot := by
  rw [reschedCurr_task]
  by_cases hq : q = (k.rq cpu).curr
  · subst hq
    rw [Function.update_self, setTskNeedResched, slot_needResched]
  · rw [Function.update_of_ne hq]

theorem moveQueuedTask_loc {k : Kernel} {p : Pid} (hlive : k.Live p)
    (hidle : (k.task p).schedClass ≠ .idle) (newCpu : Nat) (hook : Bool) (q : Pid) :
    (moveQueuedTask k p newCpu hook).loc q
      = if q = p then some (newCpu, (k.task p).queueSlot) else k.loc q := by
  have hmoved : (movedKernel k p newCpu).loc q
      = if q = p then some (newCpu, (k.task p).queueSlot) else k.loc q := by
    have hframe := movedKernel_frame k p newCpu
    by_cases hq : q = p
    · subst hq
      rw [if_pos rfl, loc_of_live (by rw [hframe.live]; exact hlive), movedKernel_task,
        Function.update_self]
      exact slot_of_queued (t := { k.task q with onRq := .queued, cpu := newCpu }) rfl hidle
    · have htask : (movedKernel k p newCpu).task q = k.task q := by
        rw [movedKernel_task, Function.update_of_ne hq]
      rw [if_neg hq, Kernel.loc, Kernel.loc, htask]
      simp only [hframe.live]
  rw [← hmoved]
  have hcheck : moveQueuedTask k p newCpu hook
      = checkPreemptCurr (movedKernel k p newCpu) newCpu p hook := rfl
  rw [hcheck]
  rcases checkPreemptCurr_cases (movedKernel k p newCpu) newCpu p hook with heq | heq
  · rw [heq]
  · have hsame : (reschedCurr (movedKernel k p newCpu) newCpu).loc q
        = (movedKernel k p newCpu).loc q :=
      loc_congr (Frame.reschedCurr _ _).live (fun r _ => reschedCurr_slot _ _ r) q
    rw [heq, hsame]

/-! ## One turn -/

/-- The state of the loop. -/
structure Draining (cpu : Nat) (stopper : Pid) (k : Kernel) : Prop where
  inv : Inv k
  ok : TasksOk k
  stopper : AtStopper k cpu stopper
  unset : (k.rq cpu).stop = none

/-- The lists the loop takes tasks from. -/
def drainSlots : List Slot :=
  [.cls .dl, .cls .rt, .cls .fair] ++ (List.range 40).map fun m : Nat => .ts m

section Turn

variable {env : HotplugEnv} {k : Kernel} {cpu : Nat} {stopper : Pid}

theorem mem_queue_iff (hinv : Inv k) {s : Slot} {p : Pid} :
    p ∈ (k.rq cpu).queue s ↔ k.loc p = some (cpu, s) :=
  hinv.linked.mem (cpu, s) p

/-- With the stopper counted, `nr_running` is one exactly when the three
classes that are counted besides it have nothing queued. -/
theorem nrRunning_eq_one_iff (h : Draining cpu stopper k) :
    (k.rq cpu).nrRunning = 1 ↔ (k.rq cpu).queue (.cls .dl) = [] ∧
      (k.rq cpu).queue (.cls .rt) = [] ∧ (k.rq cpu).queue (.cls .fair) = [] := by
  obtain ⟨hnr, -⟩ := h.inv.counts cpu
  rw [h.stopper.queue] at hnr
  rw [← List.length_eq_zero_iff, ← List.length_eq_zero_iff, ← List.length_eq_zero_iff, hnr,
    List.length_singleton]
  omega

/-- A class the loop asks. -/
theorem classPick_cases (picks : SchedClass → ClassPick) (k : Kernel) (cpu : Nat) (prev : Pid)
    {c : SchedClass} (hts : c ≠ .ts) (hidle : c ≠ .idle) :
    ((k.rq cpu).queue (.cls c) = [] ∧ (classPickNextTask picks k cpu prev c).1 = none) ∨
      ∃ p ∈ (k.rq cpu).queue (.cls c), (classPickNextTask picks k cpu prev c).1 = some p := by
  have hpick : (classPickNextTask picks k cpu prev c).1
      = (picks c).pick ((k.rq cpu).queue (.cls c)) := by
    cases c <;> first | rfl | exact absurd rfl hts | exact absurd rfl hidle
  rw [hpick]
  by_cases hempty : (k.rq cpu).queue (.cls c) = []
  · left
    rw [hempty]
    exact ⟨rfl, ClassPick.nil _⟩
  · obtain ⟨p, hp⟩ := Option.isSome_iff_exists.mp ((picks c).isSome hempty)
    exact .inr ⟨p, (picks c).mem hp, hp⟩

/-- What the loop picks, and from which list. -/
inductive Picked (k : Kernel) (cpu : Nat) (p : Pid) : Prop
  | higher {c : SchedClass} : c = .dl ∨ c = .rt → p ∈ (k.rq cpu).queue (.cls c) →
      Picked k cpu p
  | ts {m : Nat} : m < 40 → (k.rq cpu).queue (.cls .dl) = [] →
      (k.rq cpu).queue (.cls .rt) = [] → p ∈ (k.rq cpu).queue (.ts m) → Picked k cpu p
  | fair : ¬ HasTs (k.rq cpu) → p ∈ (k.rq cpu).queue (.cls .fair) → Picked k cpu p

theorem pickNextTaskFake_picked (env : HotplugEnv) (h : Draining cpu stopper k) (hnr : (k.rq cpu).nrRunning ≠ 1) :
    ∃ p, pickNextTaskFake env k cpu = (some p, k) ∧ Picked k cpu p := by
  rw [Ne, nrRunning_eq_one_iff h] at hnr
  have hstop : (k.rq cpu).stop.isSome = false := by
    rw [h.unset]
    rfl
  rw [pickNextTaskFake, hstop, if_neg Bool.false_ne_true]
  obtain ⟨hdl, hskip⟩ | ⟨p, hp, htake⟩ := classPick_cases (env.picks k) k cpu
    (k.rq cpu).curr (c := .dl) (by decide) (by decide)
  case inr => exact ⟨p, pickLoop_take htake, .higher (.inl rfl) hp⟩
  rw [pickLoop_skip hskip]
  obtain ⟨hrt, hskip⟩ | ⟨p, hp, htake⟩ := classPick_cases (env.picks k) k cpu
    (k.rq cpu).curr (c := .rt) (by decide) (by decide)
  case inr => exact ⟨p, pickLoop_take htake, .higher (.inr rfl) hp⟩
  rw [pickLoop_skip hskip]
  by_cases hts : HasTs (k.rq cpu)
  · obtain ⟨p, hpick, hq⟩ := pickNextTaskTs_of_hasTs h.inv h.ok hts (k.rq cpu).curr
    obtain ⟨-, hcpu, -⟩ := pickNextTaskTs_some h.inv h.ok hpick
    obtain ⟨m, hm, -, hmem⟩ := ts_slot h.inv h.ok hq
    rw [hcpu] at hmem
    exact ⟨p, pickLoop_take hpick, .ts hm hdl hrt hmem⟩
  have hskip : (classPickNextTask (env.picks k) k cpu (k.rq cpu).curr .ts).1 = none :=
    pickNextTaskTs_of_not_hasTs hts _
  rw [pickLoop_skip hskip]
  obtain ⟨hfair, -⟩ | ⟨p, hp, htake⟩ := classPick_cases (env.picks k) k cpu
    (k.rq cpu).curr (c := .fair) (by decide) (by decide)
  case inr => exact ⟨p, pickLoop_take htake, .fair hts hp⟩
  exact absurd ⟨hdl, hrt, hfair⟩ hnr

/-- A picked task is on one of the lists the loop looks at. -/
theorem Picked.slot {p : Pid} (hp : Picked k cpu p) :
    ∃ s ∈ drainSlots, p ∈ (k.rq cpu).queue s := by
  cases hp with
  | higher hc hmem =>
      rcases hc with rfl | rfl
      · exact ⟨_, by decide, hmem⟩
      · exact ⟨_, by decide, hmem⟩
  | @ts m hm _ _ hmem =>
      refine ⟨_, List.mem_append_right _ ?_, hmem⟩
      exact List.mem_map.mpr ⟨m, List.mem_range.mpr hm, rfl⟩
  | fair _ hmem => exact ⟨_, by decide, hmem⟩

theorem drainSlots_ne_stop {s : Slot} (hs : s ∈ drainSlots) : s ≠ .cls .stop := by
  rintro rfl
  revert hs
  decide

/-- What is known of a task on one of these lists. -/
theorem Draining.candidate (h : Draining cpu stopper k) {p : Pid} {s : Slot}
    (hs : s ≠ .cls .stop) (hmem : p ∈ (k.rq cpu).queue s) :
    k.Named p ∧ (k.task p).onRq = .queued ∧ (k.task p).cpu = cpu ∧
      (k.task p).onCpu = false ∧ (k.task p).schedClass ≠ .idle := by
  obtain ⟨hlive, hq, hcpu⟩ := h.inv.candidate (.inr ⟨s, hmem⟩)
  have htask := h.inv.tasks p hlive
  have hloc := (mem_queue_iff h.inv).mp hmem
  have hidle : (k.task p).schedClass ≠ .idle := by
    rw [loc_of_live hlive] at hloc
    exact (slot_eq_some hloc).2.1
  refine ⟨⟨hlive, ?_⟩, hq, hcpu, ?_, hidle⟩
  · rw [Ne, htask.class_idle] at hidle
    exact Bool.not_eq_false _ |>.mp hidle
  · -- the current task is the stopper, which is on the list of its class
    rw [← Bool.not_eq_true, htask.onCpu, hcpu, h.stopper.curr]
    rintro rfl
    have hstop : stopper ∈ (k.rq cpu).queue (.cls .stop) := by
      rw [h.stopper.queue]
      exact List.mem_singleton_self _
    rw [mem_queue_iff h.inv, hloc] at hstop
    exact hs (Prod.mk.inj (Option.some.inj hstop)).2

/-- A step that takes no task on or off the stop list keeps the loop's
state. -/
theorem Draining.keep {k' : Kernel} (h : Draining cpu stopper k) (hinv : Inv k')
    (hok : TasksOk k') (hframe : Frame k k')
    (hstop : ∀ q, q ∈ (k'.rq cpu).queue (.cls .stop) ↔ q ∈ (k.rq cpu).queue (.cls .stop)) :
    Draining cpu stopper k' := by
  refine ⟨hinv, hok, ⟨(hframe.curr cpu).trans h.stopper.curr, ?_⟩,
    (hframe.stop cpu).trans h.unset⟩
  have hperm : ((k'.rq cpu).queue (.cls .stop)).Perm [stopper] := by
    have hnodup : ((k'.rq cpu).queue (.cls .stop)).Nodup := hinv.linked.nodup (cpu, .cls .stop)
    rw [List.perm_ext_iff_of_nodup hnodup (List.nodup_singleton _)]
    intro q
    rw [← h.stopper.queue]
    exact hstop q
  exact List.perm_singleton.mp hperm

theorem Draining.doSetCpusAllowed (h : Draining cpu stopper k) {p : Pid} (hp : k.Named p)
    (newMask : Nat → Bool) : Draining cpu stopper (doSetCpusAllowed k p newMask) := by
  have hstep : step k (.doSetCpusAllowed p newMask) = some (Sched.doSetCpusAllowed k p newMask) :=
    if_pos hp
  have hinv := inv_step h.inv hstep
  refine h.keep hinv (tasksOk_step h.inv h.ok hstep) (doSetCpusAllowed_frame ..) fun q => ?_
  rw [mem_queue_iff hinv, mem_queue_iff h.inv, doSetCpusAllowed_loc]

/-- Widening the affinity of a task keeps every list, but for the order. -/
theorem Draining.widened (h : Draining cpu stopper k) {p : Pid} (hp : k.Named p)
    (masks : List (Nat → Bool)) :
    Draining cpu stopper (masks.foldl (fun k => Sched.doSetCpusAllowed k p) k) ∧
      ∀ q, (masks.foldl (fun k => Sched.doSetCpusAllowed k p) k).loc q = k.loc q := by
  induction masks generalizing k with
  | nil => exact ⟨h, fun _ => rfl⟩
  | cons m masks ih =>
      have hnamed : (Sched.doSetCpusAllowed k p m).Named p := by
        refine ⟨?_, hp.2⟩
        rw [(doSetCpusAllowed_frame k p m).live]
        exact hp.1
      obtain ⟨hdrain, hloc⟩ := ih (h.doSetCpusAllowed hp m) hnamed
      exact ⟨hdrain, fun q => (hloc q).trans (doSetCpusAllowed_loc ..)⟩

theorem Draining.moveQueuedTask (h : Draining cpu stopper k) {p : Pid} {s : Slot}
    (hs : s ≠ .cls .stop) (hmem : p ∈ (k.rq cpu).queue s) {dest : Nat} (hdest : dest ≠ cpu)
    (hook : Bool) : Draining cpu stopper (moveQueuedTask k p dest hook) ∧
      ∀ q r, q ∈ ((Sched.moveQueuedTask k p dest hook).rq cpu).queue r
        ↔ q ∈ (k.rq cpu).queue r ∧ q ≠ p := by
  obtain ⟨hnamed, hq, -, hoff, hidle⟩ := h.candidate hs hmem
  have hstep : step k (.moveQueuedTask p dest hook)
      = some (Sched.moveQueuedTask k p dest hook) := by
    refine if_pos ⟨hnamed, ?_, ?_⟩
    · simpa [taskOnRqQueued] using hq
    · simp [taskRunningOnCpu, hoff]
  have hinv := inv_step h.inv hstep
  have hlists : ∀ q r, q ∈ ((Sched.moveQueuedTask k p dest hook).rq cpu).queue r
      ↔ q ∈ (k.rq cpu).queue r ∧ q ≠ p := by
    intro q r
    rw [mem_queue_iff hinv, mem_queue_iff h.inv, moveQueuedTask_loc hnamed.1 hidle]
    split
    case isTrue hqp =>
      refine iff_of_false (fun heq => ?_) (fun hand => hand.2 hqp)
      exact hdest (Prod.mk.inj (Option.some.inj heq)).1
    case isFalse hqp => exact (and_iff_left hqp).symm
  refine ⟨h.keep hinv (tasksOk_step h.inv h.ok hstep) (moveQueuedTask_frame ..) ?_, hlists⟩
  intro q
  rw [hlists]
  refine and_iff_left_of_imp ?_
  rintro hstop rfl
  rw [mem_queue_iff h.inv] at hstop hmem
  rw [hmem] at hstop
  exact hs (Prod.mk.inj (Option.some.inj hstop)).2

/-- A turn with work to do moves one task away and keeps the others. -/
theorem migrateTurn_moves (hdown : env.Down cpu) (h : Draining cpu stopper k)
    (hnr : (k.rq cpu).nrRunning ≠ 1) :
    ∃ p k', migrateTurn env k cpu = .again k' ∧ Picked k cpu p ∧ Draining cpu stopper k' ∧
      ∀ q r, q ∈ (k'.rq cpu).queue r ↔ q ∈ (k.rq cpu).queue r ∧ q ≠ p := by
  obtain ⟨p, hpick, hpicked⟩ := pickNextTaskFake_picked env h hnr
  obtain ⟨s, hslot, hmem⟩ := hpicked.slot
  have hs := drainSlots_ne_stop hslot
  obtain ⟨hnamed, hq, hcpu, -, -⟩ := h.candidate hs hmem
  have hgo : ¬ ((k.task p).cpu ≠ cpu ∨ (!taskOnRqQueued (k.task p)) = true) := by
    simp [taskOnRqQueued, hq, hcpu]
  have hwide : Draining cpu stopper (selectFallbackRq env k p).2 := (h.widened hnamed _).1
  have hloc : ∀ q, (selectFallbackRq env k p).2.loc q = k.loc q := (h.widened hnamed _).2
  have hlists : ∀ q r, q ∈ ((selectFallbackRq env k p).2.rq cpu).queue r
      ↔ q ∈ (k.rq cpu).queue r := by
    intro q r
    rw [mem_queue_iff h.inv, mem_queue_iff hwide.inv, hloc q]
  have hallowed := hdown.fallback k p
  have hdest : (selectFallbackRq env k p).1 ≠ cpu := by
    intro heq
    rw [heq, isCpuAllowed, hdown.active, hdown.online] at hallowed
    split_ifs at hallowed
  obtain ⟨hmoved, hmoves⟩ := hwide.moveQueuedTask hs ((hlists p s).mpr hmem) hdest
    (env.hook (selectFallbackRq env k p).2 p)
  refine ⟨p, _, ?_, hpicked, hmoved, fun q r => ?_⟩
  · rw [migrateTurn, if_neg hnr, hpick]
    dsimp only [putPrevTask]
    rw [if_neg hgo]
    exact congrArg Loop.Turn.again (if_neg (by rw [hallowed]; decide))
  · rw [← hlists q r]
    exact hmoves q r

/-- The tasks the loop has still to move. -/
def remaining (k : Kernel) (cpu : Nat) : Finset Pid :=
  (drainSlots.flatMap (k.rq cpu).queue).toFinset

theorem mem_remaining {q : Pid} :
    q ∈ remaining k cpu ↔ ∃ s ∈ drainSlots, q ∈ (k.rq cpu).queue s := by
  rw [remaining, List.mem_toFinset, List.mem_flatMap]

theorem remaining_lt {k' : Kernel} {p : Pid} (hp : Picked k cpu p)
    (hmoves : ∀ q r, q ∈ (k'.rq cpu).queue r ↔ q ∈ (k.rq cpu).queue r ∧ q ≠ p) :
    (remaining k' cpu).card < (remaining k cpu).card := by
  have heq : remaining k' cpu = (remaining k cpu).erase p := by
    ext q
    rw [Finset.mem_erase, mem_remaining, mem_remaining]
    constructor
    · rintro ⟨s, hs, hq⟩
      rw [hmoves] at hq
      exact ⟨hq.2, s, hs, hq.1⟩
    · rintro ⟨hne, s, hs, hq⟩
      exact ⟨s, hs, (hmoves q s).mpr ⟨hq, hne⟩⟩
  rw [heq]
  exact Finset.card_erase_lt_of_mem (mem_remaining.mpr hp.slot)

/-- Whether TS tasks are left behind does not change during the loop. -/
theorem fairOrNoTs_turn {k' : Kernel} {p : Pid} (h : Draining cpu stopper k)
    (hnr : (k.rq cpu).nrRunning ≠ 1) (hp : Picked k cpu p)
    (hmoves : ∀ q r, q ∈ (k'.rq cpu).queue r ↔ q ∈ (k.rq cpu).queue r ∧ q ≠ p) :
    FairOrNoTs (k'.rq cpu) ↔ FairOrNoTs (k.rq cpu) := by
  -- a list that the task was not on is as before, as far as emptiness goes
  have hsame : ∀ r, p ∉ (k.rq cpu).queue r →
      ((k'.rq cpu).queue r = [] ↔ (k.rq cpu).queue r = []) := by
    intro r hr
    rw [List.eq_nil_iff_forall_not_mem, List.eq_nil_iff_forall_not_mem]
    refine forall_congr' fun q => not_congr ?_
    rw [hmoves]
    exact and_iff_left_of_imp fun hq hqp => hr (hqp ▸ hq)
  have honly : ∀ {r s}, p ∈ (k.rq cpu).queue r → s ≠ r → p ∉ (k.rq cpu).queue s := by
    intro r s hr hne hs
    rw [mem_queue_iff h.inv] at hr hs
    rw [hr] at hs
    exact hne (Prod.mk.inj (Option.some.inj hs)).2.symm
  cases hp with
  | @higher c hc hmem =>
      have hts : HasTs (k'.rq cpu) ↔ HasTs (k.rq cpu) :=
        exists_congr fun i => not_congr (hsame _ (honly hmem (by simp)))
      have hfair := hsame (.cls .fair) (honly hmem (by rcases hc with rfl | rfl <;> decide))
      rw [FairOrNoTs, FairOrNoTs, hts, Ne, Ne, hfair]
  | ts _ hdl hrt hmem =>
      rw [Ne, nrRunning_eq_one_iff h] at hnr
      have hne : (k.rq cpu).queue (.cls .fair) ≠ [] := fun hnil => hnr ⟨hdl, hrt, hnil⟩
      have hne' : (k'.rq cpu).queue (.cls .fair) ≠ [] :=
        fun hnil => hne ((hsame _ (honly hmem (by simp))).mp hnil)
      exact iff_of_true (.inr hne') (.inr hne)
  | fair hnone hmem =>
      have hnone' : ¬ HasTs (k'.rq cpu) := by
        rintro ⟨i, hi⟩
        exact hnone ⟨i, fun hnil => hi ((hsame _ (honly hmem (by simp))).mpr hnil)⟩
      exact iff_of_true (.inl hnone') (.inl hnone)

/-- At the end of the loop only TS tasks can be left. -/
theorem drained_iff (h : Draining cpu stopper k) (hnr : (k.rq cpu).nrRunning = 1) :
    Drained k cpu stopper ↔ FairOrNoTs (k.rq cpu) := by
  obtain ⟨hdl, hrt, hfair⟩ := (nrRunning_eq_one_iff h).mp hnr
  have hcond : FairOrNoTs (k.rq cpu) ↔ ¬ HasTs (k.rq cpu) :=
    or_iff_left (not_not_intro hfair)
  rw [hcond]
  constructor
  · rintro hdrained ⟨i, hi⟩
    obtain ⟨p, l, hl⟩ := List.exists_cons_of_ne_nil hi
    have hmem : p ∈ (k.rq cpu).queue (.ts i) := by
      rw [hl]
      exact List.mem_cons_self ..
    obtain rfl := hdrained _ p hmem
    have hoff := (h.candidate (by simp) hmem).2.2.2.1
    exact h.inv.not_current_of_onCpu (h.candidate (by simp) hmem).1.1 hoff cpu h.stopper.curr
  · intro hnone s p hmem
    by_cases hs : s = .cls .stop
    · subst hs
      rw [h.stopper.queue] at hmem
      exact List.mem_singleton.mp hmem
    exfalso
    -- the list is that of the task's class
    obtain ⟨⟨hlive, -⟩, -, -, -, hidle⟩ := h.candidate hs hmem
    have hloc := (mem_queue_iff h.inv).mp hmem
    rw [loc_of_live hlive] at hloc
    obtain ⟨-, -, hslot⟩ := slot_eq_some hloc
    have hslot := (Prod.mk.inj hslot).2
    unfold TaskStruct.queueSlot at hslot
    split_ifs at hslot with hts
    · subst hslot
      exact hnone ⟨_, List.ne_nil_of_mem hmem⟩
    · subst hslot
      generalize (k.task p).schedClass = c at hmem hs hidle hts
      cases c with
      | stop => exact hs rfl
      | dl => exact List.ne_nil_of_mem hmem hdl
      | rt => exact List.ne_nil_of_mem hmem hrt
      | ts => exact hts rfl
      | fair => exact List.ne_nil_of_mem hmem hfair
      | idle => exact hidle rfl

end Turn

/-! ## The loop -/

/-- The loop returns in a state in which only the stopper is counted, and
TS tasks are left in it if and only if they were to be left at the
start. -/
theorem migrateLoop_returns {env : HotplugEnv} {k : Kernel} {cpu : Nat} {stopper : Pid}
    (hdown : env.Down cpu) (h : Draining cpu stopper k) :
    ∃ t, Loop.run (fun k => migrateTurn env k cpu) ((remaining k cpu).card + 1) k
        = some (some t) ∧
      Draining cpu stopper t ∧ (t.rq cpu).nrRunning = 1 ∧
      (FairOrNoTs (t.rq cpu) ↔ FairOrNoTs (k.rq cpu)) := by
  have hkeep : ∀ s s', (Draining cpu stopper s ∧
      (FairOrNoTs (s.rq cpu) ↔ FairOrNoTs (k.rq cpu))) → migrateTurn env s cpu = .again s' →
      (Draining cpu stopper s' ∧ (FairOrNoTs (s'.rq cpu) ↔ FairOrNoTs (k.rq cpu))) ∧
        (remaining s' cpu).card < (remaining s cpu).card := by
    rintro s s' ⟨hs, hcond⟩ hagain
    by_cases hnr : (s.rq cpu).nrRunning = 1
    · rw [migrateTurn, if_pos hnr] at hagain
      exact nomatch hagain
    obtain ⟨p, k', hturn, hpicked, hnext, hmoves⟩ := migrateTurn_moves hdown hs hnr
    rw [hturn] at hagain
    obtain rfl := Loop.Turn.again.inj hagain
    exact ⟨⟨hnext, (fairOrNoTs_turn hs hnr hpicked hmoves).trans hcond⟩,
      remaining_lt hpicked hmoves⟩
  obtain ⟨t, r, ⟨ht, hcond⟩, hdone, hrun⟩ :=
    Loop.run_total hkeep ⟨h, Iff.rfl⟩ (Nat.lt_succ_self (remaining k cpu).card)
  have hnr : (t.rq cpu).nrRunning = 1 := by
    by_contra hnr
    obtain ⟨p, k', hturn, -⟩ := migrateTurn_moves hdown ht hnr
    rw [hturn] at hdone
    exact nomatch hdone
  rw [migrateTurn, if_pos hnr] at hdone
  obtain rfl := Loop.Turn.done.inj hdone
  exact ⟨t, hrun, ht, hnr, hcond⟩

/-- `migrate_tasks` returns, and leaves nothing but the stopper on the
runqueue exactly when no TS task was queued there or some fair task was. -/
theorem migrateTasks_drains_iff {env : HotplugEnv} {k : Kernel} {cpu : Nat} {stopper : Pid}
    (hdown : env.Down cpu) (hinv : Inv k) (hok : TasksOk k) (hstopper : AtStopper k cpu stopper) :
    ∃ fuel k', (∀ n, fuel ≤ n → migrateTasks env k cpu n = some (some k')) ∧
      (Drained k' cpu stopper ↔ FairOrNoTs (k.rq cpu)) := by
  have hrq : (k.modRq cpu fun rq => { rq with stop := none }).rq cpu
      = { k.rq cpu with stop := none } := by simp
  have hstart : Draining cpu stopper (k.modRq cpu fun rq => { rq with stop := none }) := by
    refine ⟨hinv.setStop cpu none, hok, ⟨?_, ?_⟩, by rw [hrq]⟩
    · rw [Kernel.curr, hrq]
      exact hstopper.curr
    · rw [hrq]
      exact hstopper.queue
  obtain ⟨t, hrun, ht, hnr, hcond⟩ := migrateLoop_returns hdown hstart
  refine ⟨(remaining (k.modRq cpu fun rq => { rq with stop := none }) cpu).card + 1,
    t.modRq cpu fun rq => { rq with stop := (k.rq cpu).stop }, fun n hn => ?_, ?_⟩
  · rw [migrateTasks, Loop.run_mono hrun hn]
    rfl
  · rw [hrq] at hcond
    rw [Drained, modRq_rq, Function.update_self]
    exact (drained_iff ht hnr).trans hcond

/-- Two CPUs, the first of them down; every task may go to the second. -/
def twoCpus : HotplugEnv where
  cpuActive cpu := cpu == 1
  cpuOnline cpu := cpu == 1
  isPerCpuKthread _ _ := false
  picks _ _ := ClassPick.head
  hook _ _ := false
  fallbackMasks _ _ := [fun _ => true]
  fallbackCpu _ _ := 1

theorem twoCpus_down : twoCpus.Down 0 := by
  refine ⟨rfl, rfl, fun k p => ?_⟩
  have htask : (doSetCpusAllowed k p fun _ => true).task
      = Function.update k.task p { k.task p with cpusAllowed := fun _ => true } :=
    saveRestore_task k p _ _ restore_no_wakeup
  show isCpuAllowed twoCpus (doSetCpusAllowed k p fun _ => true) 1 p = true
  rw [isCpuAllowed, htask, Function.update_self]
  rfl

/-- The stopper of CPU 0 runs, behind it the tasks `more` starts. -/
def stopperRun (more : List Op) : List Op :=
  [.schedFork 0 0, .schedSetStopTask 0 (some (.proc 0)) SchedEnv.root false] ++ more
    ++ [.wakeUpNewTask (.proc 0) 0 false,
      .schedule 0 true false none false (fun _ => ClassPick.head)]

/-- A TS task is forked and woken. -/
def startTs : List Op :=
  [.schedFork 0 1,
    .schedSetscheduler (.proc 1) (schedCopyAttr (some 10) 0 0 0) false true SchedEnv.root false,
    .wakeUpNewTask (.proc 1) 0 false]

/-- With a fair task queued too, the TS task is moved. -/
theorem migrateTasks_drains_fair : ∃ k k', Reachable k ∧ HasTs (k.rq 0) ∧
    AtStopper k 0 (.proc 0) ∧ (∃ n, migrateTasks twoCpus k 0 n = some (some k')) ∧
    Drained k' 0 (.proc 0) := by
  obtain ⟨k, hk, hcurr, hqueue, hts, hfair⟩ := exists_reachable
    (stopperRun (startTs ++ [.schedFork 0 2, .wakeUpNewTask (.proc 2) 0 false]))
    (P := fun k => k.curr 0 = .proc 0 ∧ (k.rq 0).queue (.cls .stop) = [.proc 0] ∧
      (k.rq 0).queue (.ts 19) = [.proc 1] ∧ (k.rq 0).queue (.cls .fair) = [.proc 2])
    (by decide +kernel)
  have hstopper : AtStopper k 0 (.proc 0) := ⟨hcurr, hqueue⟩
  obtain ⟨n, k', hret, hdrained⟩ :=
    migrateTasks_drains_iff twoCpus_down hk.inv hk.tasksOk hstopper
  refine ⟨k, k', hk, ⟨19, ?_⟩, hstopper, ⟨n, hret n (Nat.le_refl n)⟩,
    hdrained.mpr (.inr ?_)⟩
  · rw [hts]
    exact List.cons_ne_nil _ _
  · rw [hfair]
    exact List.cons_ne_nil _ _

/-- Alone behind the stopper it stays on the dead CPU. -/
theorem migrateTasks_leaves_ts : ∃ k k', Reachable k ∧ twoCpus.Down 0 ∧
    AtStopper k 0 (.proc 0) ∧ migrateTasks twoCpus k 0 1 = some (some k') ∧
    .proc 1 ∈ (k'.rq 0).queue (.ts 19) ∧ ¬ Drained k' 0 (.proc 0) := by
  obtain ⟨k, hk, hcurr, hqueue, hts, hnr⟩ := exists_reachable (stopperRun startTs)
    (P := fun k => k.curr 0 = .proc 0 ∧ (k.rq 0).queue (.cls .stop) = [.proc 0] ∧
      (k.rq 0).queue (.ts 19) = [.proc 1] ∧ (k.rq 0).nrRunning = 1)
    (by decide +kernel)
  have hturn : migrateTurn twoCpus (k.modRq 0 fun rq => { rq with stop := none }) 0
      = .done (some (k.modRq 0 fun rq => { rq with stop := none })) := by
    refine if_pos ?_
    rw [modRq_rq, Function.update_self]
    exact hnr
  have hreturn : migrateTasks twoCpus k 0 1
      = some (some ((k.modRq 0 fun rq => { rq with stop := none }).modRq 0
        fun rq => { rq with stop := (k.rq 0).stop })) := by
    rw [migrateTasks, Loop.run_done hturn]
    rfl
  have hleft : .proc 1 ∈ (((k.modRq 0 fun rq => { rq with stop := none }).modRq 0
      fun rq => { rq with stop := (k.rq 0).stop }).rq 0).queue (.ts 19) := by
    rw [modRq_rq, Function.update_self, modRq_rq, Function.update_self, hts]
    exact List.mem_singleton_self _
  exact ⟨k, _, hk, twoCpus_down, ⟨hcurr, hqueue⟩, hreturn, hleft,
    fun hdrained => nomatch hdrained _ _ hleft⟩

end Sched

end Comp4511
