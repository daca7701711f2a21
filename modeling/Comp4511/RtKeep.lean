import Comp4511.RtTally

/-!
# What the functions of the real-time class keep

The state of a runqueue is described in three parts. `Queues on kept rq` is
about the array and the counts, where `on` are the tasks that are queued
and `kept` is one that is off the runqueue but stays on its list, as in the
middle of a change without `MOVE`. `Pushed S rq` says that
`pushable_tasks` holds the tasks with `S` in the order of their priority.
`Top rq` is about `rt_queued` and `nr_running`, and that no `BUG_ON` has been
met.

There is one lemma for each function and part. `Keeps` is what all
functions of the class leave alone.
-/

namespace Comp4511

namespace Rt

open Sched (Pid SchedClass Policy)

/-! ## The parts -/

def Rq.Listed (rq : Rq) (p : Pid) : Prop := (rq.task p).rt.onList = true

def Rq.Counted (rq : Rq) (p : Pid) : Prop := (rq.task p).rt.onRq = true

def Rq.On (rq : Rq) (p : Pid) : Prop := (rq.task p).onRq = true

structure Queues (on : Pid → Prop) (kept : Option Pid) (rq : Rq) : Prop where
  sound : PrioArray.Sound maxRtPrio rq.prio rq.Listed rq.rt.active
  listed : ∀ p, rq.Listed p ↔ rq.Counted p ∨ kept = some p
  counted : ∀ p, rq.Counted p ↔ rq.isRt p = true ∧ on p
  range : ∀ p, rq.isRt p = true → 0 ≤ rq.prio p ∧ rq.prio p < maxRtPrio
  tally : ∃ C : List Pid, C.Nodup ∧ (∀ p, p ∈ C ↔ rq.Counted p) ∧ rq.tally = tallyOf rq C
  nodup : rq.other.Nodup
  other : ∀ p, p ∈ rq.other ↔ p ≠ rq.idle ∧ on p ∧ rq.isRt p = false

structure Pushed (S : Pid → Prop) (rq : Rq) : Prop where
  sorted : rq.rt.pushableTasks.Pairwise fun p q => rq.prio p ≤ rq.prio q
  nodup : rq.rt.pushableTasks.Nodup
  mem : ∀ p, p ∈ rq.rt.pushableTasks ↔ S p
  next : rq.rt.highestNext = (rq.rt.pushableTasks.head?.map rq.prio).getD maxRtPrio

/-- What the other classes add to `nr_running`. -/
def Rq.otherShare (rq : Rq) : ℕ := (rq.other.map fun p => nrShare (rq.task p).schedClass).sum

structure Top (rq : Rq) : Prop where
  queued : rq.rt.rtQueued = (!rq.rt.rtThrottled && rq.rt.rtNrRunning ≠ 0)
  running : rq.nrRunning = rq.otherShare + if rq.rt.rtQueued then rq.rt.rtNrRunning else 0
  bug : rq.bug = false

/-- What the class reads of a task but does not write. -/
structure Attrs where
  schedClass : SchedClass
  policy : Policy
  prio : ℤ
  nrCpusAllowed : ℕ
  onRq : Bool

def Task.attrs (t : Task) : Attrs := ⟨t.schedClass, t.policy, t.prio, t.nrCpusAllowed, t.onRq⟩

/-- Nothing throttles the class, as after `__disable_runtime`. -/
def Rq.Free (rq : Rq) : Prop := rq.rt.rtRuntime = runtimeInf ∧ rq.rt.rtThrottled = false

structure Keeps (rq rq' : Rq) : Prop where
  attrs : ∀ p, (rq'.task p).attrs = (rq.task p).attrs
  curr : rq'.curr = rq.curr
  idle : rq'.idle = rq.idle
  online : rq'.online = rq.online
  clockTask : rq'.clockTask = rq.clockTask
  free : rq.Free → rq'.Free

/-- Besides, the array, the counts and the other queues are the same. -/
structure Still (rq rq' : Rq) : Prop extends Keeps rq rq' where
  counted : ∀ p, (rq'.task p).rt.onRq = (rq.task p).rt.onRq
  listed : ∀ p, (rq'.task p).rt.onList = (rq.task p).rt.onList
  active : rq'.rt.active = rq.rt.active
  tally : rq'.tally = rq.tally
  other : rq'.other = rq.other

/-- And so is `pushable_tasks`. -/
structure Calm (rq rq' : Rq) : Prop extends Still rq rq' where
  pushable : rq'.rt.pushableTasks = rq.rt.pushableTasks
  next : rq'.rt.highestNext = rq.rt.highestNext

section Frame

variable {rq rq' rq'' : Rq} {on S S' : Pid → Prop} {kept : Option Pid}

theorem Keeps.refl (rq : Rq) : Keeps rq rq := ⟨fun _ => rfl, rfl, rfl, rfl, rfl, id⟩

theorem Keeps.trans (h : Keeps rq rq') (h' : Keeps rq' rq'') : Keeps rq rq'' :=
  ⟨fun p => (h'.attrs p).trans (h.attrs p), h'.curr.trans h.curr, h'.idle.trans h.idle,
    h'.online.trans h.online, h'.clockTask.trans h.clockTask, fun hfree => h'.free (h.free hfree)⟩

theorem Keeps.schedClass (h : Keeps rq rq') (p : Pid) :
    (rq'.task p).schedClass = (rq.task p).schedClass := congrArg Attrs.schedClass (h.attrs p)

theorem Keeps.prio (h : Keeps rq rq') (p : Pid) : rq'.prio p = rq.prio p :=
  congrArg Attrs.prio (h.attrs p)

theorem Keeps.policy (h : Keeps rq rq') (p : Pid) : (rq'.task p).policy = (rq.task p).policy :=
  congrArg Attrs.policy (h.attrs p)

theorem Keeps.nrCpusAllowed (h : Keeps rq rq') (p : Pid) :
    (rq'.task p).nrCpusAllowed = (rq.task p).nrCpusAllowed :=
  congrArg Attrs.nrCpusAllowed (h.attrs p)

theorem Keeps.isRt (h : Keeps rq rq') (p : Pid) : rq'.isRt p = rq.isRt p := by
  rw [Rq.isRt, Rq.isRt, h.schedClass]

theorem Keeps.onRq (h : Keeps rq rq') (p : Pid) : rq'.On p ↔ rq.On p := by
  rw [Rq.On, Rq.On, show (rq'.task p).onRq = (rq.task p).onRq from
    congrArg Attrs.onRq (h.attrs p)]

theorem Still.trans (h : Still rq rq') (h' : Still rq' rq'') : Still rq rq'' :=
  ⟨h.toKeeps.trans h'.toKeeps, fun p => (h'.counted p).trans (h.counted p),
    fun p => (h'.listed p).trans (h.listed p), h'.active.trans h.active, h'.tally.trans h.tally,
    h'.other.trans h.other⟩

theorem Calm.refl (rq : Rq) : Calm rq rq :=
  ⟨⟨.refl rq, fun _ => rfl, fun _ => rfl, rfl, rfl, rfl⟩, rfl, rfl⟩

theorem Calm.trans (h : Calm rq rq') (h' : Calm rq' rq'') : Calm rq rq'' :=
  ⟨h.toStill.trans h'.toStill, h'.pushable.trans h.pushable, h'.next.trans h.next⟩

/-- The tally with the best priority given does not depend on the array. -/
theorem tallyAt_congr (h : Keeps rq rq') (C : List Pid) (best : ℤ) :
    tallyAt rq' C best = tallyAt rq C best := by
  have hmigr : ∀ p, migratory (rq'.task p) = migratory (rq.task p) := fun p => by
    rw [migratory, migratory, h.nrCpusAllowed]
  have hrr : ∀ p, rtSeRrNrRunning (rq'.task p) = rtSeRrNrRunning (rq.task p) := fun p => by
    rw [rtSeRrNrRunning, rtSeRrNrRunning, h.policy]
  simp only [tallyAt, hmigr, hrr, h.online]

theorem tallyOf_congr (h : Keeps rq rq') (hactive : rq'.rt.active = rq.rt.active) (C : List Pid) :
    tallyOf rq' C = tallyOf rq C := by
  rw [tallyOf, tallyOf, tallyAt_congr h, bestOf, bestOf, hactive]

theorem Still.queues (h : Still rq rq') (hq : Queues on kept rq) : Queues on kept rq' where
  sound := by
    rw [h.active]
    refine hq.sound.congr (fun p => ?_) fun p _ => h.prio p
    rw [Rq.Listed, Rq.Listed, h.listed]
  listed p := by
    rw [Rq.Listed, Rq.Counted, h.listed, h.counted]
    exact hq.listed p
  counted p := by
    rw [Rq.Counted, h.counted, h.isRt]
    exact hq.counted p
  range p hp := by
    rw [h.prio]
    exact hq.range p (by rwa [← h.isRt])
  tally := by
    obtain ⟨C, hnodup, hmem, htally⟩ := hq.tally
    refine ⟨C, hnodup, fun p => ?_, ?_⟩
    · rw [hmem, Rq.Counted, Rq.Counted, h.counted]
    · rw [h.tally, htally, tallyOf_congr h.toKeeps h.active]
  nodup := by
    rw [h.other]
    exact hq.nodup
  other p := by
    rw [h.other, h.idle, h.isRt]
    exact hq.other p

theorem Pushed.congr (hpush : Pushed S rq) (hS : ∀ p, S' p ↔ S p)
    (hprio : ∀ p, S p → rq'.prio p = rq.prio p)
    (hlist : rq'.rt.pushableTasks = rq.rt.pushableTasks)
    (hnext : rq'.rt.highestNext = rq.rt.highestNext) : Pushed S' rq' where
  sorted := by
    rw [hlist]
    refine hpush.sorted.imp_of_mem fun {p q} hp hq hle => ?_
    rwa [hprio p ((hpush.mem p).mp hp), hprio q ((hpush.mem q).mp hq)]
  nodup := by
    rw [hlist]
    exact hpush.nodup
  mem p := by rw [hlist, hpush.mem, hS]
  next := by
    rw [hnext, hpush.next, hlist]
    cases hhead : rq.rt.pushableTasks.head? with
    | none => rfl
    | some p => simp [hprio p ((hpush.mem p).mp (List.mem_of_mem_head? hhead))]

theorem Calm.pushed (h : Calm rq rq') (hpush : Pushed S rq) : Pushed S rq' :=
  hpush.congr (fun _ => Iff.rfl) (fun p _ => h.prio p) h.pushable h.next

theorem otherShare_congr (h : Keeps rq rq') (hother : rq'.other = rq.other) :
    rq'.otherShare = rq.otherShare := by
  rw [Rq.otherShare, Rq.otherShare, hother]
  exact congrArg List.sum (List.map_congr_left fun p _ => by rw [h.schedClass])

end Frame

/-! ## Single writes -/

section Writes

variable {rq : Rq} {p : Pid}

/-- A write to one task. -/
theorem calm_mod {f : Task → Task} (hattrs : ∀ t, (f t).attrs = t.attrs)
    (hrq : ∀ t, (f t).rt.onRq = t.rt.onRq) (hlist : ∀ t, (f t).rt.onList = t.rt.onList) (rq : Rq)
    (p : Pid) : Calm rq (rq.mod p f) := by
  have htask : ∀ {α : Type} (g : Task → α), (∀ t, g (f t) = g t) →
      ∀ q, g ((rq.mod p f).task q) = g (rq.task q) := by
    intro α g hg q
    by_cases hq : q = p
    · rw [hq, mod_task_self, hg]
    · rw [mod_task_of_ne rq f hq]
  exact ⟨⟨⟨htask Task.attrs hattrs, rfl, rfl, rfl, rfl, id⟩, htask (·.rt.onRq) hrq,
    htask (·.rt.onList) hlist, rfl, rfl, rfl⟩, rfl, rfl⟩

theorem calm_reschedCurr (rq : Rq) : Calm rq (reschedCurr rq) :=
  calm_mod (f := fun t => { t with needResched := true }) (fun _ => rfl) (fun _ => rfl)
    (fun _ => rfl) rq rq.curr

theorem calm_dequeueTopRtRq (rq : Rq) : Calm rq (dequeueTopRtRq rq) := by
  unfold dequeueTopRtRq
  split
  · exact .refl rq
  · exact ⟨⟨⟨fun _ => rfl, rfl, rfl, rfl, rfl, id⟩, fun _ => rfl, fun _ => rfl, rfl, rfl, rfl⟩, rfl, rfl⟩

theorem calm_enqueueTopRtRq (rq : Rq) : Calm rq (enqueueTopRtRq rq) := by
  unfold enqueueTopRtRq
  split_ifs
  · exact .refl rq
  · exact .refl rq
  · exact ⟨⟨⟨fun _ => rfl, rfl, rfl, rfl, rfl, id⟩, fun _ => rfl, fun _ => rfl, rfl, rfl, rfl⟩, rfl, rfl⟩
  · exact .refl rq

/-- Writes to the fields of the bandwidth. -/
theorem calm_modRt {rq : Rq} {f : RtRq → RtRq} (hf : ∃ throttled time runtime, f rq.rt =
    { rq.rt with rtThrottled := throttled, rtTime := time, rtRuntime := runtime })
    (hfree : rq.Free → (rq.modRt f).Free) : Calm rq (rq.modRt f) := by
  obtain ⟨throttled, time, runtime, hf⟩ := hf
  rw [Rq.modRt, hf] at hfree ⊢
  exact ⟨⟨⟨fun _ => rfl, rfl, rfl, rfl, rfl, hfree⟩, fun _ => rfl, fun _ => rfl, rfl, rfl, rfl⟩,
    rfl, rfl⟩

theorem calm_balanceRuntime (e : Env) (h : ¬ rq.Free) : Calm rq (rq.modRt (balanceRuntime e)) := by
  refine calm_modRt ⟨rq.rt.rtThrottled, rq.rt.rtTime, (balanceRuntime e rq.rt).rtRuntime, ?_⟩
    fun hfree => absurd hfree h
  unfold balanceRuntime
  split_ifs <;> rfl

theorem calm_schedRtRqEnqueue (rq : Rq) : Calm rq (schedRtRqEnqueue rq) := by
  unfold schedRtRqEnqueue
  split
  · exact .refl rq
  · exact (calm_enqueueTopRtRq rq).trans (calm_reschedCurr _)

theorem calm_schedRtRuntimeExceeded (e : Env) (h : rq.rt.rtRuntime ≠ runtimeInf) :
    Calm rq (schedRtRuntimeExceeded e rq).2 := by
  have hbalance : Calm rq (rq.modRt (balanceRuntime e)) :=
    calm_balanceRuntime e fun hfree => h hfree.1
  unfold schedRtRuntimeExceeded
  dsimp only
  split_ifs with hthrottled hperiod hinf hover hruntime
  · exact .refl rq
  · exact .refl rq
  · exact hbalance
  · exact (hbalance.trans (calm_modRt ⟨_, _, _, rfl⟩ fun hfree => absurd hfree.1 hinf)).trans
      (calm_dequeueTopRtRq _)
  · exact hbalance.trans (calm_modRt (f := fun rt => { rt with rtTime := 0 }) ⟨_, _, _, rfl⟩ id)
  · exact hbalance

theorem calm_updateCurrRt (e : Env) (rq : Rq) : Calm rq (updateCurrRt e rq) := by
  unfold updateCurrRt
  dsimp only
  split_ifs with hrt hclock henabled hinf
  · exact .refl rq
  · exact .refl rq
  · exact calm_mod (by intro t; rfl) (by intro t; rfl) (by intro t; rfl) rq rq.curr
  · exact calm_mod (by intro t; rfl) (by intro t; rfl) (by intro t; rfl) rq rq.curr
  · have hexec : Calm rq (rq.mod rq.curr fun t => { t with
        sumExecRuntime := t.sumExecRuntime + (rq.clockTask - (rq.task rq.curr).execStart)
        execStart := rq.clockTask }) :=
      calm_mod (by intro t; rfl) (by intro t; rfl) (by intro t; rfl) rq rq.curr
    have htime := hexec.trans (calm_modRt (f := fun rt => { rt with
      rtTime := rt.rtTime + (rq.clockTask - (rq.task rq.curr).execStart) }) ⟨_, _, _, rfl⟩ id)
    have hexceeded := htime.trans (calm_schedRtRuntimeExceeded e hinf)
    split
    · next rq' heq =>
        rw [heq] at hexceeded
        exact hexceeded.trans (calm_reschedCurr rq')
    · next rq' heq =>
        rw [heq] at hexceeded
        exact hexceeded

end Writes

/-! ## `nr_running` -/

section Top

variable {rq rq' : Rq}

/-- The tasks of the class are in `nr_running` just while they are queued. -/
def Rq.Adds (rq : Rq) : Prop :=
  rq.nrRunning = rq.otherShare + if rq.rt.rtQueued then rq.rt.rtNrRunning else 0

/-- They may be queued but are not. -/
def Rq.Loose (rq : Rq) : Prop :=
  rq.Adds ∧ (rq.rt.rtQueued = true → rq.rt.rtThrottled = false ∧ rq.rt.rtNrRunning ≠ 0)

theorem Top.loose (h : Top rq) : rq.Loose := by
  refine ⟨h.running, fun hqueued => ?_⟩
  have heq := h.queued
  rw [hqueued] at heq
  simpa using heq.symm

theorem Still.rtNrRunning (h : Still rq rq') : rq'.rt.rtNrRunning = rq.rt.rtNrRunning :=
  congrArg Tally.rtNrRunning h.tally

theorem Still.otherShare (h : Still rq rq') : rq'.otherShare = rq.otherShare :=
  otherShare_congr h.toKeeps h.other

theorem Still.adds (h : Still rq rq') (hadds : rq.Adds) (hqueued : rq'.rt.rtQueued = rq.rt.rtQueued)
    (hnr : rq'.nrRunning = rq.nrRunning) : rq'.Adds := by
  rw [Rq.Adds, hnr, h.otherShare, hqueued, h.rtNrRunning]
  exact hadds

theorem Still.top (h : Still rq rq') (htop : Top rq) (hqueued : rq'.rt.rtQueued = rq.rt.rtQueued)
    (hthrottled : rq'.rt.rtThrottled = rq.rt.rtThrottled) (hnr : rq'.nrRunning = rq.nrRunning)
    (hbug : rq'.bug = rq.bug) : Top rq' where
  queued := by
    rw [hqueued, hthrottled, h.rtNrRunning]
    exact htop.queued
  running := h.adds htop.running hqueued hnr
  bug := hbug.trans htop.bug

/-- Nothing of the class is in `nr_running` after `dequeue_top_rt_rq`. -/
theorem bare_dequeueTopRtRq (h : rq.Adds) :
    (dequeueTopRtRq rq).rt.rtQueued = false ∧
      (dequeueTopRtRq rq).nrRunning = (dequeueTopRtRq rq).otherShare := by
  rw [(calm_dequeueTopRtRq rq).otherShare]
  rw [Rq.Adds] at h
  unfold dequeueTopRtRq
  cases hqueued : rq.rt.rtQueued with
  | false => simp [hqueued, h]
  | true => simp [hqueued, h, subNrRunning, bugOn, Rq.modRt]

/-- While the class is queued it has running tasks, and these are in
`nr_running`. -/
theorem bug_dequeueTopRtRq (h : rq.Adds)
    (hqueued : rq.rt.rtQueued = true → rq.rt.rtNrRunning ≠ 0) (hbug : rq.bug = false) :
    (dequeueTopRtRq rq).bug = false := by
  unfold dequeueTopRtRq
  cases hq : rq.rt.rtQueued with
  | false => exact hbug
  | true =>
      have hrun := hqueued hq
      rw [Rq.Adds, hq, if_pos rfl] at h
      have hnr : rq.nrRunning ≠ 0 := by omega
      simp [bugOn, subNrRunning, Rq.modRt, hbug, hnr]

theorem Top.bug_dequeued (h : Top rq) : (dequeueTopRtRq rq).bug = false :=
  bug_dequeueTopRtRq h.running (fun hq => (h.loose.2 hq).2) h.bug

theorem loose_of_bare (hqueued : rq.rt.rtQueued = false) (hnr : rq.nrRunning = rq.otherShare) :
    rq.Loose := by
  refine ⟨?_, fun h => ?_⟩
  · rw [Rq.Adds, hnr, hqueued]
    simp
  · rw [hqueued] at h
    cases h

theorem top_enqueueTopRtRq (h : rq.Loose) (hbug : rq.bug = false) : Top (enqueueTopRtRq rq) := by
  obtain ⟨hadds, hqueued⟩ := h
  have hshare := (calm_enqueueTopRtRq rq).otherShare
  unfold enqueueTopRtRq at hshare ⊢
  cases hq : rq.rt.rtQueued with
  | true =>
      obtain ⟨hthrottled, hrun⟩ := hqueued hq
      refine ⟨?_, hadds, hbug⟩
      simp [hq, hthrottled, hrun]
  | false =>
      rw [Rq.Adds, hq] at hadds
      simp only [hq, Bool.false_eq_true, if_false, Nat.add_zero] at hadds hshare ⊢
      split_ifs at hshare ⊢ with hthrottled hrun
      · exact ⟨by simp [hq, hthrottled], by simp [hq, hadds], hbug⟩
      · refine ⟨?_, ?_, hbug⟩
        · simp [Rq.modRt, addNrRunning, hthrottled, hrun]
        · rw [hshare]
          simp [Rq.modRt, addNrRunning, hadds]
      · refine ⟨?_, by simp [hq, hadds], hbug⟩
        simp [hq, not_not.mp hrun]

theorem top_schedRtRqEnqueue (h : rq.Loose) (hbug : rq.bug = false) :
    Top (schedRtRqEnqueue rq) := by
  unfold schedRtRqEnqueue
  split
  · next hrun =>
      have hqueued : rq.rt.rtQueued = false := by
        by_contra hq
        exact (h.2 (Bool.not_eq_false _ ▸ hq)).2 hrun
      exact ⟨by simp [hqueued, hrun], h.1, hbug⟩
  · exact (calm_reschedCurr _).top (top_enqueueTopRtRq h hbug) rfl rfl rfl rfl

theorem balanceRuntime_eq (e : Env) (rt : RtRq) :
    ∃ runtime, balanceRuntime e rt = { rt with rtRuntime := runtime } := by
  unfold balanceRuntime
  split_ifs
  · exact ⟨_, rfl⟩
  · exact ⟨_, rfl⟩
  · exact ⟨_, rfl⟩

theorem top_schedRtRuntimeExceeded (e : Env) (h : Top rq) :
    Top (schedRtRuntimeExceeded e rq).2 := by
  have htop : Top (rq.modRt (balanceRuntime e)) := by
    obtain ⟨runtime, heq⟩ := balanceRuntime_eq e rq.rt
    rw [Rq.modRt, heq]
    exact ⟨h.queued, h.running, h.bug⟩
  unfold schedRtRuntimeExceeded
  dsimp only
  split_ifs
  · exact h
  · exact h
  · exact htop
  · have hadds : ((rq.modRt (balanceRuntime e)).modRt fun rt =>
        { rt with rtThrottled := true }).Adds := htop.running
    obtain ⟨hqueued, hnr⟩ := bare_dequeueTopRtRq hadds
    refine ⟨?_, (loose_of_bare hqueued hnr).1,
      bug_dequeueTopRtRq hadds (fun hq => (htop.loose.2 hq).2) htop.bug⟩
    -- throttled, so that it stays off
    have hthrottled : ∀ rq : Rq, (dequeueTopRtRq rq).rt.rtThrottled = rq.rt.rtThrottled := by
      intro rq
      unfold dequeueTopRtRq
      split <;> rfl
    rw [hqueued, hthrottled]
    rfl
  · exact ⟨htop.queued, htop.running, htop.bug⟩
  · exact htop

theorem top_updateCurrRt (e : Env) (h : Top rq) : Top (updateCurrRt e rq) := by
  have hexec : ∀ f : Task → Task, (∀ t, (f t).attrs = t.attrs) →
      (∀ t, (f t).rt.onRq = t.rt.onRq) → (∀ t, (f t).rt.onList = t.rt.onList) →
        Top (rq.mod rq.curr f) := fun f hattrs hrq hlist =>
    (calm_mod hattrs hrq hlist rq rq.curr).top h rfl rfl rfl rfl
  unfold updateCurrRt
  dsimp only
  split_ifs
  · exact h
  · exact h
  · exact hexec _ (fun _ => rfl) (fun _ => rfl) (fun _ => rfl)
  · exact hexec _ (fun _ => rfl) (fun _ => rfl) (fun _ => rfl)
  · have htime := (calm_modRt (f := fun rt => { rt with
      rtTime := rt.rtTime + (rq.clockTask - (rq.task rq.curr).execStart) }) ⟨_, _, _, rfl⟩ id).top
        (hexec (fun t => { t with
          sumExecRuntime := t.sumExecRuntime + (rq.clockTask - (rq.task rq.curr).execStart)
          execStart := rq.clockTask }) (fun _ => rfl) (fun _ => rfl) (fun _ => rfl)) rfl rfl rfl rfl
    have hexceeded := top_schedRtRuntimeExceeded e htime
    split
    · next rq' heq =>
        rw [heq] at hexceeded
        exact (calm_reschedCurr rq').top hexceeded rfl rfl rfl rfl
    · next rq' heq =>
        rw [heq] at hexceeded
        exact hexceeded

end Top

/-! ## Enqueue and dequeue -/

/-- What linking and counting an entity do not touch. -/
structure Rest where
  pushableTasks : List Pid
  highestNext : ℤ
  rtQueued : Bool
  rtThrottled : Bool
  rtTime : ℕ
  rtRuntime : ℕ
  nrRunning : ℕ
  other : List Pid
  bug : Bool

def Rq.rest (rq : Rq) : Rest :=
  ⟨rq.rt.pushableTasks, rq.rt.highestNext, rq.rt.rtQueued, rq.rt.rtThrottled, rq.rt.rtTime,
    rq.rt.rtRuntime, rq.nrRunning, rq.other, rq.bug⟩

section Entities

variable {rq : Rq} {on : Pid → Prop} {kept : Option Pid} {p : Pid} {flags : ℕ}

/-- The entity of one task written, and the array. -/
def Rq.entity (rq : Rq) (p : Pid) (onRq onList : Bool) (A : PrioArray Pid) : Rq :=
  (rq.modRt fun rt => { rt with active := A }).mod p fun t => { t with
    rt := { t.rt with onRq := onRq, onList := onList } }

theorem keeps_entity (rq : Rq) (p : Pid) (onRq onList : Bool) (A : PrioArray Pid) :
    Keeps rq (rq.entity p onRq onList A) := by
  refine ⟨fun q => ?_, rfl, rfl, rfl, rfl, id⟩
  by_cases hq : q = p
  · rw [hq, Rq.entity, mod_task_self]
    rfl
  · rw [Rq.entity, mod_task_of_ne _ _ hq]
    rfl

theorem counted_entity (rq : Rq) (p : Pid) (onRq onList : Bool) (A : PrioArray Pid) (q : Pid) :
    (rq.entity p onRq onList A).Counted q ↔ if q = p then onRq = true else rq.Counted q := by
  by_cases hq : q = p
  · rw [if_pos hq, hq, Rq.Counted, Rq.entity, mod_task_self]
  · rw [if_neg hq, Rq.Counted, Rq.entity, mod_task_of_ne _ _ hq]
    rfl

theorem listed_entity (rq : Rq) (p : Pid) (onRq onList : Bool) (A : PrioArray Pid) (q : Pid) :
    (rq.entity p onRq onList A).Listed q ↔ if q = p then onList = true else rq.Listed q := by
  by_cases hq : q = p
  · rw [if_pos hq, hq, Rq.Listed, Rq.entity, mod_task_self]
  · rw [if_neg hq, Rq.Listed, Rq.entity, mod_task_of_ne _ _ hq]
    rfl

/-- The array with an entity linked at its level. -/
def linked (A : PrioArray Pid) (prio : ℤ) (p : Pid) (flags : ℕ) : PrioArray Pid :=
  (if flags &&& Sched.enqueueHead ≠ 0 then A.addHead prio p else A.addTail prio p).setBit prio

/-- The array with an entity taken out. -/
def unlinked (A : PrioArray Pid) (prio : ℤ) (p : Pid) : PrioArray Pid :=
  if (A.del p).queue prio = [] then (A.del p).clearBit prio else A.del p

theorem enqueueRtEntityCore_eq (b : Bandwidth) (rq : Rq) (p : Pid) (flags : ℕ) :
    enqueueRtEntityCore b rq p flags =
      incRtTasks b (rq.entity p true (moveEntity flags || (rq.task p).rt.onList)
        (if moveEntity flags then linked rq.rt.active (rq.prio p) p flags else rq.rt.active)) p := by
  rw [enqueueRtEntityCore]
  cases hmove : moveEntity flags with
  | true =>
      simp only [if_true, Bool.true_or]
      rw [listRtEntity, mod_mod]
      rfl
  | false => rfl

theorem dequeueRtEntityCore_eq (rq : Rq) (p : Pid) (flags : ℕ) :
    dequeueRtEntityCore rq p flags =
      decRtTasks (rq.entity p false (!moveEntity flags && (rq.task p).rt.onList)
        (if moveEntity flags then unlinked rq.rt.active (rq.prio p) p else rq.rt.active)) p := by
  rw [dequeueRtEntityCore]
  cases hmove : moveEntity flags with
  | true =>
      simp only [if_true, Bool.not_true, Bool.false_and]
      rw [delistRtEntity, mod_mod]
      rfl
  | false => rfl

theorem tally_entity (rq : Rq) (p : Pid) (onRq onList : Bool) (A : PrioArray Pid) :
    (rq.entity p onRq onList A).tally = rq.tally := rfl

/-- Off the runqueue but for its list. -/
def Ready (flags : ℕ) (kept : Option Pid) (p : Pid) : Prop :=
  moveEntity flags = true ∧ kept = none ∨ moveEntity flags = false ∧ kept = some p

theorem Queues.soundLinked (h : Queues on kept rq) (hp : rq.isRt p = true) (hout : ¬ rq.Listed p)
    (flags : ℕ) :
    PrioArray.Sound maxRtPrio rq.prio (fun q => rq.Listed q ∨ q = p)
      (linked rq.rt.active (rq.prio p) p flags) := by
  unfold linked
  split
  · exact h.sound.addHead hout (h.range p hp)
  · exact h.sound.addTail hout (h.range p hp)

/-- With all entities counted the best priority is the first in the array. -/
theorem Queues.bestOf_eq (h : Queues on none rq) {C : List Pid}
    (hmem : ∀ q, q ∈ C ↔ rq.Counted q) : bestOf rq C = schedFindFirstBit rq.rt.active := by
  unfold bestOf
  split
  · next hnil =>
      rcases h.sound.find with ⟨x, hx, -⟩ | ⟨-, hfirst, -⟩
      · have hlisted := h.sound.mem_order.mp (List.mem_of_mem_head? hx)
        have hin := (hmem x).mpr (((h.listed x).mp hlisted).resolve_right (Option.some_ne_none _).symm)
        rw [hnil] at hin
        exact absurd hin List.not_mem_nil
      · exact hfirst.symm
  · rfl

/-- The array once the entity is on its list, and its first level. -/
theorem Queues.soundReady (h : Queues on kept rq) (hp : rq.isRt p = true) (hout : ¬ rq.Counted p)
    (hready : Ready flags kept p) {C : List Pid} (hmem : ∀ q, q ∈ C ↔ rq.Counted q) :
    let A := if moveEntity flags then linked rq.rt.active (rq.prio p) p flags else rq.rt.active
    PrioArray.Sound maxRtPrio rq.prio (fun q => rq.Counted q ∨ q = p) A ∧
      schedFindFirstBit A = min (rq.prio p) (bestOf rq C) := by
  rcases hready with ⟨hmove, rfl⟩ | ⟨hmove, rfl⟩
  · have hlisted : ∀ q, rq.Listed q ↔ rq.Counted q := fun q => by simp [h.listed q]
    have hlinked := h.soundLinked hp (fun hl => hout ((hlisted p).mp hl)) flags
    rw [h.bestOf_eq hmem]
    simp only [hmove, if_true]
    refine ⟨hlinked.congr (fun q => by rw [hlisted]) fun _ _ => rfl, ?_⟩
    exact h.sound.findFirst_link hlinked
  · have hlisted : ∀ q, rq.Listed q ↔ rq.Counted q ∨ q = p := fun q => by
      rw [h.listed q, Option.some.injEq, eq_comm (a := p)]
    simp only [hmove, Bool.false_eq_true, if_false]
    refine ⟨h.sound.congr (fun q => (hlisted q).symm) fun _ _ => rfl, ?_⟩
    have hle := h.sound.findFirst_le ((hlisted p).mpr (.inr rfl))
    unfold bestOf
    split
    · next hnil =>
        rw [min_eq_left (h.range p hp).2.le]
        refine le_antisymm hle ?_
        rcases h.sound.find with ⟨x, hx, hfirst, -⟩ | ⟨-, hfirst, -⟩
        · have hx := (hlisted x).mp (h.sound.mem_order.mp (List.mem_of_mem_head? hx))
          have hx : x = p := hx.resolve_left fun hc => by
            have hin := (hmem x).mpr hc
            rw [hnil] at hin
            exact absurd hin List.not_mem_nil
          rw [schedFindFirstBit, hfirst, hx]
        · rw [schedFindFirstBit, hfirst]
          exact (h.range p hp).2.le
    · exact (min_eq_right hle).symm

/-- The queues with one task more or less, once its entity and the array are
written and the tasks counted again. -/
theorem Queues.recount {rq₁ : Rq} {on' : Pid → Prop} {kept' : Option Pid} {C : List Pid}
    (h : Queues on kept rq) (hkeeps : Keeps rq rq₁) (hother : rq₁.other = rq.other)
    (hsound : PrioArray.Sound maxRtPrio rq.prio rq₁.Listed rq₁.rt.active)
    (hlisted : ∀ q, rq₁.Listed q ↔ rq₁.Counted q ∨ kept' = some q)
    (hcounted : ∀ q, rq₁.Counted q ↔ rq.isRt q = true ∧ on' q)
    (hsame : ∀ q, rq.isRt q = false → (on' q ↔ on q))
    (hnodup : C.Nodup) (hmem : ∀ q, q ∈ C ↔ rq₁.Counted q) (active : Bool) :
    Queues on' kept' { rq₁.withTally (tallyOf rq₁ C) with rtPeriodActive := active } where
  sound := hsound.congr (fun _ => Iff.rfl) fun q _ => hkeeps.prio q
  listed := hlisted
  counted q := by
    show rq₁.Counted q ↔ rq₁.isRt q = true ∧ on' q
    rw [hcounted, hkeeps.isRt]
  range q hq := by
    show 0 ≤ rq₁.prio q ∧ rq₁.prio q < maxRtPrio
    have hq : rq₁.isRt q = true := hq
    rw [hkeeps.prio]
    rw [hkeeps.isRt] at hq
    exact h.range q hq
  tally := by
    refine ⟨C, hnodup, hmem, ?_⟩
    exact (@tallyOf_congr rq₁ _ ⟨fun _ => rfl, rfl, rfl, rfl, rfl, id⟩ rfl C).symm
  nodup := by
    show rq₁.other.Nodup
    rw [hother]
    exact h.nodup
  other q := by
    show q ∈ rq₁.other ↔ q ≠ rq₁.idle ∧ on' q ∧ rq₁.isRt q = false
    rw [hother, hkeeps.idle, hkeeps.isRt, h.other]
    exact and_congr_right fun _ => and_congr_left fun hq => (hsame q hq).symm

/-- A task that comes to the runqueue. -/
theorem Queues.enqueueCore (h : Queues on kept rq) (hp : rq.isRt p = true) (hon : ¬ on p)
    (hready : Ready flags kept p) (b : Bandwidth) :
    Queues (fun q => on q ∨ q = p) none (enqueueRtEntityCore b rq p flags) ∧
      Keeps rq (enqueueRtEntityCore b rq p flags) ∧
      (enqueueRtEntityCore b rq p flags).rest = rq.rest := by
  obtain ⟨C, hnodup, hmem, htally⟩ := h.tally
  have hout : ¬ rq.Counted p := fun hc => hon ((h.counted p).mp hc).2
  obtain ⟨hsound, hfirst⟩ := h.soundReady hp hout hready hmem
  rw [enqueueRtEntityCore_eq]
  generalize hA : (if moveEntity flags then linked rq.rt.active (rq.prio p) p flags
    else rq.rt.active) = A at hsound hfirst
  generalize hlist : (moveEntity flags || (rq.task p).rt.onList) = onList
  have honList : onList = true := by
    rcases hready with ⟨hmove, -⟩ | ⟨hmove, rfl⟩
    · rw [← hlist, hmove]
      rfl
    · rw [← hlist, hmove]
      exact (h.listed p).mpr (.inr rfl)
  obtain ⟨rq₁, hrq₁⟩ : ∃ rq₁, rq₁ = rq.entity p true onList A := ⟨_, rfl⟩
  have hkeeps : Keeps rq rq₁ := hrq₁ ▸ keeps_entity rq p true onList A
  have hcounted : ∀ q, rq₁.Counted q ↔ rq.Counted q ∨ q = p := fun q => by
    rw [hrq₁, counted_entity]
    by_cases hq : q = p <;> simp [hq]
  have hlisted : ∀ q, rq₁.Listed q ↔ rq.Counted q ∨ q = p := fun q => by
    rw [hrq₁, listed_entity, honList]
    by_cases hq : q = p
    · simp [hq]
    · rw [if_neg hq, h.listed]
      rcases hready with ⟨-, rfl⟩ | ⟨-, rfl⟩
      · simp [hq]
      · simp [hq, eq_comm (a := p)]
  have hactive : rq₁.rt.active = A := by
    rw [hrq₁]
    rfl
  have hinc := @incRtTasks_eq rq₁ p C (bestOf rq C) b
    (by rw [hrq₁, tally_entity, htally, tallyOf, tallyAt_congr (keeps_entity ..)])
    (by rw [hactive, hkeeps.prio, hfirst])
  rw [← hrq₁, hinc]
  have hother : rq₁.other = rq.other := by
    rw [hrq₁]
    rfl
  have hsame : ∀ q, rq.isRt q = false → (on q ∨ q = p ↔ on q) := fun q hq =>
    or_iff_left fun heq => by
      rw [heq, hp] at hq
      cases hq
  refine ⟨h.recount hkeeps hother ?_ (fun q => ?_) (fun q => ?_) hsame
    (List.nodup_cons.mpr ⟨fun hin => hout ((hmem p).mp hin), hnodup⟩) (fun q => ?_) _,
    ⟨hkeeps.attrs, hkeeps.curr, hkeeps.idle, hkeeps.online, hkeeps.clockTask, hkeeps.free⟩, ?_⟩
  · rw [hactive]
    exact hsound.congr hlisted fun _ _ => rfl
  · rw [hlisted, hcounted]
    simp
  · rw [hcounted, h.counted]
    constructor
    · rintro (⟨hq, hq'⟩ | rfl)
      · exact ⟨hq, .inl hq'⟩
      · exact ⟨hp, .inr rfl⟩
    · rintro ⟨hq, hq' | rfl⟩
      · exact .inl ⟨hq, hq'⟩
      · exact .inr rfl
  · rw [hcounted, List.mem_cons, hmem, or_comm]
  · show rq₁.rest = rq.rest
    rw [hrq₁]
    rfl

/-- A task that leaves the runqueue; without a move it stays on its list. -/
theorem Queues.dequeueCore (h : Queues on none rq) (hp : rq.isRt p = true) (hon : on p)
    (flags : ℕ) :
    Queues (fun q => on q ∧ q ≠ p) (if moveEntity flags then none else some p)
        (dequeueRtEntityCore rq p flags) ∧
      Keeps rq (dequeueRtEntityCore rq p flags) ∧
      (dequeueRtEntityCore rq p flags).rest = rq.rest := by
  obtain ⟨C, hnodup, hmem, htally⟩ := h.tally
  have hin : rq.Counted p := (h.counted p).mpr ⟨hp, hon⟩
  have hlisted₀ : ∀ q, rq.Listed q ↔ rq.Counted q := fun q => by simp [h.listed q]
  have hunlinked : PrioArray.Sound maxRtPrio rq.prio (fun q => rq.Listed q ∧ q ≠ p)
      (unlinked rq.rt.active (rq.prio p) p) := h.sound.del ((hlisted₀ p).mpr hin)
  rw [dequeueRtEntityCore_eq]
  generalize hA : (if moveEntity flags then unlinked rq.rt.active (rq.prio p) p
    else rq.rt.active) = A
  generalize hlist : (!moveEntity flags && (rq.task p).rt.onList) = onList
  obtain ⟨rq₁, hrq₁⟩ : ∃ rq₁, rq₁ = rq.entity p false onList A := ⟨_, rfl⟩
  have hkeeps : Keeps rq rq₁ := hrq₁ ▸ keeps_entity rq p false onList A
  have hcounted : ∀ q, rq₁.Counted q ↔ rq.Counted q ∧ q ≠ p := fun q => by
    rw [hrq₁, counted_entity]
    by_cases hq : q = p <;> simp [hq]
  have hactive : rq₁.rt.active = A := by
    rw [hrq₁]
    rfl
  have hother : rq₁.other = rq.other := by
    rw [hrq₁]
    rfl
  -- with a move the entity leaves the array, without one it stays there
  obtain ⟨hsound, hfirst, hlisted⟩ : PrioArray.Sound maxRtPrio rq.prio rq₁.Listed A ∧
      (rq.prio p ≠ bestOf rq C → schedFindFirstBit A = bestOf rq C) ∧
      ∀ q, rq₁.Listed q ↔
        rq₁.Counted q ∨ (if moveEntity flags then none else some p) = some q := by
    rw [h.bestOf_eq hmem]
    cases hmove : moveEntity flags with
    | true =>
        simp only [hmove, if_true, Bool.not_true, Bool.false_and] at hA hlist ⊢
        have hlisted : ∀ q, rq₁.Listed q ↔ rq.Listed q ∧ q ≠ p := fun q => by
          rw [hrq₁, listed_entity, ← hlist]
          by_cases hq : q = p <;> simp [hq]
        refine ⟨hA ▸ hunlinked.congr hlisted fun _ _ => rfl, fun hne => ?_, fun q => ?_⟩
        · rw [← hA]
          exact h.sound.findFirst_unlink hunlinked ((hlisted₀ p).mpr hin) hne
        · rw [hlisted, hcounted, hlisted₀]
          simp
    | false =>
        simp only [hmove, Bool.false_eq_true, if_false, Bool.not_false, Bool.true_and]
          at hA hlist ⊢
        have hsame : ∀ q, rq₁.Listed q ↔ rq.Listed q := fun q => by
          rw [hrq₁, listed_entity, ← hlist]
          by_cases hq : q = p
          · rw [if_pos hq, hq]
            rfl
          · rw [if_neg hq]
        refine ⟨hA ▸ h.sound.congr hsame fun _ _ => rfl, fun _ => by rw [← hA], fun q => ?_⟩
        rw [hsame, hlisted₀, hcounted, Option.some.injEq]
        constructor
        · intro hq
          by_cases heq : q = p
          · exact .inr heq.symm
          · exact .inl ⟨hq, heq⟩
        · rintro (⟨hq, -⟩ | rfl)
          · exact hq
          · exact hin
  have hdec := @decRtTasks_eq rq₁ p C (bestOf rq C)
    (by rw [hrq₁, tally_entity, htally, tallyOf, tallyAt_congr (keeps_entity ..)])
    ((hmem p).mpr hin) (by rw [hactive, hkeeps.prio]; exact hfirst)
  rw [← hrq₁, hdec]
  have hsame : ∀ q, rq.isRt q = false → (on q ∧ q ≠ p ↔ on q) := fun q hq =>
    and_iff_left fun heq => by
      rw [heq, hp] at hq
      cases hq
  refine ⟨h.recount hkeeps hother ?_ hlisted (fun q => ?_) hsame (hnodup.erase p) (fun q => ?_) _,
    ⟨hkeeps.attrs, hkeeps.curr, hkeeps.idle, hkeeps.online, hkeeps.clockTask, hkeeps.free⟩, ?_⟩
  · rw [hactive]
    exact hsound
  · rw [hcounted, h.counted, and_assoc]
  · rw [hcounted, hnodup.mem_erase_iff, hmem, and_comm]
  · show rq₁.rest = rq.rest
    rw [hrq₁]
    rfl

end Entities

/-! ## The tasks that can be pushed -/

section Pushable

variable {rq : Rq} {S : Pid → Prop} {p : Pid}

theorem still_enqueuePushableTask (rq : Rq) (p : Pid) : Still rq (enqueuePushableTask rq p) := by
  unfold enqueuePushableTask
  dsimp only
  split <;>
    exact ⟨⟨fun _ => rfl, rfl, rfl, rfl, rfl, id⟩, fun _ => rfl, fun _ => rfl, rfl, rfl, rfl⟩

theorem still_dequeuePushableTask (rq : Rq) (p : Pid) : Still rq (dequeuePushableTask rq p) := by
  unfold dequeuePushableTask
  dsimp only
  split <;>
    exact ⟨⟨fun _ => rfl, rfl, rfl, rfl, rfl, id⟩, fun _ => rfl, fun _ => rfl, rfl, rfl, rfl⟩

/-- The first of a sorted list with one element more. -/
theorem head?_plistAdd {l : List Pid} {prio : Pid → ℤ} (hp : prio p < maxRtPrio) :
    ((plistAdd prio p l).head?.map prio).getD maxRtPrio =
      min (prio p) ((l.head?.map prio).getD maxRtPrio) := by
  cases l with
  | nil => simp [plistAdd, min_eq_left hp.le]
  | cons q l =>
      rw [plistAdd, List.orderedInsert_cons]
      split
      · next hlt => simp [min_eq_left hlt.le]
      · next hge => simp [min_eq_right (not_lt.mp hge)]

theorem pairwise_plistAdd {l : List Pid} {prio : Pid → ℤ}
    (h : l.Pairwise fun p q => prio p ≤ prio q) :
    (plistAdd prio p l).Pairwise fun p q => prio p ≤ prio q := by
  induction l with
  | nil => simp [plistAdd]
  | cons q l ih =>
      rw [List.pairwise_cons] at h
      rw [plistAdd, List.orderedInsert_cons]
      split
      · next hlt =>
          rw [List.pairwise_cons, List.pairwise_cons]
          refine ⟨fun r hr => ?_, h⟩
          rcases List.mem_cons.mp hr with rfl | hr
          · exact hlt.le
          · exact hlt.le.trans (h.1 r hr)
      · next hge =>
          rw [List.pairwise_cons]
          refine ⟨fun r hr => ?_, ih h.2⟩
          rcases (List.mem_orderedInsert _).mp hr with rfl | hr
          · exact not_lt.mp hge
          · exact h.1 r hr

theorem Pushed.add (h : Pushed S rq) (hp : ¬ S p) (hprio : rq.prio p < maxRtPrio) :
    Pushed (fun q => S q ∨ q = p) (enqueuePushableTask rq p) := by
  have herase : rq.rt.pushableTasks.erase p = rq.rt.pushableTasks :=
    List.erase_of_not_mem fun hmem => hp ((h.mem p).mp hmem)
  have hlist : (enqueuePushableTask rq p).rt.pushableTasks =
      plistAdd rq.prio p rq.rt.pushableTasks := by
    unfold enqueuePushableTask
    rw [← herase]
    dsimp only
    split <;> simp [Rq.modRt, herase]
  have hnext : (enqueuePushableTask rq p).rt.highestNext = min (rq.prio p) rq.rt.highestNext := by
    unfold enqueuePushableTask
    dsimp only
    split
    · next hlt => exact (min_eq_left (le_of_lt hlt)).symm
    · next hge => exact (min_eq_right (not_lt.mp hge)).symm
  have hkeep : ∀ q, (enqueuePushableTask rq p).prio q = rq.prio q :=
    (still_enqueuePushableTask rq p).prio
  have hperm : (plistAdd rq.prio p rq.rt.pushableTasks).Perm (p :: rq.rt.pushableTasks) :=
    List.perm_orderedInsert _ p _
  refine ⟨?_, ?_, fun q => ?_, ?_⟩
  · rw [hlist]
    simpa only [hkeep] using pairwise_plistAdd h.sorted
  · rw [hlist, hperm.nodup_iff, List.nodup_cons]
    exact ⟨fun hmem => hp ((h.mem p).mp hmem), h.nodup⟩
  · rw [hlist, hperm.mem_iff, List.mem_cons, h.mem, or_comm]
  · rw [hnext, hlist, h.next, show (enqueuePushableTask rq p).prio = rq.prio from funext hkeep,
      head?_plistAdd hprio]

theorem Pushed.del (h : Pushed S rq) (p : Pid) :
    Pushed (fun q => S q ∧ q ≠ p) (dequeuePushableTask rq p) := by
  have hkeep : (dequeuePushableTask rq p).prio = rq.prio :=
    funext (still_dequeuePushableTask rq p).prio
  obtain ⟨hlist, hnext⟩ : (dequeuePushableTask rq p).rt.pushableTasks =
        rq.rt.pushableTasks.erase p ∧
      (dequeuePushableTask rq p).rt.highestNext =
        ((rq.rt.pushableTasks.erase p).head?.map rq.prio).getD maxRtPrio := by
    unfold dequeuePushableTask
    dsimp only
    split
    · next q l heq =>
        have heq : rq.rt.pushableTasks.erase p = q :: l := heq
        refine ⟨rfl, ?_⟩
        rw [heq]
        rfl
    · next heq =>
        have heq : rq.rt.pushableTasks.erase p = [] := heq
        refine ⟨rfl, ?_⟩
        rw [heq]
        rfl
  refine ⟨?_, ?_, fun q => ?_, ?_⟩
  · rw [hlist, hkeep]
    exact h.sorted.sublist List.erase_sublist
  · rw [hlist]
    exact h.nodup.erase p
  · rw [hlist, h.nodup.mem_erase_iff, h.mem, and_comm]
  · rw [hnext, hlist, hkeep]

end Pushable

end Rt

end Comp4511
