import Mathlib.Algebra.GroupWithZero.Nat
import Comp4511.PrioArray
import Comp4511.SchedTs

/-!
# The real-time class

The functions of `kernel/sched/rt.c` on the runqueue of one CPU, with
`CONFIG_SMP` and without `CONFIG_RT_GROUP_SCHED`, so that an entity is a
task and `for_each_sched_rt_entity` is one turn. `Rq` is the runqueue with
its `struct rt_rq` and the tasks as it sees them; the share it has in the
root domain (its bit in `rto_mask` and what it adds to `rto_count`, its
entry in `cpupri`) is kept with it.

`pushable_tasks` is a `plist`, a list that is sorted by priority and in
which equals keep the order of their arrival. `list_del_init` takes an
entity off whichever list it is linked in.

A `BUG_ON` of the functions that pick a task is `none`. That of
`dequeue_top_rt_rq` on `nr_running` is kept in `bug`, and a step has no next
state with it. Three kinds are left out: that on `want` in
`__disable_runtime`, which is about the runtime that other CPUs give back;
that on `task_cpu` in `pick_next_pushable_task`, as there is one CPU; and
those on `rq->rt`, which without groups is the only `rt_rq` there is.

The other classes appear as in `SchedCore`: which tasks they have queued,
and what they add to `rq->nr_running`, which for the TS class is nothing.
What other CPUs answer is in `Env` and in the arguments: how much of their
runtime `do_balance_runtime` gets, and whether `cpupri_find` and
`find_lock_lowest_rq` find a CPU. Left out are cpufreq, the load averages,
the CPU time accounts and `RLIMIT_RTTIME`.
-/

namespace Comp4511

namespace Rt

open Sched (Pid SchedClass Policy)

/-! ## The data -/

/-- `MAX_RT_PRIO`: the number of levels, and the place of the bit behind
them. -/
def maxRtPrio : ℕ := 100

/-- `RUNTIME_INF`. -/
def runtimeInf : ℕ := 2 ^ 64 - 1

/-- `CPUPRI_INVALID`. -/
def cpupriInvalid : ℤ := -1

/-- `struct sched_rt_entity`. -/
structure Entity where
  timeSlice : UInt32
  onRq : Bool
  onList : Bool

/-- `task_struct`. `onRq` is `task_on_rq_queued` on this runqueue. -/
structure Task where
  schedClass : SchedClass
  policy : Policy
  prio : ℤ
  nrCpusAllowed : ℕ
  onRq : Bool
  needResched : Bool
  execStart : ℕ
  sumExecRuntime : ℕ
  rt : Entity

/-- `struct rt_rq`. -/
structure RtRq where
  active : PrioArray Pid
  rtNrRunning : ℕ
  rrNrRunning : ℕ
  /-- `highest_prio.curr`. -/
  highestCurr : ℤ
  /-- `highest_prio.next`. -/
  highestNext : ℤ
  rtNrMigratory : ℕ
  rtNrTotal : ℕ
  overloaded : Bool
  pushableTasks : List Pid
  rtQueued : Bool
  rtThrottled : Bool
  rtTime : ℕ
  rtRuntime : ℕ

/-- `struct rq`. `other` are the tasks that the other classes have queued. -/
structure Rq where
  task : Pid → Task
  rt : RtRq
  nrRunning : ℕ
  curr : Pid
  idle : Pid
  clockTask : ℕ
  online : Bool
  rtoMask : Bool
  rtoCount : ℕ
  cpupri : ℤ
  other : List Pid
  /-- `def_rt_bandwidth.rt_period_active`. -/
  rtPeriodActive : Bool
  /-- A `BUG_ON` has been met. -/
  bug : Bool

/-- `def_rt_bandwidth`, `rt_bandwidth_enabled`, `sched_rr_timeslice` and the
feature `RT_RUNTIME_SHARE`. -/
structure Bandwidth where
  enabled : Bool
  rtPeriod : ℕ
  rtRuntime : ℕ
  rrTimeslice : UInt32
  runtimeShare : Bool

/-- `balanced` is the runtime after a `do_balance_runtime`. -/
structure Env extends Bandwidth where
  balanced : ℕ

/-! ## Elementary updates -/

def Rq.mod (rq : Rq) (p : Pid) (f : Task → Task) : Rq :=
  { rq with task := Function.update rq.task p (f (rq.task p)) }

def Rq.modRt (rq : Rq) (f : RtRq → RtRq) : Rq := { rq with rt := f rq.rt }

def Rq.prio (rq : Rq) (p : Pid) : ℤ := (rq.task p).prio

/-- The task is one of this class. -/
def Rq.isRt (rq : Rq) (p : Pid) : Bool := (rq.task p).schedClass = .rt

@[simp] theorem mod_task_self (rq : Rq) (p : Pid) (f : Task → Task) :
    (rq.mod p f).task p = f (rq.task p) := Function.update_self ..

theorem mod_task_of_ne (rq : Rq) {p q : Pid} (f : Task → Task) (h : q ≠ p) :
    (rq.mod p f).task q = rq.task q := Function.update_of_ne h ..

theorem mod_mod (rq : Rq) (p : Pid) (f g : Task → Task) :
    (rq.mod p f).mod p g = rq.mod p fun t => g (f t) := by
  simp [Rq.mod]

/-- `resched_curr`. -/
def reschedCurr (rq : Rq) : Rq := rq.mod rq.curr fun t => { t with needResched := true }

def addNrRunning (rq : Rq) (count : ℕ) : Rq := { rq with nrRunning := rq.nrRunning + count }

def subNrRunning (rq : Rq) (count : ℕ) : Rq := { rq with nrRunning := rq.nrRunning - count }

def bugOn (rq : Rq) (condition : Bool) : Rq := { rq with bug := rq.bug || condition }

/-- `task_current`. -/
def taskCurrent (rq : Rq) (p : Pid) : Bool := rq.curr = p

/-! ## Overload and migration -/

def rtSetOverload (rq : Rq) : Rq :=
  if !rq.online then rq else { rq with rtoMask := true, rtoCount := rq.rtoCount + 1 }

def rtClearOverload (rq : Rq) : Rq :=
  if !rq.online then rq else { rq with rtoMask := false, rtoCount := rq.rtoCount - 1 }

def updateRtMigration (rq : Rq) : Rq :=
  if rq.rt.rtNrMigratory ≠ 0 ∧ 1 < rq.rt.rtNrTotal then
    if !rq.rt.overloaded then (rtSetOverload rq).modRt fun rt => { rt with overloaded := true }
    else rq
  else if rq.rt.overloaded then
    (rtClearOverload rq).modRt fun rt => { rt with overloaded := false }
  else rq

/-- What a task adds to `rt_nr_migratory`. -/
def migratory (t : Task) : ℕ := if 1 < t.nrCpusAllowed then 1 else 0

def incRtMigration (rq : Rq) (p : Pid) : Rq :=
  updateRtMigration (rq.modRt fun rt => { rt with
    rtNrTotal := rt.rtNrTotal + 1
    rtNrMigratory := rt.rtNrMigratory + migratory (rq.task p) })

def decRtMigration (rq : Rq) (p : Pid) : Rq :=
  updateRtMigration (rq.modRt fun rt => { rt with
    rtNrTotal := rt.rtNrTotal - 1
    rtNrMigratory := rt.rtNrMigratory - migratory (rq.task p) })

/-! ## The tasks that can be pushed -/

def hasPushableTasks (rq : Rq) : Bool := !rq.rt.pushableTasks.isEmpty

/-- `plist_add`. -/
def plistAdd (prio : Pid → ℤ) (p : Pid) (l : List Pid) : List Pid :=
  l.orderedInsert (prio · < prio ·) p

def enqueuePushableTask (rq : Rq) (p : Pid) : Rq :=
  let rq := rq.modRt fun rt => { rt with
    pushableTasks := plistAdd rq.prio p (rt.pushableTasks.erase p) }
  if rq.prio p < rq.rt.highestNext then rq.modRt fun rt => { rt with highestNext := rq.prio p }
  else rq

def dequeuePushableTask (rq : Rq) (p : Pid) : Rq :=
  let rq := rq.modRt fun rt => { rt with pushableTasks := rt.pushableTasks.erase p }
  match rq.rt.pushableTasks with
  | q :: _ => rq.modRt fun rt => { rt with highestNext := rq.prio q }
  | [] => rq.modRt fun rt => { rt with highestNext := maxRtPrio }

/-! ## The counts of the runqueue -/

def incRtPrioSmp (rq : Rq) (prio prevPrio : ℤ) : Rq :=
  if rq.online ∧ prio < prevPrio then { rq with cpupri := prio } else rq

def decRtPrioSmp (rq : Rq) (prevPrio : ℤ) : Rq :=
  if rq.online ∧ rq.rt.highestCurr ≠ prevPrio then { rq with cpupri := rq.rt.highestCurr }
  else rq

def incRtPrio (rq : Rq) (prio : ℤ) : Rq :=
  let prevPrio := rq.rt.highestCurr
  let rq := if prio < prevPrio then rq.modRt fun rt => { rt with highestCurr := prio } else rq
  incRtPrioSmp rq prio prevPrio

/-- `sched_find_first_bit`. -/
def schedFindFirstBit (A : PrioArray Pid) : ℤ := PrioArray.findFirst maxRtPrio A.bitmap

def decRtPrio (rq : Rq) (prio : ℤ) : Rq :=
  let prevPrio := rq.rt.highestCurr
  let rq :=
    if rq.rt.rtNrRunning ≠ 0 then
      if prio = prevPrio then
        rq.modRt fun rt => { rt with highestCurr := schedFindFirstBit rt.active }
      else rq
    else rq.modRt fun rt => { rt with highestCurr := maxRtPrio }
  decRtPrioSmp rq prevPrio

/-- `inc_rt_group`: `start_rt_bandwidth`. -/
def incRtGroup (b : Bandwidth) (rq : Rq) : Rq :=
  if !b.enabled ∨ b.rtRuntime = runtimeInf then rq else { rq with rtPeriodActive := true }

/-- `rt_se_rr_nr_running`. -/
def rtSeRrNrRunning (t : Task) : ℕ := if t.policy = .rr then 1 else 0

def incRtTasks (b : Bandwidth) (rq : Rq) (p : Pid) : Rq :=
  let prio := rq.prio p
  let rq := rq.modRt fun rt => { rt with
    rtNrRunning := rt.rtNrRunning + 1
    rrNrRunning := rt.rrNrRunning + rtSeRrNrRunning (rq.task p) }
  incRtGroup b (incRtMigration (incRtPrio rq prio) p)

def decRtTasks (rq : Rq) (p : Pid) : Rq :=
  let rq := rq.modRt fun rt => { rt with
    rtNrRunning := rt.rtNrRunning - 1
    rrNrRunning := rt.rrNrRunning - rtSeRrNrRunning (rq.task p) }
  decRtMigration (decRtPrio rq (rq.prio p)) p

/-! ## Enqueue and dequeue -/

/-- `move_entity`: not with `SAVE` unless with `MOVE`. -/
def moveEntity (flags : ℕ) : Bool :=
  flags &&& (Sched.dequeueSave ||| Sched.dequeueMove) ≠ Sched.dequeueSave

/-- `__delist_rt_entity`. -/
def delistRtEntity (rq : Rq) (p : Pid) : Rq :=
  let prio := rq.prio p
  let rq := rq.modRt fun rt => { rt with
    active :=
      let A := rt.active.del p
      if A.queue prio = [] then A.clearBit prio else A }
  rq.mod p fun t => { t with rt := { t.rt with onList := false } }

/-- `list_add` or `list_add_tail`, with the bit. -/
def listRtEntity (rq : Rq) (p : Pid) (flags : ℕ) : Rq :=
  let prio := rq.prio p
  let rq := rq.modRt fun rt => { rt with
    active :=
      (if flags &&& Sched.enqueueHead ≠ 0 then rt.active.addHead prio p
        else rt.active.addTail prio p).setBit prio }
  rq.mod p fun t => { t with rt := { t.rt with onList := true } }

/-- `__enqueue_rt_entity`. -/
def enqueueRtEntityCore (b : Bandwidth) (rq : Rq) (p : Pid) (flags : ℕ) : Rq :=
  let rq := if moveEntity flags then listRtEntity rq p flags else rq
  let rq := rq.mod p fun t => { t with rt := { t.rt with onRq := true } }
  incRtTasks b rq p

/-- `__dequeue_rt_entity`. -/
def dequeueRtEntityCore (rq : Rq) (p : Pid) (flags : ℕ) : Rq :=
  let rq := if moveEntity flags then delistRtEntity rq p else rq
  let rq := rq.mod p fun t => { t with rt := { t.rt with onRq := false } }
  decRtTasks rq p

def dequeueTopRtRq (rq : Rq) : Rq :=
  if !rq.rt.rtQueued then rq
  else
    let rq := bugOn rq (rq.nrRunning = 0)
    (subNrRunning rq rq.rt.rtNrRunning).modRt fun rt => { rt with rtQueued := false }

def enqueueTopRtRq (rq : Rq) : Rq :=
  if rq.rt.rtQueued then rq
  else if rq.rt.rtThrottled then rq
  else if rq.rt.rtNrRunning ≠ 0 then
    (addNrRunning rq rq.rt.rtNrRunning).modRt fun rt => { rt with rtQueued := true }
  else rq

def dequeueRtStack (rq : Rq) (p : Pid) (flags : ℕ) : Rq :=
  let rq := dequeueTopRtRq rq
  if (rq.task p).rt.onRq then dequeueRtEntityCore rq p flags else rq

def enqueueRtEntity (b : Bandwidth) (rq : Rq) (p : Pid) (flags : ℕ) : Rq :=
  enqueueTopRtRq (enqueueRtEntityCore b (dequeueRtStack rq p flags) p flags)

def dequeueRtEntity (rq : Rq) (p : Pid) (flags : ℕ) : Rq :=
  enqueueTopRtRq (dequeueRtStack rq p flags)

/-! ## Runtime -/

def balanceRuntime (e : Env) (rt : RtRq) : RtRq :=
  if !e.runtimeShare then rt
  else if rt.rtRuntime < rt.rtTime then { rt with rtRuntime := e.balanced }
  else rt

/-- `sched_rt_rq_enqueue`. -/
def schedRtRqEnqueue (rq : Rq) : Rq :=
  if rq.rt.rtNrRunning = 0 then rq else reschedCurr (enqueueTopRtRq rq)

def schedRtRuntimeExceeded (e : Env) (rq : Rq) : Bool × Rq :=
  if rq.rt.rtThrottled then (true, rq)
  else if e.rtPeriod ≤ rq.rt.rtRuntime then (false, rq)
  else
    let rq := rq.modRt (balanceRuntime e)
    if rq.rt.rtRuntime = runtimeInf then (false, rq)
    else if rq.rt.rtRuntime < rq.rt.rtTime then
      if e.rtRuntime ≠ 0 then
        (true, dequeueTopRtRq (rq.modRt fun rt => { rt with rtThrottled := true }))
      else (false, rq.modRt fun rt => { rt with rtTime := 0 })
    else (false, rq)

def updateCurrRt (e : Env) (rq : Rq) : Rq :=
  let t := rq.task rq.curr
  if !rq.isRt rq.curr then rq
  else if rq.clockTask ≤ t.execStart then rq
  else
    let deltaExec := rq.clockTask - t.execStart
    let rq := rq.mod rq.curr fun t => { t with
      sumExecRuntime := t.sumExecRuntime + deltaExec
      execStart := rq.clockTask }
    if !e.enabled then rq
    else if rq.rt.rtRuntime = runtimeInf then rq
    else
      let rq := rq.modRt fun rt => { rt with rtTime := rt.rtTime + deltaExec }
      match schedRtRuntimeExceeded e rq with
      | (true, rq) => reschedCurr rq
      | (false, rq) => rq

/-! ## The functions of the class -/

def enqueueTaskRt (e : Env) (rq : Rq) (p : Pid) (flags : ℕ) : Rq :=
  let rq := enqueueRtEntity e.toBandwidth rq p flags
  if !taskCurrent rq p ∧ 1 < (rq.task p).nrCpusAllowed then enqueuePushableTask rq p else rq

def dequeueTaskRt (e : Env) (rq : Rq) (p : Pid) (flags : ℕ) : Rq :=
  dequeuePushableTask (dequeueRtEntity (updateCurrRt e rq) p flags) p

/-- `requeue_task_rt`, with `requeue_rt_entity`. -/
def requeueTaskRt (rq : Rq) (p : Pid) (head : Bool) : Rq :=
  if (rq.task p).rt.onRq then
    let prio := rq.prio p
    rq.modRt fun rt => { rt with
      active :=
        let A := rt.active.del p
        if head then A.addHead prio p else A.addTail prio p }
  else rq

def yieldTaskRt (rq : Rq) : Rq := requeueTaskRt rq rq.curr false

/-- `currFits` and `pFits` are the answers of `cpupri_find`. -/
def checkPreemptEqualPrio (rq : Rq) (p : Pid) (currFits pFits : Bool) : Rq :=
  if (rq.task rq.curr).nrCpusAllowed = 1 ∨ !currFits then rq
  else if (rq.task p).nrCpusAllowed ≠ 1 ∧ pFits then rq
  else reschedCurr (requeueTaskRt rq p true)

def checkPreemptCurrRt (rq : Rq) (p : Pid) (currFits pFits : Bool) : Rq :=
  if rq.prio p < rq.prio rq.curr then reschedCurr rq
  else if rq.prio p = rq.prio rq.curr ∧ !(rq.task rq.curr).needResched then
    checkPreemptEqualPrio rq p currFits pFits
  else rq

/-- `pick_next_rt_entity`: `none` is its `BUG_ON`, or an empty list. -/
def pickNextRtEntity (rq : Rq) : Option Pid :=
  let idx := schedFindFirstBit rq.rt.active
  if maxRtPrio ≤ idx then none else (rq.rt.active.queue idx).head?

def putPrevTaskRt (e : Env) (rq : Rq) (p : Pid) : Rq :=
  let rq := updateCurrRt e rq
  if (rq.task p).rt.onRq ∧ 1 < (rq.task p).nrCpusAllowed then enqueuePushableTask rq p else rq

/-- `put_prev_task`; what the other classes do there is their own. -/
def putPrevTask (e : Env) (rq : Rq) (p : Pid) : Rq :=
  if rq.isRt p then putPrevTaskRt e rq p else rq

/-- `pick_next_task_rt` once `pull_rt_task` is done: no task, or the task it
picks. -/
def pickNextTaskRt (e : Env) (rq : Rq) (prev : Pid) : Option (Option Pid × Rq) :=
  let rq := if rq.isRt prev then updateCurrRt e rq else rq
  if !rq.rt.rtQueued then some (none, rq)
  else
    let rq := putPrevTask e rq prev
    (pickNextRtEntity rq).map fun p =>
      let rq := rq.mod p fun t => { t with execStart := rq.clockTask }
      (some p, dequeuePushableTask rq p)

def setCurrTaskRt (rq : Rq) : Rq :=
  let rq := rq.mod rq.curr fun t => { t with execStart := rq.clockTask }
  dequeuePushableTask rq rq.curr

/-- `rt_se->run_list.prev != rt_se->run_list.next`: the entity has company
in its list. -/
def hasCompany (rq : Rq) (p : Pid) : Bool :=
  let l := rq.rt.active.queue (rq.prio p)
  p ∈ l ∧ 1 < l.length

def taskTickRt (e : Env) (rq : Rq) (p : Pid) : Rq :=
  let rq := updateCurrRt e rq
  if (rq.task p).policy ≠ .rr then rq
  else
    let slice := (rq.task p).rt.timeSlice - 1
    if slice ≠ 0 then rq.mod p fun t => { t with rt := { t.rt with timeSlice := slice } }
    else
      let rq := rq.mod p fun t => { t with rt := { t.rt with timeSlice := e.rrTimeslice } }
      if hasCompany rq p then reschedCurr (requeueTaskRt rq p false) else rq

/-- `cpuOnline` is the answer of `cpu_online`. -/
def switchedToRt (rq : Rq) (p : Pid) (cpuOnline : Bool) : Rq :=
  if (rq.task p).onRq ∧ rq.curr ≠ p ∧ rq.prio p < rq.prio rq.curr ∧ cpuOnline then reschedCurr rq
  else rq

def prioChangedRt (rq : Rq) (p : Pid) : Rq :=
  if !(rq.task p).onRq then rq
  else if rq.curr = p then
    if rq.rt.highestCurr < rq.prio p then reschedCurr rq else rq
  else if rq.prio p < rq.prio rq.curr then reschedCurr rq
  else rq

/-- `pick_next_pushable_task`: the outer `none` is one of its `BUG_ON`s. -/
def pickNextPushableTask (rq : Rq) : Option (Option Pid) :=
  if !hasPushableTasks rq then some none
  else
    rq.rt.pushableTasks.head?.bind fun p =>
      if taskCurrent rq p ∨ (rq.task p).nrCpusAllowed ≤ 1 ∨ !(rq.task p).onRq ∨
          !Sched.rtPrio (rq.prio p) then none
      else some (some p)

/-! ## The timer and hot-plug -/

/-- The turn of `do_sched_rt_period_timer` for this CPU, with what it leaves
in `idle`. -/
def doSchedRtPeriodTimer (e : Env) (rq : Rq) (overrun : ℕ) : Bool × Rq :=
  let rq :=
    if !e.runtimeShare ∧ rq.rt.rtRuntime ≠ runtimeInf then
      rq.modRt fun rt => { rt with rtRuntime := e.rtRuntime }
    else rq
  if rq.rt.rtTime = 0 ∧ rq.rt.rtNrRunning = 0 then (true, rq)
  else if rq.rt.rtTime ≠ 0 then
    let rq := if rq.rt.rtThrottled then rq.modRt (balanceRuntime e) else rq
    let runtime := rq.rt.rtRuntime
    let rq := rq.modRt fun rt => { rt with
      rtTime := rt.rtTime - min rt.rtTime (overrun * runtime % 2 ^ 64) }
    let idle := rq.rt.rtTime = 0 ∧ rq.rt.rtNrRunning = 0
    if rq.rt.rtThrottled ∧ rq.rt.rtTime < runtime then
      (idle, schedRtRqEnqueue (rq.modRt fun rt => { rt with rtThrottled := false }))
    else (idle, rq)
  else if !rq.rt.rtThrottled then (false, schedRtRqEnqueue rq)
  else (false, rq)

/-- `sched_rt_period_timer` as far as it concerns this CPU. `othersIdle` and
`othersThrottled` are what the turns of the other CPUs come to. -/
def schedRtPeriodTimer (e : Env) (rq : Rq) (overrun : ℕ) (othersIdle othersThrottled : Bool) : Rq :=
  let (idle, rq) := doSchedRtPeriodTimer e rq overrun
  let throttled := rq.rt.rtThrottled || othersThrottled
  if (!throttled && (!e.enabled || e.rtRuntime = runtimeInf)) || (idle && othersIdle) then
    { rq with rtPeriodActive := false }
  else rq

/-- `__disable_runtime` on this CPU once it has its runtime back. -/
def disableRuntime (rq : Rq) : Rq :=
  schedRtRqEnqueue (rq.modRt fun rt => { rt with rtRuntime := runtimeInf, rtThrottled := false })

/-- `__enable_runtime`. -/
def enableRuntime (b : Bandwidth) (rq : Rq) : Rq :=
  rq.modRt fun rt => { rt with rtRuntime := b.rtRuntime, rtTime := 0, rtThrottled := false }

def rqOnlineRt (b : Bandwidth) (rq : Rq) : Rq :=
  let rq := if rq.rt.overloaded then rtSetOverload rq else rq
  let rq := enableRuntime b rq
  { rq with cpupri := rq.rt.highestCurr }

def rqOfflineRt (rq : Rq) : Rq :=
  let rq := if rq.rt.overloaded then rtClearOverload rq else rq
  { disableRuntime rq with cpupri := cpupriInvalid }

end Rt

end Comp4511
