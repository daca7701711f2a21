import Comp4511.SchedTs

/-!
# The scheduler core

The functions of `kernel/sched/core.c` through which the TS class is
reached: enqueue and dequeue by class, the preemption check of a wakeup,
`pick_next_task` with its fair-class shortcut, `__schedule`, wakeups,
fork, migration, renicing, policy changes and priority inheritance.

Code outside these files enters in three ways. What another class's
function may do to the rest of the scheduler is one bit, whether it asks
for a reschedule (`hook`). Which of its queued tasks another class picks
is a `ClassPick`, a choice function that returns a queued task whenever
there is one. What `__sched_setscheduler` asks the rest of the kernel is
a `SchedEnv`.
-/

namespace Comp4511

namespace Sched

/-! ## Enqueue and dequeue -/

def addNrRunning (rq : Rq) (count : Nat) : Rq :=
  { rq with nrRunning := rq.nrRunning + count }

def subNrRunning (rq : Rq) (count : Nat) : Rq :=
  { rq with nrRunning := rq.nrRunning - count }

/-- What the fair class adds to or takes from `cfs.h_nr_running`. -/
def cfsShare (c : SchedClass) : Nat := if c = .fair then 1 else 0

/-- The contract of another class's `enqueue_task`. -/
def enqueueTaskOther (c : SchedClass) (p : Pid) (rq : Rq) : Rq :=
  addNrRunning
    { rq with
      queue := ListTable.addTail rq.queue (.cls c) p
      cfsNrRunning := rq.cfsNrRunning + cfsShare c } 1

/-- The contract of another class's `dequeue_task`. -/
def dequeueTaskOther (c : SchedClass) (p : Pid) (rq : Rq) : Rq :=
  subNrRunning
    { rq with
      queue := ListTable.unlink (fun s => s == .cls c) rq.queue p
      cfsNrRunning := rq.cfsNrRunning - cfsShare c } 1

def enqueueTask (k : Kernel) (cpu : Nat) (p : Pid) (flags : Nat) : Kernel :=
  match (k.task p).schedClass with
  | .ts => enqueueTaskTs k cpu p flags
  | c => k.modRq cpu (enqueueTaskOther c p)

def dequeueTask (k : Kernel) (cpu : Nat) (p : Pid) (flags : Nat) : Kernel :=
  match (k.task p).schedClass with
  | .ts => dequeueTaskTs k cpu p flags
  | c => k.modRq cpu (dequeueTaskOther c p)

/-- `set_curr_task`: empty in the TS class, and private to the others. -/
def setCurrTask (k : Kernel) (_cpu : Nat) (_p : Pid) : Kernel := k

/-- `task_current`. -/
def taskCurrent (k : Kernel) (cpu : Nat) (p : Pid) : Bool := (k.rq cpu).curr = p

/-- The bracket `set_user_nice`, `do_set_cpus_allowed`,
`__sched_setscheduler` and `rt_mutex_setprio` put around a change of a
task's fields: take it off its runqueue if it is queued, change it, put
it back. -/
def saveRestore (k : Kernel) (p : Pid) (deqFlags : Nat)
    (f : TaskStruct → TaskStruct) (enqFlags : Nat) : Kernel :=
  let cpu := (k.task p).cpu
  let queued := taskOnRqQueued (k.task p)
  let running := taskCurrent k cpu p
  let k := if queued then dequeueTask k cpu p deqFlags else k
  let k := if running then putPrevTask k cpu p else k
  let k := k.mod p f
  let k := if queued then enqueueTask k cpu p enqFlags else k
  if running then setCurrTask k cpu p else k

/-! ## Preemption checks -/

/-- The loop of `check_preempt_curr` over two different classes: the
waking task's class comes first. -/
def preemptsClass (currClass pClass : SchedClass) : List SchedClass → Bool
  | [] => false
  | c :: cs =>
      if c = currClass then false
      else if c = pClass then true
      else preemptsClass currClass pClass cs

def checkPreemptCurr (k : Kernel) (cpu : Nat) (p : Pid) (hook : Bool) : Kernel :=
  let currClass := (k.task (k.rq cpu).curr).schedClass
  let pClass := (k.task p).schedClass
  if pClass = currClass then
    if currClass = .ts then checkPreemptCurrTs k cpu p
    else if hook then reschedCurr k cpu
    else k
  else if preemptsClass currClass pClass forEachClass then reschedCurr k cpu
  else k

/-- `check_class_changed`. No class's `switched_from` asks for a
reschedule; `switched_to_ts` and `prio_changed_ts` are empty. -/
def checkClassChanged (k : Kernel) (cpu : Nat) (p : Pid)
    (prevClass : SchedClass) (oldprio : Int) (hook : Bool) : Kernel :=
  let t := k.task p
  if prevClass ≠ t.schedClass then
    if t.schedClass = .ts then k
    else if hook then reschedCurr k cpu
    else k
  else if oldprio ≠ t.prio ∨ dlPrio t.prio then
    if t.schedClass = .ts then k
    else if hook then reschedCurr k cpu
    else k
  else k

/-! ## Picking the next task -/

/-- How another class picks: some queued task, whenever it has one. -/
structure ClassPick where
  pick : List Pid → Option Pid
  mem : ∀ {l p}, pick l = some p → p ∈ l
  isSome : ∀ {l}, l ≠ [] → (pick l).isSome = true

/-- First in, first out: one way to pick. -/
def ClassPick.head : ClassPick where
  pick := List.head?
  mem := List.mem_of_mem_head?
  isSome := fun {l} hl => by
    cases l with
    | nil => exact absurd rfl hl
    | cons => rfl

/-- A class's `pick_next_task`. The idle class's returns `rq->idle`. -/
def classPickNextTask (picks : SchedClass → ClassPick) (k : Kernel)
    (cpu : Nat) (prev : Pid) : SchedClass → Option Pid × Kernel
  | .ts => pickNextTaskTs k cpu prev
  | .idle => (some (k.rq cpu).idle, putPrevTask k cpu prev)
  | c => ((picks c).pick ((k.rq cpu).queue (.cls c)), putPrevTask k cpu prev)

/-- The class-by-class loop of `pick_next_task`; `none` is its `BUG()`. -/
def pickLoop (picks : SchedClass → ClassPick) (k : Kernel) (cpu : Nat)
    (prev : Pid) : List SchedClass → Option Pid × Kernel
  | [] => (none, k)
  | c :: cs =>
      match classPickNextTask picks k cpu prev c with
      | (some p, k) => (some p, k)
      | (none, k) => pickLoop picks k cpu prev cs

/-- The guard of the shortcut: `prev` is fair or idle and every task that
is counted is a fair task. -/
def fairShortcut (k : Kernel) (cpu : Nat) (prev : Pid) : Bool :=
  ((k.task prev).schedClass = .idle ∨ (k.task prev).schedClass = .fair)
    ∧ (k.rq cpu).nrRunning = (k.rq cpu).cfsNrRunning

def pickNextTask (picks : SchedClass → ClassPick) (k : Kernel) (cpu : Nat)
    (prev : Pid) : Option Pid × Kernel :=
  if fairShortcut k cpu prev then
    match classPickNextTask picks k cpu prev .fair with
    | (some p, k) => (some p, k)
    | (none, k) => classPickNextTask picks k cpu prev .idle
  else pickLoop picks k cpu prev forEachClass

/-! ## Fork and wakeups -/

/-- `sched_fork` by the task running on `cpu`. A failed fork leaves no
task behind. -/
def forkTask (k : Kernel) (cpu child : Nat) : Kernel :=
  match schedFork (k.task (k.rq cpu).curr) cpu with
  | some t =>
      { k with
        task := Function.update k.task (.proc child) t
        procs := insert child k.procs }
  | none => k

/-- `wake_up_new_task`; `dest` is the CPU `select_task_rq` returns. -/
def wakeUpNewTask (k : Kernel) (p : Pid) (dest : Nat) (hook : Bool) : Kernel :=
  let k := k.mod p fun t => { t with state := taskRunning, cpu := dest }
  let k := enqueueTask k dest p enqueueNoclock
  let k := k.mod p fun t => { t with onRq := .queued }
  checkPreemptCurr k dest p hook

def ttwuActivate (k : Kernel) (cpu : Nat) (p : Pid) (flags : Nat) : Kernel :=
  let k := enqueueTask k cpu p flags
  k.mod p fun t => { t with onRq := .queued }

def ttwuDoWakeup (k : Kernel) (cpu : Nat) (p : Pid) (hook : Bool) : Kernel :=
  let k := checkPreemptCurr k cpu p hook
  k.mod p fun t => { t with state := taskRunning }

/-- `try_to_wake_up`. A task that is still queued only changes its state
(`ttwu_remote`); otherwise it is placed on the CPU `dest` that
`select_task_rq` returns. -/
def tryToWakeUp (k : Kernel) (p : Pid) (state dest : Nat) (hook : Bool) : Kernel :=
  let t := k.task p
  if t.state &&& state = 0 then k
  else if taskOnRqQueued t then ttwuDoWakeup k t.cpu p hook
  else
    let migrated := if t.cpu = dest then 0 else enqueueMigrated
    let k := k.mod p fun t => { t with cpu := dest }
    let k := ttwuActivate k dest p (enqueueWakeup ||| enqueueNoclock ||| migrated)
    ttwuDoWakeup k dest p hook

/-- `try_to_wake_up_local`, for the worker `__schedule` wakes when one
goes to sleep. -/
def tryToWakeUpLocal (k : Kernel) (cpu : Nat) (p : Pid) (hook : Bool) : Kernel :=
  if (k.task p).cpu ≠ cpu ∨ p = (k.rq cpu).curr then k
  else if (k.task p).state &&& taskNormal = 0 then k
  else
    let k := if taskOnRqQueued (k.task p) then k
      else ttwuActivate k cpu p (enqueueWakeup ||| enqueueNoclock)
    ttwuDoWakeup k cpu p hook

/-! ## The main scheduler function -/

/-- The first half of `__schedule`: a task that is not runnable leaves
the runqueue, unless a signal is pending. -/
def schedBlock (k : Kernel) (cpu : Nat) (preempt signalPending : Bool)
    (wake : Option Pid) (hook : Bool) : Kernel :=
  let prev := (k.rq cpu).curr
  if !preempt ∧ (k.task prev).state ≠ taskRunning then
    if signalPending then k.mod prev fun t => { t with state := taskRunning }
    else
      let k := dequeueTask k cpu prev (dequeueSleep ||| dequeueNoclock)
      let k := k.mod prev fun t => { t with onRq := .off }
      match wake with
      | some w => tryToWakeUpLocal k cpu w hook
      | none => k
  else k

/-- The second half: `next` becomes the current task. `on_cpu` moves with
it (`prepare_task`, `finish_task`). -/
def schedSwitch (k : Kernel) (cpu : Nat) (next : Pid) : Kernel :=
  let prev := (k.rq cpu).curr
  let k := k.mod prev clearTskNeedResched
  if prev ≠ next then
    let k := k.modRq cpu fun rq => { rq with curr := next }
    let k := k.mod next fun t => { t with onCpu := true }
    k.mod prev fun t => { t with onCpu := false }
  else k

/-- `__schedule`. -/
def schedule (picks : SchedClass → ClassPick) (k : Kernel) (cpu : Nat)
    (preempt signalPending : Bool) (wake : Option Pid) (hook : Bool) :
    Option Kernel :=
  let prev := (k.rq cpu).curr
  match pickNextTask picks (schedBlock k cpu preempt signalPending wake hook) cpu prev with
  | (some next, k) => some (schedSwitch k cpu next)
  | (none, _) => none

/-- `scheduler_tick`. -/
def schedulerTick (k : Kernel) (cpu : Nat) (hook : Bool) (junk : Nat) : Kernel :=
  let curr := (k.rq cpu).curr
  if (k.task curr).schedClass = .ts then taskTickTs k cpu curr junk
  else if hook then reschedCurr k cpu
  else k

/-- `do_sched_yield`, up to its call of `schedule`. -/
def doSchedYield (k : Kernel) (cpu : Nat) : Kernel :=
  if (k.task (k.rq cpu).curr).schedClass = .ts then yieldTaskTs k cpu else k

/-! ## Migration and affinity -/

def moveQueuedTask (k : Kernel) (p : Pid) (newCpu : Nat) (hook : Bool) : Kernel :=
  let cpu := (k.task p).cpu
  let k := k.mod p fun t => { t with onRq := .migrating }
  let k := dequeueTask k cpu p dequeueNoclock
  let k := k.mod p fun t => { t with cpu := newCpu }
  let k := enqueueTask k newCpu p 0
  let k := k.mod p fun t => { t with onRq := .queued }
  checkPreemptCurr k newCpu p hook

def doSetCpusAllowed (k : Kernel) (p : Pid) (newMask : Nat → Bool) : Kernel :=
  saveRestore k p (dequeueSave ||| dequeueNoclock)
    (fun t => { t with cpusAllowed := newMask })
    (enqueueRestore ||| enqueueNoclock)

/-! ## Renicing -/

def setUserNice (k : Kernel) (p : Pid) (nice : Int) : Kernel :=
  let t := k.task p
  if taskNice t = nice ∨ nice < minNice ∨ nice > maxNice then k
  else if dlPolicy t.policy ∨ rtPolicy t.policy then
    k.mod p fun t => { t with staticPrio := niceToPrio nice }
  else
    let k := saveRestore k p (dequeueSave ||| dequeueNoclock)
      (fun t => setNice t nice) (enqueueRestore ||| enqueueNoclock)
    let delta := (setNice t nice).prio - t.prio
    if taskOnRqQueued t ∧ (delta < 0 ∨ (delta > 0 ∧ taskRunningOnCpu t)) then
      reschedCurr k t.cpu
    else k

/-! ## Changing the policy -/

inductive Errno where
  | einval
  | eperm
  | ebusy
  /-- What `security_task_setscheduler` returned. -/
  | security (code : Int)
deriving Repr, DecidableEq

/-- What `__sched_setscheduler` asks the rest of the kernel: credentials,
resource limits, the security module, group and deadline bandwidth. -/
structure SchedEnv where
  capable : Bool
  sameOwner : Bool
  rlimitNice : Int
  rlimitRtprio : Nat
  security : Int
  checkparamDl : Bool
  dlParamChanged : Bool
  dlOverflow : Bool
  rtGroupDenied : Bool
  dlBandwidthDenied : Bool

/-- A kernel that allows everything. -/
def SchedEnv.root : SchedEnv where
  capable := true
  sameOwner := true
  rlimitNice := 40
  rlimitRtprio := 99
  security := 0
  checkparamDl := true
  dlParamChanged := false
  dlOverflow := false
  rtGroupDenied := false
  dlBandwidthDenied := false

def canNice (env : SchedEnv) (nice : Int) : Bool :=
  maxNice - nice + 1 ≤ env.rlimitNice ∨ env.capable

def schedFlagResetOnFork : Nat := 0x01

def schedFlagAll : Nat := 0x07

def schedFlagSugov : Nat := 0x10000000

/-- The permission checks for a caller without `CAP_SYS_NICE`. -/
def unprivilegedOk (t : TaskStruct) (attr : SchedAttr) (policy : Policy)
    (resetOnFork : Bool) (env : SchedEnv) : Bool :=
  !(fairPolicy policy ∧ attr.schedNice < taskNice t ∧ !canNice env attr.schedNice)
    ∧ !(rtPolicy policy ∧ policy ≠ t.policy ∧ env.rlimitRtprio = 0)
    ∧ !(rtPolicy policy ∧ attr.schedPriority > t.rtPriority
        ∧ attr.schedPriority > env.rlimitRtprio)
    ∧ !dlPolicy policy
    ∧ !(idlePolicy t.policy ∧ !idlePolicy policy ∧ !canNice env (taskNice t))
    ∧ env.sameOwner
    ∧ !(t.schedResetOnFork ∧ !resetOnFork)

/-- The policy and the reset flag `__sched_setscheduler` settles on. -/
def requestedPolicy (t : TaskStruct) (attr : SchedAttr) : Except Errno (Policy × Bool) :=
  match attr.schedPolicy with
  | none => .ok (t.policy, t.schedResetOnFork)
  | some n =>
      match Policy.ofNat? n with
      | some policy => .ok (policy, decide (attr.schedFlags &&& schedFlagResetOnFork ≠ 0))
      | none => .error .einval

/-- One check: return the error if the condition holds. -/
def refuseIf (c : Bool) (e : Errno) : Except Errno Unit :=
  if c then .error e else .ok ()

/-- The checks `__sched_setscheduler` makes before it takes the runqueue
lock. -/
def setschedulerChecks (t : TaskStruct) (attr : SchedAttr) (user : Bool)
    (env : SchedEnv) : Except Errno (Policy × Bool) := do
  let (policy, resetOnFork) ← requestedPolicy t attr
  refuseIf (attr.schedFlags ||| (schedFlagAll ||| schedFlagSugov)
    ≠ (schedFlagAll ||| schedFlagSugov)) .einval
  refuseIf ((t.mm ∧ attr.schedPriority > maxUserRtPrio - 1)
    ∨ (!t.mm ∧ attr.schedPriority > maxRtPrio - 1)) .einval
  refuseIf ((dlPolicy policy ∧ !env.checkparamDl)
    ∨ rtPolicy policy ≠ decide (attr.schedPriority ≠ 0)) .einval
  refuseIf (user ∧ !env.capable ∧ !unprivilegedOk t attr policy resetOnFork env) .eperm
  refuseIf (user ∧ attr.schedFlags &&& schedFlagSugov ≠ 0) .einval
  refuseIf (user ∧ env.security ≠ 0) (.security env.security)
  return (policy, resetOnFork)

/-- The request changes nothing but the reset flag. -/
def unchangedParams (t : TaskStruct) (attr : SchedAttr) (policy : Policy)
    (env : SchedEnv) : Bool :=
  policy = t.policy
    ∧ !(fairPolicy policy ∧ attr.schedNice ≠ taskNice t)
    ∧ !(rtPolicy policy ∧ attr.schedPriority ≠ t.rtPriority)
    ∧ !(dlPolicy policy ∧ env.dlParamChanged)

/-- The priority of `p`'s top waiter, if there is one. -/
def donorPrio (k : Kernel) (p : Pid) : Option Int :=
  (k.task p).piTopTask.map fun d => (k.task d).prio

/-- `queue_flags` of `__sched_setscheduler`: `MOVE` is dropped when the
effective priority computed from the requested RT priority is the old
one. -/
def setschedulerFlags (k : Kernel) (p : Pid) (attr : SchedAttr) (pi : Bool) :
    Nat :=
  let newprio := if attr.schedPolicy.bind Policy.ofNat? = some .deadline then
      maxDlPrio - 1
    else maxRtPrio - 1 - attr.schedPriority
  if pi ∧ rtEffectivePrio (donorPrio k p) newprio = (k.task p).prio then
    dequeueSave ||| dequeueNoclock
  else dequeueSave ||| dequeueMove ||| dequeueNoclock

/-- The part of `__sched_setscheduler` after its last check. -/
def changePolicy (k : Kernel) (p : Pid) (attr : SchedAttr)
    (resetOnFork pi hook : Bool) : Kernel :=
  let t := k.task p
  let flags := setschedulerFlags k p attr pi
  let change := fun t =>
    setscheduler { t with schedResetOnFork := resetOnFork } attr (donorPrio k p) pi
  let head := if t.prio < (change t).prio then enqueueHead else 0
  let k := saveRestore k p flags change (flags ||| head)
  checkClassChanged k t.cpu p t.schedClass t.prio hook

/-- `__sched_setscheduler`. The final recheck of the policy under the
lock finds what the first read found, since a step is not interrupted. -/
def schedSetscheduler (k : Kernel) (p : Pid) (attr : SchedAttr)
    (user pi : Bool) (env : SchedEnv) (hook : Bool) : Except Errno Kernel := do
  let t := k.task p
  let (policy, resetOnFork) ← setschedulerChecks t attr user env
  refuseIf ((k.rq t.cpu).stop = some p) .einval
  if unchangedParams t attr policy env then
    return k.mod p fun t => { t with schedResetOnFork := resetOnFork }
  refuseIf (user ∧ rtPolicy policy ∧ env.rtGroupDenied) .eperm
  refuseIf (user ∧ dlPolicy policy ∧ attr.schedFlags &&& schedFlagSugov = 0
    ∧ env.dlBandwidthDenied) .eperm
  refuseIf ((dlPolicy policy ∨ dlPrio t.prio) ∧ env.dlOverflow) .ebusy
  return changePolicy k p attr resetOnFork pi hook

/-! ## Priority inheritance -/

/-- The priority `rt_mutex_setprio` computes first. -/
def setprioPrio (k : Kernel) (p : Pid) (piTask : Option Pid) : Int :=
  rtEffectivePrio (piTask.map fun d => (k.task d).prio) (k.task p).normalPrio

/-- The flags `rt_mutex_setprio` adds for the enqueue; `dlPreempt` is the
answer of `dl_entity_preempt`. -/
def setprioFlags (k : Kernel) (p : Pid) (piTask : Option Pid) (dlPreempt : Bool) :
    Nat :=
  let t := k.task p
  let prio := setprioPrio k p piTask
  if dlPrio prio then
    if !dlPrio t.normalPrio
        ∨ (piTask.any (fun d => dlPrio (k.task d).prio) ∧ dlPreempt) then
      enqueueReplenish
    else 0
  else if rtPrio prio ∧ t.prio < prio then enqueueHead
  else 0

/-- `rt_mutex_setprio`: `piTask` is the donor, `none` ends a boost. -/
def rtMutexSetprio (k : Kernel) (p : Pid) (piTask : Option Pid)
    (dlPreempt hook : Bool) : Kernel :=
  let t := k.task p
  let prio := setprioPrio k p piTask
  if t.piTopTask = piTask ∧ prio = t.prio ∧ !dlPrio prio then k
  else
    let k := k.mod p fun t => { t with piTopTask := piTask }
    if prio = t.prio ∧ !dlPrio prio then k
    else if p = (k.rq t.cpu).idle then k
    else
      let flags := if t.prio = prio then dequeueSave ||| dequeueNoclock
        else dequeueSave ||| dequeueMove ||| dequeueNoclock
      let more := setprioFlags k p piTask dlPreempt
      let k := saveRestore k p flags (fun t => setprioTask t prio) (flags ||| more)
      checkClassChanged k t.cpu p t.schedClass t.prio hook

/-! ## The stopper -/

/-- `sched_set_stop_task`. The task is made to look like a `SCHED_FIFO`
task first, whatever that call returns; the old stopper goes back to the
RT class. -/
def schedSetStopTask (k : Kernel) (cpu : Nat) (stop : Option Pid)
    (env : SchedEnv) (hook : Bool) : Kernel :=
  let oldStop := (k.rq cpu).stop
  let k := match stop with
    | some p =>
        let attr := schedCopyAttr (some 1) 0 (prioToNice (k.task p).staticPrio) 99
        let k := match schedSetscheduler k p attr false true env hook with
          | .ok k' => k'
          | .error _ => k
        k.mod p fun t => { t with schedClass := .stop }
    | none => k
  let k := k.modRq cpu fun rq => { rq with stop := stop }
  match oldStop with
  | some p => k.mod p fun t => { t with schedClass := .rt }
  | none => k

end Sched

end Comp4511
