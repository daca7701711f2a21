import Mathlib.Data.Int.Order.Basic

/-!
# Tasks, policies and priorities

The scheduling part of `task_struct` and the functions of `core.c` that
only read and write one task: the policy and priority predicates of
`sched.h`, `normal_prio`/`effective_prio`, the task half of
`set_user_nice`, `setscheduler` and `rt_mutex_setprio`, and
`sched_fork`. What these functions do to a runqueue is in `SchedCore`.

A priority is an `Int`, as in the source (`int prio`, negative for
deadline tasks). `ts.time_slice` is the source's `unsigned int`, so that
its decrement wraps where the source's does. Of the fields the model
leaves out (load weights, statistics, the other classes' entities),
nothing modelled reads any.
-/

namespace Comp4511

namespace Sched

/-! ## Classes and policies -/

/-- `struct sched_class`: the six classes. -/
inductive SchedClass where
  | stop
  | dl
  | rt
  | ts
  | fair
  | idle
deriving Repr, DecidableEq

/-- `for_each_class`: the chain of `next` pointers from
`sched_class_highest`; `rt_sched_class.next` is `ts_sched_class`, whose
own `next` is `fair_sched_class`. -/
def forEachClass : List SchedClass :=
  [.stop, .dl, .rt, .ts, .fair, .idle]

/-- The scheduling policies `valid_policy` admits. -/
inductive Policy where
  | normal
  | fifo
  | rr
  | batch
  | idle
  | deadline
  | ts
deriving Repr, DecidableEq

/-- `valid_policy`, with the policy its argument stands for. -/
def Policy.ofNat? : Nat → Option Policy
  | 0 => some .normal
  | 1 => some .fifo
  | 2 => some .rr
  | 3 => some .batch
  | 5 => some .idle
  | 6 => some .deadline
  | 10 => some .ts
  | _ => none

def idlePolicy (policy : Policy) : Bool := policy = .idle

/-- `fair_policy`: neither `SCHED_IDLE` nor `SCHED_TS` is one. -/
def fairPolicy (policy : Policy) : Bool := policy = .normal ∨ policy = .batch

def rtPolicy (policy : Policy) : Bool := policy = .fifo ∨ policy = .rr

def dlPolicy (policy : Policy) : Bool := policy = .deadline

def tsPolicy (policy : Policy) : Bool := policy = .ts

/-! ## Priorities -/

def maxDlPrio : Int := 0

def maxRtPrio : Int := 100

def maxUserRtPrio : Int := 100

def minNice : Int := -20

def maxNice : Int := 19

def niceToPrio (nice : Int) : Int := nice + 120

def prioToNice (prio : Int) : Int := prio - 120

def dlPrio (prio : Int) : Bool := prio < maxDlPrio

def rtPrio (prio : Int) : Bool := prio < maxRtPrio

/-! ## The task -/

/-- `p->on_rq`: `0`, `TASK_ON_RQ_QUEUED` or `TASK_ON_RQ_MIGRATING`. -/
inductive OnRq where
  | off
  | queued
  | migrating
deriving Repr, DecidableEq

/-- A task's identity: the idle thread of a CPU (`swapper/N`) or one of
the tasks created by fork. -/
inductive Pid where
  | swapper (cpu : Nat)
  | proc (n : Nat)
deriving Repr, DecidableEq

/-- The scheduling fields of `task_struct`. `needResched` is the thread
flag `TIF_NEED_RESCHED`, `mm` says that `p->mm` is not `NULL`, and
`timeSlice` is `p->ts.time_slice`. -/
structure TaskStruct where
  state : Nat
  onRq : OnRq
  onCpu : Bool
  cpu : Nat
  prio : Int
  staticPrio : Int
  normalPrio : Int
  rtPriority : Nat
  schedClass : SchedClass
  policy : Policy
  timeSlice : UInt32
  schedResetOnFork : Bool
  piTopTask : Option Pid
  needResched : Bool
  mm : Bool
  cpusAllowed : Nat → Bool

def taskRunning : Nat := 0x0000

def taskNormal : Nat := 0x0003

def taskNew : Nat := 0x0800

def taskOnRqQueued (t : TaskStruct) : Bool := t.onRq = .queued

/-- `task_running` with `CONFIG_SMP`. -/
def taskRunningOnCpu (t : TaskStruct) : Bool := t.onCpu

def taskNice (t : TaskStruct) : Int := prioToNice t.staticPrio

/-! ## Normal and effective priority -/

/-- `__normal_prio`. -/
def normalPrioCore (t : TaskStruct) : Int := t.staticPrio

def normalPrio (t : TaskStruct) : Int :=
  if dlPolicy t.policy then maxDlPrio - 1
  else if rtPolicy t.policy then maxRtPrio - 1 - t.rtPriority
  else normalPrioCore t

/-- `effective_prio` stores the normal priority on the way. -/
def effectivePrio (t : TaskStruct) : TaskStruct × Int :=
  let t := { t with normalPrio := normalPrio t }
  if !rtPrio t.prio then (t, t.normalPrio) else (t, t.prio)

/-- `__rt_effective_prio`, given the donor's priority. -/
def rtEffectivePrio (donorPrio : Option Int) (prio : Int) : Int :=
  match donorPrio with
  | some d => min prio d
  | none => prio

/-! ## Renicing -/

/-- What `set_user_nice` stores in the task between taking it off its
runqueue and putting it back. -/
def setNice (t : TaskStruct) (nice : Int) : TaskStruct :=
  let t := { t with staticPrio := niceToPrio nice }
  let (t, prio) := effectivePrio t
  { t with prio := prio }

/-! ## Changing the policy -/

/-- `struct sched_attr`. `schedPolicy = none` is `SETPARAM_POLICY`. The
nice value is in the range `sched_copy_attr` clamps it to. -/
structure SchedAttr where
  schedPolicy : Option Nat
  schedFlags : Nat
  schedNice : Int
  schedPriority : Nat
  nice_mem : minNice ≤ schedNice ∧ schedNice ≤ maxNice

/-- The end of `sched_copy_attr`: the nice value a caller supplies is
clamped, everything else is copied. -/
def schedCopyAttr (policy : Option Nat) (flags : Nat) (nice : Int)
    (priority : Nat) : SchedAttr where
  schedPolicy := policy
  schedFlags := flags
  schedNice := max minNice (min nice maxNice)
  schedPriority := priority
  nice_mem := by
    have hle : minNice ≤ maxNice := by decide
    exact ⟨le_max_left _ _, max_le hle (min_le_right _ _)⟩

/-- The policy a request asks for, the task's own under
`SETPARAM_POLICY`. Requests with an invalid policy are refused before. -/
def attrPolicy (t : TaskStruct) (attr : SchedAttr) : Policy :=
  (attr.schedPolicy.bind Policy.ofNat?).getD t.policy

/-- `__setscheduler_params`. -/
def setschedulerParams (t : TaskStruct) (attr : SchedAttr) : TaskStruct :=
  let policy := attrPolicy t attr
  let t := { t with policy := policy }
  let t := if fairPolicy policy then
      { t with staticPrio := niceToPrio attr.schedNice }
    else t
  let t := { t with rtPriority := attr.schedPriority }
  { t with normalPrio := normalPrio t }

/-- `__setscheduler`; `donorPrio` is the priority of `p->pi_top_task`,
`keepBoost` the source's `keep_boost`. -/
def setscheduler (t : TaskStruct) (attr : SchedAttr)
    (donorPrio : Option Int) (keepBoost : Bool) : TaskStruct :=
  let t := setschedulerParams t attr
  let t := { t with prio := normalPrio t }
  let t := if keepBoost then
      { t with prio := rtEffectivePrio donorPrio t.prio }
    else t
  if dlPrio t.prio then { t with schedClass := .dl }
  else if rtPrio t.prio then { t with schedClass := .rt }
  else if tsPolicy t.policy then { t with schedClass := .ts }
  else { t with schedClass := .fair }

/-- The class and priority `rt_mutex_setprio` gives a task. Its decision
has no branch for `SCHED_TS`. -/
def setprioTask (t : TaskStruct) (prio : Int) : TaskStruct :=
  let t := if dlPrio prio then { t with schedClass := .dl }
    else if rtPrio prio then { t with schedClass := .rt }
    else { t with schedClass := .fair }
  { t with prio := prio }

/-! ## Fork -/

/-- `__sched_fork`. The slice comes from the priority the task has at
this point; outside `100..139` the one it was copied with stays. -/
def schedForkCore (t : TaskStruct) : TaskStruct :=
  let t := { t with onRq := .off }
  match t.prio.tdiv 10 with
  | 13 => { t with timeSlice := 16 }
  | 12 => { t with timeSlice := 12 }
  | 11 => { t with timeSlice := 8 }
  | 10 => { t with timeSlice := 4 }
  | _ => t

/-- The copy of the parent that `copy_process` hands to `sched_fork`: no
reschedule flag, no donor. -/
def dupTask (current : TaskStruct) : TaskStruct :=
  { current with needResched := false, piTopTask := none }

/-- The `sched_reset_on_fork` block of `sched_fork`. -/
def resetOnFork (t : TaskStruct) : TaskStruct :=
  let t := if dlPolicy t.policy ∨ rtPolicy t.policy then
      { t with policy := .normal, staticPrio := niceToPrio 0, rtPriority := 0 }
    else if prioToNice t.staticPrio < 0 then
      { t with staticPrio := niceToPrio 0 }
    else t
  { t with
    prio := normalPrioCore t
    normalPrio := normalPrioCore t
    schedResetOnFork := false }

/-- The first half of `sched_fork`: the child before its class is chosen. -/
def forkBase (current : TaskStruct) : TaskStruct :=
  let t := schedForkCore (dupTask current)
  let t := { t with state := taskNew, prio := current.normalPrio }
  if t.schedResetOnFork then resetOnFork t else t

/-- `sched_fork` on CPU `cpu`; `none` is its `-EAGAIN`. -/
def schedFork (current : TaskStruct) (cpu : Nat) : Option TaskStruct :=
  let t := forkBase current
  if dlPrio t.prio then none
  else
    let t :=
      if rtPrio t.prio then { t with schedClass := .rt }
      else if tsPolicy t.policy then { t with schedClass := .ts }
      else { t with schedClass := .fair }
    some { t with cpu := cpu, onCpu := false }

/-! ## The idle threads -/

/-- The statically initialised boot task: `SCHED_NORMAL` at nice 0, every
other field zero. -/
def initTask : TaskStruct where
  state := taskRunning
  onRq := .off
  onCpu := false
  cpu := 0
  prio := 120
  staticPrio := 120
  normalPrio := 120
  rtPriority := 0
  schedClass := .fair
  policy := .normal
  timeSlice := 0
  schedResetOnFork := false
  piTopTask := none
  needResched := false
  mm := false
  cpusAllowed := fun _ => true

/-- `init_idle`, the part on the task. -/
def initIdle (idle : TaskStruct) (cpu : Nat) : TaskStruct :=
  let t := schedForkCore idle
  { t with
    state := taskRunning
    cpusAllowed := fun c => c == cpu
    cpu := cpu
    onRq := .queued
    onCpu := true
    schedClass := .idle }

end Sched

end Comp4511
