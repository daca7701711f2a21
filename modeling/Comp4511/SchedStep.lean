import Comp4511.Runs
import Comp4511.SchedCore

/-!
# Steps and runs of the scheduler

One label per entry point of the scheduler. Every step is one call, made
under the runqueue lock, so steps of different CPUs interleave freely; a
task sets its own state (`set_current_state`) and calls `__schedule` in
separate steps, with anything in between.

A step is impossible (`none`) where its caller cannot make the call: a
task that does not exist, an idle thread where the kernel only handles
others, a new task that was woken before, the migration of a task that
is running. A call that returns an error is possible and changes
nothing.
-/

namespace Comp4511

namespace Sched

inductive Op where
  | schedFork (cpu child : Nat)
  | wakeUpNewTask (p : Pid) (dest : Nat) (hook : Bool)
  | tryToWakeUp (p : Pid) (state dest : Nat) (hook : Bool)
  | setCurrentState (cpu state : Nat)
  | schedule (cpu : Nat) (preempt signalPending : Bool) (wake : Option Pid)
      (hook : Bool) (picks : SchedClass → ClassPick)
  | schedulerTick (cpu : Nat) (hook : Bool) (junk : Nat)
  | schedYield (cpu : Nat)
  | setUserNice (p : Pid) (nice : Int)
  | schedSetscheduler (p : Pid) (attr : SchedAttr) (user pi : Bool)
      (env : SchedEnv) (hook : Bool)
  | rtMutexSetprio (p : Pid) (piTask : Option Pid) (dlPreempt hook : Bool)
  | doSetCpusAllowed (p : Pid) (newMask : Nat → Bool)
  | moveQueuedTask (p : Pid) (newCpu : Nat) (hook : Bool)
  | schedSetStopTask (cpu : Nat) (stop : Option Pid) (env : SchedEnv) (hook : Bool)

/-- A task the callers of the scheduler can name. -/
def Kernel.Named (k : Kernel) (p : Pid) : Prop := k.Live p ∧ p.isProc = true

instance (k : Kernel) : DecidablePred k.Named :=
  fun _ => inferInstanceAs (Decidable (_ ∧ _))

/-- The stopper threads a CPU had and gets are parked, not queued. -/
def Kernel.Parked (k : Kernel) (stop : Option Pid) : Prop :=
  ∀ p ∈ stop, k.Named p ∧ taskOnRqQueued (k.task p) = false

instance (k : Kernel) : DecidablePred k.Parked
  | none => isTrue fun _ hp => nomatch hp
  | some p => decidable_of_iff (k.Named p ∧ taskOnRqQueued (k.task p) = false)
      ⟨fun h q hq => by obtain rfl : p = q := Option.some.inj hq; exact h,
       fun h => h p rfl⟩

def step (k : Kernel) : Op → Option Kernel
  | .schedFork cpu child =>
      if child ∈ k.procs then none else some (forkTask k cpu child)
  | .wakeUpNewTask p dest hook =>
      if k.Named p ∧ (k.task p).state = taskNew ∧ (k.task p).onRq = .off then
        some (wakeUpNewTask k p dest hook)
      else none
  | .tryToWakeUp p state dest hook =>
      if k.Named p then some (tryToWakeUp k p state dest hook) else none
  | .setCurrentState cpu state =>
      let curr := (k.rq cpu).curr
      if curr.isProc then some (k.mod curr fun t => { t with state := state })
      else none
  | .schedule cpu preempt signalPending wake hook picks =>
      if ∀ w ∈ wake, k.Named w then
        schedule picks k cpu preempt signalPending wake hook
      else none
  | .schedulerTick cpu hook junk => some (schedulerTick k cpu hook junk)
  | .schedYield cpu => some (doSchedYield k cpu)
  | .setUserNice p nice =>
      if k.Named p then some (setUserNice k p nice) else none
  | .schedSetscheduler p attr user pi env hook =>
      if k.Named p then
        match schedSetscheduler k p attr user pi env hook with
        | .ok k' => some k'
        | .error _ => some k
      else none
  | .rtMutexSetprio p piTask dlPreempt hook =>
      if k.Live p ∧ (∀ d ∈ piTask, k.Live d ∧ d ≠ p) then
        some (rtMutexSetprio k p piTask dlPreempt hook)
      else none
  | .doSetCpusAllowed p newMask =>
      if k.Named p then some (doSetCpusAllowed k p newMask) else none
  | .moveQueuedTask p newCpu hook =>
      if k.Named p ∧ taskOnRqQueued (k.task p) ∧ !taskRunningOnCpu (k.task p) then
        some (moveQueuedTask k p newCpu hook)
      else none
  | .schedSetStopTask cpu stop env hook =>
      if k.Parked stop ∧ k.Parked (k.rq cpu).stop then
        some (schedSetStopTask k cpu stop env hook)
      else none

/-! ## Boot -/

/-- `sched_init` for one CPU: no task queued in any class, and the CPU's
idle thread running. The memory next to the forty lists holds none. -/
def bootRq (cpu : Nat) : Rq where
  nrRunning := 0
  cfsNrRunning := 0
  queue := initTsRq fun _ => []
  curr := .swapper cpu
  idle := .swapper cpu
  stop := none

/-- The state at the end of `sched_init`: on every CPU the boot task, or
a copy of it, has been through `init_idle`. -/
def boot : Kernel where
  task
    | .swapper cpu => initIdle initTask cpu
    | .proc _ => initTask
  rq := bootRq
  procs := ∅
  log := []

/-- The states of the scheduler. -/
def Reachable (k : Kernel) : Prop := Lts.Reaches step boot k

end Sched

end Comp4511
