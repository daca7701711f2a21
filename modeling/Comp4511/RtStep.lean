import Comp4511.RtRq
import Comp4511.SchedCore

/-!
# The steps of a runqueue with real-time tasks

What `core.c` does with the functions of the real-time class on one CPU,
each step under the lock of the runqueue. A task that another CPU pulls
from here leaves by `deactivate`, and one that `pull_rt_task` brings here
comes by `activate`; `push_rt_task` is a step of its own, and so are the
calls that the balance callbacks make. Of the other classes a step says
which of their tasks they pick.

`Allowed` are the conditions under which `core.c` takes a step. A step that
comes to one of the `BUG_ON`s in the model has no next state.
-/

namespace Comp4511

namespace Rt

open Sched (Pid SchedClass Policy)

/-! ## Enqueue and dequeue by class -/

/-- What a class adds to `nr_running` for a task: nothing in the TS class. -/
def nrShare (c : SchedClass) : ℕ := if c = .ts then 0 else 1

def enqueueTask (e : Env) (rq : Rq) (p : Pid) (flags : ℕ) : Rq :=
  if rq.isRt p then enqueueTaskRt e rq p flags
  else addNrRunning { rq with other := rq.other ++ [p] } (nrShare (rq.task p).schedClass)

def dequeueTask (e : Env) (rq : Rq) (p : Pid) (flags : ℕ) : Rq :=
  if rq.isRt p then dequeueTaskRt e rq p flags
  else subNrRunning { rq with other := rq.other.erase p } (nrShare (rq.task p).schedClass)

/-- `activate_task`, and `p->on_rq` after it. -/
def activateTask (e : Env) (rq : Rq) (p : Pid) (flags : ℕ) : Rq :=
  (enqueueTask e rq p flags).mod p fun t => { t with onRq := true }

/-- `deactivate_task`; the task is not on this runqueue after it. -/
def deactivateTask (e : Env) (rq : Rq) (p : Pid) (flags : ℕ) : Rq :=
  (dequeueTask e rq p flags).mod p fun t => { t with onRq := false }

def setCurrTask (rq : Rq) : Rq := if rq.isRt rq.curr then setCurrTaskRt rq else rq

/-! ## Changes of a task -/

/-- The fields that `__sched_setscheduler`, `rt_mutex_setprio` and
`do_set_cpus_allowed` write. -/
structure Change where
  schedClass : SchedClass
  policy : Policy
  prio : ℤ
  nrCpusAllowed : ℕ

def Change.apply (c : Change) (t : Task) : Task :=
  { t with
    schedClass := c.schedClass
    policy := c.policy
    prio := c.prio
    nrCpusAllowed := c.nrCpusAllowed }

/-- `check_class_changed`; `hook` says whether another class asks for a
reschedule. -/
def checkClassChanged (rq : Rq) (p : Pid) (prevClass : SchedClass) (oldprio : ℤ)
    (hook cpuOnline : Bool) : Rq :=
  let t := rq.task p
  if prevClass ≠ t.schedClass then
    if rq.isRt p then switchedToRt rq p cpuOnline else if hook then reschedCurr rq else rq
  else if oldprio ≠ t.prio ∨ t.schedClass = .dl then
    if rq.isRt p then prioChangedRt rq p else if hook then reschedCurr rq else rq
  else rq

/-- The flags of the bracket around a change. -/
def changeFlags (move : Bool) : ℕ :=
  Sched.dequeueSave ||| Sched.dequeueNoclock ||| if move then Sched.dequeueMove else 0

/-- The bracket around a change. -/
def changeTask (e : Env) (rq : Rq) (p : Pid) (c : Change) (move head : Bool)
    (hook cpuOnline : Bool) : Rq :=
  let prevClass := (rq.task p).schedClass
  let oldprio := rq.prio p
  let queued := (rq.task p).onRq
  let running := taskCurrent rq p
  let rq := if queued then dequeueTask e rq p (changeFlags move) else rq
  let rq := if running then putPrevTask e rq p else rq
  let rq := rq.mod p c.apply
  let rq :=
    if queued then
      enqueueTask e rq p (changeFlags move ||| if head then Sched.enqueueHead else 0)
    else rq
  let rq := if running then setCurrTask rq else rq
  checkClassChanged rq p prevClass oldprio hook cpuOnline

/-! ## The steps -/

/-- `pick_next_task`. `above` is the pick of a class above this one, `below`
that of one below. -/
def pickNextTask (e : Env) (rq : Rq) (prev : Pid) (above below : Option Pid) :
    Option (Pid × Rq) :=
  match above with
  | some p => some (p, putPrevTask e rq prev)
  | none =>
      (pickNextTaskRt e rq prev).map fun r =>
        match r with
        | (some p, rq) => (p, rq)
        | (none, rq) => (below.getD rq.idle, putPrevTask e rq prev)

/-- `__schedule`; the task that runs blocks or not. -/
def schedule (e : Env) (rq : Rq) (blocks : Bool) (above below : Option Pid) : Option Rq :=
  let prev := rq.curr
  let rq :=
    if blocks then deactivateTask e rq prev (Sched.dequeueSleep ||| Sched.dequeueNoclock) else rq
  (pickNextTask e rq prev above below).map fun r =>
    { r.2.mod prev fun t => { t with needResched := false } with curr := r.1 }

/-- `check_preempt_curr` for a task of any class. -/
def checkPreemptCurr (rq : Rq) (p : Pid) (hook currFits pFits : Bool) : Rq :=
  let currClass := (rq.task rq.curr).schedClass
  let pClass := (rq.task p).schedClass
  if pClass = currClass then
    if rq.isRt p then checkPreemptCurrRt rq p currFits pFits
    else if hook then reschedCurr rq else rq
  else if Sched.preemptsClass currClass pClass Sched.forEachClass then reschedCurr rq
  else rq

/-- `push_rt_task`, with its value. `found` is the answer of
`find_lock_lowest_rq`. -/
def pushRtTask (e : Env) (rq : Rq) (found : Bool) : Option (Bool × Rq) :=
  if !rq.rt.overloaded then some (false, rq)
  else
    (pickNextPushableTask rq).map fun next =>
      match next with
      | none => (false, rq)
      | some p =>
          if p = rq.curr then (false, rq)
          else if rq.prio p < rq.prio rq.curr then (false, reschedCurr rq)
          else if !found then (false, rq)
          else (true, deactivateTask e rq p 0)

inductive Op where
  | activate (p : Pid) (flags : ℕ)
  | deactivate (p : Pid) (flags : ℕ)
  | change (p : Pid) (c : Change) (move head hook cpuOnline : Bool)
  | schedule (blocks : Bool) (above below : Option Pid)
  | tick
  | yield
  | preempt (p : Pid) (hook currFits pFits : Bool)
  | push (found : Bool)
  | timer (overrun : ℕ) (othersIdle othersThrottled : Bool)
  /-- Another CPU takes runtime from this one, or gives it back. -/
  | share (runtime : ℕ)
  | online
  | offline
  | clock (d : ℕ)

/-- An operation, and what a `do_balance_runtime` in it makes of the
runtime. -/
structure Act where
  op : Op
  balanced : ℕ

/-- The class of a task goes with its priority. -/
def Change.Fits (c : Change) : Prop := c.schedClass = .rt → 0 ≤ c.prio ∧ c.prio < maxRtPrio

instance : DecidablePred Change.Fits := fun c => by
  unfold Change.Fits
  infer_instance

/-- A pick of one of the classes `cs`. -/
def Picks (rq : Rq) (blocks : Bool) (cs : List SchedClass) (pick : Option Pid) : Prop :=
  ∀ p ∈ pick, p ∈ rq.other ∧ (rq.task p).schedClass ∈ cs ∧ (blocks → p ≠ rq.curr)

instance (rq : Rq) (blocks : Bool) (cs : List SchedClass) : DecidablePred (Picks rq blocks cs) :=
  fun pick => by
    unfold Picks
    cases pick <;> infer_instance

/-- The conditions on a step. A change without `MOVE` keeps the class and
the priority. -/
def Allowed (rq : Rq) : Op → Prop
  | .activate p flags => p ≠ rq.idle ∧ (rq.task p).onRq = false ∧ moveEntity flags = true
  | .deactivate p flags =>
      p ≠ rq.idle ∧ p ≠ rq.curr ∧ (rq.task p).onRq = true ∧ moveEntity flags = true
  | .change p c move .. =>
      p ≠ rq.idle ∧ c.Fits ∧
        (move = false → c.schedClass = (rq.task p).schedClass ∧ c.prio = rq.prio p)
  | .schedule blocks above below =>
      (blocks = true → rq.curr ≠ rq.idle) ∧ Picks rq blocks [.stop, .dl] above ∧
        Picks rq blocks [.ts, .fair] below
  | .tick | .push _ | .timer .. | .clock _ => True
  | .yield => rq.curr ≠ rq.idle
  | .preempt p .. => (rq.task p).onRq = true
  | .share runtime => rq.rt.rtRuntime ≠ runtimeInf ∧ runtime ≠ runtimeInf
  | .online => rq.online = false
  | .offline => rq.online = true

instance (rq : Rq) : DecidablePred (Allowed rq)
  | .activate .. => inferInstanceAs (Decidable (_ ∧ _ ∧ _))
  | .deactivate .. => inferInstanceAs (Decidable (_ ∧ _ ∧ _ ∧ _))
  | .change .. => inferInstanceAs (Decidable (_ ∧ _ ∧ (_ → _)))
  | .schedule .. => inferInstanceAs (Decidable ((_ → _) ∧ _ ∧ _))
  | .tick | .push _ | .timer .. | .clock _ => inferInstanceAs (Decidable True)
  | .yield => inferInstanceAs (Decidable (_ ≠ _))
  | .preempt .. => inferInstanceAs (Decidable (_ = _))
  | .share _ => inferInstanceAs (Decidable (_ ∧ _))
  | .online => inferInstanceAs (Decidable (_ = _))
  | .offline => inferInstanceAs (Decidable (_ = _))

/-- A step; `none` is a `BUG_ON` of a function that picks. -/
def perform (b : Bandwidth) (rq : Rq) (a : Act) : Option Rq :=
  let e : Env := ⟨b, a.balanced⟩
  match a.op with
  | .activate p flags => some (activateTask e rq p flags)
  | .deactivate p flags => some (deactivateTask e rq p flags)
  | .change p c move head hook cpuOnline => some (changeTask e rq p c move head hook cpuOnline)
  | .schedule blocks above below => schedule e rq blocks above below
  | .tick => some (if rq.isRt rq.curr then taskTickRt e rq rq.curr else rq)
  | .yield => some (if rq.isRt rq.curr then yieldTaskRt rq else rq)
  | .preempt p hook currFits pFits => some (checkPreemptCurr rq p hook currFits pFits)
  | .push found => (pushRtTask e rq found).map Prod.snd
  | .timer overrun othersIdle othersThrottled =>
      some (schedRtPeriodTimer e rq overrun othersIdle othersThrottled)
  | .share runtime => some (rq.modRt fun rt => { rt with rtRuntime := runtime })
  | .online => some (rqOnlineRt b { rq with online := true })
  | .offline => some { rqOfflineRt rq with online := false }
  | .clock d => some { rq with clockTask := rq.clockTask + d }

/-- A step; `none` is a `BUG_ON`. -/
def step (b : Bandwidth) (rq : Rq) (a : Act) : Option Rq :=
  if Allowed rq a.op then (perform b rq a).filter fun rq => !rq.bug else none

theorem step_eq {b : Bandwidth} {rq rq' : Rq} {a : Act} (hallowed : Allowed rq a.op)
    (h : perform b rq a = some rq') (hbug : rq'.bug = false) : step b rq a = some rq' := by
  rw [step, if_pos hallowed, h, Option.filter_some, hbug]
  rfl

theorem step_cases {b : Bandwidth} {rq rq' : Rq} {a : Act} (h : step b rq a = some rq') :
    Allowed rq a.op ∧ perform b rq a = some rq' := by
  unfold step at h
  split at h
  · next hallowed => exact ⟨hallowed, Option.eq_some_of_filter_eq_some h⟩
  · cases h

/-- `init_rt_rq` and `sched_init`, for the CPU that boots: `rq_attach_root`
puts it online. -/
def boot (b : Bandwidth) (cpu : ℕ) : Rq where
  task p :=
    { schedClass := if p = .swapper cpu then .idle else .fair
      policy := .normal
      prio := 120
      nrCpusAllowed := 1
      onRq := p = .swapper cpu
      needResched := false
      execStart := 0
      sumExecRuntime := 0
      rt := ⟨b.rrTimeslice, false, false⟩ }
  rt :=
    { active := ⟨fun _ => [], fun i => i = maxRtPrio⟩
      rtNrRunning := 0
      rrNrRunning := 0
      highestCurr := maxRtPrio
      highestNext := maxRtPrio
      rtNrMigratory := 0
      rtNrTotal := 0
      overloaded := false
      pushableTasks := []
      rtQueued := false
      rtThrottled := false
      rtTime := 0
      rtRuntime := b.rtRuntime }
  nrRunning := 0
  curr := .swapper cpu
  idle := .swapper cpu
  clockTask := 0
  online := true
  rtoMask := false
  rtoCount := 0
  cpupri := maxRtPrio
  other := []
  rtPeriodActive := false
  bug := false

end Rt

end Comp4511
