import Mathlib.Data.Finset.Insert
import Comp4511.ListTable
import Comp4511.SchedTask

/-!
# Runqueues and the scheduler's state

`Rq` is the part of `struct rq` the model needs. The forty lists of
`rq->ts.queue` are the lists `.ts i` with `i` in `0..39`; an index
outside that range stands for the memory next to the array, so that a
wrong index shows. Of the other classes (`stop`, deadline, RT, fair) only
the contract is modelled: which tasks each has queued (`.cls c`), the
count each of them keeps in `rq->nr_running`, and `cfs.h_nr_running`.

`Kernel` is the state of the whole system: the tasks, one runqueue per
CPU, which of the tasks exist, and the lines `ts.c` sends to `printk`
(newest first). CPUs that never come up just never take a step.
-/

namespace Comp4511

namespace Sched

/-- The lists of a runqueue. -/
inductive Slot where
  | ts (i : Int)
  | cls (c : SchedClass)
deriving Repr, DecidableEq

def Slot.isTs : Slot → Bool
  | .ts _ => true
  | .cls _ => false

/-- `struct rq`. -/
structure Rq where
  nrRunning : Nat
  /-- `cfs.h_nr_running`. -/
  cfsNrRunning : Nat
  queue : Slot → List Pid
  curr : Pid
  idle : Pid
  stop : Option Pid

/-- The `[SCHED_TS]` lines of `ts.c` that record a change of its queues:
`ENQUEUE`, `DEQUEUE`, `YIELD`, and the two `TASK TICK` lines, the first
printed for every charged tick, the second when the slice is used up. -/
inductive Printk where
  | enqueue (p : Pid) (prio : Int) (flags : Nat)
  | dequeue (p : Pid) (prio : Int) (flags : Nat)
  | yield (p : Pid) (prio : Int)
  | tick (p : Pid) (timeSlice : UInt32) (prio : Int)
  | expire (p : Pid) (prio : Int)
deriving Repr, DecidableEq

structure Kernel where
  task : Pid → TaskStruct
  rq : Nat → Rq
  procs : Finset Nat
  log : List Printk

/-- The task exists: idle threads always do. -/
def Kernel.Live (k : Kernel) : Pid → Prop
  | .swapper _ => True
  | .proc n => n ∈ k.procs

instance (k : Kernel) : DecidablePred k.Live
  | .swapper _ => inferInstanceAs (Decidable True)
  | .proc n => inferInstanceAs (Decidable (n ∈ k.procs))

/-- A task other than an idle thread. -/
def Pid.isProc : Pid → Bool
  | .swapper _ => false
  | .proc _ => true

/-! ## Elementary updates -/

/-- Update the fields of one task. -/
def Kernel.mod (k : Kernel) (p : Pid) (f : TaskStruct → TaskStruct) : Kernel :=
  { k with task := Function.update k.task p (f (k.task p)) }

/-- Update one runqueue. -/
def Kernel.modRq (k : Kernel) (cpu : Nat) (f : Rq → Rq) : Kernel :=
  { k with rq := Function.update k.rq cpu (f (k.rq cpu)) }

def Kernel.printk (k : Kernel) (line : Printk) : Kernel :=
  { k with log := line :: k.log }

/-- `set_tsk_need_resched`. -/
def setTskNeedResched (t : TaskStruct) : TaskStruct :=
  { t with needResched := true }

/-- `clear_tsk_need_resched`. -/
def clearTskNeedResched (t : TaskStruct) : TaskStruct :=
  { t with needResched := false }

/-- `resched_curr`. -/
def reschedCurr (k : Kernel) (cpu : Nat) : Kernel :=
  k.mod (k.rq cpu).curr setTskNeedResched

/-- All lists of the system, by CPU. -/
def Kernel.lists (k : Kernel) : Nat × Slot → List Pid :=
  fun i => (k.rq i.1).queue i.2

section Updates

variable (k : Kernel) (p : Pid) (cpu : Nat)

@[simp] theorem mod_task (f : TaskStruct → TaskStruct) :
    (k.mod p f).task = Function.update k.task p (f (k.task p)) := rfl

@[simp] theorem mod_rq (f : TaskStruct → TaskStruct) : (k.mod p f).rq = k.rq := rfl

@[simp] theorem mod_procs (f : TaskStruct → TaskStruct) :
    (k.mod p f).procs = k.procs := rfl

@[simp] theorem mod_log (f : TaskStruct → TaskStruct) :
    (k.mod p f).log = k.log := rfl

@[simp] theorem modRq_task (f : Rq → Rq) : (k.modRq cpu f).task = k.task := rfl

@[simp] theorem modRq_rq (f : Rq → Rq) :
    (k.modRq cpu f).rq = Function.update k.rq cpu (f (k.rq cpu)) := rfl

@[simp] theorem modRq_procs (f : Rq → Rq) : (k.modRq cpu f).procs = k.procs := rfl

@[simp] theorem modRq_log (f : Rq → Rq) : (k.modRq cpu f).log = k.log := rfl

@[simp] theorem printk_task (l : Printk) : (k.printk l).task = k.task := rfl

@[simp] theorem printk_rq (l : Printk) : (k.printk l).rq = k.rq := rfl

@[simp] theorem printk_procs (l : Printk) : (k.printk l).procs = k.procs := rfl

@[simp] theorem printk_log (l : Printk) : (k.printk l).log = l :: k.log := rfl

@[simp] theorem reschedCurr_rq : (reschedCurr k cpu).rq = k.rq := rfl

@[simp] theorem reschedCurr_procs : (reschedCurr k cpu).procs = k.procs := rfl

@[simp] theorem reschedCurr_log : (reschedCurr k cpu).log = k.log := rfl

theorem reschedCurr_task :
    (reschedCurr k cpu).task =
      Function.update k.task (k.rq cpu).curr
        (setTskNeedResched (k.task (k.rq cpu).curr)) := rfl

end Updates

theorem Kernel.live_congr {k k' : Kernel} (h : k'.procs = k.procs) :
    k'.Live = k.Live := by
  funext p
  cases p with
  | swapper c => rfl
  | proc n => simp only [Kernel.Live, h]

end Sched

end Comp4511
