import Comp4511.SchedRq

/-!
# The TS class

`kernel/sched/ts.c`, function by function. A task of the class is on the
list `queue[139 - prio]`; a wakeup lifts its priority before it is
linked, using up the slice lowers it by ten and relinks it.

`prioTimeslice` leaves its result uninitialised outside `100..139`, which
is `none` here; the garbage that is then read is a parameter of the tick
(`junk`).
-/

namespace Comp4511

namespace Sched

def prioQueue (prio : Int) : Int := -1 * (prio - 139)

def prioTimeslice (prio : Int) : Option Nat :=
  match prio.tdiv 10 with
  | 13 => some 16
  | 12 => some 12
  | 11 => some 8
  | 10 => some 4
  | _ => none

/-! ## The lists -/

/-- `init_ts_rq`: forty empty lists. -/
def initTsRq (queue : Slot → List Pid) : Slot → List Pid
  | .ts i => if 0 ≤ i ∧ i < 40 then [] else queue (.ts i)
  | .cls c => queue (.cls c)

/-- `list_add_tail` on `ts.queue[i]`. -/
def listAddTail (rq : Rq) (p : Pid) (i : Int) : Rq :=
  { rq with queue := ListTable.addTail rq.queue (.ts i) p }

/-- `list_del` of `p->ts.list`: it is unlinked from whichever list it is
on. -/
def listDel (rq : Rq) (p : Pid) : Rq :=
  { rq with queue := ListTable.unlink Slot.isTs rq.queue p }

/-- `list_move_tail`. -/
def listMoveTail (rq : Rq) (p : Pid) (i : Int) : Rq :=
  listAddTail (listDel rq p) p i

/-! ## Enqueue and dequeue flags -/

def dequeueSleep : Nat := 0x01

def dequeueSave : Nat := 0x02

def dequeueMove : Nat := 0x04

def dequeueNoclock : Nat := 0x08

def enqueueWakeup : Nat := 0x01

def enqueueRestore : Nat := 0x02

def enqueueNoclock : Nat := 0x08

def enqueueHead : Nat := 0x10

def enqueueReplenish : Nat := 0x20

def enqueueMigrated : Nat := 0x40

/-! ## The class's functions -/

/-- The priority `enqueue_task_ts` gives a task that wakes up. -/
def wakeupPrio (prio : Int) : Int :=
  if prio.tdiv 10 = 13 then 109
  else if prio.tdiv 10 = 12 then 108
  else if prio.tdiv 10 = 10 then 100
  else if prio = 119 then 107
  else if prio = 118 then 106
  else if prio = 117 then 105
  else if prio = 116 then 104
  else if prio = 115 ∨ prio = 114 then 103
  else if prio = 113 ∨ prio = 112 then 102
  else if prio = 111 ∨ prio = 110 then 101
  else prio

/-- The write of `enqueue_task_ts` to the task. -/
def wakeupBoost (flags : Nat) (t : TaskStruct) : TaskStruct :=
  if flags &&& enqueueWakeup ≠ 0 then { t with prio := wakeupPrio t.prio } else t

def enqueueTaskTs (k : Kernel) (cpu : Nat) (p : Pid) (flags : Nat) : Kernel :=
  let k := k.mod p (wakeupBoost flags)
  let k := k.modRq cpu fun rq => listAddTail rq p (prioQueue (k.task p).prio)
  k.printk (.enqueue p (k.task p).prio flags)

def dequeueTaskTs (k : Kernel) (cpu : Nat) (p : Pid) (flags : Nat) : Kernel :=
  let k := k.modRq cpu fun rq => listDel rq p
  k.printk (.dequeue p (k.task p).prio flags)

def yieldTaskTs (k : Kernel) (cpu : Nat) : Kernel :=
  let p := (k.rq cpu).curr
  let k := k.modRq cpu fun rq => listMoveTail rq p (prioQueue (k.task p).prio)
  k.printk (.yield p (k.task p).prio)

def checkPreemptCurrTs (k : Kernel) (cpu : Nat) (p : Pid) : Kernel :=
  if (k.task (k.rq cpu).curr).prio > (k.task p).prio then reschedCurr k cpu else k

/-- The downward scan of `pick_next_task_ts`: the value of `x` when the
loop that starts below `n` ends. -/
def scanQueues (queue : Slot → List Pid) : Nat → Int
  | 0 => -1
  | n + 1 => if queue (.ts n) ≠ [] then n else scanQueues queue n

/-- `put_prev_task`: empty in the TS class; the other classes only update
fields of their own. -/
def putPrevTask (k : Kernel) (_cpu : Nat) (_prev : Pid) : Kernel := k

def pickNextTaskTs (k : Kernel) (cpu : Nat) (prev : Pid) : Option Pid × Kernel :=
  let x := scanQueues (k.rq cpu).queue 40
  if x = -1 then (none, k)
  else
    let k := putPrevTask k cpu prev
    (((k.rq cpu).queue (.ts x)).head?, k)

/-- The priority after a used-up slice. -/
def expirePrio (prio : Int) : Int :=
  if prio + 10 ≥ 139 then 139 else prio + 10

def taskTickTs (k : Kernel) (cpu : Nat) (p : Pid) (junk : Nat) : Kernel :=
  if (k.task p).policy ≠ .ts then k
  else
    let k := k.printk (.tick p (k.task p).timeSlice (k.task p).prio)
    let k := k.mod p fun t => { t with timeSlice := t.timeSlice - 1 }
    if (k.task p).timeSlice ≠ 0 then k
    else
      let k := k.mod p fun t => { t with prio := expirePrio t.prio }
      let k := k.printk (.expire p (k.task p).prio)
      let k := k.mod p fun t =>
        { t with timeSlice := UInt32.ofNat ((prioTimeslice t.prio).getD junk) }
      let k := k.modRq cpu fun rq => listMoveTail rq p (prioQueue (k.task p).prio)
      k.mod p setTskNeedResched

def getRrIntervalTs (k : Kernel) (p : Pid) : Option Nat :=
  prioTimeslice (k.task p).prio

end Sched

end Comp4511
