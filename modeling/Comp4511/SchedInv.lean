import Comp4511.SchedEffect

/-!
# The representation invariant

`Inv` is what holds between any two steps of the scheduler: every list
holds exactly the queued tasks whose class and priority put them there,
each of them once; the lists of the TS class are in the order of the
tasks' last enqueue, yield or expiry (`stamp`); the counters are exact;
every CPU runs a task that is queued on it, and the tasks' own fields
agree with that (`TaskInv`).

Inside a step two things are broken for a moment. Between a dequeue and
the enqueue that follows, one task is on no list (`InvOut`); between
blocking and switching, the current task of a CPU is not queued (the
exempt task `x` of `InvBut`). The functions are compositions of a few
moves between these three forms, and each move is one lemma.
-/

namespace Comp4511

namespace Sched

open ListTable

/-! ## Stamps -/

/-- The task whose turn starts anew with a line: it was enqueued, yielded,
or used up its slice. -/
def Printk.renews : Printk → Option Pid
  | .enqueue p _ _ => some p
  | .yield p _ => some p
  | .expire p _ => some p
  | .dequeue .. | .tick .. => none

/-- The number of the last line that renews `p`, `0` if there is none. -/
def stamp (p : Pid) : List Printk → Nat
  | [] => 0
  | line :: log => if line.renews = some p then log.length + 1 else stamp p log

theorem stamp_le (p : Pid) (log : List Printk) : stamp p log ≤ log.length := by
  induction log with
  | nil => exact le_refl 0
  | cons line log ih =>
      rw [stamp, List.length_cons]
      split_ifs
      · exact le_refl _
      · omega

theorem stamp_renewed {line : Printk} {p : Pid} (h : line.renews = some p)
    (log : List Printk) : stamp p (line :: log) = log.length + 1 := by
  rw [stamp, if_pos h]

theorem stamp_other {line : Printk} {q : Pid} (h : line.renews ≠ some q)
    (log : List Printk) : stamp q (line :: log) = stamp q log := by
  rw [stamp, if_neg h]

/-- The lists of the TS class. -/
def tsLists (i : Nat × Slot) : Bool := i.2.isTs

/-- The lists of the class are in stamp order. -/
def InOrder (k : Kernel) : Prop := Stamped tsLists k.lists fun p => stamp p k.log

/-- A line that renews no task keeps the order. -/
theorem stamped_silent {Q : Nat × Slot → List Pid} {log : List Printk}
    (h : Stamped tsLists Q fun p => stamp p log) {line : Printk} (hline : line.renews = none) :
    Stamped tsLists Q fun p => stamp p (line :: log) := by
  have heq : (fun p => stamp p (line :: log)) = fun p => stamp p log := by
    funext p
    exact stamp_other (by rw [hline]; exact fun he => nomatch he) log
  rw [heq]
  exact h

/-- Appending the task a line renews keeps the order. -/
theorem stamped_renew {Q : Nat × Slot → List Pid} {log : List Printk}
    (h : Stamped tsLists Q fun p => stamp p log) {line : Printk} {p : Pid}
    (hline : line.renews = some p) (hp : ∀ i, p ∉ Q i) (i : Nat × Slot) :
    Stamped tsLists (addTail Q i p) fun p => stamp p (line :: log) := by
  refine h.addTail hp (fun q hq => ?_) (fun q _ => ?_) i
  · refine stamp_other ?_ log
    rw [hline]
    exact fun he => hq (Option.some.inj he).symm
  · rw [stamp_renewed hline]
    exact Nat.lt_succ_of_le (stamp_le q log)

/-! ## The invariant -/

/-- The list that holds a task: one if it is queued, except that idle
threads are on no list. -/
def TaskStruct.slot (t : TaskStruct) : Option (Nat × Slot) :=
  if t.onRq = .queued ∧ t.schedClass ≠ .idle then some (t.cpu, t.queueSlot) else none

def Kernel.loc (k : Kernel) (p : Pid) : Option (Nat × Slot) :=
  if k.Live p then (k.task p).slot else none

/-- What holds of one task, given which task is current on each CPU. The
current task is queued, the exempt task `x` apart. -/
structure TaskInv (x : Option Pid) (curr : Nat → Pid) (p : Pid) (t : TaskStruct) :
    Prop where
  class_idle : t.schedClass = .idle ↔ p.isProc = false
  settled : t.onRq ≠ .migrating
  swapper : ∀ c, p = .swapper c → t.onRq = .queued ∧ t.cpu = c ∧ t.state = taskRunning
  current : ∀ cpu, curr cpu = p → t.cpu = cpu ∧ (t.onRq = .queued ∨ x = some p)
  onCpu : t.onCpu = true ↔ curr t.cpu = p

def Kernel.curr (k : Kernel) (cpu : Nat) : Pid := (k.rq cpu).curr

@[simp] theorem mod_curr (k : Kernel) (p : Pid) (f : TaskStruct → TaskStruct) :
    (k.mod p f).curr = k.curr := rfl

theorem mod_id (k : Kernel) (p : Pid) : k.mod p id = k := by
  simp [Kernel.mod]

@[simp] theorem mod_live (k : Kernel) (p : Pid) (f : TaskStruct → TaskStruct) :
    (k.mod p f).Live = k.Live := Kernel.live_congr rfl

structure InvBut (x : Option Pid) (k : Kernel) : Prop where
  linked : Linked k.lists k.loc
  ordered : InOrder k
  counts : ∀ cpu, RqCounts (k.rq cpu)
  tasks : ∀ p, k.Live p → TaskInv x k.curr p (k.task p)
  idle : ∀ cpu, (k.rq cpu).idle = .swapper cpu
  curr : ∀ cpu, k.Live (k.curr cpu)

/-- The invariant of the scheduler. -/
def Inv (k : Kernel) : Prop := InvBut none k

/-- The invariant with task `p` taken off its list; nothing is said about
the fields of `p`. -/
structure InvOut (x : Option Pid) (p : Pid) (k : Kernel) : Prop where
  linked : Linked k.lists (Function.update k.loc p none)
  ordered : InOrder k
  counts : ∀ cpu, RqCounts (k.rq cpu)
  tasks : ∀ q, q ≠ p → k.Live q → TaskInv x k.curr q (k.task q)
  idle : ∀ cpu, (k.rq cpu).idle = .swapper cpu
  curr : ∀ cpu, k.Live (k.curr cpu)
  live : k.Live p

/-! ## Locations -/

theorem loc_of_live {k : Kernel} {p : Pid} (h : k.Live p) :
    k.loc p = (k.task p).slot := if_pos h

theorem live_of_loc {k : Kernel} {p : Pid} {i : Nat × Slot} (h : k.loc p = some i) :
    k.Live p := by
  by_contra hn
  rw [Kernel.loc, if_neg hn] at h
  cases h

theorem slot_of_not_queued {t : TaskStruct} (h : t.onRq ≠ .queued) : t.slot = none :=
  if_neg fun hq => h hq.1

theorem slot_of_queued {t : TaskStruct} (h : t.onRq = .queued)
    (hidle : t.schedClass ≠ .idle) : t.slot = some (t.cpu, t.queueSlot) :=
  if_pos ⟨h, hidle⟩

theorem slot_eq_some {t : TaskStruct} {i : Nat × Slot} (h : t.slot = some i) :
    t.onRq = .queued ∧ t.schedClass ≠ .idle ∧ i = (t.cpu, t.queueSlot) := by
  unfold TaskStruct.slot at h
  split_ifs at h with hq
  exact ⟨hq.1, hq.2, (Option.some.inj h).symm⟩

/-- The lists a task can be on belong to its class. -/
theorem slot_classLists {t : TaskStruct} {i : Nat × Slot} (h : t.slot = some i) :
    classLists t.cpu t.schedClass i = true := by
  obtain ⟨-, -, rfl⟩ := slot_eq_some h
  by_cases hts : t.schedClass = .ts <;> simp [classLists, TaskStruct.queueSlot, hts, Slot.isTs]

theorem loc_congr {k k' : Kernel} (hlive : k'.Live = k.Live)
    (htask : ∀ q, k.Live q → (k'.task q).slot = (k.task q).slot) (q : Pid) :
    k'.loc q = k.loc q := by
  unfold Kernel.loc
  simp only [hlive]
  split_ifs with h
  · exact htask q h
  · rfl

theorem update_loc_congr {k k' : Kernel} {p : Pid} (hlive : k'.Live = k.Live)
    (htask : ∀ q, q ≠ p → k'.task q = k.task q) (v : Option (Nat × Slot)) (q : Pid) :
    Function.update k'.loc p v q = Function.update k.loc p v q := by
  by_cases hq : q = p
  · subst hq; simp
  · simp only [Function.update_of_ne hq, Kernel.loc, hlive, htask q hq]

/-! ## Frames of the invariant -/

theorem Frame.curr_eq {k k' : Kernel} (h : Frame k k') : k'.curr = k.curr :=
  funext h.curr

theorem TaskInv.weaken {x : Option Pid} {curr : Nat → Pid} {p : Pid} {t : TaskStruct}
    (h : TaskInv none curr p t) : TaskInv x curr p t :=
  { h with
    current := fun cpu hcpu =>
      ⟨(h.current cpu hcpu).1, (h.current cpu hcpu).2.imp id fun hx => nomatch hx⟩ }

theorem TaskInv.not_idle {x : Option Pid} {curr : Nat → Pid} {p : Pid} {t : TaskStruct}
    (h : TaskInv x curr p t) (hp : p.isProc = true) : t.schedClass ≠ .idle := by
  intro hidle
  rw [h.class_idle.mp hidle] at hp
  cases hp

/-- A change of one task that leaves it on its list. -/
theorem InvBut.mod {x : Option Pid} {k : Kernel} (h : InvBut x k) {p : Pid}
    {f : TaskStruct → TaskStruct}
    (ht : k.Live p → TaskInv x k.curr p (f (k.task p)))
    (hslot : (f (k.task p)).slot = (k.task p).slot) : InvBut x (k.mod p f) := by
  refine ⟨?_, h.ordered, h.counts, fun q hq => ?_, h.idle, h.curr⟩
  · refine h.linked.congr (loc_congr rfl fun q _ => ?_)
    by_cases hqp : q = p
    · subst hqp; simpa using hslot
    · simp [hqp]
  · by_cases hqp : q = p
    · subst hqp
      simpa using ht hq
    · simpa [hqp] using h.tasks q hq

/-- What `TaskInv` reads of a task is unchanged. -/
structure SamePlace (t t' : TaskStruct) : Prop where
  onRq : t'.onRq = t.onRq
  cpu : t'.cpu = t.cpu
  onCpu : t'.onCpu = t.onCpu
  idle : t'.schedClass = .idle ↔ t.schedClass = .idle
  state : t'.state = t.state ∨ t'.state = taskRunning

theorem TaskInv.congr {x : Option Pid} {curr : Nat → Pid} {p : Pid} {t t' : TaskStruct}
    (h : TaskInv x curr p t) (hs : SamePlace t t') : TaskInv x curr p t' where
  class_idle := hs.idle.trans h.class_idle
  settled := by rw [hs.onRq]; exact h.settled
  swapper c hc := by
    obtain ⟨hq, hcpu, hstate⟩ := h.swapper c hc
    refine ⟨hs.onRq.trans hq, hs.cpu.trans hcpu, ?_⟩
    rcases hs.state with he | he
    · rw [he, hstate]
    · exact he
  current cpu hcpu := by rw [hs.cpu, hs.onRq]; exact h.current cpu hcpu
  onCpu := by rw [hs.onCpu, hs.cpu]; exact h.onCpu

theorem InvBut.reschedCurr {x : Option Pid} {k : Kernel} (h : InvBut x k) (cpu : Nat) :
    InvBut x (reschedCurr k cpu) :=
  h.mod (fun hlive => (h.tasks _ hlive).congr ⟨rfl, rfl, rfl, Iff.rfl, Or.inl rfl⟩) rfl

/-- A task becomes runnable again. -/
theorem InvBut.setRunning {x : Option Pid} {k : Kernel} (h : InvBut x k) (p : Pid) :
    InvBut x (k.mod p fun t => { t with state := taskRunning }) :=
  h.mod (fun hlive => (h.tasks _ hlive).congr ⟨rfl, rfl, rfl, Iff.rfl, Or.inr rfl⟩) rfl

theorem InvBut.printk {x : Option Pid} {k : Kernel} (h : InvBut x k) {line : Printk}
    (hline : line.renews = none) : InvBut x (k.printk line) :=
  ⟨h.linked, stamped_silent h.ordered hline, h.counts, h.tasks, h.idle, h.curr⟩

theorem InvBut.checkPreemptCurr {x : Option Pid} {k : Kernel} (h : InvBut x k)
    (cpu : Nat) (p : Pid) (hook : Bool) : InvBut x (checkPreemptCurr k cpu p hook) := by
  rcases checkPreemptCurr_cases k cpu p hook with heq | heq <;> rw [heq]
  · exact h
  · exact h.reschedCurr cpu

theorem InvBut.checkClassChanged {x : Option Pid} {k : Kernel} (h : InvBut x k)
    (cpu : Nat) (p : Pid) (c : SchedClass) (oldprio : Int) (hook : Bool) :
    InvBut x (checkClassChanged k cpu p c oldprio hook) := by
  rcases checkClassChanged_cases k cpu p c oldprio hook with heq | heq <;> rw [heq]
  · exact h
  · exact h.reschedCurr cpu

/-! ## Taking a task off its list and putting it back -/

theorem InvBut.out {x : Option Pid} {k : Kernel} (h : InvBut x k) {p : Pid}
    (hlive : k.Live p) (hq : (k.task p).onRq ≠ .queued) : InvOut x p k := by
  refine ⟨h.linked.congr fun q => ?_, h.ordered, h.counts, fun q _ hq => h.tasks q hq, h.idle,
    h.curr, hlive⟩
  by_cases hqp : q = p
  · subst hqp
    rw [Function.update_self, loc_of_live hlive, slot_of_not_queued hq]
  · rw [Function.update_of_ne hqp]

theorem InvBut.dequeueTask {x : Option Pid} {k : Kernel} (h : InvBut x k) {p : Pid}
    (hlive : k.Live p) (hproc : p.isProc = true) (hq : (k.task p).onRq = .queued)
    (flags : Nat) : InvOut x p (dequeueTask k (k.task p).cpu p flags) := by
  have hframe := dequeueTask_frame k (k.task p).cpu p flags
  have hidle := (h.tasks p hlive).not_idle hproc
  have hloc : k.loc p = some ((k.task p).cpu, (k.task p).queueSlot) := by
    rw [loc_of_live hlive, slot_of_queued hq hidle]
  refine ⟨?_, ?_, ?_, fun q _ hqlive => ?_, fun c => ?_, fun c => ?_, ?_⟩
  · rw [dequeueTask_lists]
    refine (h.linked.unlink fun i hi => ?_).congr
      (update_loc_congr hframe.live (fun q _ => by rw [dequeueTask_task]) none)
    rw [loc_of_live hlive] at hi
    exact slot_classLists hi
  · have hunlink := h.ordered.unlink (classLists (k.task p).cpu (k.task p).schedClass) p
    rw [InOrder, dequeueTask_lists, dequeueTask_log]
    split_ifs
    · exact stamped_silent hunlink rfl
    · exact hunlink
  · refine fun c => dequeueTask_counts k _ p flags hidle (fun hts => ?_) h.counts c
    have hmem := (h.linked.mem _ p).mpr hloc
    rwa [TaskStruct.queueSlot, if_neg hts] at hmem
  · rw [dequeueTask_task, hframe.curr_eq]
    exact h.tasks q (by rwa [hframe.live] at hqlive)
  · rw [hframe.idle]
    exact h.idle c
  · rw [hframe.live, hframe.curr_eq]
    exact h.curr c
  · rw [hframe.live]
    exact hlive

theorem InvOut.mod {x : Option Pid} {p : Pid} {k : Kernel} (h : InvOut x p k)
    (f : TaskStruct → TaskStruct) : InvOut x p (k.mod p f) := by
  refine ⟨?_, h.ordered, h.counts, fun q hqp hq => ?_, h.idle, h.curr, h.live⟩
  · have htask : ∀ q, q ≠ p → (k.mod p f).task q = k.task q := fun q hq => by simp [hq]
    exact h.linked.congr (update_loc_congr (mod_live k p f) htask none)
  · simpa [hqp] using h.tasks q hqp hq

theorem InvOut.weaken {x : Option Pid} {p : Pid} {k : Kernel} (h : InvOut none p k) :
    InvOut x p k :=
  { h with tasks := fun q hqp hq => (h.tasks q hqp hq).weaken }

/-- A task that is not queued may stay off the lists. -/
theorem InvOut.close {x : Option Pid} {p : Pid} {k : Kernel} (h : InvOut x p k)
    (hq : (k.task p).onRq ≠ .queued) (ht : TaskInv x k.curr p (k.task p)) :
    InvBut x k := by
  refine ⟨h.linked.congr fun q => ?_, h.ordered, h.counts, fun q hqlive => ?_, h.idle,
    h.curr⟩
  · by_cases hqp : q = p
    · subst hqp
      rw [Function.update_self, loc_of_live h.live, slot_of_not_queued hq]
    · rw [Function.update_of_ne hqp]
  · by_cases hqp : q = p
    · subst hqp; exact ht
    · exact h.tasks q hqp hqlive

theorem InvOut.not_mem {x : Option Pid} {p : Pid} {k : Kernel} (h : InvOut x p k)
    (i : Nat × Slot) : p ∉ k.lists i := by
  intro hp
  have hloc := (h.linked.mem i p).mp hp
  rw [Function.update_self] at hloc
  cases hloc

/-- Enqueue, and a last write to the task that leaves its class and
priority alone. -/
theorem InvOut.enqueueTask {x : Option Pid} {p : Pid} {k : Kernel} (h : InvOut x p k)
    (cpu flags : Nat) {g : TaskStruct → TaskStruct}
    (hslot : (g (enqueuedTask flags (k.task p))).slot =
      some (cpu, (enqueuedTask flags (k.task p)).queueSlot))
    (hidle : (k.task p).schedClass ≠ .idle)
    (ht : TaskInv x k.curr p (g (enqueuedTask flags (k.task p)))) :
    InvBut x ((Sched.enqueueTask k cpu p flags).mod p g) := by
  have hframe := (enqueueTask_frame k cpu p flags).trans (Frame.mod _ p g)
  have htask : ∀ q, ((Sched.enqueueTask k cpu p flags).mod p g).task q =
      if q = p then g (enqueuedTask flags (k.task p)) else k.task q := by
    intro q
    rw [mod_task, enqueueTask_task]
    by_cases hqp : q = p
    · subst hqp; simp
    · simp [hqp]
  refine ⟨?_, ?_, fun c => ?_, fun q hq => ?_, fun c => ?_, fun c => ?_⟩
  · change Linked (Sched.enqueueTask k cpu p flags).lists _
    rw [enqueueTask_lists]
    have hlink := h.linked.addTail (Function.update_self p none k.loc)
      (cpu, (enqueuedTask flags (k.task p)).queueSlot)
    refine hlink.congr fun q => ?_
    by_cases hqp : q = p
    · subst hqp
      rw [Function.update_self, loc_of_live (by rw [hframe.live]; exact h.live), htask,
        if_pos rfl, hslot]
    · rw [Function.update_of_ne hqp, Function.update_of_ne hqp]
      simp only [Kernel.loc, hframe.live, htask, if_neg hqp]
  · change InOrder (Sched.enqueueTask k cpu p flags)
    rw [InOrder, enqueueTask_lists, enqueueTask_log]
    split_ifs with hts
    · exact stamped_renew h.ordered rfl h.not_mem _
    · refine h.ordered.addTail_outside ?_ p
      obtain ⟨prio, hprio⟩ := enqueuedTask_frame flags (k.task p)
      rw [hprio, TaskStruct.queueSlot, if_neg hts]
      rfl
  · exact enqueueTask_counts k cpu p flags hidle h.counts c
  · rw [htask, hframe.curr_eq]
    rw [hframe.live] at hq
    split_ifs with hqp
    · subst hqp; exact ht
    · exact h.tasks q hqp hq
  · rw [hframe.idle]
    exact h.idle c
  · rw [hframe.live, hframe.curr_eq]
    exact h.curr c

/-! ## The moves of the scheduler -/

theorem InvBut.not_current {x : Option Pid} {k : Kernel} (h : InvBut x k) {p : Pid}
    (hlive : k.Live p) (hq : (k.task p).onRq ≠ .queued) (hx : x ≠ some p) (cpu : Nat) :
    k.curr cpu ≠ p := by
  intro hcpu
  rcases ((h.tasks p hlive).current cpu hcpu).2 with hq' | hx'
  · exact hq hq'
  · exact hx hx'

theorem InvBut.not_current_of_onCpu {x : Option Pid} {k : Kernel} (h : InvBut x k) {p : Pid}
    (hlive : k.Live p) (hoff : (k.task p).onCpu = false) (cpu : Nat) : k.curr cpu ≠ p := by
  intro hcpu
  have ht := h.tasks p hlive
  rw [ht.onCpu.mpr (by rw [(ht.current cpu hcpu).1]; exact hcpu)] at hoff
  cases hoff

/-- Dequeue, change, enqueue. -/
theorem InvBut.saveRestore {x : Option Pid} {k : Kernel} (h : InvBut x k) {p : Pid}
    (hlive : k.Live p) (hproc : p.isProc = true) (deqFlags : Nat)
    {f : TaskStruct → TaskStruct} (hf : SamePlace (k.task p) (f (k.task p)))
    {enqFlags : Nat} (henq : enqFlags &&& enqueueWakeup = 0) :
    InvBut x (saveRestore k p deqFlags f enqFlags) := by
  have hidle := (h.tasks p hlive).not_idle hproc
  have hidle' : (f (k.task p)).schedClass ≠ .idle := mt hf.idle.mp hidle
  simp only [Sched.saveRestore, putPrevTask, setCurrTask, ite_self]
  by_cases hq : (k.task p).onRq = .queued
  · rw [if_pos (by simpa [taskOnRqQueued] using hq), if_pos (by simpa [taskOnRqQueued] using hq)]
    have hout := (h.dequeueTask hlive hproc hq deqFlags).mod f
    have hframe := dequeueTask_frame k (k.task p).cpu p deqFlags
    have htask : ((Sched.dequeueTask k (k.task p).cpu p deqFlags).mod p f).task p =
        f (k.task p) := by
      rw [mod_task_self, dequeueTask_task]
    have hput := hout.enqueueTask (k.task p).cpu enqFlags (g := id)
    rw [htask, enqueuedTask_of_no_wakeup henq] at hput
    rw [← mod_id (Sched.enqueueTask _ _ _ _) p]
    refine hput ?_ hidle' ?_
    · rw [id, slot_of_queued (hf.onRq.trans hq) hidle', hf.cpu]
    · rw [mod_curr, hframe.curr_eq]
      exact (h.tasks p hlive).congr hf
  · rw [if_neg (by simpa [taskOnRqQueued] using hq), if_neg (by simpa [taskOnRqQueued] using hq)]
    refine h.mod (fun _ => (h.tasks p hlive).congr hf) ?_
    rw [slot_of_not_queued hq, slot_of_not_queued (by rwa [hf.onRq])]

/-- Activation: a task that is not queued is moved to a CPU and put on
its list. -/
theorem InvBut.ttwuActivate {x : Option Pid} {k : Kernel} (h : InvBut x k) {p : Pid}
    (hlive : k.Live p) (hproc : p.isProc = true) (hq : (k.task p).onRq ≠ .queued)
    (hx : x ≠ some p) {f : TaskStruct → TaskStruct} {dest : Nat}
    (hclass : (f (k.task p)).schedClass = (k.task p).schedClass)
    (honCpu : (f (k.task p)).onCpu = (k.task p).onCpu)
    (hdest : (f (k.task p)).cpu = dest) (flags : Nat) :
    InvBut x (ttwuActivate (k.mod p f) dest p flags) := by
  have hidle := (h.tasks p hlive).not_idle hproc
  have hnot := h.not_current hlive hq hx
  obtain ⟨prio, hprio⟩ := enqueuedTask_frame flags (f (k.task p))
  have hput := ((h.out hlive hq).mod f).enqueueTask dest flags
    (g := fun t => { t with onRq := .queued })
  rw [mod_task_self, hprio] at hput
  refine hput ?_ ?_ ?_
  · rw [slot_of_queued rfl (by simpa only [hclass] using hidle), ← hdest]
    rfl
  · rwa [hclass]
  · refine ⟨?_, by simp, ?_, ?_, ?_⟩
    · simpa only [hclass] using (h.tasks p hlive).class_idle
    · rintro c rfl
      cases hproc
    · exact fun cpu hcpu => absurd hcpu (hnot cpu)
    · simp only [honCpu]
      have hoff : (k.task p).onCpu = true ↔ False :=
        (h.tasks p hlive).onCpu.trans (iff_of_false (hnot _) id)
      exact hoff.trans (iff_of_false id (hnot _))

/-- A move to the tail of the list for a new priority. -/
theorem InvBut.moveTail {x : Option Pid} {k : Kernel} (h : InvBut x k) {p : Pid}
    (hlive : k.Live p) (hq : (k.task p).onRq = .queued)
    (hts : (k.task p).schedClass = .ts) {f : TaskStruct → TaskStruct}
    (hf : SamePlace (k.task p) (f (k.task p))) (hts' : (f (k.task p)).schedClass = .ts)
    (line : Printk) (hline : line.renews = some p) :
    InvBut x (((k.printk line).mod p f).modRq (k.task p).cpu fun rq =>
      listMoveTail rq p (prioQueue (f (k.task p)).prio)) := by
  have hidle : (k.task p).schedClass ≠ .idle := by rw [hts]; decide
  have hidle' : (f (k.task p)).schedClass ≠ .idle := by rw [hts']; decide
  have hmod : Frame k (((k.printk line).mod p f).modRq (k.task p).cpu fun rq =>
      listMoveTail rq p (prioQueue (f (k.task p)).prio)) :=
    (Frame.printk k line).trans ((Frame.mod _ p f).trans (Frame.modRq rfl rfl rfl))
  have hunlink : Linked (unlink (classLists (k.task p).cpu .ts) k.lists p)
      (Function.update k.loc p none) := by
    refine h.linked.unlink fun i hi => ?_
    rw [loc_of_live hlive] at hi
    rw [← hts]
    exact slot_classLists hi
  refine ⟨?_, ?_, fun c => ?_, fun q hqlive => ?_, fun c => ?_, fun c => ?_⟩
  · rw [listMoveTail_lists]
    refine (hunlink.addTail (Function.update_self ..)
      ((k.task p).cpu, .ts (prioQueue (f (k.task p)).prio))).congr fun q => ?_
    by_cases hqp : q = p
    · subst hqp
      rw [Function.update_self, loc_of_live (by rw [hmod.live]; exact hlive), modRq_task,
        mod_task_self, printk_task, slot_of_queued (hf.onRq.trans hq) hidle',
        TaskStruct.queueSlot, if_pos hts', hf.cpu]
    · rw [Function.update_of_ne hqp, Function.update_of_ne hqp]
      simp only [Kernel.loc, hmod.live, modRq_task, mod_task, printk_task,
        Function.update_of_ne hqp]
  · rw [InOrder, listMoveTail_lists]
    refine stamped_renew (h.ordered.unlink _ p) hline (fun i hi => ?_) _
    have hloc := (hunlink.mem i p).mp hi
    rw [Function.update_self] at hloc
    cases hloc
  · by_cases hc : c = (k.task p).cpu
    · subst hc
      simpa [listMoveTail] using ((h.counts _).listDel p).listAddTail p _
    · simpa [hc] using h.counts c
  · rw [hmod.live] at hqlive
    rw [hmod.curr_eq, modRq_task, mod_task, printk_task]
    by_cases hqp : q = p
    · subst hqp
      rw [Function.update_self]
      exact (h.tasks q hlive).congr hf
    · rw [Function.update_of_ne hqp]
      exact h.tasks q hqlive
  · rw [hmod.idle]
    exact h.idle c
  · rw [hmod.live, hmod.curr_eq]
    exact h.curr c

end Sched

end Comp4511
