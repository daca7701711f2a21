import Comp4511.SchedFrame

/-!
# Queueing, preemption checks and their effects

`Frame k k'` says that an operation created no task and changed no CPU's
current, idle or stop task. Enqueue and dequeue are described by three
facts each: what they write to the task, where the task goes in the table
of lists, and that the counters stay exact (`RqCounts`, which for the TS
class means that its tasks are in no counter).
-/

namespace Comp4511

namespace Sched

open ListTable

/-! ## Frames -/

/-- Only tasks' fields, the lists and the counters changed. -/
structure Frame (k k' : Kernel) : Prop where
  procs : k'.procs = k.procs
  curr : ∀ cpu, (k'.rq cpu).curr = (k.rq cpu).curr
  idle : ∀ cpu, (k'.rq cpu).idle = (k.rq cpu).idle
  stop : ∀ cpu, (k'.rq cpu).stop = (k.rq cpu).stop

theorem Frame.refl (k : Kernel) : Frame k k :=
  ⟨rfl, fun _ => rfl, fun _ => rfl, fun _ => rfl⟩

theorem Frame.trans {k k' k'' : Kernel} (h : Frame k k') (h' : Frame k' k'') :
    Frame k k'' :=
  ⟨h'.procs.trans h.procs, fun c => (h'.curr c).trans (h.curr c),
    fun c => (h'.idle c).trans (h.idle c), fun c => (h'.stop c).trans (h.stop c)⟩

theorem Frame.live {k k' : Kernel} (h : Frame k k') : k'.Live = k.Live :=
  Kernel.live_congr h.procs

theorem Frame.mod (k : Kernel) (p : Pid) (f : TaskStruct → TaskStruct) :
    Frame k (k.mod p f) := ⟨rfl, fun _ => rfl, fun _ => rfl, fun _ => rfl⟩

theorem Frame.reschedCurr (k : Kernel) (cpu : Nat) : Frame k (reschedCurr k cpu) :=
  Frame.mod k _ _

theorem Frame.printk (k : Kernel) (line : Printk) : Frame k (k.printk line) :=
  ⟨rfl, fun _ => rfl, fun _ => rfl, fun _ => rfl⟩

theorem Frame.modRq {k : Kernel} {cpu : Nat} {f : Rq → Rq}
    (hcurr : (f (k.rq cpu)).curr = (k.rq cpu).curr)
    (hidle : (f (k.rq cpu)).idle = (k.rq cpu).idle)
    (hstop : (f (k.rq cpu)).stop = (k.rq cpu).stop) : Frame k (k.modRq cpu f) := by
  refine ⟨rfl, fun c => ?_, fun c => ?_, fun c => ?_⟩ <;>
    · by_cases hc : c = cpu
      · subst hc; simpa
      · simp [hc]

/-! ## Tables of lists -/

/-- A change of one runqueue's lists, seen in the table of all lists. -/
theorem modRq_lists (k : Kernel) (cpu : Nat) (f : Rq → Rq) (i : Nat × Slot) :
    (k.modRq cpu f).lists i =
      if i.1 = cpu then (f (k.rq cpu)).queue i.2 else k.lists i := by
  by_cases hi : i.1 = cpu
  · subst hi; simp [Kernel.lists]
  · simp [Kernel.lists, hi]

/-- The lists of runqueue `cpu` that hold tasks of class `c`. -/
def classLists (cpu : Nat) (c : SchedClass) (i : Nat × Slot) : Bool :=
  i.1 = cpu ∧ (if c = .ts then i.2.isTs = true else i.2 = .cls c)

/-- The list of its runqueue a queued task is on. -/
def TaskStruct.queueSlot (t : TaskStruct) : Slot :=
  if t.schedClass = .ts then .ts (prioQueue t.prio) else .cls t.schedClass

theorem addTail_lists (k : Kernel) (cpu : Nat) (s : Slot) (p : Pid) (f : Rq → Rq)
    (hf : (f (k.rq cpu)).queue = addTail (k.rq cpu).queue s p) :
    (k.modRq cpu f).lists = addTail k.lists (cpu, s) p := by
  funext ⟨c, s'⟩
  rw [modRq_lists, hf]
  by_cases hc : c = cpu
  · subst hc
    by_cases hs : s' = s
    · subst hs; simp [addTail, Kernel.lists]
    · simp [addTail, Kernel.lists, hs]
  · simp [addTail, hc]

theorem unlink_lists (k : Kernel) (cpu : Nat) (c : SchedClass) (p : Pid)
    (f : Rq → Rq) (S : Slot → Bool)
    (hS : ∀ s, S s = classLists cpu c (cpu, s))
    (hf : (f (k.rq cpu)).queue = unlink S (k.rq cpu).queue p) :
    (k.modRq cpu f).lists = unlink (classLists cpu c) k.lists p := by
  funext ⟨c', s'⟩
  rw [modRq_lists, hf]
  by_cases hc : c' = cpu
  · subst hc
    simp [unlink, Kernel.lists, hS]
  · simp [unlink, hc, classLists]

theorem listMoveTail_lists (k : Kernel) (cpu : Nat) (p : Pid) (i : Int) :
    (k.modRq cpu fun rq => listMoveTail rq p i).lists =
      addTail (unlink (classLists cpu .ts) k.lists p) (cpu, .ts i) p := by
  have hdel : (k.modRq cpu fun rq => listDel rq p).lists =
      unlink (classLists cpu .ts) k.lists p :=
    unlink_lists k cpu .ts p _ Slot.isTs (fun s => by simp [classLists]) rfl
  rw [← hdel, ← addTail_lists _ cpu (.ts i) p (fun rq => listAddTail rq p i) (by rfl)]
  funext j
  simp only [modRq_lists]
  by_cases hj : j.1 = cpu <;> simp [hj, listMoveTail]

/-! ## Counters -/

/-- The counters are exact for the classes that keep them; a TS task is in
neither. -/
def RqCounts (rq : Rq) : Prop :=
  rq.nrRunning = (rq.queue (.cls .stop)).length + (rq.queue (.cls .dl)).length
      + (rq.queue (.cls .rt)).length + (rq.queue (.cls .fair)).length
    ∧ rq.cfsNrRunning = (rq.queue (.cls .fair)).length

theorem RqCounts.congr {rq rq' : Rq} (h : RqCounts rq)
    (hnr : rq'.nrRunning = rq.nrRunning) (hcfs : rq'.cfsNrRunning = rq.cfsNrRunning)
    (hq : ∀ c, rq'.queue (.cls c) = rq.queue (.cls c)) : RqCounts rq' := by
  unfold RqCounts at h ⊢
  rw [hnr, hcfs, hq, hq, hq, hq]
  exact h

theorem RqCounts.listAddTail {rq : Rq} (h : RqCounts rq) (p : Pid) (i : Int) :
    RqCounts (listAddTail rq p i) :=
  h.congr rfl rfl fun c => by simp [Sched.listAddTail, addTail]

theorem RqCounts.listDel {rq : Rq} (h : RqCounts rq) (p : Pid) :
    RqCounts (listDel rq p) :=
  h.congr rfl rfl fun c => by simp [Sched.listDel, unlink, Slot.isTs]

theorem RqCounts.enqueueTaskOther {rq : Rq} (h : RqCounts rq) {c : SchedClass}
    (hts : c ≠ .ts) (hidle : c ≠ .idle) (p : Pid) :
    RqCounts (enqueueTaskOther c p rq) := by
  obtain ⟨hnr, hcfs⟩ := h
  cases c <;>
    simp_all [RqCounts, Sched.enqueueTaskOther, addNrRunning, cfsShare, addTail] <;> omega

theorem RqCounts.dequeueTaskOther {rq : Rq} (h : RqCounts rq) {c : SchedClass}
    (hts : c ≠ .ts) (hidle : c ≠ .idle) {p : Pid} (hp : p ∈ rq.queue (.cls c)) :
    RqCounts (dequeueTaskOther c p rq) := by
  obtain ⟨hnr, hcfs⟩ := h
  have hpos := List.length_pos_of_mem hp
  have hlen := List.length_erase_of_mem hp
  cases c <;>
    simp_all [RqCounts, Sched.dequeueTaskOther, subNrRunning, cfsShare, unlink] <;> omega

/-! ## Enqueue -/

/-- What an enqueue writes to the task. -/
def enqueuedTask (flags : Nat) (t : TaskStruct) : TaskStruct :=
  if t.schedClass = .ts then wakeupBoost flags t else t

theorem wakeupBoost_of_no_wakeup {flags : Nat} (h : flags &&& enqueueWakeup = 0)
    (t : TaskStruct) : wakeupBoost flags t = t := by
  simp [wakeupBoost, h]

theorem enqueuedTask_of_no_wakeup {flags : Nat} (h : flags &&& enqueueWakeup = 0)
    (t : TaskStruct) : enqueuedTask flags t = t := by
  simp [enqueuedTask, wakeupBoost_of_no_wakeup h]

/-- At most the priority is written. -/
theorem enqueuedTask_frame (flags : Nat) (t : TaskStruct) :
    ∃ prio, enqueuedTask flags t = { t with prio := prio } := by
  unfold enqueuedTask wakeupBoost
  split_ifs <;> exact ⟨_, rfl⟩

theorem taskOk_enqueuedTask {t : TaskStruct} (h : TaskOk t) (flags : Nat) :
    TaskOk (enqueuedTask flags t) := by
  unfold enqueuedTask
  split_ifs with hts
  · exact taskOk_wakeupBoost h hts flags
  · exact h

section Enqueue

variable (k : Kernel) (cpu : Nat) (p : Pid) (flags : Nat)

theorem enqueueTask_task :
    (enqueueTask k cpu p flags).task =
      Function.update k.task p (enqueuedTask flags (k.task p)) := by
  unfold enqueueTask enqueuedTask
  split
  · rename_i hts
    simp [hts, enqueueTaskTs]
  · rename_i hts
    rw [if_neg fun e => hts e]
    simp

theorem enqueueTask_frame : Frame k (enqueueTask k cpu p flags) := by
  unfold enqueueTask
  split
  · refine (Frame.mod k p (wakeupBoost flags)).trans (Frame.trans ?_ (Frame.printk _ _))
    exact Frame.modRq rfl rfl rfl
  · exact Frame.modRq rfl rfl rfl

theorem enqueueTask_lists :
    (enqueueTask k cpu p flags).lists =
      addTail k.lists (cpu, (enqueuedTask flags (k.task p)).queueSlot) p := by
  unfold enqueueTask
  split
  · rename_i hts
    obtain ⟨prio, hprio⟩ := enqueuedTask_frame flags (k.task p)
    have hboost : wakeupBoost flags (k.task p) = { k.task p with prio := prio } := by
      rw [← hprio, enqueuedTask, if_pos hts]
    rw [hprio, TaskStruct.queueSlot, if_pos hts]
    simp only [enqueueTaskTs, mod_task, Function.update_self, hboost]
    exact addTail_lists (k.mod p (wakeupBoost flags)) cpu (.ts (prioQueue prio)) p
      (fun rq => listAddTail rq p (prioQueue prio)) rfl
  · rename_i hts
    have hts' : (k.task p).schedClass ≠ .ts := fun e => hts e
    rw [enqueuedTask, if_neg hts', TaskStruct.queueSlot, if_neg hts']
    exact addTail_lists k cpu _ p _ rfl

theorem enqueueTask_counts (hidle : (k.task p).schedClass ≠ .idle)
    (h : ∀ c, RqCounts (k.rq c)) (c : Nat) :
    RqCounts ((enqueueTask k cpu p flags).rq c) := by
  unfold enqueueTask
  by_cases hc : c = cpu
  · subst hc
    split
    · simpa [enqueueTaskTs] using (h c).listAddTail p _
    · rename_i hts
      simpa using (h c).enqueueTaskOther (fun e => hts e) hidle p
  · split
    · simpa [enqueueTaskTs, hc] using h c
    · simpa [hc] using h c

/-- Only the TS class writes a line. -/
theorem enqueueTask_log :
    (enqueueTask k cpu p flags).log =
      if (k.task p).schedClass = .ts then
        .enqueue p (enqueuedTask flags (k.task p)).prio flags :: k.log
      else k.log := by
  unfold enqueueTask
  split
  · rename_i hts
    simp [enqueueTaskTs, enqueuedTask, hts]
  · rename_i hts
    rw [if_neg fun e => hts e]
    rfl

/-! ## Dequeue -/

theorem dequeueTask_task : (dequeueTask k cpu p flags).task = k.task := by
  unfold dequeueTask
  split <;> rfl

theorem dequeueTask_frame : Frame k (dequeueTask k cpu p flags) := by
  unfold dequeueTask
  split
  · refine Frame.trans ?_ (Frame.printk _ _)
    exact Frame.modRq rfl rfl rfl
  · exact Frame.modRq rfl rfl rfl

theorem dequeueTask_lists :
    (dequeueTask k cpu p flags).lists =
      unlink (classLists cpu (k.task p).schedClass) k.lists p := by
  unfold dequeueTask
  split
  · rename_i hts
    rw [hts]
    exact unlink_lists k cpu .ts p (fun rq => listDel rq p) Slot.isTs
      (fun s => by simp [classLists]) rfl
  · rename_i hts
    refine unlink_lists k cpu _ p _ (fun s => s == .cls (k.task p).schedClass) ?_ rfl
    intro s
    have hts' : (k.task p).schedClass ≠ .ts := fun e => hts e
    simp only [classLists, if_neg hts', true_and]
    rfl

theorem dequeueTask_counts (hidle : (k.task p).schedClass ≠ .idle)
    (hp : (k.task p).schedClass ≠ .ts →
      p ∈ (k.rq cpu).queue (.cls (k.task p).schedClass))
    (h : ∀ c, RqCounts (k.rq c)) (c : Nat) :
    RqCounts ((dequeueTask k cpu p flags).rq c) := by
  unfold dequeueTask
  by_cases hc : c = cpu
  · subst hc
    split
    · simpa [dequeueTaskTs] using (h c).listDel p
    · rename_i hts
      have hts' : (k.task p).schedClass ≠ .ts := fun e => hts e
      simpa using (h c).dequeueTaskOther hts' hidle (hp hts')
  · split
    · simpa [dequeueTaskTs, hc] using h c
    · simpa [hc] using h c

theorem dequeueTask_log :
    (dequeueTask k cpu p flags).log =
      if (k.task p).schedClass = .ts then .dequeue p (k.task p).prio flags :: k.log
      else k.log := by
  unfold dequeueTask
  split
  · rename_i hts
    rw [if_pos hts]
    rfl
  · rename_i hts
    rw [if_neg fun e => hts e]
    rfl

end Enqueue

/-! ## Preemption checks -/

theorem checkPreemptCurr_cases (k : Kernel) (cpu : Nat) (p : Pid) (hook : Bool) :
    checkPreemptCurr k cpu p hook = k ∨
      checkPreemptCurr k cpu p hook = reschedCurr k cpu := by
  simp only [checkPreemptCurr, checkPreemptCurrTs]
  split_ifs <;> simp

theorem checkPreemptCurr_frame (k : Kernel) (cpu : Nat) (p : Pid) (hook : Bool) :
    Frame k (checkPreemptCurr k cpu p hook) := by
  rcases checkPreemptCurr_cases k cpu p hook with heq | heq <;> rw [heq]
  · exact Frame.refl k
  · exact Frame.reschedCurr k cpu

/-- Between two TS tasks the check compares priorities. -/
theorem checkPreemptCurr_ts {k : Kernel} {cpu : Nat} {p : Pid} (hook : Bool)
    (hp : (k.task p).schedClass = .ts)
    (hcurr : (k.task (k.rq cpu).curr).schedClass = .ts)
    (hlt : (k.task p).prio < (k.task (k.rq cpu).curr).prio) :
    checkPreemptCurr k cpu p hook = reschedCurr k cpu := by
  simp [checkPreemptCurr, checkPreemptCurrTs, hp, hcurr, hlt]

theorem checkClassChanged_cases (k : Kernel) (cpu : Nat) (p : Pid)
    (prevClass : SchedClass) (oldprio : Int) (hook : Bool) :
    checkClassChanged k cpu p prevClass oldprio hook = k ∨
      checkClassChanged k cpu p prevClass oldprio hook = reschedCurr k cpu := by
  simp only [checkClassChanged]
  split_ifs <;> simp

theorem checkClassChanged_frame (k : Kernel) (cpu : Nat) (p : Pid)
    (prevClass : SchedClass) (oldprio : Int) (hook : Bool) :
    Frame k (checkClassChanged k cpu p prevClass oldprio hook) := by
  rcases checkClassChanged_cases k cpu p prevClass oldprio hook with heq | heq <;> rw [heq]
  · exact Frame.refl k
  · exact Frame.reschedCurr k cpu

end Sched

end Comp4511
