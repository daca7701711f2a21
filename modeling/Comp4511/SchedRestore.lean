import Comp4511.SchedPreempt

/-!
# Saving and restoring a task's place

`sched.h` asks of a `DEQUEUE_SAVE`/`ENQUEUE_RESTORE` pair without the `MOVE`
flag that it keep the location in the runqueue. The TS class does not look
at these flags: `dequeue_task_ts` unlinks the task and `enqueue_task_ts`
links it at the tail of the list of its priority, so that the task keeps its
place just when it was the last on its list (`restore_keeps_lists_iff`).
-/

namespace Comp4511

namespace Sched

open ListTable

/-- `sched_setnuma`. The preferred node it stores is read by the NUMA
balancing code only. -/
def schedSetnuma (k : Kernel) (p : Pid) (_nid : Int) : Kernel :=
  saveRestore k p dequeueSave id (enqueueRestore ||| enqueueNoclock)

/-- The forty lists of a runqueue are the same. -/
def KeepsLists (k k' : Kernel) (cpu : Nat) : Prop :=
  ∀ i : Int, 0 ≤ i → i < 40 → (k'.rq cpu).queue (.ts i) = (k.rq cpu).queue (.ts i)

/-- A task is the last on the list of its priority. -/
def LastInList (k : Kernel) (p : Pid) : Prop :=
  ((k.rq (k.task p).cpu).queue (.ts (prioQueue (k.task p).prio))).getLast? = some p

section Pair

variable {k : Kernel} {p : Pid}

/-- A pair around a change that leaves the task where it belongs. -/
theorem saveRestore_lists (hq : QueuedTs k p) (deqFlags : Nat) {f : TaskStruct → TaskStruct}
    (hprio : (f (k.task p)).prio = (k.task p).prio)
    (hclass : (f (k.task p)).schedClass = (k.task p).schedClass) {enqFlags : Nat}
    (henq : enqFlags &&& enqueueWakeup = 0) :
    (saveRestore k p deqFlags f enqFlags).lists =
      addTail (unlink (classLists (k.task p).cpu .ts) k.lists p)
        ((k.task p).cpu, .ts (prioQueue (k.task p).prio)) p := by
  obtain ⟨-, hqueued, hts⟩ := hq
  have hon : taskOnRqQueued (k.task p) = true := by simpa [taskOnRqQueued] using hqueued
  have hslot : (f (k.task p)).queueSlot = .ts (prioQueue (k.task p).prio) := by
    rw [TaskStruct.queueSlot, if_pos (hclass.trans hts), hprio]
  simp only [saveRestore, putPrevTask, setCurrTask, ite_self, if_pos hon]
  rw [enqueueTask_lists, mod_task_self, dequeueTask_task, enqueuedTask_of_no_wakeup henq, hslot]
  congr 1
  exact (dequeueTask_lists ..).trans (by rw [hts])

/-- Such a pair keeps the lists just when the task was the last on its
list. -/
theorem keepsLists_saveRestore_iff (h : Reachable k) (hq : QueuedTs k p) (deqFlags : Nat)
    {f : TaskStruct → TaskStruct} (hprio : (f (k.task p)).prio = (k.task p).prio)
    (hclass : (f (k.task p)).schedClass = (k.task p).schedClass) {enqFlags : Nat}
    (henq : enqFlags &&& enqueueWakeup = 0) :
    KeepsLists k (saveRestore k p deqFlags f enqFlags) (k.task p).cpu ↔ LastInList k p := by
  have hlists := saveRestore_lists hq deqFlags hprio hclass henq
  have hlinked := h.inv.linked
  have hloc : k.loc p = some ((k.task p).cpu, .ts (prioQueue (k.task p).prio)) := by
    rw [loc_of_live hq.1, slot_of_queued hq.2.1 (by rw [hq.2.2]; decide), TaskStruct.queueSlot,
      if_pos hq.2.2]
  have hmem : classLists (k.task p).cpu .ts
      ((k.task p).cpu, .ts (prioQueue (k.task p).prio)) = true := by
    simp [classLists, Slot.isTs]
  have hsame := hlinked.relink_eq_iff hmem p
  rw [← hlists] at hsame
  refine Iff.trans ?_ hsame
  constructor
  · intro hkeeps
    obtain ⟨hlo, hhi⟩ := prioQueue_range ((h.tasksOk p hq.1).tsRange hq.2.2)
    exact hkeeps _ hlo (by omega)
  · intro heq i _ _
    by_cases hi : i = prioQueue (k.task p).prio
    · rw [hi]
      exact heq
    · have hother := hlinked.relink_of_ne (classLists (k.task p).cpu .ts) hloc
        (j := ((k.task p).cpu, .ts i)) (by simpa using hi)
      rw [← hlists] at hother
      exact hother

end Pair

/-- The pairs of `do_set_cpus_allowed` and `sched_setnuma`. -/
theorem restore_keeps_lists_iff {k : Kernel} (h : Reachable k) {p : Pid} (hq : QueuedTs k p)
    (newMask : Nat → Bool) (nid : Int) :
    (KeepsLists k (doSetCpusAllowed k p newMask) (k.task p).cpu ↔ LastInList k p) ∧
      (KeepsLists k (schedSetnuma k p nid) (k.task p).cpu ↔ LastInList k p) := by
  constructor
  · exact keepsLists_saveRestore_iff h hq _ rfl rfl restore_no_wakeup
  · exact keepsLists_saveRestore_iff h hq _ rfl rfl restore_no_wakeup

/-- A TS task has forked another at its level. -/
def forkedRun : List Op := tsCurrRun ++ [.schedFork 0 1, .wakeUpNewTask (.proc 1) 0 false]

/-- The child is behind its parent and stays there. -/
theorem restore_keeps_lists_iff_last : ∃ k, Reachable k ∧ QueuedTs k (.proc 1)
    ∧ (k.rq 0).queue (.ts 19) = [.proc 0, .proc 1]
    ∧ KeepsLists k (doSetCpusAllowed k (.proc 1) fun _ => true) 0
    ∧ KeepsLists k (schedSetnuma k (.proc 1) 1) 0 := by
  obtain ⟨k, hk, hq, hcpu, hqueue, hlast⟩ := exists_reachable forkedRun
    (P := fun k => QueuedTs k (.proc 1) ∧ (k.task (.proc 1)).cpu = 0 ∧
      (k.rq 0).queue (.ts 19) = [.proc 0, .proc 1] ∧
      ((k.rq (k.task (.proc 1)).cpu).queue
        (.ts (prioQueue (k.task (.proc 1)).prio))).getLast? = some (.proc 1))
    (by decide +kernel)
  obtain ⟨hallowed, hnuma⟩ := restore_keeps_lists_iff hk hq (fun _ => true) 1
  rw [hcpu] at hallowed hnuma
  exact ⟨k, hk, hq, hqueue, hallowed.mpr hlast, hnuma.mpr hlast⟩

/-- A new affinity mask for the parent, which runs, puts it behind its
child. -/
theorem affinity_loses_place : ∃ k, Reachable k ∧ QueuedTs k (.proc 0) ∧
    (k.rq 0).queue (.ts 19) = [.proc 0, .proc 1] ∧
    ((doSetCpusAllowed k (.proc 0) fun _ => true).rq 0).queue (.ts 19) = [.proc 1, .proc 0] ∧
    ¬ KeepsLists k (doSetCpusAllowed k (.proc 0) fun _ => true) (k.task (.proc 0)).cpu ∧
    ¬ KeepsLists k (schedSetnuma k (.proc 0) 1) (k.task (.proc 0)).cpu := by
  obtain ⟨k, hk, hq, hcpu, hbefore, hallowed, hnuma⟩ := exists_reachable forkedRun
    (P := fun k => QueuedTs k (.proc 0) ∧ (k.task (.proc 0)).cpu = 0 ∧
      (k.rq 0).queue (.ts 19) = [.proc 0, .proc 1] ∧
      ((doSetCpusAllowed k (.proc 0) fun _ => true).rq 0).queue (.ts 19) = [.proc 1, .proc 0] ∧
      ((schedSetnuma k (.proc 0) 1).rq 0).queue (.ts 19) = [.proc 1, .proc 0])
    (by decide +kernel)
  refine ⟨k, hk, hq, hbefore, hallowed, fun hkeeps => ?_, fun hkeeps => ?_⟩
  · have heq := hkeeps 19 (by decide) (by decide)
    rw [hcpu, hallowed, hbefore] at heq
    exact nomatch heq
  · have heq := hkeeps 19 (by decide) (by decide)
    rw [hcpu, hnuma, hbefore] at heq
    exact nomatch heq

end Sched

end Comp4511
