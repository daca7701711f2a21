import Comp4511.SchedReach

/-!
# Class, priority and policy

`__setscheduler` and `sched_fork` derive the class of a task from its
priority and policy (`classOf`). `rt_mutex_setprio` derives it from the
priority alone, so a `SCHED_TS` task that gets a priority outside the RT
range from it ends up in the fair class. That is the only way the two can
come apart: in a run without such a call every task is in the class its
priority and policy determine.
-/

namespace Comp4511

namespace Sched

/-! ## One step -/

/-- The task is in the class of its priority and policy. -/
def ClassAgrees (t : TaskStruct) : Prop := t.schedClass = classOf t.prio t.policy

instance (t : TaskStruct) : Decidable (ClassAgrees t) :=
  inferInstanceAs (Decidable (_ = _))

/-- The step does not take a `SCHED_TS` task `p` to a priority outside the
RT range by `rt_mutex_setprio`, and has nothing to do with `p` as a
stopper. -/
def KeepsClass (k : Kernel) (p : Pid) : Op → Prop
  | .rtMutexSetprio q piTask _ _ =>
      q = p ∧ (k.task p).policy = .ts →
        setprioPrio k p piTask = (k.task p).prio ∨ rtPrio (setprioPrio k p piTask) = true
  | .schedSetStopTask cpu stop _ _ => stop ≠ some p ∧ (k.rq cpu).stop ≠ some p
  | _ => True

instance (k : Kernel) (p : Pid) : DecidablePred (KeepsClass k p)
  | .rtMutexSetprio .. => inferInstanceAs (Decidable (_ → _))
  | .schedSetStopTask .. => inferInstanceAs (Decidable (_ ∧ _))
  | .schedFork .. | .wakeUpNewTask .. | .tryToWakeUp .. | .setCurrentState .. | .schedule ..
  | .schedulerTick .. | .schedYield .. | .setUserNice .. | .schedSetscheduler ..
  | .doSetCpusAllowed .. | .moveQueuedTask .. => isTrue trivial

theorem ClassAgrees.congr {t t' : TaskStruct} (h : ClassAgrees t) (hs : SameParams t t') :
    ClassAgrees t' := by
  unfold ClassAgrees at h ⊢
  rw [hs.schedClass, hs.prio, hs.policy]
  exact h

/-- Outside the RT range the class depends on the policy only. -/
theorem classOf_of_le {prio : Int} (h : 100 ≤ prio) (policy : Policy) :
    classOf prio policy = if tsPolicy policy then .ts else .fair := by
  have hrt := rtPrio_eq_false.mpr h
  have hdl : dlPrio prio = false := by
    rw [Bool.eq_false_iff, ne_eq, dlPrio_eq_true]
    omega
  rw [classOf, hdl, hrt]
  rfl

theorem classOf_ts_iff {t : TaskStruct} (h : TaskOk t) (hts : t.schedClass = .ts)
    {prio : Int} (hprio : 100 ≤ prio) : t.schedClass = classOf prio t.policy := by
  rw [classOf_of_le hprio, h.ts_policy hts, hts]
  rfl

theorem classAgrees_setNice {t : TaskStruct} (h : ClassAgrees t) {nice : Int}
    (hren : Renices t nice) : ClassAgrees (setNice t nice) := by
  obtain ⟨-, hlo, hhi, hdl, hrt⟩ := hren
  have hprio := setNice_prio nice hdl hrt
  have hrange := niceToPrio_range ⟨hlo, hhi⟩
  obtain ⟨prio, normal, heq⟩ := setNice_frame t nice
  rw [heq] at hprio ⊢
  unfold ClassAgrees at h ⊢
  simp only at hprio ⊢
  rw [hprio]
  split_ifs with hr
  · exact h
  · rw [classOf_of_le hrange.1, h]
    exact classOf_of_le (rtPrio_eq_false.mp (by simpa using hr)) t.policy

theorem classAgrees_setscheduler (t : TaskStruct) (attr : SchedAttr) (donor : Option Int)
    (pi : Bool) : ClassAgrees (setscheduler t attr donor pi) := by
  rw [setscheduler_eq]
  obtain ⟨static, normal, heq, -⟩ := setschedulerParams_frame t attr
  rw [heq]
  rfl

/-- `rt_mutex_setprio` agrees with the other two unless the policy is
`SCHED_TS` and the priority is not in the RT range. -/
theorem classAgrees_setprioTask {t : TaskStruct} {prio : Int}
    (h : t.policy = .ts → rtPrio prio = true) : ClassAgrees (setprioTask t prio) := by
  rw [setprioTask_eq]
  unfold ClassAgrees setprioClass classOf
  simp only
  split_ifs with hdl hrt hts
  · rfl
  · rfl
  · exact absurd (h (by simpa [tsPolicy] using hts)) hrt
  · rfl

theorem TaskStep.classAgrees {k : Kernel} {p : Pid} {t : TaskStruct} {op : Op}
    (hstep : TaskStep k p t op) (hok : TaskOk (k.task p)) (hkeep : KeepsClass k p op)
    (h : ClassAgrees (k.task p)) : ClassAgrees t := by
  cases hstep with
  | keep _ hto => exact h.congr hto
  | wakeup _ hto =>
      refine ClassAgrees.congr ?_ hto
      unfold wokenTask
      split_ifs with hts
      · exact classOf_ts_iff hok hts (wakeupPrio_range (hok.tsRange hts)).1
      · exact h
  | tick _ _ hto =>
      refine ClassAgrees.congr ?_ hto
      exact h
  | expire hc _ hto =>
      obtain ⟨-, hts, -⟩ := hc
      refine ClassAgrees.congr ?_ hto
      exact classOf_ts_iff hok hts (expirePrio_range (hok.tsRange hts)).1
  | renice hren hto => exact (classAgrees_setNice h hren).congr hto
  | reniceRt _ _ hto =>
      refine ClassAgrees.congr ?_ hto
      exact h
  | policy _ _ hto => exact (classAgrees_setscheduler _ _ _ _).congr hto
  | setprio hset hto =>
      refine (classAgrees_setprioTask fun hpol => ?_).congr hto
      rcases hkeep ⟨rfl, hpol⟩ with heq | hrt
      · rcases hset.1 with hne | hdl
        · exact absurd heq hne
        · rw [dlPrio_eq_true] at hdl
          rw [← Bool.not_eq_false, rtPrio_eq_false]
          omega
      · exact hrt
  | stopper hstop _ => exact absurd hstop (not_or.mpr hkeep)

/-! ## Runs -/

theorem classAgrees_step {k k' : Kernel} {op : Op} {p : Pid}
    (h : Inv k ∧ TasksOk k ∧ (k.Live p → p.isProc = true → ClassAgrees (k.task p)))
    (hkeep : KeepsClass k p op) (hstep : step k op = some k') :
    Inv k' ∧ TasksOk k' ∧ (k'.Live p → p.isProc = true → ClassAgrees (k'.task p)) := by
  obtain ⟨hinv, hok, hagree⟩ := h
  refine ⟨inv_step hinv hstep, tasksOk_step hinv hok hstep, fun hlive hproc => ?_⟩
  rcases step_live hstep hlive with hold | ⟨cpu, child, -, rfl, -, hfork⟩
  · exact (step_task hstep hold).classAgrees (hok p hold) hkeep (hagree hold hproc)
  · exact (taskOk_schedFork (hok _ (hinv.curr cpu)) hfork).2

/-- In a run whose every step keeps the class of `p`, the task is in the
class its priority and policy determine. -/
theorem class_agrees_of_run {h : List (Kernel × Op)} {k : Kernel}
    (hrun : Lts.Run step boot h k) {p : Pid} (hkeep : ∀ x ∈ h, KeepsClass x.1 p x.2)
    (hlive : k.Live p) (hproc : p.isProc = true) :
    (k.task p).schedClass = classOf (k.task p).prio (k.task p).policy := by
  have hinv := hrun.inv_where
    (I := fun k => Inv k ∧ TasksOk k ∧ (k.Live p → p.isProc = true → ClassAgrees (k.task p)))
    (P := fun k op => KeepsClass k p op) (fun _ _ _ hi hk hs => classAgrees_step hi hk hs) hkeep
  refine (hinv ⟨inv_boot, tasksOk_boot, ?_⟩).2.2 hlive hproc
  intro hb hp
  cases p with
  | swapper c => cases hp
  | proc n => exact absurd hb (Finset.notMem_empty n)

/-- A `SCHED_TS` task and a `SCHED_FIFO` task that lends it its priority. -/
def boostRun : List Op :=
  [.schedFork 0 0,
    .schedSetscheduler (.proc 0) (schedCopyAttr (some 10) 0 0 0) false true SchedEnv.root false,
    .schedFork 0 1,
    .schedSetscheduler (.proc 1) (schedCopyAttr (some 1) 0 0 50) false true SchedEnv.root false,
    .rtMutexSetprio (.proc 0) (some (.proc 1)) false false]

/-- While it is boosted, the task is where it should be. -/
theorem class_agrees_boosted : ∃ k, Reachable k ∧ (k.task (.proc 0)).schedClass = .rt
    ∧ (k.task (.proc 0)).schedClass =
      classOf (k.task (.proc 0)).prio (k.task (.proc 0)).policy := by
  obtain ⟨k, hk⟩ : ∃ k, Lts.exec step boot boostRun = some k :=
    Option.isSome_iff_exists.mp (by decide)
  have hclass : (Lts.exec step boot boostRun).all
      (fun k => k.Live (.proc 0) ∧ (k.task (.proc 0)).schedClass = .rt) = true := by decide
  rw [hk] at hclass
  obtain ⟨hlive, hrt⟩ := of_decide_eq_true hclass
  exact ⟨k, Lts.exec_reaches hk, hrt,
    class_agrees_of_run (Lts.exec_run hk) (p := .proc 0) (by decide) hlive rfl⟩

/-- When the boost ends the task is left in the fair class. -/
theorem deboosted_class_disagrees : ¬∀ k, Reachable k → ∀ p, k.Live p → p.isProc = true →
    (k.task p).schedClass ≠ .stop →
    (k.task p).schedClass = classOf (k.task p).prio (k.task p).policy := by
  intro hall
  obtain ⟨k, hk, hlive, hfair, hts⟩ := exists_reachable
    (boostRun ++ [.rtMutexSetprio (.proc 0) none false false])
    (P := fun k => k.Live (.proc 0) ∧ (k.task (.proc 0)).schedClass = .fair
      ∧ classOf (k.task (.proc 0)).prio (k.task (.proc 0)).policy = .ts) (by decide)
  have hclass := hall k hk (.proc 0) hlive rfl (by rw [hfair]; decide)
  rw [hfair, hts] at hclass
  cases hclass

end Sched

end Comp4511
