import Comp4511.SchedPreempt

/-!
# Time slices

Three results about `ts.time_slice`. It is between 1 and 16 in every
reachable state, for tasks of every class, so the decrement never wraps
and `prioTimeslice` is never asked about a priority it has no answer for
(`slice_safe`). It is written by forks and by the ticks charged to the
task, by nothing else, so the ticks between two expiries are exactly the
quantum of the level the first one moved the task to
(`tick_accounting`).

What does not hold in general is that a task's slice is at most the
quantum of its level: a wakeup, a renice and a policy change move the
task without looking at its slice, and `__sched_fork` computes the
child's slice before the child's priority. `slice_fits_of_run` says which
steps are harmless, and `fork_slice_iff` when a child has the quantum of its
level.
-/

namespace Comp4511

namespace Sched

/-! ## Safety -/

/-- In every reachable state every task has a slice in `1..16`, which a
decrement takes down by one; a task of the TS class has a priority in
`100..139`, now and after an expiry, so `prioTimeslice` answers; and what
a tick does never depends on an uninitialised value. -/
theorem slice_safe {k : Kernel} (h : Reachable k) :
    (∀ p, k.Live p → 1 ≤ (k.task p).timeSlice.toNat ∧ (k.task p).timeSlice.toNat ≤ 16
      ∧ ((k.task p).timeSlice - 1).toNat = (k.task p).timeSlice.toNat - 1)
    ∧ (∀ p, k.Live p → (k.task p).schedClass = .ts →
      TsRange (k.task p).prio ∧ TsRange (expirePrio (k.task p).prio)
        ∧ (getRrIntervalTs k p).isSome = true
        ∧ (prioTimeslice (expirePrio (k.task p).prio)).isSome = true)
    ∧ ∀ cpu hook junk junk',
      schedulerTick k cpu hook junk = schedulerTick k cpu hook junk' := by
  refine ⟨fun p hp => ?_, fun p hp hts => ?_, fun cpu hook junk junk' => ?_⟩
  · have hok := h.tasksOk p hp
    exact ⟨hok.slice_pos, hok.slice_le, timeSlice_sub_one hok.slice_pos⟩
  · have hrange := (h.tasksOk p hp).tsRange hts
    obtain ⟨q, hq, -⟩ := prioTimeslice_range hrange
    obtain ⟨q', hq', -⟩ := prioTimeslice_range (expirePrio_range hrange)
    exact ⟨hrange, expirePrio_range hrange, by rw [getRrIntervalTs, hq]; rfl,
      by rw [hq']; rfl⟩
  · simp only [schedulerTick]
    split_ifs with hts
    · have hrange := (h.tasksOk _ (h.inv.curr cpu)).tsRange hts
      obtain ⟨q, hq, -⟩ := prioTimeslice_range (expirePrio_range hrange)
      have hexpire : expireTask junk (k.task (k.rq cpu).curr) =
          expireTask junk' (k.task (k.rq cpu).curr) := by
        simp only [expireTask]
        rw [show prioTimeslice (expirePrio (k.task (k.rq cpu).curr).prio) = some q from hq]
        rfl
      rw [taskTickTs_eq, taskTickTs_eq]
      simp only [expireTick, Kernel.mod, printk_task, hexpire]
    · rfl
    · rfl

/-- A TS task that was just created. -/
theorem slice_safe_tsRun : ∃ k, Reachable k ∧ (k.task (.proc 0)).schedClass = .ts
    ∧ 1 ≤ (k.task (.proc 0)).timeSlice.toNat ∧ (k.task (.proc 0)).timeSlice.toNat ≤ 16
    ∧ (getRrIntervalTs k (.proc 0)).isSome = true := by
  obtain ⟨k, hk, hlive, hts⟩ := exists_reachable tsRun
    (P := fun k => k.Live (.proc 0) ∧ (k.task (.proc 0)).schedClass = .ts) (by decide)
  obtain ⟨hslice, hprio, -⟩ := slice_safe hk
  obtain ⟨hpos, hle, -⟩ := hslice _ hlive
  exact ⟨k, hk, hts, hpos, hle, (hprio _ hlive hts).2.2.1⟩

/-! ## The quantum of the level -/

/-- The slice is at most the quantum of the level. -/
def Fits (slice : UInt32) (prio : Int) : Prop := ∀ q ∈ prioTimeslice prio, slice.toNat ≤ q

instance (slice : UInt32) (prio : Int) : Decidable (Fits slice prio) :=
  match h : prioTimeslice prio with
  | none => isTrue fun q hq => by rw [h] at hq; cases hq
  | some q => decidable_of_iff (slice.toNat ≤ q)
      ⟨fun hle q' hq' => by rw [h] at hq'; exact Option.some.inj hq' ▸ hle, fun hall => hall q h⟩

/-- The slice a child gets. -/
def forkSlice (t : TaskStruct) : UInt32 := (schedForkCore (dupTask t)).timeSlice

/-- Where the step moves `p` to another level, or creates it, its slice
fits that level: a wakeup that lifts it, a renice, a successful change to
`SCHED_TS`, a fork. -/
def KeepsQuantum (k : Kernel) (p : Pid) : Op → Prop
  | .setUserNice q nice =>
      q = p ∧ (k.task p).schedClass = .ts ∧ Renices (k.task p) nice →
        Fits (k.task p).timeSlice (niceToPrio nice)
  | .schedSetscheduler q attr user pi env hook =>
      q = p ∧ attrPolicy (k.task p) attr = .ts
          ∧ unchangedParams (k.task p) attr .ts env = false
          ∧ (schedSetscheduler k p attr user pi env hook).isOk = true →
        Fits (k.task p).timeSlice (enteringPrio k p pi)
  | .schedFork cpu child =>
      p = .proc child ∧ (forkBase (k.task (k.rq cpu).curr)).policy = .ts →
        Fits (forkSlice (k.task (k.rq cpu).curr)) (forkBase (k.task (k.rq cpu).curr)).prio
  | op => Wakes k p op ∧ (k.task p).schedClass = .ts → (k.task p).timeSlice.toNat ≤ 4

instance (k : Kernel) (p : Pid) : DecidablePred (KeepsQuantum k p)
  | .setUserNice .. => inferInstanceAs (Decidable (_ ∧ _ ∧ _ → _))
  | .schedSetscheduler .. => inferInstanceAs (Decidable (_ ∧ _ ∧ _ ∧ _ → _))
  | .schedFork .. => inferInstanceAs (Decidable (_ ∧ _ → _))
  | .tryToWakeUp .. => inferInstanceAs (Decidable (_ ∧ _ → _))
  | .schedule .. => inferInstanceAs (Decidable (_ ∧ _ → _))
  | .wakeUpNewTask .. | .setCurrentState .. | .schedulerTick .. | .schedYield ..
  | .rtMutexSetprio .. | .doSetCpusAllowed .. | .moveQueuedTask .. | .schedSetStopTask .. =>
      isTrue fun h => absurd h.1 id

/-- What the bound says about one task. -/
def SliceFits (t : TaskStruct) : Prop := t.schedClass = .ts → Fits t.timeSlice t.prio

theorem SliceFits.congr {t t' : TaskStruct} (h : SliceFits t) (hs : SameParams t t') :
    SliceFits t' := by
  intro hts
  rw [hs.timeSlice, hs.prio]
  exact h (hs.schedClass.symm.trans hts)

/-- Every wakeup priority is in the level with the smallest quantum. -/
theorem prioTimeslice_wakeup {prio : Int} (h : TsRange prio) :
    prioTimeslice (wakeupPrio prio) = some 4 := by
  obtain ⟨hlo, hhi⟩ := wakeupPrio_range h
  have hlevel : (wakeupPrio prio).tdiv 10 = 10 := by
    rw [Int.tdiv_eq_ediv_of_nonneg (by omega)]
    omega
  rw [prioTimeslice, hlevel]
  rfl

theorem keepsQuantum_wakes {k : Kernel} {p : Pid} {op : Op} (h : KeepsQuantum k p op)
    (hw : Wakes k p op) (hts : (k.task p).schedClass = .ts) :
    (k.task p).timeSlice.toNat ≤ 4 := by
  cases op with
  | tryToWakeUp => exact h ⟨hw, hts⟩
  | schedule => exact h ⟨hw, hts⟩
  | _ => exact absurd hw id

theorem sliceFits_setNice {t : TaskStruct} (hok : TaskOk t) {nice : Int}
    (hren : Renices t nice) (hfit : t.schedClass = .ts → Fits t.timeSlice (niceToPrio nice)) :
    SliceFits (setNice t nice) := by
  have hprio := setNice_prio nice hren.2.2.2.1 hren.2.2.2.2
  obtain ⟨prio, normal, heq⟩ := setNice_frame t nice
  rw [heq] at hprio ⊢
  intro hts
  have hrt : rtPrio t.prio = false := rtPrio_eq_false.mpr (hok.ts_ge hts)
  simp only [hrt, Bool.false_eq_true, if_false] at hprio
  simp only [hprio]
  exact hfit hts

theorem policyTask_slice (k : Kernel) (p : Pid) (attr : SchedAttr) (resetOnFork pi : Bool) :
    (policyTask k p attr resetOnFork pi).timeSlice = (k.task p).timeSlice := by
  unfold policyTask
  rw [setscheduler_eq]
  obtain ⟨static, normal, heq, -⟩ :=
    setschedulerParams_frame { k.task p with schedResetOnFork := resetOnFork } attr
  rw [heq]

theorem TaskStep.sliceFits {k : Kernel} {p : Pid} {t : TaskStruct} {op : Op}
    (hstep : TaskStep k p t op) (hok : TaskOk (k.task p)) (hkeep : KeepsQuantum k p op)
    (h : SliceFits (k.task p)) : SliceFits t := by
  cases hstep with
  | keep _ hto => exact h.congr hto
  | wakeup hw hto =>
      refine SliceFits.congr ?_ hto
      unfold wokenTask
      split_ifs with hts
      · intro _ q hq
        rw [prioTimeslice_wakeup (hok.tsRange hts)] at hq
        obtain rfl := Option.some.inj hq
        exact keepsQuantum_wakes hkeep hw hts
      · exact h
  | tick hc hslice hto =>
      refine SliceFits.congr (fun hts q hq => ?_) hto
      have hsub := timeSlice_sub_one hok.slice_pos
      have hle := h hts q hq
      simp only [hsub]
      omega
  | expire hc _ hto =>
      refine SliceFits.congr (fun hts q hq => ?_) hto
      obtain ⟨q', hq', -, -, hslice⟩ := expireTask_slice (hok.tsRange hts) _
      rw [hslice]
      have hqq : some q' = some q := hq'.symm.trans hq
      exact le_of_eq (Option.some.inj hqq)
  | renice hren hto =>
      exact (sliceFits_setNice hok hren fun hts => hkeep ⟨rfl, hts, hren⟩).congr hto
  | reniceRt _ hrt hto =>
      refine SliceFits.congr (fun hts => ?_) hto
      exact h hts
  | policy hret hch hto =>
      refine SliceFits.congr (fun hts => ?_) hto
      obtain ⟨hpol, hprio, -⟩ := policyTask_ts hts
      rw [hpol] at hch
      rw [hprio, policyTask_slice]
      exact hkeep ⟨rfl, hpol, hch, hret⟩
  | setprio _ hto =>
      refine SliceFits.congr (fun hts => ?_) hto
      rw [setprioTask_eq] at hts
      exact absurd hts (setprioClass_ne_ts _)
  | stopper _ hto =>
      obtain ⟨base, c, hc, -, hto⟩ := hto
      refine SliceFits.congr (fun hts => ?_) hto
      have hts : c = .ts := hts
      rcases hc with rfl | rfl <;> cases hts

theorem sliceFits_schedFork {current t : TaskStruct} {cpu : Nat}
    (hfork : schedFork current cpu = some t)
    (hfit : (forkBase current).policy = .ts →
      Fits (forkSlice current) (forkBase current).prio) : SliceFits t := by
  have hslice := forkBase_timeSlice current
  rw [schedFork_eq] at hfork
  split_ifs at hfork
  obtain rfl := Option.some.inj hfork
  intro hts
  simp only [hslice]
  exact hfit (classOf_ts hts).2

theorem sliceFits_step {k k' : Kernel} {op : Op} {p : Pid}
    (h : Inv k ∧ TasksOk k ∧ (k.Live p → SliceFits (k.task p)))
    (hkeep : KeepsQuantum k p op) (hstep : step k op = some k') :
    Inv k' ∧ TasksOk k' ∧ (k'.Live p → SliceFits (k'.task p)) := by
  obtain ⟨hinv, hok, hfits⟩ := h
  refine ⟨inv_step hinv hstep, tasksOk_step hinv hok hstep, fun hlive => ?_⟩
  rcases step_live hstep hlive with hold | ⟨cpu, child, rfl, rfl, -, hfork⟩
  · exact (step_task hstep hold).sliceFits (hok p hold) hkeep (hfits hold)
  · exact sliceFits_schedFork hfork fun hpol => hkeep ⟨rfl, hpol⟩

/-- In a run whose every step moves `p` only to levels its slice fits, a
TS task never holds more ticks than the quantum of its level. -/
theorem slice_fits_of_run {h : List (Kernel × Op)} {k : Kernel}
    (hrun : Lts.Run step boot h k) {p : Pid} (hkeep : ∀ x ∈ h, KeepsQuantum x.1 p x.2)
    (hlive : k.Live p) (hts : (k.task p).schedClass = .ts) :
    ∃ q, prioTimeslice (k.task p).prio = some q ∧ (k.task p).timeSlice.toNat ≤ q := by
  have hinv := hrun.inv_where
    (I := fun k => Inv k ∧ TasksOk k ∧ (k.Live p → SliceFits (k.task p)))
    (P := fun k op => KeepsQuantum k p op) (fun _ _ _ hi hk hs => sliceFits_step hi hk hs) hkeep
  have hstart : boot.Live p → SliceFits (boot.task p) := by
    intro hb
    cases p with
    | swapper c => exact fun hc => nomatch hc
    | proc n => exact absurd hb (Finset.notMem_empty n)
  obtain ⟨-, hok, hfits⟩ := hinv ⟨inv_boot, tasksOk_boot, hstart⟩
  obtain ⟨q, hq, -⟩ := prioTimeslice_range ((hok p hlive).tsRange hts)
  exact ⟨q, hq, hfits hlive hts q hq⟩

/-- A task that enters the class at nice 0 has the quantum of its level. -/
theorem slice_fits_entering : ∃ k, Reachable k ∧ (k.task (.proc 0)).schedClass = .ts
    ∧ ∃ q, prioTimeslice (k.task (.proc 0)).prio = some q
      ∧ (k.task (.proc 0)).timeSlice.toNat ≤ q := by
  obtain ⟨k, hk⟩ : ∃ k, Lts.exec step boot tsRun = some k :=
    Option.isSome_iff_exists.mp (by decide)
  have hend : (Lts.exec step boot tsRun).all
      (fun k => k.Live (.proc 0) ∧ (k.task (.proc 0)).schedClass = .ts) = true := by decide
  rw [hk] at hend
  obtain ⟨hlive, hts⟩ := of_decide_eq_true hend
  exact ⟨k, Lts.exec_reaches hk, hts,
    slice_fits_of_run (Lts.exec_run hk) (by decide +kernel) hlive hts⟩

/-- A TS task is woken up and moved to the best level with the slice of
the level it slept at. -/
theorem woken_slice_exceeds : ¬∀ k, Reachable k → ∀ p, k.Live p →
    (k.task p).schedClass = .ts →
    ∃ q, prioTimeslice (k.task p).prio = some q ∧ (k.task p).timeSlice.toNat ≤ q := by
  intro hall
  obtain ⟨k, hk, hlive, hts, hquantum, hslice⟩ := exists_reachable
    (tsCurrRun ++
      [.setCurrentState 0 1,
        .schedule 0 false false none false (fun _ => ClassPick.head),
        .tryToWakeUp (.proc 0) taskNormal 0 false])
    (P := fun k => k.Live (.proc 0) ∧ (k.task (.proc 0)).schedClass = .ts
      ∧ prioTimeslice (k.task (.proc 0)).prio = some 4
      ∧ (k.task (.proc 0)).timeSlice.toNat = 12) (by decide +kernel)
  obtain ⟨q, hq, hle⟩ := hall k hk (.proc 0) hlive hts
  obtain rfl := Option.some.inj (hquantum.symm.trans hq)
  omega

/-! ## The slice of a child -/

/-- The priority of a `SCHED_TS` child: the parent's normal priority or,
after the reset, the static one, but not better than nice 0. -/
def childPrio (current : TaskStruct) : Int :=
  if current.schedResetOnFork then max current.staticPrio 120 else current.normalPrio

/-- The parent is at the level the child gets. A parent that is boosted out
of the range of the class has no level; its slice, which the child takes
over, is then the quantum of the child's. -/
def AtChildLevel (current : TaskStruct) : Prop :=
  (TsRange current.prio → current.prio.tdiv 10 = (childPrio current).tdiv 10) ∧
  (¬ TsRange current.prio → prioTimeslice (childPrio current) = some current.timeSlice.toNat)

theorem prioTimeslice_eq_none {prio : Int} (h : ¬ TsRange prio) : prioTimeslice prio = none := by
  have hlevel : prio.tdiv 10 ≠ 10 ∧ prio.tdiv 10 ≠ 11 ∧ prio.tdiv 10 ≠ 12 ∧ prio.tdiv 10 ≠ 13 := by
    unfold TsRange at h
    rcases Int.le_total 0 prio with hpos | hneg
    · rw [Int.tdiv_eq_ediv_of_nonneg hpos]
      omega
    · have hneg : 0 ≤ (-prio).tdiv 10 := Int.tdiv_nonneg (by omega) (by decide)
      rw [Int.neg_tdiv] at hneg
      omega
  unfold prioTimeslice
  split <;> simp_all

/-- The quantum of a level is that of no other. -/
theorem prioTimeslice_eq_iff {prio prio' : Int} (h : TsRange prio) :
    prioTimeslice prio = prioTimeslice prio' ↔ prio.tdiv 10 = prio'.tdiv 10 := by
  constructor
  · intro heq
    by_cases hrange : TsRange prio'
    · rcases tsRange_cases h with hp | hp | hp | hp <;>
        rcases tsRange_cases hrange with hp' | hp' | hp' | hp' <;>
        simp [prioTimeslice, hp, hp'] at heq ⊢
    · obtain ⟨q, hq, -⟩ := prioTimeslice_range h
      rw [prioTimeslice_eq_none hrange, hq] at heq
      cases heq
  · intro heq
    rw [prioTimeslice, heq, prioTimeslice]

/-- The child of a `SCHED_TS` task, before its class is chosen. -/
theorem forkBase_ts {current : TaskStruct} (hts : (forkBase current).policy = .ts) :
    (forkBase current).prio = childPrio current := by
  obtain ⟨s, heq, -⟩ := schedForkCore_frame (dupTask current)
  unfold forkBase at hts ⊢
  rw [heq] at hts ⊢
  unfold childPrio
  by_cases hreset : current.schedResetOnFork = true
  · rw [if_pos hreset]
    dsimp only [dupTask] at hts ⊢
    rw [if_pos hreset] at hts ⊢
    unfold resetOnFork at hts ⊢
    dsimp only at hts ⊢
    split at hts
    · exact nomatch hts
    · next hpolicy =>
        rw [if_neg hpolicy]
        split
        · next hnice =>
            simp only [normalPrioCore, prioToNice, niceToPrio] at hnice ⊢
            omega
        · next hnice =>
            simp only [normalPrioCore, prioToNice] at hnice ⊢
            omega
  · rw [if_neg hreset]
    dsimp only [dupTask] at hts ⊢
    rw [if_neg hreset]

/-- A `SCHED_TS` child has the quantum of its level just when its parent is
at that level. -/
theorem fork_slice_iff {current t : TaskStruct} {cpu : Nat}
    (hfork : schedFork current cpu = some t) (hts : t.policy = .ts) :
    prioTimeslice t.prio = some t.timeSlice.toNat ↔ AtChildLevel current := by
  rw [schedFork_eq] at hfork
  split_ifs at hfork
  obtain rfl := Option.some.inj hfork
  dsimp only at hts ⊢
  rw [forkBase_ts hts, forkBase_timeSlice]
  obtain ⟨s, heq, ⟨q, hq, hs⟩ | ⟨hnone, hs⟩⟩ := schedForkCore_frame (dupTask current)
  · have hrange : TsRange current.prio := by
      by_contra hnot
      exact nomatch (prioTimeslice_eq_none hnot).symm.trans hq
    have hq : prioTimeslice current.prio = some q := hq
    simp only [heq, AtChildLevel, hrange, hs, not_true, false_implies, and_true, true_implies]
    rw [← hq, ← prioTimeslice_eq_iff hrange]
    exact eq_comm
  · have hrange : ¬ TsRange current.prio := by
      intro hrange
      obtain ⟨q, hq, -⟩ := prioTimeslice_range hrange
      exact nomatch hnone.symm.trans hq
    have hs : s = current.timeSlice := hs
    rw [heq]
    simp [AtChildLevel, hrange, hs]

theorem fork_slice_iff_fresh : ∃ k t, Reachable k ∧ schedFork (k.task (k.rq 0).curr) 0 = some t
    ∧ t.policy = .ts ∧ prioTimeslice t.prio = some t.timeSlice.toNat := by
  obtain ⟨k, hk, hprio, hchild, hsome⟩ := exists_reachable tsCurrRun
    (P := fun k => (k.task (k.rq 0).curr).prio = 120 ∧ childPrio (k.task (k.rq 0).curr) = 120
      ∧ (schedFork (k.task (k.rq 0).curr) 0).any (fun t => t.policy = .ts) = true)
    (by decide +kernel)
  obtain ⟨t, hfork, hts⟩ := (Option.any_eq_true _ _).mp hsome
  have hts : t.policy = .ts := of_decide_eq_true hts
  have hlevel : AtChildLevel (k.task (k.rq 0).curr) := by
    refine ⟨fun _ => by rw [hprio, hchild], fun hnot => absurd ?_ hnot⟩
    rw [hprio]
    exact ⟨by decide, by decide⟩
  exact ⟨k, t, hk, hfork, hts, (fork_slice_iff hfork hts).mpr hlevel⟩

/-- A TS task that has used up its first slice, at nice 0, forks: the slice
is that of priority 130, the priority 120. -/
theorem demoted_fork_slice : ¬∀ k, Reachable k → ∀ cpu t,
    schedFork (k.task (k.rq cpu).curr) cpu = some t → t.policy = .ts →
    prioTimeslice t.prio = some t.timeSlice.toNat := by
  intro hall
  obtain ⟨k, hk, hsome⟩ := exists_reachable
    (tsCurrRun ++ List.replicate 12 (.schedulerTick 0 false 0))
    (P := fun k => (schedFork (k.task (k.rq 0).curr) 0).any
      (fun t => t.policy = .ts ∧ prioTimeslice t.prio = some 12 ∧ t.timeSlice = 16) = true)
    (by decide +kernel)
  obtain ⟨t, hfork, hchild⟩ := (Option.any_eq_true _ _).mp hsome
  obtain ⟨hts, hquantum, hslice⟩ := of_decide_eq_true hchild
  have heq := hall k hk 0 t hfork hts
  rw [hquantum, hslice] at heq
  exact absurd heq (by decide)

/-! ## Accounting -/

/-- The step is a tick that uses up the slice of `p`. -/
def Expires (k : Kernel) (p : Pid) (op : Op) : Prop :=
  Charged k p op ∧ (k.task p).timeSlice - 1 = 0

instance (k : Kernel) (p : Pid) : DecidablePred (Expires k p) :=
  fun _ => inferInstanceAs (Decidable (_ ∧ _))

theorem Charged.live {k : Kernel} (hinv : Inv k) {p : Pid} {op : Op} (h : Charged k p op) :
    k.Live p := by
  cases op with
  | schedulerTick cpu hook junk =>
      rw [← h.1]
      exact hinv.curr cpu
  | _ => exact absurd h id

theorem Wakes.not_charged {k : Kernel} {p : Pid} {op : Op} (h : Wakes k p op) :
    ¬Charged k p op := by
  cases op with
  | schedulerTick => exact absurd h id
  | _ => exact id

theorem StopperTask.timeSlice {t t' : TaskStruct} (h : StopperTask t t') :
    t'.timeSlice = t.timeSlice := by
  obtain ⟨base, c, -, hbase, hto⟩ := h
  rw [hto.timeSlice]
  rcases hbase with hb | ⟨resetOnFork, attr, donor, pi, hb⟩
  · exact hb.timeSlice
  · obtain ⟨static, normal, heq, -⟩ :=
      setschedulerParams_frame { t with schedResetOnFork := resetOnFork } attr
    rw [hb.timeSlice, setscheduler_eq, heq]

/-- Only a charged tick writes the slice. -/
theorem TaskStep.timeSlice_keep {k : Kernel} {p : Pid} {t : TaskStruct} {op : Op}
    (hstep : TaskStep k p t op) (hc : ¬Charged k p op) :
    t.timeSlice = (k.task p).timeSlice := by
  cases hstep with
  | keep _ hto => exact hto.timeSlice
  | wakeup _ hto =>
      rw [hto.timeSlice]
      unfold wokenTask
      split_ifs <;> rfl
  | tick hc' _ _ => exact absurd hc' hc
  | expire hc' _ _ => exact absurd hc' hc
  | @renice nice _ hto =>
      obtain ⟨prio, normal, heq⟩ := setNice_frame (k.task p) nice
      rw [hto.timeSlice, heq]
  | reniceRt _ _ hto => exact hto.timeSlice
  | policy _ _ hto => rw [hto.timeSlice, policyTask_slice]
  | setprio _ hto => rw [hto.timeSlice, setprioTask_eq]
  | stopper _ hto => exact hto.timeSlice

/-- A charged tick that does not use up the slice takes one off it. -/
theorem TaskStep.timeSlice_tick {k : Kernel} {p : Pid} {t : TaskStruct} {op : Op}
    (hstep : TaskStep k p t op) (hc : Charged k p op) (hno : ¬Expires k p op) :
    t.timeSlice = (k.task p).timeSlice - 1 := by
  cases hstep with
  | keep hc' _ => exact absurd hc hc'
  | wakeup hw _ => exact absurd hc hw.not_charged
  | tick _ _ hto => exact hto.timeSlice
  | expire _ hslice _ => exact absurd ⟨hc, hslice⟩ hno
  | renice => exact absurd hc id
  | reniceRt => exact absurd hc id
  | policy => exact absurd hc id
  | setprio => exact absurd hc id
  | stopper => exact absurd hc id

/-- The ticks of a history that are charged to `p`. -/
def chargedTicks (p : Pid) (h : List (Kernel × Op)) : Nat :=
  h.countP fun x => Charged x.1 p x.2

/-- A task that exists goes on existing. -/
theorem step_live_mono {k k' : Kernel} {op : Op} (h : step k op = some k') {q : Pid}
    (hq : k.Live q) : k'.Live q := by
  rcases step_procs h with hprocs | ⟨cpu, child, t, -, -, -, rfl⟩
  · rw [Kernel.live_congr hprocs]
    exact hq
  · cases q with
    | swapper c => trivial
    | proc n => exact Finset.mem_insert_of_mem hq

/-- While `p`'s slice is not used up, every charged tick takes one off. -/
theorem run_chargedTicks {k k' : Kernel} {h : List (Kernel × Op)} (hk : Reachable k) {p : Pid}
    (hlive : k.Live p) (hrun : Lts.Run step k h k') (hno : ∀ x ∈ h, ¬Expires x.1 p x.2) :
    (k'.task p).timeSlice.toNat + chargedTicks p h = (k.task p).timeSlice.toNat := by
  induction hrun with
  | nil => rfl
  | @cons k k₁ k₂ op h hstep _ ih =>
      have hrest := ih (Lts.Reaches.tail hk hstep) (step_live_mono hstep hlive)
        fun x hx => hno x (List.mem_cons_of_mem _ hx)
      have hnow := hno (k, op) (List.mem_cons_self ..)
      have hpos := (hk.tasksOk p hlive).slice_pos
      have hcons : chargedTicks p ((k, op) :: h) =
          chargedTicks p h + if Charged k p op then 1 else 0 := by
        simp only [chargedTicks, List.countP_cons, decide_eq_true_eq]
      rw [hcons]
      by_cases hc : Charged k p op
      · rw [(step_task hstep hlive).timeSlice_tick hc hnow, timeSlice_sub_one hpos] at hrest
        rw [if_pos hc]
        omega
      · rw [(step_task hstep hlive).timeSlice_keep hc] at hrest
        rw [if_neg hc]
        omega

/-- What an expiry does: the priority, the list, the flag. -/
theorem expires_effect {k k' : Kernel} {op : Op} (hk : Reachable k) {p : Pid}
    (he : Expires k p op) (hstep : step k op = some k') :
    (k'.task p).prio = min 139 ((k.task p).prio + 10)
      ∧ (k'.task p).cpu = (k.task p).cpu
      ∧ (∃ l, p ∉ l ∧ (k'.rq (k.task p).cpu).queue (.ts (139 - (k'.task p).prio)) = l ++ [p])
      ∧ (k'.task p).needResched = true
      ∧ prioTimeslice (k'.task p).prio = some (k'.task p).timeSlice.toNat := by
  obtain ⟨hc, hslice⟩ := he
  cases op with
  | schedulerTick cpu hook junk =>
      obtain ⟨rfl, hts, hpol⟩ := hc
      obtain rfl := Option.some.inj hstep
      have hcpu : (k.task (k.rq cpu).curr).cpu = cpu :=
        ((hk.inv.tasks _ (hk.inv.curr cpu)).current cpu rfl).1
      have heq : schedulerTick k cpu hook junk = expireTick k cpu (k.rq cpu).curr junk := by
        rcases schedulerTick_cases k cpu hook junk with ⟨-, -, heq⟩ | ⟨hnot, -⟩
        · rw [heq, if_pos hslice]
        · exact absurd ⟨hts, hpol⟩ hnot
      have htask : (expireTick k cpu (k.rq cpu).curr junk).task (k.rq cpu).curr =
          setTskNeedResched (expireTask junk (k.task (k.rq cpu).curr)) := by
        simp only [expireTick]
        rw [mod_task_self, modRq_task, mod_task_self]
        rfl
      obtain ⟨q, hq, -, -, hnew⟩ :=
        expireTask_slice ((hk.tasksOk _ (hk.inv.curr cpu)).tsRange hts) junk
      rw [heq, htask, hcpu]
      refine ⟨expirePrio_eq _, hcpu, ?_, rfl, hq.trans (congrArg some hnew.symm)⟩
      refine ⟨((k.rq cpu).queue (.ts (prioQueue (expirePrio (k.task (k.rq cpu).curr).prio)))).erase
        (k.rq cpu).curr, ?_, ?_⟩
      · exact (hk.inv.linked.nodup (cpu, _)).not_mem_erase
      · have hslot : 139 - (setTskNeedResched (expireTask junk (k.task (k.rq cpu).curr))).prio =
            prioQueue (expirePrio (k.task (k.rq cpu).curr).prio) := by
          unfold prioQueue
          change 139 - expirePrio (k.task (k.rq cpu).curr).prio = _
          omega
        rw [hslot]
        simp [expireTick, listMoveTail, listAddTail, listDel, ListTable.addTail,
          ListTable.unlink, Slot.isTs]
  | _ => exact absurd hc id

/-- The step gives `p` a new priority other than by a tick: a wakeup boost,
a renice, a policy change or priority inheritance. -/
def Reprioritises (k : Kernel) (p : Pid) : Op → Prop
  | .setUserNice q nice => q = p ∧ Renices (k.task p) nice
  | .schedSetscheduler q attr _ _ env _ =>
      q = p ∧ unchangedParams (k.task p) attr (attrPolicy (k.task p) attr) env = false
  | .rtMutexSetprio q piTask _ _ => q = p ∧ Setprios k p piTask
  | .schedSetStopTask cpu stop _ _ => stop = some p ∨ (k.rq cpu).stop = some p
  | op => Wakes k p op ∧ (k.task p).schedClass = .ts

theorem Wakes.reprioritises {k : Kernel} {p : Pid} {op : Op} (h : Wakes k p op)
    (hts : (k.task p).schedClass = .ts) : Reprioritises k p op := by
  cases op with
  | tryToWakeUp => exact ⟨h, hts⟩
  | schedule => exact ⟨h, hts⟩
  | _ => exact absurd h id

theorem TaskStep.prio_le {k : Kernel} {p : Pid} {t : TaskStruct} {op : Op}
    (hstep : TaskStep k p t op) (hok : TaskOk (k.task p)) (hno : ¬Reprioritises k p op) :
    (k.task p).prio ≤ t.prio := by
  cases hstep with
  | keep _ hto => exact le_of_eq hto.prio.symm
  | wakeup hw hto =>
      have hts : (k.task p).schedClass ≠ .ts := fun hts => hno (hw.reprioritises hts)
      rw [hto.prio, wokenTask, if_neg hts]
  | tick _ _ hto => exact le_of_eq hto.prio.symm
  | expire _ _ hto =>
      rw [hto.prio]
      change (k.task p).prio ≤ expirePrio (k.task p).prio
      rw [expirePrio_eq]
      have hle := hok.prio_le
      omega
  | renice hren _ => exact absurd ⟨rfl, hren⟩ hno
  | reniceRt _ _ hto => exact le_of_eq hto.prio.symm
  | policy _ hch _ => exact absurd ⟨rfl, hch⟩ hno
  | setprio hset _ => exact absurd ⟨rfl, hset⟩ hno
  | stopper hstop _ => exact absurd hstop hno

/-- Ticks only ever make a priority worse. -/
theorem run_prio_le {k k' : Kernel} {h : List (Kernel × Op)} (hk : Reachable k) {p : Pid}
    (hlive : k.Live p) (hrun : Lts.Run step k h k')
    (hno : ∀ x ∈ h, ¬Reprioritises x.1 p x.2) : (k.task p).prio ≤ (k'.task p).prio := by
  induction hrun with
  | nil => exact le_refl _
  | @cons k k₁ k₂ op h hstep _ ih =>
      have hfirst := (step_task hstep hlive).prio_le (hk.tasksOk p hlive)
        (hno (k, op) (List.mem_cons_self ..))
      have hrest := ih (Lts.Reaches.tail hk hstep) (step_live_mono hstep hlive)
        fun x hx => hno x (List.mem_cons_of_mem _ hx)
      exact le_trans hfirst hrest

/-- Tick accounting. Between two consecutive expiries of `p`, the second
one included, exactly the quantum of the priority `p` has after the first
one is charged to it, whatever else happens in between. Each expiry
replaces the priority by `min 139 (prio + 10)`, puts `p` at the tail of
that level and flags it. And in a stretch of a run without a wakeup boost,
renice, policy change or priority inheritance for `p`, its priority never
decreases. -/
theorem tick_accounting (p : Pid) :
    (∀ k op k₁ h k₂ op', Reachable k → Expires k p op → step k op = some k₁ →
      Lts.Run step k₁ h k₂ → (∀ x ∈ h, ¬Expires x.1 p x.2) → Expires k₂ p op' →
      prioTimeslice (k₁.task p).prio = some (chargedTicks p (h ++ [(k₂, op')])))
    ∧ (∀ k op k', Reachable k → Expires k p op → step k op = some k' →
      (k'.task p).prio = min 139 ((k.task p).prio + 10)
        ∧ (∃ l, p ∉ l
          ∧ (k'.rq (k'.task p).cpu).queue (.ts (139 - (k'.task p).prio)) = l ++ [p])
        ∧ (k'.task p).needResched = true)
    ∧ ∀ k h k', Reachable k → k.Live p → Lts.Run step k h k' →
      (∀ x ∈ h, ¬Reprioritises x.1 p x.2) → (k.task p).prio ≤ (k'.task p).prio := by
  refine ⟨?_, ?_, fun k h k' hk hlive hrun hno => run_prio_le hk hlive hrun hno⟩
  · intro k op k₁ h k₂ op' hk hfirst hstep hrun hno hlast
    have hlive := step_live_mono hstep (hfirst.1.live hk.inv)
    have hk₁ : Reachable k₁ := Lts.Reaches.tail hk hstep
    have hcount := run_chargedTicks hk₁ hlive hrun hno
    -- the last tick finds a slice of one
    have hk₂ : Reachable k₂ := Lts.Run.reaches hk₁ hrun
    have hpos := (hk₂.tasksOk p (hlast.1.live hk₂.inv)).slice_pos
    have hsub := timeSlice_sub_one hpos
    rw [hlast.2] at hsub
    have hzero : (0 : UInt32).toNat = 0 := rfl
    have happend : chargedTicks p (h ++ [(k₂, op')]) = chargedTicks p h + 1 := by
      have hcharged := hlast.1
      simp [chargedTicks, List.countP_append, hcharged]
    rw [happend, (expires_effect hk hfirst hstep).2.2.2.2]
    congr 1
    omega
  · intro k op k' hk he hstep
    obtain ⟨hprio, hcpu, htail, hflag, -⟩ := expires_effect hk he hstep
    rw [← hcpu] at htail
    exact ⟨hprio, htail, hflag⟩

/-- A task at priority 100 with twelve ticks left uses them up, and then
eight more at priority 110. -/
theorem tick_accounting_two_expiries : ∃ k₁ h k₂, Reachable k₁ ∧ Lts.Run step k₁ h k₂
    ∧ Expires k₂ (.proc 0) (.schedulerTick 0 false 0)
    ∧ prioTimeslice (k₁.task (.proc 0)).prio =
      some (chargedTicks (.proc 0) (h ++ [(k₂, .schedulerTick 0 false 0)]))
    ∧ prioTimeslice (k₁.task (.proc 0)).prio = some 8 := by
  let tick : Op := .schedulerTick 0 false 0
  obtain ⟨k, hk, hfirst, hnext⟩ := exists_reachable
    (tsCurrRun ++ [.setUserNice (.proc 0) (-20)] ++ List.replicate 11 tick)
    (P := fun k => Expires k (.proc 0) tick
      ∧ (step k tick).any (fun k₁ => decide (prioTimeslice (k₁.task (.proc 0)).prio = some 8
        ∧ (∀ x ∈ Lts.trace step k₁ (List.replicate 7 tick), ¬Expires x.1 (.proc 0) x.2)
        ∧ (Lts.exec step k₁ (List.replicate 7 tick)).any
          (fun k₂ => decide (Expires k₂ (.proc 0) tick)) = true)) = true) (by decide +kernel)
  obtain ⟨k₁, hk₁, hsecond⟩ := (Option.any_eq_true _ _).mp hnext
  obtain ⟨height, hno, hrest⟩ := of_decide_eq_true hsecond
  obtain ⟨k₂, hk₂, hlast⟩ := (Option.any_eq_true _ _).mp hrest
  have hrun := Lts.exec_run hk₂
  exact ⟨k₁, _, k₂, Lts.Reaches.tail hk hk₁, hrun, of_decide_eq_true hlast,
    (tick_accounting (.proc 0)).1 _ _ _ _ _ _ hk hfirst hk₁ hrun hno (of_decide_eq_true hlast),
    height⟩

end Sched

end Comp4511
