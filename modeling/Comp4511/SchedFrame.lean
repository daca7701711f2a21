import Mathlib.Tactic.SplitIfs
import Comp4511.SchedStep

/-!
# What the operations touch

Frame lemmas: which fields of a task and of the state each function of
`SchedTask` to `SchedCore` writes, and where a task ends up in the lists.
After these, no proof about runs looks inside an enqueue, a dequeue or a
preemption check again.

The task invariant `TaskOk` is here too, with one lemma per function that
writes a priority, a class or a slice.
-/

namespace Comp4511

namespace Sched

/-! ## Arithmetic of the priority levels -/

/-- The priorities of the class: `100..139`. -/
def TsRange (prio : Int) : Prop := 100 ≤ prio ∧ prio ≤ 139

theorem tsRange_cases {prio : Int} (h : TsRange prio) :
    prio.tdiv 10 = 10 ∨ prio.tdiv 10 = 11 ∨ prio.tdiv 10 = 12 ∨ prio.tdiv 10 = 13 := by
  obtain ⟨hlo, hhi⟩ := h
  rw [Int.tdiv_eq_ediv_of_nonneg (by omega)]
  omega

theorem wakeupPrio_range {prio : Int} (h : TsRange prio) :
    100 ≤ wakeupPrio prio ∧ wakeupPrio prio ≤ 109 := by
  obtain ⟨hlo, hhi⟩ := h
  -- the table has an entry for each of the forty priorities
  have htable : ∀ n : Fin 40, 100 ≤ wakeupPrio (100 + n) ∧ wakeupPrio (100 + n) ≤ 109 := by decide
  have hprio : prio = 100 + ((prio - 100).toNat : Int) := by omega
  rw [hprio]
  exact htable ⟨(prio - 100).toNat, by omega⟩

theorem expirePrio_eq (prio : Int) : expirePrio prio = min 139 (prio + 10) := by
  unfold expirePrio
  split_ifs <;> omega

theorem expirePrio_range {prio : Int} (h : TsRange prio) : TsRange (expirePrio prio) := by
  obtain ⟨hlo, hhi⟩ := h
  rw [expirePrio_eq]
  constructor <;> omega

/-- Inside the range `prioTimeslice` returns one of the four quanta. -/
theorem prioTimeslice_range {prio : Int} (h : TsRange prio) :
    ∃ q, prioTimeslice prio = some q ∧ 4 ≤ q ∧ q ≤ 16 := by
  unfold prioTimeslice
  rcases tsRange_cases h with h | h | h | h <;> rw [h] <;> exact ⟨_, rfl, by decide, by decide⟩

/-- `prioQueue` maps the range onto the forty lists. -/
theorem prioQueue_range {prio : Int} (h : TsRange prio) :
    0 ≤ prioQueue prio ∧ prioQueue prio ≤ 39 := by
  obtain ⟨hlo, hhi⟩ := h
  unfold prioQueue
  omega

/-! ## The task invariant -/

/-- What holds of every task of every class: the static priority is a
nice level, no priority is above 139, a task of the TS class has policy
`SCHED_TS` and a priority of the class, and the slice is `1..16`. -/
structure TaskOk (t : TaskStruct) : Prop where
  static : TsRange t.staticPrio
  normal_le : t.normalPrio ≤ 139
  prio_le : t.prio ≤ 139
  ts_ge : t.schedClass = .ts → 100 ≤ t.prio
  ts_policy : t.schedClass = .ts → t.policy = .ts
  slice_pos : 1 ≤ t.timeSlice.toNat
  slice_le : t.timeSlice.toNat ≤ 16

theorem TaskOk.tsRange {t : TaskStruct} (h : TaskOk t) (hts : t.schedClass = .ts) :
    TsRange t.prio := ⟨h.ts_ge hts, h.prio_le⟩

theorem niceToPrio_range {nice : Int} (h : minNice ≤ nice ∧ nice ≤ maxNice) :
    TsRange (niceToPrio nice) := by
  simp only [minNice, maxNice] at h
  simp only [TsRange, niceToPrio]
  omega

/-- The normal priority of a task whose policy is neither deadline nor RT. -/
theorem normalPrio_static {t : TaskStruct} (hdl : dlPolicy t.policy = false)
    (hrt : rtPolicy t.policy = false) : normalPrio t = t.staticPrio := by
  simp [normalPrio, hdl, hrt, normalPrioCore]

theorem normalPrio_le {t : TaskStruct} (h : TsRange t.staticPrio) :
    normalPrio t ≤ 139 := by
  obtain ⟨hlo, hhi⟩ := h
  simp only [normalPrio, normalPrioCore, maxDlPrio, maxRtPrio]
  split_ifs <;> omega

theorem rtEffectivePrio_le (donor : Option Int) (prio : Int) :
    rtEffectivePrio donor prio ≤ prio := by
  cases donor with
  | none => exact le_refl prio
  | some d => exact min_le_left prio d

theorem rtPrio_eq_false {prio : Int} : rtPrio prio = false ↔ 100 ≤ prio := by
  unfold rtPrio maxRtPrio
  rw [decide_eq_false_iff_not, Int.not_lt]

theorem dlPrio_eq_true {prio : Int} : dlPrio prio = true ↔ prio < 0 := by
  unfold dlPrio maxDlPrio
  rw [decide_eq_true_eq]

/-! ## Task functions -/

theorem taskOk_wakeupBoost {t : TaskStruct} (h : TaskOk t) (hts : t.schedClass = .ts)
    (flags : Nat) : TaskOk (wakeupBoost flags t) := by
  obtain ⟨hlo, hhi⟩ := wakeupPrio_range (h.tsRange hts)
  unfold wakeupBoost
  split
  · exact { h with prio_le := by simp only; omega, ts_ge := fun _ => hlo }
  · exact h

theorem setNice_prio {t : TaskStruct} (nice : Int) (hdl : dlPolicy t.policy = false)
    (hrt : rtPolicy t.policy = false) :
    (setNice t nice).prio = if rtPrio t.prio then t.prio else niceToPrio nice := by
  simp only [setNice, effectivePrio]
  rw [normalPrio_static (by simpa using hdl) (by simpa using hrt)]
  by_cases hprio : rtPrio t.prio = true <;> simp [hprio]

/-- Renicing writes the static, the normal and the dynamic priority. -/
theorem setNice_frame (t : TaskStruct) (nice : Int) :
    ∃ prio normal, setNice t nice =
      { t with staticPrio := niceToPrio nice, prio := prio, normalPrio := normal } := by
  simp only [setNice, effectivePrio]
  split_ifs <;> exact ⟨_, _, rfl⟩

theorem taskOk_setNice {t : TaskStruct} (h : TaskOk t) {nice : Int}
    (hdl : dlPolicy t.policy = false) (hrt : rtPolicy t.policy = false)
    (hnice : minNice ≤ nice ∧ nice ≤ maxNice) : TaskOk (setNice t nice) := by
  have hprio := setNice_prio nice hdl hrt
  have hrange := niceToPrio_range hnice
  have hnormal : (setNice t nice).normalPrio ≤ 139 := by
    simp only [setNice, effectivePrio]
    rw [normalPrio_static (by simpa using hdl) (by simpa using hrt)]
    split_ifs <;> exact hrange.2
  obtain ⟨prio, normal, heq⟩ := setNice_frame t nice
  rw [heq] at hprio hnormal ⊢
  simp only at hprio hnormal
  refine { h with static := hrange, normal_le := hnormal, prio_le := ?_, ts_ge := ?_ }
  · simp only [hprio]
    split_ifs
    · exact h.prio_le
    · exact hrange.2
  · intro hts
    simp only [hprio]
    split_ifs
    · exact h.ts_ge hts
    · exact hrange.1

theorem setschedulerParams_frame (t : TaskStruct) (attr : SchedAttr) :
    ∃ static normal, setschedulerParams t attr =
      { t with
        policy := attrPolicy t attr
        rtPriority := attr.schedPriority
        staticPrio := static
        normalPrio := normal } ∧
      (static = t.staticPrio ∨ static = niceToPrio attr.schedNice) := by
  simp only [setschedulerParams]
  split_ifs
  · exact ⟨_, _, rfl, Or.inr rfl⟩
  · exact ⟨_, _, rfl, Or.inl rfl⟩

theorem setschedulerParams_normal (t : TaskStruct) (attr : SchedAttr) :
    (setschedulerParams t attr).normalPrio = normalPrio (setschedulerParams t attr) := by
  simp only [setschedulerParams]
  split_ifs <;> rfl

/-- The class `__setscheduler` and `sched_fork` derive from the priority
and the policy. -/
def classOf (prio : Int) (policy : Policy) : SchedClass :=
  if dlPrio prio then .dl
  else if rtPrio prio then .rt
  else if tsPolicy policy then .ts
  else .fair

theorem classOf_ts {prio : Int} {policy : Policy} (h : classOf prio policy = .ts) :
    100 ≤ prio ∧ policy = .ts := by
  unfold classOf at h
  split_ifs at h with hdl hrt hts
  exact ⟨rtPrio_eq_false.mp (by simpa using hrt), by simpa [tsPolicy] using hts⟩

theorem classOf_ne_idle (prio : Int) (policy : Policy) : classOf prio policy ≠ .idle := by
  unfold classOf
  split_ifs <;> simp

/-- The chain of class assignments at the end of `__setscheduler`. -/
theorem setClass_eq (t : TaskStruct) :
    (if dlPrio t.prio then { t with schedClass := .dl }
      else if rtPrio t.prio then { t with schedClass := .rt }
      else if tsPolicy t.policy then { t with schedClass := .ts }
      else { t with schedClass := .fair })
      = { t with schedClass := classOf t.prio t.policy } := by
  unfold classOf
  split_ifs <;> rfl

/-- The priority `__setscheduler` settles on. -/
def setschedulerPrio (t : TaskStruct) (attr : SchedAttr) (donor : Option Int)
    (keepBoost : Bool) : Int :=
  let prio := normalPrio (setschedulerParams t attr)
  if keepBoost then rtEffectivePrio donor prio else prio

/-- `__setscheduler` is the parameters, the priority, and the class these
two determine. -/
theorem setscheduler_eq (t : TaskStruct) (attr : SchedAttr) (donor : Option Int)
    (keepBoost : Bool) :
    setscheduler t attr donor keepBoost =
      { setschedulerParams t attr with
        prio := setschedulerPrio t attr donor keepBoost
        schedClass := classOf (setschedulerPrio t attr donor keepBoost)
          (attrPolicy t attr) } := by
  have hpolicy : (setschedulerParams t attr).policy = attrPolicy t attr := by
    obtain ⟨static, normal, heq, -⟩ := setschedulerParams_frame t attr
    rw [heq]
  rw [← hpolicy]
  cases keepBoost with
  | true => exact setClass_eq { setschedulerParams t attr with prio := _ }
  | false => exact setClass_eq { setschedulerParams t attr with prio := _ }

theorem taskOk_setscheduler {t : TaskStruct} (h : TaskOk t) (attr : SchedAttr)
    (donor : Option Int) (keepBoost : Bool) :
    TaskOk (setscheduler t attr donor keepBoost) := by
  obtain ⟨static, normal, heq, hstatic⟩ := setschedulerParams_frame t attr
  have hrange : TsRange static := by
    rcases hstatic with rfl | rfl
    · exact h.static
    · exact niceToPrio_range attr.nice_mem
  have hnormal := setschedulerParams_normal t attr
  have hle : normalPrio (setschedulerParams t attr) ≤ 139 :=
    normalPrio_le (by rw [heq]; exact hrange)
  have hprio : setschedulerPrio t attr donor keepBoost ≤ 139 := by
    unfold setschedulerPrio
    cases keepBoost with
    | true => exact le_trans (rtEffectivePrio_le donor _) hle
    | false => exact hle
  rw [← hnormal] at hle
  rw [setscheduler_eq]
  rw [heq] at hle ⊢
  exact
    { static := hrange
      normal_le := hle
      prio_le := hprio
      ts_ge := fun hts => (classOf_ts hts).1
      ts_policy := fun hts => (classOf_ts hts).2
      slice_pos := h.slice_pos
      slice_le := h.slice_le }

/-- The class `rt_mutex_setprio` derives, from the priority alone. -/
def setprioClass (prio : Int) : SchedClass :=
  if dlPrio prio then .dl else if rtPrio prio then .rt else .fair

theorem setprioTask_eq (t : TaskStruct) (prio : Int) :
    setprioTask t prio = { t with prio := prio, schedClass := setprioClass prio } := by
  unfold setprioTask setprioClass
  split_ifs <;> rfl

theorem setprioClass_ne_ts (prio : Int) : setprioClass prio ≠ .ts := by
  unfold setprioClass
  split_ifs <;> simp

theorem setprioClass_ne_idle (prio : Int) : setprioClass prio ≠ .idle := by
  unfold setprioClass
  split_ifs <;> simp

theorem taskOk_setprioTask {t : TaskStruct} (h : TaskOk t) {prio : Int}
    (hprio : prio ≤ 139) : TaskOk (setprioTask t prio) := by
  rw [setprioTask_eq]
  exact { h with
    prio_le := hprio
    ts_ge := fun hts => absurd hts (setprioClass_ne_ts prio)
    ts_policy := fun hts => absurd hts (setprioClass_ne_ts prio) }

/-! ## Fork -/

/-- `__sched_fork` writes `on_rq` and the slice, which is the quantum of
the task's level where it has one. -/
theorem schedForkCore_frame (t : TaskStruct) :
    ∃ s, schedForkCore t = { t with onRq := .off, timeSlice := s } ∧
      ((∃ q, prioTimeslice t.prio = some q ∧ s.toNat = q)
        ∨ (prioTimeslice t.prio = none ∧ s = t.timeSlice)) := by
  simp only [schedForkCore, prioTimeslice]
  split
  · exact ⟨16, rfl, Or.inl ⟨16, by simp_all, rfl⟩⟩
  · exact ⟨12, rfl, Or.inl ⟨12, by simp_all, rfl⟩⟩
  · exact ⟨8, rfl, Or.inl ⟨8, by simp_all, rfl⟩⟩
  · exact ⟨4, rfl, Or.inl ⟨4, by simp_all, rfl⟩⟩
  · exact ⟨t.timeSlice, rfl, Or.inr ⟨by simp_all, rfl⟩⟩

theorem prioTimeslice_bounds {prio : Int} {q : Nat} (h : prioTimeslice prio = some q) :
    4 ≤ q ∧ q ≤ 16 := by
  unfold prioTimeslice at h
  split at h <;> cases h <;> exact ⟨by decide, by decide⟩

theorem schedFork_eq (current : TaskStruct) (cpu : Nat) :
    schedFork current cpu =
      if dlPrio (forkBase current).prio then none
      else some
        { forkBase current with
          schedClass := classOf (forkBase current).prio (forkBase current).policy
          cpu := cpu
          onCpu := false } := by
  simp only [schedFork]
  generalize forkBase current = t
  unfold classOf
  split_ifs <;> rfl

theorem resetOnFork_frame (t : TaskStruct) :
    ∃ policy static rt, resetOnFork t =
        { t with
          policy := policy
          staticPrio := static
          rtPriority := rt
          prio := static
          normalPrio := static
          schedResetOnFork := false } ∧
      (static = t.staticPrio ∨ static = 120) := by
  unfold resetOnFork
  by_cases hpolicy : dlPolicy t.policy = true ∨ rtPolicy t.policy = true
  · rw [if_pos hpolicy]
    exact ⟨_, _, _, rfl, Or.inr rfl⟩
  rw [if_neg hpolicy]
  by_cases hnice : prioToNice t.staticPrio < 0
  · rw [if_pos hnice]
    exact ⟨_, _, _, rfl, Or.inr rfl⟩
  · rw [if_neg hnice]
    exact ⟨_, _, _, rfl, Or.inl rfl⟩

/-- The child before its class is chosen is the parent's copy with the
slice of `__sched_fork` and the parent's normal priority, or that after
the reset. -/
theorem forkBase_cases (current : TaskStruct) :
    ∃ t, (t = { dupTask current with
          onRq := .off
          timeSlice := (schedForkCore (dupTask current)).timeSlice
          state := taskNew
          prio := current.normalPrio }) ∧
      (forkBase current = t ∨ forkBase current = resetOnFork t) := by
  obtain ⟨s, heq, -⟩ := schedForkCore_frame (dupTask current)
  refine ⟨_, rfl, ?_⟩
  unfold forkBase
  rw [heq]
  by_cases hreset : current.schedResetOnFork = true
  · exact Or.inr (if_pos hreset)
  · exact Or.inl (if_neg hreset)

theorem forkBase_onRq (current : TaskStruct) : (forkBase current).onRq = .off := by
  obtain ⟨t, rfl, hbase | hbase⟩ := forkBase_cases current
  · rw [hbase]
  · obtain ⟨policy, static, rt, heq, -⟩ := resetOnFork_frame _
    rw [hbase, heq]

theorem forkBase_timeSlice (current : TaskStruct) :
    (forkBase current).timeSlice = (schedForkCore (dupTask current)).timeSlice := by
  obtain ⟨t, rfl, hbase | hbase⟩ := forkBase_cases current
  · rw [hbase]
  · obtain ⟨policy, static, rt, heq, -⟩ := resetOnFork_frame _
    rw [hbase, heq]

/-- What `sched_fork` gives the child whatever its class. -/
theorem forkBase_frame (current : TaskStruct) (h : TaskOk current) :
    TsRange (forkBase current).staticPrio
      ∧ (forkBase current).normalPrio ≤ 139 ∧ (forkBase current).prio ≤ 139 := by
  obtain ⟨t, rfl, hbase | hbase⟩ := forkBase_cases current
  · rw [hbase]
    exact ⟨h.static, h.normal_le, h.normal_le⟩
  · obtain ⟨policy, static, rt, heq, hstatic⟩ := resetOnFork_frame _
    rw [hbase, heq]
    have hrange : TsRange static := by
      rcases hstatic with rfl | rfl
      · exact h.static
      · exact ⟨by decide, by decide⟩
    exact ⟨hrange, hrange.2, hrange.2⟩

theorem schedForkCore_slice {t : TaskStruct} (hlo : 1 ≤ t.timeSlice.toNat)
    (hhi : t.timeSlice.toNat ≤ 16) :
    1 ≤ (schedForkCore t).timeSlice.toNat ∧ (schedForkCore t).timeSlice.toNat ≤ 16 := by
  obtain ⟨s, heq, ⟨q, hq, hs⟩ | ⟨-, hs⟩⟩ := schedForkCore_frame t
  · have hbound := prioTimeslice_bounds hq
    rw [heq]
    simp only [hs]
    omega
  · rw [heq]
    simp only [hs]
    exact ⟨hlo, hhi⟩

theorem taskOk_schedFork {current t : TaskStruct} (h : TaskOk current) {cpu : Nat}
    (hfork : schedFork current cpu = some t) :
    TaskOk t ∧ t.schedClass = classOf t.prio t.policy := by
  obtain ⟨hstatic, hnormal, hprio⟩ := forkBase_frame current h
  have hslice := forkBase_timeSlice current
  have hs := schedForkCore_slice (t := dupTask current) h.slice_pos h.slice_le
  rw [schedFork_eq] at hfork
  split_ifs at hfork with hdl
  obtain rfl := Option.some.inj hfork
  refine ⟨?_, rfl⟩
  exact
    { static := hstatic
      normal_le := hnormal
      prio_le := hprio
      ts_ge := fun hts => (classOf_ts hts).1
      ts_policy := fun hts => (classOf_ts hts).2
      slice_pos := by simpa only [hslice] using hs.1
      slice_le := by simpa only [hslice] using hs.2 }

/-- Where the child of `sched_fork` is: on no runqueue. -/
theorem schedFork_place {current t : TaskStruct} {cpu : Nat}
    (hfork : schedFork current cpu = some t) :
    t.onRq = .off ∧ t.cpu = cpu ∧ t.onCpu = false ∧ t.schedClass ≠ .idle := by
  rw [schedFork_eq] at hfork
  split_ifs at hfork with hdl
  obtain rfl := Option.some.inj hfork
  refine ⟨?_, rfl, rfl, classOf_ne_idle _ _⟩
  exact forkBase_onRq current

end Sched

end Comp4511
