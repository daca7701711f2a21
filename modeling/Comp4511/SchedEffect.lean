import Comp4511.SchedQueue

/-!
# What one step does to a task

The scheduling parameters of a task are its priorities, its class, its
policy and its slice. `step_task` lists everything one step can do to
them (`TaskStep`); every invariant of the parameters is then a case
analysis over that list, and none looks at a function of the scheduler
again. `step_live` says where new tasks come from.

The equations of the composite functions that this needs
(`saveRestore_task`, `taskTickTs_eq`, `schedSetscheduler_ok`, ...) are
used for the representation invariant as well.
-/

namespace Comp4511

namespace Sched

/-! ## Parameters -/

/-- The two tasks have the same scheduling parameters. -/
structure SameParams (t t' : TaskStruct) : Prop where
  prio : t'.prio = t.prio
  schedClass : t'.schedClass = t.schedClass
  policy : t'.policy = t.policy
  timeSlice : t'.timeSlice = t.timeSlice
  staticPrio : t'.staticPrio = t.staticPrio
  normalPrio : t'.normalPrio = t.normalPrio

theorem SameParams.refl (t : TaskStruct) : SameParams t t := ⟨rfl, rfl, rfl, rfl, rfl, rfl⟩

theorem SameParams.trans {t t' t'' : TaskStruct} (h : SameParams t t')
    (h' : SameParams t' t'') : SameParams t t'' :=
  ⟨h'.prio.trans h.prio, h'.schedClass.trans h.schedClass, h'.policy.trans h.policy,
    h'.timeSlice.trans h.timeSlice, h'.staticPrio.trans h.staticPrio,
    h'.normalPrio.trans h.normalPrio⟩

/-- The tasks of `k` have the parameters `ts` gives. -/
def HasParams (ts : Pid → TaskStruct) (k : Kernel) : Prop :=
  ∀ q, SameParams (ts q) (k.task q)

theorem HasParams.of_eq {ts : Pid → TaskStruct} {k : Kernel} (h : k.task = ts) :
    HasParams ts k := fun q => by rw [h]; exact SameParams.refl _

/-- A write that leaves the parameters alone. -/
theorem HasParams.mod {ts : Pid → TaskStruct} {k : Kernel} (h : HasParams ts k) (p : Pid)
    {f : TaskStruct → TaskStruct} (hf : SameParams (k.task p) (f (k.task p))) :
    HasParams ts (k.mod p f) := by
  intro q
  by_cases hq : q = p
  · subst hq
    rw [mod_task, Function.update_self]
    exact (h q).trans hf
  · rw [mod_task, Function.update_of_ne hq]
    exact h q

theorem HasParams.reschedCurr {ts : Pid → TaskStruct} {k : Kernel} (h : HasParams ts k)
    (cpu : Nat) : HasParams ts (reschedCurr k cpu) :=
  h.mod _ ⟨rfl, rfl, rfl, rfl, rfl, rfl⟩

theorem HasParams.checkPreemptCurr {ts : Pid → TaskStruct} {k : Kernel}
    (h : HasParams ts k) (cpu : Nat) (p : Pid) (hook : Bool) :
    HasParams ts (checkPreemptCurr k cpu p hook) := by
  rcases checkPreemptCurr_cases k cpu p hook with heq | heq <;> rw [heq]
  · exact h
  · exact h.reschedCurr cpu

theorem HasParams.checkClassChanged {ts : Pid → TaskStruct} {k : Kernel}
    (h : HasParams ts k) (cpu : Nat) (p : Pid) (c : SchedClass) (oldprio : Int)
    (hook : Bool) : HasParams ts (checkClassChanged k cpu p c oldprio hook) := by
  rcases checkClassChanged_cases k cpu p c oldprio hook with heq | heq <;> rw [heq]
  · exact h
  · exact h.reschedCurr cpu

/-! ## Save and restore -/

theorem mod_task_self (k : Kernel) (p : Pid) (f : TaskStruct → TaskStruct) :
    (k.mod p f).task p = f (k.task p) := Function.update_self ..

/-- Without the wakeup flag the bracket writes nothing of its own to the
tasks. -/
theorem saveRestore_task (k : Kernel) (p : Pid) (deqFlags : Nat)
    (f : TaskStruct → TaskStruct) {enqFlags : Nat}
    (henq : enqFlags &&& enqueueWakeup = 0) :
    (saveRestore k p deqFlags f enqFlags).task =
      Function.update k.task p (f (k.task p)) := by
  simp only [saveRestore, putPrevTask, setCurrTask, ite_self]
  split_ifs
  · rw [enqueueTask_task, enqueuedTask_of_no_wakeup henq, mod_task, dequeueTask_task,
      Function.update_self, Function.update_idem]
  · rfl

theorem saveRestore_frame (k : Kernel) (p : Pid) (deqFlags : Nat)
    (f : TaskStruct → TaskStruct) (enqFlags : Nat) :
    Frame k (saveRestore k p deqFlags f enqFlags) := by
  simp only [saveRestore, putPrevTask, setCurrTask, ite_self]
  split_ifs
  · exact (dequeueTask_frame ..).trans ((Frame.mod ..).trans (enqueueTask_frame ..))
  · exact Frame.mod ..

theorem restore_no_wakeup : (enqueueRestore ||| enqueueNoclock) &&& enqueueWakeup = 0 := by
  decide

theorem setschedulerFlags_no_wakeup (k : Kernel) (p : Pid) (attr : SchedAttr) (pi : Bool)
    (c : Prop) [Decidable c] :
    (setschedulerFlags k p attr pi ||| if c then enqueueHead else 0) &&& enqueueWakeup
      = 0 := by
  simp only [setschedulerFlags]
  split_ifs <;> decide

/-! ## The policy change -/

/-- What the policy change writes to the task. -/
def policyTask (k : Kernel) (p : Pid) (attr : SchedAttr) (resetOnFork pi : Bool) :
    TaskStruct :=
  setscheduler { k.task p with schedResetOnFork := resetOnFork } attr (donorPrio k p) pi

/-- The state in which `__sched_setscheduler` has stored the new policy. -/
def policyKernel (k : Kernel) (p : Pid) (attr : SchedAttr) (resetOnFork pi : Bool) :
    Kernel :=
  let flags := setschedulerFlags k p attr pi
  let head := if (k.task p).prio < (policyTask k p attr resetOnFork pi).prio then enqueueHead
    else 0
  saveRestore k p flags
    (fun t => setscheduler { t with schedResetOnFork := resetOnFork } attr (donorPrio k p) pi)
    (flags ||| head)

theorem changePolicy_eq (k : Kernel) (p : Pid) (attr : SchedAttr)
    (resetOnFork pi hook : Bool) :
    changePolicy k p attr resetOnFork pi hook =
      checkClassChanged (policyKernel k p attr resetOnFork pi) (k.task p).cpu p
        (k.task p).schedClass (k.task p).prio hook := rfl

theorem policyKernel_task (k : Kernel) (p : Pid) (attr : SchedAttr) (resetOnFork pi : Bool) :
    (policyKernel k p attr resetOnFork pi).task =
      Function.update k.task p (policyTask k p attr resetOnFork pi) :=
  saveRestore_task k p _ _ (setschedulerFlags_no_wakeup ..)

theorem changePolicy_params (k : Kernel) (p : Pid) (attr : SchedAttr)
    (resetOnFork pi hook : Bool) :
    HasParams (Function.update k.task p (policyTask k p attr resetOnFork pi))
      (changePolicy k p attr resetOnFork pi hook) := by
  rw [changePolicy_eq]
  exact (HasParams.of_eq (policyKernel_task ..)).checkClassChanged _ p _ _ hook

theorem changePolicy_frame (k : Kernel) (p : Pid) (attr : SchedAttr)
    (resetOnFork pi hook : Bool) : Frame k (changePolicy k p attr resetOnFork pi hook) := by
  rw [changePolicy_eq]
  exact Frame.trans (saveRestore_frame ..) (checkClassChanged_frame ..)

/-- A computation that returns has returned at every step. -/
theorem bind_eq_ok {α β : Type} {x : Except Errno α} {f : α → Except Errno β} {b : β}
    (h : (x >>= f) = .ok b) : ∃ a, x = .ok a ∧ f a = .ok b := by
  cases x with
  | error e => cases h
  | ok a => exact ⟨a, rfl, h⟩

theorem requestedPolicy_ok {t : TaskStruct} {attr : SchedAttr} {r : Policy × Bool}
    (h : requestedPolicy t attr = .ok r) : r.1 = attrPolicy t attr := by
  unfold requestedPolicy at h
  unfold attrPolicy
  cases hattr : attr.schedPolicy with
  | none =>
      rw [hattr] at h
      obtain rfl := Except.ok.inj h
      rfl
  | some n =>
      rw [hattr] at h
      cases hn : Policy.ofNat? n with
      | none => simp [hn] at h
      | some policy =>
          simp only [hn, Except.ok.injEq] at h
          simp [← h, hn]

/-- The checks succeed with the policy the request names. -/
theorem setschedulerChecks_ok {t : TaskStruct} {attr : SchedAttr} {user : Bool}
    {env : SchedEnv} {r : Policy × Bool}
    (h : setschedulerChecks t attr user env = .ok r) : r.1 = attrPolicy t attr := by
  unfold setschedulerChecks at h
  obtain ⟨⟨policy, resetOnFork⟩, hpol, h⟩ := bind_eq_ok h
  obtain ⟨-, -, h⟩ := bind_eq_ok h
  obtain ⟨-, -, h⟩ := bind_eq_ok h
  obtain ⟨-, -, h⟩ := bind_eq_ok h
  obtain ⟨-, -, h⟩ := bind_eq_ok h
  obtain ⟨-, -, h⟩ := bind_eq_ok h
  obtain ⟨-, -, h⟩ := bind_eq_ok h
  obtain rfl := Except.ok.inj h
  exact requestedPolicy_ok hpol

/-- A call of `__sched_setscheduler` that succeeds either finds nothing to
change but the reset flag, or changes the policy. -/
theorem schedSetscheduler_ok {k k' : Kernel} {p : Pid} {attr : SchedAttr}
    {user pi : Bool} {env : SchedEnv} {hook : Bool}
    (h : schedSetscheduler k p attr user pi env hook = .ok k') :
    ∃ resetOnFork,
      (unchangedParams (k.task p) attr (attrPolicy (k.task p) attr) env = true
        ∧ k' = k.mod p fun t => { t with schedResetOnFork := resetOnFork })
      ∨ (unchangedParams (k.task p) attr (attrPolicy (k.task p) attr) env = false
        ∧ k' = changePolicy k p attr resetOnFork pi hook) := by
  unfold schedSetscheduler at h
  obtain ⟨⟨policy, resetOnFork⟩, hchecks, h⟩ := bind_eq_ok h
  obtain ⟨-, -, h⟩ := bind_eq_ok h
  have hpol : policy = attrPolicy (k.task p) attr := setschedulerChecks_ok hchecks
  subst hpol
  refine ⟨resetOnFork, ?_⟩
  split_ifs at h with hsame
  · exact Or.inl ⟨hsame, (Except.ok.inj h).symm⟩
  · obtain ⟨-, -, h⟩ := bind_eq_ok h
    obtain ⟨-, -, h⟩ := bind_eq_ok h
    obtain ⟨-, -, h⟩ := bind_eq_ok h
    exact Or.inr ⟨by simpa using hsame, (Except.ok.inj h).symm⟩

/-! ## Ticks -/

/-- What a tick that uses up the slice writes to the task. -/
def expireTask (junk : Nat) (t : TaskStruct) : TaskStruct :=
  { t with
    prio := expirePrio t.prio
    timeSlice := UInt32.ofNat ((prioTimeslice (expirePrio t.prio)).getD junk) }

/-- A tick that uses up the slice: the two lines, the new priority and
slice, the move to the tail, the flag. -/
def expireTick (k : Kernel) (cpu : Nat) (p : Pid) (junk : Nat) : Kernel :=
  let t := k.task p
  let k := (k.printk (.tick p t.timeSlice t.prio)).printk (.expire p (expirePrio t.prio))
  let k := k.mod p (expireTask junk)
  let k := k.modRq cpu fun rq => listMoveTail rq p (prioQueue (expirePrio t.prio))
  k.mod p setTskNeedResched

theorem taskTickTs_eq (k : Kernel) (cpu : Nat) (p : Pid) (junk : Nat) :
    taskTickTs k cpu p junk =
      if (k.task p).policy ≠ .ts then k
      else if (k.task p).timeSlice - 1 ≠ 0 then
        (k.printk (.tick p (k.task p).timeSlice (k.task p).prio)).mod p
          fun t => { t with timeSlice := t.timeSlice - 1 }
      else expireTick k cpu p junk := by
  simp only [taskTickTs, expireTick, Kernel.printk, Kernel.mod, Kernel.modRq,
    Function.update_self, Function.update_idem]
  rfl

/-- The step is a tick that `task_tick_ts` charges to `p`. -/
def Charged (k : Kernel) (p : Pid) : Op → Prop
  | .schedulerTick cpu _ _ =>
      (k.rq cpu).curr = p ∧ (k.task p).schedClass = .ts ∧ (k.task p).policy = .ts
  | _ => False

instance (k : Kernel) (p : Pid) : DecidablePred (Charged k p)
  | .schedulerTick .. => inferInstanceAs (Decidable (_ ∧ _ ∧ _))
  | .schedFork .. | .wakeUpNewTask .. | .tryToWakeUp .. | .setCurrentState .. | .schedule ..
  | .schedYield .. | .setUserNice .. | .schedSetscheduler .. | .rtMutexSetprio ..
  | .doSetCpusAllowed .. | .moveQueuedTask .. | .schedSetStopTask .. => isFalse id

/-! ## Wakeups -/

/-- The step enqueues `p` with `ENQUEUE_WAKEUP`. -/
def Wakes (k : Kernel) (p : Pid) : Op → Prop
  | .tryToWakeUp q state _ _ =>
      q = p ∧ (k.task p).state &&& state ≠ 0 ∧ taskOnRqQueued (k.task p) = false
  | .schedule cpu preempt signalPending wake _ _ =>
      wake = some p ∧ preempt = false ∧ signalPending = false
        ∧ (k.task (k.rq cpu).curr).state ≠ taskRunning
        ∧ (k.task p).cpu = cpu ∧ p ≠ (k.rq cpu).curr
        ∧ (k.task p).state &&& taskNormal ≠ 0 ∧ taskOnRqQueued (k.task p) = false
  | _ => False

instance (k : Kernel) (p : Pid) : DecidablePred (Wakes k p)
  | .tryToWakeUp .. => inferInstanceAs (Decidable (_ ∧ _ ∧ _))
  | .schedule .. => inferInstanceAs (Decidable (_ ∧ _ ∧ _ ∧ _ ∧ _ ∧ _ ∧ _ ∧ _))
  | .schedFork .. | .wakeUpNewTask .. | .setCurrentState .. | .schedulerTick .. | .schedYield ..
  | .setUserNice .. | .schedSetscheduler .. | .rtMutexSetprio .. | .doSetCpusAllowed ..
  | .moveQueuedTask .. | .schedSetStopTask .. => isFalse id

/-- What such a step writes to the parameters. -/
def wokenTask (t : TaskStruct) : TaskStruct :=
  if t.schedClass = .ts then { t with prio := wakeupPrio t.prio } else t

theorem enqueuedTask_of_wakeup {flags : Nat} (h : flags &&& enqueueWakeup ≠ 0)
    (t : TaskStruct) : enqueuedTask flags t = wokenTask t := by
  simp [enqueuedTask, wakeupBoost, wokenTask, h]

theorem ttwuActivate_task (k : Kernel) (cpu : Nat) (p : Pid) (flags : Nat) :
    (ttwuActivate k cpu p flags).task =
      Function.update k.task p { enqueuedTask flags (k.task p) with onRq := .queued } := by
  rw [ttwuActivate, mod_task, enqueueTask_task, Function.update_self, Function.update_idem]

theorem SameParams.wokenTask {t t' : TaskStruct} (h : SameParams t t') :
    SameParams (wokenTask t) (wokenTask t') := by
  unfold Sched.wokenTask
  by_cases hts : t.schedClass = .ts
  · rw [if_pos hts, if_pos (h.schedClass.trans hts)]
    exact ⟨congrArg wakeupPrio h.prio, h.schedClass, h.policy, h.timeSlice, h.staticPrio,
      h.normalPrio⟩
  · rw [if_neg hts, if_neg (by rwa [h.schedClass])]
    exact h

theorem ttwuActivate_params {k : Kernel} {ts : Pid → TaskStruct} (h : HasParams ts k)
    (cpu : Nat) (p : Pid) {flags : Nat} (hflags : flags &&& enqueueWakeup ≠ 0) :
    HasParams (Function.update ts p (wokenTask (ts p))) (ttwuActivate k cpu p flags) := by
  intro q
  rw [ttwuActivate_task, enqueuedTask_of_wakeup hflags]
  by_cases hq : q = p
  · subst hq
    simp only [Function.update_self]
    exact (h q).wokenTask.trans ⟨rfl, rfl, rfl, rfl, rfl, rfl⟩
  · simp only [Function.update_of_ne hq]
    exact h q

theorem ttwuDoWakeup_params {k : Kernel} {ts : Pid → TaskStruct} (h : HasParams ts k)
    (cpu : Nat) (p : Pid) (hook : Bool) : HasParams ts (ttwuDoWakeup k cpu p hook) :=
  (h.checkPreemptCurr cpu p hook).mod p (f := fun t => { t with state := taskRunning })
    ⟨rfl, rfl, rfl, rfl, rfl, rfl⟩

theorem ttwuActivate_frame (k : Kernel) (cpu : Nat) (p : Pid) (flags : Nat) :
    Frame k (ttwuActivate k cpu p flags) := by
  simp only [ttwuActivate]
  exact (enqueueTask_frame k cpu p flags).trans (Frame.mod ..)

theorem ttwuDoWakeup_frame (k : Kernel) (cpu : Nat) (p : Pid) (hook : Bool) :
    Frame k (ttwuDoWakeup k cpu p hook) := by
  simp only [ttwuDoWakeup]
  exact (checkPreemptCurr_frame k cpu p hook).trans (Frame.mod ..)

theorem wakeUpNewTask_frame (k : Kernel) (p : Pid) (dest : Nat) (hook : Bool) :
    Frame k (wakeUpNewTask k p dest hook) :=
  (Frame.mod k p _).trans ((ttwuActivate_frame _ dest p enqueueNoclock).trans
    (checkPreemptCurr_frame ..))

/-- The three ways through `try_to_wake_up`. -/
theorem tryToWakeUp_cases (k : Kernel) (p : Pid) (state dest : Nat) (hook : Bool) :
    tryToWakeUp k p state dest hook = k ∨
      tryToWakeUp k p state dest hook = ttwuDoWakeup k (k.task p).cpu p hook ∨
      (k.task p).state &&& state ≠ 0 ∧ (k.task p).onRq ≠ .queued ∧
        tryToWakeUp k p state dest hook =
          ttwuDoWakeup (ttwuActivate (k.mod p fun t => { t with cpu := dest }) dest p
            (enqueueWakeup ||| enqueueNoclock
              ||| if (k.task p).cpu = dest then 0 else enqueueMigrated)) dest p hook := by
  simp only [tryToWakeUp]
  by_cases hstate : (k.task p).state &&& state = 0
  · exact Or.inl (if_pos hstate)
  rw [if_neg hstate]
  by_cases hq : (k.task p).onRq = .queued
  · exact Or.inr (Or.inl (if_pos (by simpa [taskOnRqQueued] using hq)))
  · exact Or.inr (Or.inr ⟨hstate, hq, if_neg (by simpa [taskOnRqQueued] using hq)⟩)

theorem tryToWakeUp_frame (k : Kernel) (p : Pid) (state dest : Nat) (hook : Bool) :
    Frame k (tryToWakeUp k p state dest hook) := by
  rcases tryToWakeUp_cases k p state dest hook with heq | heq | ⟨-, -, heq⟩ <;> rw [heq]
  · exact Frame.refl k
  · exact ttwuDoWakeup_frame ..
  · exact (Frame.mod ..).trans ((ttwuActivate_frame ..).trans (ttwuDoWakeup_frame ..))

theorem wakeUpNewTask_params (k : Kernel) (p : Pid) (dest : Nat) (hook : Bool) :
    HasParams k.task (wakeUpNewTask k p dest hook) := by
  have hmod : HasParams k.task
      (k.mod p fun t => { t with state := taskRunning, cpu := dest }) :=
    (HasParams.of_eq rfl).mod p ⟨rfl, rfl, rfl, rfl, rfl, rfl⟩
  have henq : HasParams k.task (enqueueTask
      (k.mod p fun t => { t with state := taskRunning, cpu := dest }) dest p
      enqueueNoclock) := by
    intro q
    rw [enqueueTask_task, enqueuedTask_of_no_wakeup (by decide), Function.update_eq_self]
    exact hmod q
  exact (henq.mod p (f := fun t => { t with onRq := .queued })
    ⟨rfl, rfl, rfl, rfl, rfl, rfl⟩).checkPreemptCurr dest p hook

theorem tryToWakeUp_params (k : Kernel) (p : Pid) (state dest : Nat) (hook : Bool) :
    HasParams k.task (tryToWakeUp k p state dest hook) ∨
      (Wakes k p (.tryToWakeUp p state dest hook) ∧
        HasParams (Function.update k.task p (wokenTask (k.task p)))
          (tryToWakeUp k p state dest hook)) := by
  have hsame : HasParams k.task k := HasParams.of_eq rfl
  rcases tryToWakeUp_cases k p state dest hook with heq | heq | ⟨hstate, hq, heq⟩ <;>
    rw [heq]
  · exact Or.inl hsame
  · exact Or.inl (ttwuDoWakeup_params hsame _ p hook)
  · refine Or.inr ⟨⟨rfl, hstate, by simpa [taskOnRqQueued] using hq⟩, ?_⟩
    refine ttwuDoWakeup_params (ttwuActivate_params ?_ dest p ?_) dest p hook
    · exact hsame.mod p ⟨rfl, rfl, rfl, rfl, rfl, rfl⟩
    · split_ifs <;> decide

/-! ## `__schedule` -/

/-- The idle thread and the queued tasks are the only candidates, and
picking changes nothing. -/
theorem classPickNextTask_kernel (picks : SchedClass → ClassPick) (k : Kernel) (cpu : Nat)
    (prev : Pid) (c : SchedClass) : (classPickNextTask picks k cpu prev c).2 = k := by
  cases c <;> simp only [classPickNextTask, putPrevTask]
  simp only [pickNextTaskTs, putPrevTask]
  split_ifs <;> rfl

section Pick

variable {picks : SchedClass → ClassPick} {k : Kernel} {cpu : Nat} {prev p : Pid}
  {c : SchedClass} {cs : List SchedClass}

theorem pickLoop_skip (h : (classPickNextTask picks k cpu prev c).1 = none) :
    pickLoop picks k cpu prev (c :: cs) = pickLoop picks k cpu prev cs := by
  have hk := classPickNextTask_kernel picks k cpu prev c
  have hpair : classPickNextTask picks k cpu prev c = (none, k) := Prod.ext h hk
  rw [pickLoop, hpair]

theorem pickLoop_take (h : (classPickNextTask picks k cpu prev c).1 = some p) :
    pickLoop picks k cpu prev (c :: cs) = (some p, k) := by
  have hk := classPickNextTask_kernel picks k cpu prev c
  have hpair : classPickNextTask picks k cpu prev c = (some p, k) := Prod.ext h hk
  rw [pickLoop, hpair]

theorem pickLoop_kernel (picks : SchedClass → ClassPick) (k : Kernel) (cpu : Nat)
    (prev : Pid) (cs : List SchedClass) : (pickLoop picks k cpu prev cs).2 = k := by
  induction cs with
  | nil => rfl
  | cons c cs ih =>
      cases hc : (classPickNextTask picks k cpu prev c).1 with
      | some p => rw [pickLoop_take hc]
      | none =>
          rw [pickLoop_skip hc]
          exact ih

/-- The loop returns what one of its classes picks. -/
theorem pickLoop_from (h : (pickLoop picks k cpu prev cs).1 = some p) :
    ∃ c ∈ cs, (classPickNextTask picks k cpu prev c).1 = some p := by
  induction cs with
  | nil => cases h
  | cons c cs ih =>
      cases hc : (classPickNextTask picks k cpu prev c).1 with
      | some q =>
          rw [pickLoop_take hc] at h
          exact ⟨c, List.mem_cons_self .., hc.trans h⟩
      | none =>
          rw [pickLoop_skip hc] at h
          obtain ⟨c', hmem, hc'⟩ := ih h
          exact ⟨c', List.mem_cons_of_mem _ hmem, hc'⟩

/-- The shortcut is the loop from the fair class on. -/
theorem pickNextTask_eq (picks : SchedClass → ClassPick) (k : Kernel) (cpu : Nat)
    (prev : Pid) : pickNextTask picks k cpu prev =
      pickLoop picks k cpu prev
        (if fairShortcut k cpu prev then [.fair, .idle] else forEachClass) := by
  have hk := classPickNextTask_kernel picks k cpu prev .fair
  unfold pickNextTask
  by_cases hs : fairShortcut k cpu prev = true
  · rw [if_pos hs, if_pos hs]
    cases hfair : (classPickNextTask picks k cpu prev .fair).1 with
    | none =>
        have hpair : classPickNextTask picks k cpu prev .fair = (none, k) := Prod.ext hfair hk
        rw [hpair, pickLoop_skip hfair]
        rfl
    | some p =>
        have hpair : classPickNextTask picks k cpu prev .fair = (some p, k) := Prod.ext hfair hk
        rw [hpair, pickLoop_take hfair]
  · rw [if_neg hs, if_neg hs]

theorem pickNextTask_kernel (picks : SchedClass → ClassPick) (k : Kernel) (cpu : Nat)
    (prev : Pid) : (pickNextTask picks k cpu prev).2 = k := by
  rw [pickNextTask_eq]
  exact pickLoop_kernel picks k cpu prev _

end Pick

/-- `__schedule` is the block, the pick and the switch. -/
theorem schedule_eq_some {picks : SchedClass → ClassPick} {k k' : Kernel} {cpu : Nat}
    {preempt signalPending : Bool} {wake : Option Pid} {hook : Bool}
    (h : schedule picks k cpu preempt signalPending wake hook = some k') :
    ∃ next, (pickNextTask picks (schedBlock k cpu preempt signalPending wake hook) cpu
          (k.rq cpu).curr).1 = some next
      ∧ k' = schedSwitch (schedBlock k cpu preempt signalPending wake hook) cpu next := by
  have hk := pickNextTask_kernel picks (schedBlock k cpu preempt signalPending wake hook) cpu
    (k.rq cpu).curr
  simp only [schedule] at h
  split at h
  · rename_i next k₁ heq
    rw [heq] at hk ⊢
    obtain rfl : k₁ = _ := hk
    exact ⟨next, rfl, (Option.some.inj h).symm⟩
  · cases h

theorem tryToWakeUpLocal_params {k : Kernel} {ts : Pid → TaskStruct} (h : HasParams ts k)
    (cpu : Nat) (p : Pid) (hook : Bool) :
    HasParams ts (tryToWakeUpLocal k cpu p hook) ∨
      ((k.task p).cpu = cpu ∧ p ≠ (k.rq cpu).curr ∧ (k.task p).state &&& taskNormal ≠ 0
        ∧ taskOnRqQueued (k.task p) = false
        ∧ HasParams (Function.update ts p (wokenTask (ts p)))
          (tryToWakeUpLocal k cpu p hook)) := by
  simp only [tryToWakeUpLocal]
  split_ifs with hplace hstate hq
  · exact Or.inl h
  · exact Or.inl h
  · exact Or.inl (ttwuDoWakeup_params h cpu p hook)
  · obtain ⟨hcpu, hcurr⟩ := not_or.mp hplace
    refine Or.inr ⟨not_not.mp hcpu, hcurr, hstate, by simpa using hq, ?_⟩
    exact ttwuDoWakeup_params (ttwuActivate_params h cpu p (by decide)) cpu p hook

theorem tryToWakeUpLocal_frame (k : Kernel) (cpu : Nat) (p : Pid) (hook : Bool) :
    Frame k (tryToWakeUpLocal k cpu p hook) := by
  simp only [tryToWakeUpLocal]
  split_ifs
  · exact Frame.refl k
  · exact Frame.refl k
  · exact ttwuDoWakeup_frame ..
  · exact (ttwuActivate_frame ..).trans (ttwuDoWakeup_frame ..)

/-- The state between the dequeue of a blocking task and the wakeup of the
worker. -/
def blockedKernel (k : Kernel) (cpu : Nat) : Kernel :=
  (dequeueTask k cpu (k.rq cpu).curr (dequeueSleep ||| dequeueNoclock)).mod (k.rq cpu).curr
    fun t => { t with onRq := .off }

theorem blockedKernel_task (k : Kernel) (cpu : Nat) :
    (blockedKernel k cpu).task = Function.update k.task (k.rq cpu).curr
      { k.task (k.rq cpu).curr with onRq := .off } := by
  rw [blockedKernel, mod_task, dequeueTask_task]

theorem blockedKernel_frame (k : Kernel) (cpu : Nat) : Frame k (blockedKernel k cpu) :=
  (dequeueTask_frame ..).trans (Frame.mod ..)

/-- What the first half of `__schedule` can do. -/
theorem schedBlock_cases (k : Kernel) (cpu : Nat) (preempt signalPending : Bool)
    (wake : Option Pid) (hook : Bool) :
    schedBlock k cpu preempt signalPending wake hook = k
    ∨ schedBlock k cpu preempt signalPending wake hook =
        k.mod (k.rq cpu).curr (fun t => { t with state := taskRunning })
    ∨ (preempt = false ∧ signalPending = false
        ∧ (k.task (k.rq cpu).curr).state ≠ taskRunning
        ∧ schedBlock k cpu preempt signalPending wake hook =
          match wake with
          | some w => tryToWakeUpLocal (blockedKernel k cpu) cpu w hook
          | none => blockedKernel k cpu) := by
  simp only [schedBlock]
  split_ifs with hblock hsig
  · exact Or.inr (Or.inl rfl)
  · exact Or.inr (Or.inr ⟨by simpa using hblock.1, by simpa using hsig, hblock.2, rfl⟩)
  · exact Or.inl rfl

theorem schedBlock_frame (k : Kernel) (cpu : Nat) (preempt signalPending : Bool)
    (wake : Option Pid) (hook : Bool) :
    Frame k (schedBlock k cpu preempt signalPending wake hook) := by
  rcases schedBlock_cases k cpu preempt signalPending wake hook with
    heq | heq | ⟨-, -, -, heq⟩ <;> rw [heq]
  · exact Frame.refl k
  · exact Frame.mod ..
  · refine (blockedKernel_frame k cpu).trans ?_
    cases wake with
    | none => exact Frame.refl _
    | some w => exact tryToWakeUpLocal_frame _ cpu w hook

theorem schedBlock_params (k : Kernel) (cpu : Nat) (preempt signalPending : Bool)
    (wake : Option Pid) (hook : Bool) (picks : SchedClass → ClassPick) :
    HasParams k.task (schedBlock k cpu preempt signalPending wake hook) ∨
      ∃ w, Wakes k w (.schedule cpu preempt signalPending wake hook picks) ∧
        HasParams (Function.update k.task w (wokenTask (k.task w)))
          (schedBlock k cpu preempt signalPending wake hook) := by
  rcases schedBlock_cases k cpu preempt signalPending wake hook with
    heq | heq | ⟨hpre, hsig, hstate, heq⟩
  · exact Or.inl (HasParams.of_eq (by rw [heq]))
  · rw [heq]
    exact Or.inl ((HasParams.of_eq rfl).mod _ ⟨rfl, rfl, rfl, rfl, rfl, rfl⟩)
  · have hblocked : HasParams k.task (blockedKernel k cpu) := by
      intro q
      rw [blockedKernel_task]
      by_cases hq : q = (k.rq cpu).curr
      · subst hq
        rw [Function.update_self]
        exact ⟨rfl, rfl, rfl, rfl, rfl, rfl⟩
      · rw [Function.update_of_ne hq]
        exact SameParams.refl _
    rw [heq]
    cases wake with
    | none => exact Or.inl hblocked
    | some w =>
        rcases tryToWakeUpLocal_params hblocked cpu w hook with
          hsame | ⟨hcpu, hcurr, hnormal, hq, hwoken⟩
        · exact Or.inl hsame
        · rw [(blockedKernel_frame k cpu).curr] at hcurr
          rw [blockedKernel_task, Function.update_of_ne hcurr] at hcpu hnormal hq
          exact Or.inr ⟨w, ⟨rfl, hpre, hsig, hstate, hcpu, hcurr, hnormal, hq⟩, hwoken⟩

theorem schedSwitch_params {k : Kernel} {ts : Pid → TaskStruct} (h : HasParams ts k)
    (cpu : Nat) (next : Pid) : HasParams ts (schedSwitch k cpu next) := by
  have hclear := h.mod (k.rq cpu).curr (f := clearTskNeedResched)
    ⟨rfl, rfl, rfl, rfl, rfl, rfl⟩
  simp only [schedSwitch]
  split_ifs
  · refine HasParams.mod (HasParams.mod (k := Kernel.modRq _ _ _) ?_ next ?_) _ ?_
    · exact hclear
    · exact ⟨rfl, rfl, rfl, rfl, rfl, rfl⟩
    · exact ⟨rfl, rfl, rfl, rfl, rfl, rfl⟩
  · exact hclear

theorem schedSwitch_procs (k : Kernel) (cpu : Nat) (next : Pid) :
    (schedSwitch k cpu next).procs = k.procs := by
  simp only [schedSwitch]
  split_ifs <;> rfl

/-! ## Renicing and priority inheritance -/

/-- `set_user_nice` acts: the value is new and legal, and the policy is one
whose priority depends on it. -/
def Renices (t : TaskStruct) (nice : Int) : Prop :=
  taskNice t ≠ nice ∧ minNice ≤ nice ∧ nice ≤ maxNice
    ∧ dlPolicy t.policy = false ∧ rtPolicy t.policy = false

instance (t : TaskStruct) (nice : Int) : Decidable (Renices t nice) :=
  inferInstanceAs (Decidable (_ ∧ _ ∧ _ ∧ _ ∧ _))

/-- The state in which `set_user_nice` has stored the new priorities. -/
def niceKernel (k : Kernel) (p : Pid) (nice : Int) : Kernel :=
  saveRestore k p (dequeueSave ||| dequeueNoclock) (fun t => setNice t nice)
    (enqueueRestore ||| enqueueNoclock)

/-- `set_user_nice` asks for a reschedule: a queued task got better, or
the running one got worse. -/
def NiceResched (t : TaskStruct) (nice : Int) : Prop :=
  taskOnRqQueued t = true ∧ ((setNice t nice).prio < t.prio
    ∨ (t.prio < (setNice t nice).prio ∧ taskRunningOnCpu t = true))

theorem setUserNice_cases (k : Kernel) (p : Pid) (nice : Int) :
    setUserNice k p nice = k
    ∨ (minNice ≤ nice ∧ nice ≤ maxNice
        ∧ (dlPolicy (k.task p).policy = true ∨ rtPolicy (k.task p).policy = true)
        ∧ setUserNice k p nice = k.mod p fun t => { t with staticPrio := niceToPrio nice })
    ∨ (Renices (k.task p) nice ∧ NiceResched (k.task p) nice
        ∧ setUserNice k p nice = reschedCurr (niceKernel k p nice) (k.task p).cpu)
    ∨ (Renices (k.task p) nice ∧ ¬NiceResched (k.task p) nice
        ∧ setUserNice k p nice = niceKernel k p nice) := by
  simp only [setUserNice]
  by_cases hbad : taskNice (k.task p) = nice ∨ nice < minNice ∨ nice > maxNice
  · rw [if_pos hbad]
    exact Or.inl rfl
  · rw [if_neg hbad]
    obtain ⟨hnew, hbad⟩ := not_or.mp hbad
    obtain ⟨hlo, hhi⟩ := not_or.mp hbad
    by_cases hrt : dlPolicy (k.task p).policy = true ∨ rtPolicy (k.task p).policy = true
    · rw [if_pos hrt]
      exact Or.inr (Or.inl ⟨by omega, by omega, hrt, rfl⟩)
    · rw [if_neg hrt]
      have hren : Renices (k.task p) nice :=
        ⟨hnew, by omega, by omega, by simpa using not_or.mp hrt⟩
      have hiff : (taskOnRqQueued (k.task p) = true
          ∧ ((setNice (k.task p) nice).prio - (k.task p).prio < 0
            ∨ (setNice (k.task p) nice).prio - (k.task p).prio > 0
              ∧ taskRunningOnCpu (k.task p) = true)) ↔ NiceResched (k.task p) nice := by
        have hlt : (setNice (k.task p) nice).prio - (k.task p).prio < 0
            ↔ (setNice (k.task p) nice).prio < (k.task p).prio := by omega
        have hgt : (setNice (k.task p) nice).prio - (k.task p).prio > 0
            ↔ (k.task p).prio < (setNice (k.task p) nice).prio := by omega
        rw [NiceResched, hlt, hgt]
      by_cases hres : NiceResched (k.task p) nice
      · rw [if_pos (hiff.mpr hres)]
        exact Or.inr (Or.inr (Or.inl ⟨hren, hres, rfl⟩))
      · rw [if_neg (mt hiff.mp hres)]
        exact Or.inr (Or.inr (Or.inr ⟨hren, hres, rfl⟩))

theorem niceKernel_task (k : Kernel) (p : Pid) (nice : Int) :
    (niceKernel k p nice).task = Function.update k.task p (setNice (k.task p) nice) :=
  saveRestore_task k p _ _ restore_no_wakeup

theorem setUserNice_params (k : Kernel) (p : Pid) (nice : Int) :
    HasParams k.task (setUserNice k p nice)
    ∨ (minNice ≤ nice ∧ nice ≤ maxNice
        ∧ (dlPolicy (k.task p).policy = true ∨ rtPolicy (k.task p).policy = true)
        ∧ HasParams (Function.update k.task p
            { k.task p with staticPrio := niceToPrio nice }) (setUserNice k p nice))
    ∨ (Renices (k.task p) nice
        ∧ HasParams (Function.update k.task p (setNice (k.task p) nice))
          (setUserNice k p nice)) := by
  rcases setUserNice_cases k p nice with heq | ⟨hlo, hhi, hrt, heq⟩ | ⟨hren, -, heq⟩ |
    ⟨hren, -, heq⟩ <;> rw [heq]
  · exact Or.inl (HasParams.of_eq rfl)
  · exact Or.inr (Or.inl ⟨hlo, hhi, hrt, HasParams.of_eq rfl⟩)
  · exact Or.inr (Or.inr
      ⟨hren, (HasParams.of_eq (niceKernel_task k p nice)).reschedCurr _⟩)
  · exact Or.inr (Or.inr ⟨hren, HasParams.of_eq (niceKernel_task k p nice)⟩)

theorem setUserNice_frame (k : Kernel) (p : Pid) (nice : Int) :
    Frame k (setUserNice k p nice) := by
  have hnice : Frame k (niceKernel k p nice) := saveRestore_frame ..
  rcases setUserNice_cases k p nice with heq | ⟨-, -, -, heq⟩ | ⟨-, -, heq⟩ | ⟨-, -, heq⟩ <;>
    rw [heq]
  · exact Frame.refl k
  · exact Frame.mod ..
  · exact hnice.trans (Frame.reschedCurr ..)
  · exact hnice

/-- The call of `rt_mutex_setprio` writes a class and a priority. -/
def Setprios (k : Kernel) (p : Pid) (piTask : Option Pid) : Prop :=
  (setprioPrio k p piTask ≠ (k.task p).prio ∨ dlPrio (setprioPrio k p piTask) = true)
    ∧ p ≠ (k.rq (k.task p).cpu).idle

/-- The state in which `rt_mutex_setprio` has stored a class and a
priority. -/
def setprioKernel (k : Kernel) (p : Pid) (piTask : Option Pid) (dlPreempt : Bool) :
    Kernel :=
  let prio := setprioPrio k p piTask
  let flags := if (k.task p).prio = prio then dequeueSave ||| dequeueNoclock
    else dequeueSave ||| dequeueMove ||| dequeueNoclock
  let k := k.mod p fun t => { t with piTopTask := piTask }
  saveRestore k p flags (fun t => setprioTask t prio)
    (flags ||| setprioFlags k p piTask dlPreempt)

theorem rtMutexSetprio_cases (k : Kernel) (p : Pid) (piTask : Option Pid)
    (dlPreempt hook : Bool) :
    rtMutexSetprio k p piTask dlPreempt hook = k
    ∨ rtMutexSetprio k p piTask dlPreempt hook =
        k.mod p (fun t => { t with piTopTask := piTask })
    ∨ (Setprios k p piTask
        ∧ rtMutexSetprio k p piTask dlPreempt hook =
          checkClassChanged (setprioKernel k p piTask dlPreempt) (k.task p).cpu p
            (k.task p).schedClass (k.task p).prio hook) := by
  simp only [rtMutexSetprio]
  by_cases h₁ : (k.task p).piTopTask = piTask ∧ setprioPrio k p piTask = (k.task p).prio
      ∧ (!dlPrio (setprioPrio k p piTask)) = true
  · rw [if_pos h₁]
    exact Or.inl rfl
  · rw [if_neg h₁]
    by_cases h₂ : setprioPrio k p piTask = (k.task p).prio
        ∧ (!dlPrio (setprioPrio k p piTask)) = true
    · rw [if_pos h₂]
      exact Or.inr (Or.inl rfl)
    · rw [if_neg h₂]
      by_cases h₃ : p = (k.rq (k.task p).cpu).idle
      · rw [mod_rq, if_pos h₃]
        exact Or.inr (Or.inl rfl)
      · rw [mod_rq, if_neg h₃]
        refine Or.inr (Or.inr ⟨⟨?_, h₃⟩, rfl⟩)
        rcases not_and_or.mp h₂ with h | h
        · exact Or.inl h
        · exact Or.inr (by simpa using h)

theorem setprioFlags_no_wakeup (k : Kernel) (p : Pid) (piTask : Option Pid)
    (dlPreempt : Bool) (c : Prop) [Decidable c] :
    ((if c then dequeueSave ||| dequeueNoclock
      else dequeueSave ||| dequeueMove ||| dequeueNoclock)
      ||| setprioFlags k p piTask dlPreempt) &&& enqueueWakeup = 0 := by
  simp only [setprioFlags]
  split_ifs <;> decide

theorem setprioKernel_task (k : Kernel) (p : Pid) (piTask : Option Pid) (dlPreempt : Bool) :
    (setprioKernel k p piTask dlPreempt).task = Function.update k.task p
      (setprioTask { k.task p with piTopTask := piTask } (setprioPrio k p piTask)) := by
  simp only [setprioKernel]
  rw [saveRestore_task _ p _ _ (setprioFlags_no_wakeup ..), mod_task, Function.update_self,
    Function.update_idem]

theorem rtMutexSetprio_params (k : Kernel) (p : Pid) (piTask : Option Pid)
    (dlPreempt hook : Bool) :
    HasParams k.task (rtMutexSetprio k p piTask dlPreempt hook)
    ∨ (Setprios k p piTask
        ∧ HasParams (Function.update k.task p
            (setprioTask (k.task p) (setprioPrio k p piTask)))
          (rtMutexSetprio k p piTask dlPreempt hook)) := by
  rcases rtMutexSetprio_cases k p piTask dlPreempt hook with heq | heq | ⟨hset, heq⟩ <;>
    rw [heq]
  · exact Or.inl (HasParams.of_eq rfl)
  · exact Or.inl ((HasParams.of_eq rfl).mod p ⟨rfl, rfl, rfl, rfl, rfl, rfl⟩)
  · refine Or.inr ⟨hset, HasParams.checkClassChanged ?_ _ p _ _ hook⟩
    intro q
    rw [setprioKernel_task]
    by_cases hq : q = p
    · subst hq
      simp only [Function.update_self, setprioTask_eq]
      exact ⟨rfl, rfl, rfl, rfl, rfl, rfl⟩
    · simp only [Function.update_of_ne hq]
      exact SameParams.refl _

theorem rtMutexSetprio_frame (k : Kernel) (p : Pid) (piTask : Option Pid)
    (dlPreempt hook : Bool) : Frame k (rtMutexSetprio k p piTask dlPreempt hook) := by
  rcases rtMutexSetprio_cases k p piTask dlPreempt hook with heq | heq | ⟨-, heq⟩ <;> rw [heq]
  · exact Frame.refl k
  · exact Frame.mod ..
  · refine Frame.trans ?_ (checkClassChanged_frame ..)
    exact (Frame.mod k p _).trans (saveRestore_frame ..)

/-! ## The stopper -/

theorem schedSetscheduler_params {k k' : Kernel} {p : Pid} {attr : SchedAttr}
    {user pi : Bool} {env : SchedEnv} {hook : Bool}
    (h : schedSetscheduler k p attr user pi env hook = .ok k') :
    (unchangedParams (k.task p) attr (attrPolicy (k.task p) attr) env = true
        ∧ HasParams k.task k')
    ∨ (unchangedParams (k.task p) attr (attrPolicy (k.task p) attr) env = false
        ∧ ∃ resetOnFork,
          HasParams (Function.update k.task p (policyTask k p attr resetOnFork pi)) k') := by
  obtain ⟨resetOnFork, ⟨hsame, rfl⟩ | ⟨hsame, rfl⟩⟩ := schedSetscheduler_ok h
  · exact Or.inl ⟨hsame, (HasParams.of_eq rfl).mod p ⟨rfl, rfl, rfl, rfl, rfl, rfl⟩⟩
  · exact Or.inr ⟨hsame, resetOnFork, changePolicy_params k p attr resetOnFork pi hook⟩

theorem schedSetscheduler_frame {k k' : Kernel} {p : Pid} {attr : SchedAttr}
    {user pi : Bool} {env : SchedEnv} {hook : Bool}
    (h : schedSetscheduler k p attr user pi env hook = .ok k') : Frame k k' := by
  obtain ⟨resetOnFork, ⟨-, rfl⟩ | ⟨-, rfl⟩⟩ := schedSetscheduler_ok h
  · exact Frame.mod ..
  · exact changePolicy_frame ..

/-- What becoming, or having been, a stopper makes of a task: perhaps the
parameters of `SCHED_FIFO`, and the class `stop` or `rt`. -/
def StopperTask (t t' : TaskStruct) : Prop :=
  ∃ base c, (c = .stop ∨ c = .rt)
    ∧ (SameParams t base
      ∨ ∃ resetOnFork attr donor pi, SameParams
          (setscheduler { t with schedResetOnFork := resetOnFork } attr donor pi) base)
    ∧ SameParams { base with schedClass := c } t'

theorem StopperTask.setClass {t t' : TaskStruct} (h : StopperTask t t') :
    StopperTask t { t' with schedClass := .rt } := by
  obtain ⟨base, c, -, hbase, hto⟩ := h
  exact ⟨base, .rt, Or.inr rfl, hbase,
    ⟨hto.prio, rfl, hto.policy, hto.timeSlice, hto.staticPrio, hto.normalPrio⟩⟩

/-- The first half of `sched_set_stop_task`: the new stopper. -/
def newStopper (k : Kernel) (stop : Option Pid) (env : SchedEnv) (hook : Bool) : Kernel :=
  match stop with
  | some p =>
      let attr := schedCopyAttr (some 1) 0 (prioToNice (k.task p).staticPrio) 99
      let k := match schedSetscheduler k p attr false true env hook with
        | .ok k' => k'
        | .error _ => k
      k.mod p fun t => { t with schedClass := .stop }
  | none => k

theorem newStopper_params (k : Kernel) (stop : Option Pid) (env : SchedEnv) (hook : Bool)
    (q : Pid) : SameParams (k.task q) ((newStopper k stop env hook).task q)
      ∨ (stop = some q ∧ StopperTask (k.task q) ((newStopper k stop env hook).task q)) := by
  cases stop with
  | none => exact Or.inl (SameParams.refl _)
  | some p =>
      simp only [newStopper]
      set attr := schedCopyAttr (some 1) 0 (prioToNice (k.task p).staticPrio) 99
      by_cases hq : q = p
      · subst hq
        refine Or.inr ⟨rfl, ?_⟩
        rw [mod_task_self]
        refine ⟨_, .stop, Or.inl rfl, ?_, SameParams.refl _⟩
        split
        · rename_i k' heq
          rcases schedSetscheduler_params heq with ⟨-, h⟩ | ⟨-, resetOnFork, h⟩
          · exact Or.inl (h q)
          · refine Or.inr ⟨resetOnFork, attr, donorPrio k q, true, ?_⟩
            have hto := h q
            rwa [Function.update_self] at hto
        · exact Or.inl (SameParams.refl _)
      · left
        rw [mod_task, Function.update_of_ne hq]
        split
        · rename_i k' heq
          rcases schedSetscheduler_params heq with ⟨-, h⟩ | ⟨-, resetOnFork, h⟩
          · exact h q
          · have hto := h q
            rwa [Function.update_of_ne hq] at hto
        · exact SameParams.refl _

theorem schedSetStopTask_eq (k : Kernel) (cpu : Nat) (stop : Option Pid) (env : SchedEnv)
    (hook : Bool) :
    schedSetStopTask k cpu stop env hook =
      match (k.rq cpu).stop with
      | some p => ((newStopper k stop env hook).modRq cpu fun rq => { rq with stop := stop }).mod
          p fun t => { t with schedClass := .rt }
      | none => (newStopper k stop env hook).modRq cpu fun rq => { rq with stop := stop } := by
  cases stop <;> rfl

theorem schedSetStopTask_params (k : Kernel) (cpu : Nat) (stop : Option Pid)
    (env : SchedEnv) (hook : Bool) (q : Pid) :
    SameParams (k.task q) ((schedSetStopTask k cpu stop env hook).task q)
      ∨ ((stop = some q ∨ (k.rq cpu).stop = some q)
        ∧ StopperTask (k.task q) ((schedSetStopTask k cpu stop env hook).task q)) := by
  have hnew := newStopper_params k stop env hook q
  rw [schedSetStopTask_eq]
  cases hold : (k.rq cpu).stop with
  | none => exact hnew.imp id fun h => ⟨Or.inl h.1, h.2⟩
  | some p =>
      simp only
      by_cases hq : q = p
      · subst hq
        refine Or.inr ⟨Or.inr rfl, ?_⟩
        rw [mod_task_self]
        rcases hnew with h | ⟨-, h⟩
        · exact ⟨_, .rt, Or.inr rfl, Or.inl h, SameParams.refl _⟩
        · exact h.setClass
      · rw [mod_task, Function.update_of_ne hq]
        exact hnew.imp id fun h => ⟨Or.inl h.1, h.2⟩

theorem newStopper_frame (k : Kernel) (stop : Option Pid) (env : SchedEnv) (hook : Bool) :
    Frame k (newStopper k stop env hook) := by
  cases stop with
  | none => exact Frame.refl k
  | some p =>
      simp only [newStopper]
      refine Frame.trans ?_ (Frame.mod ..)
      split
      · rename_i k' heq
        exact schedSetscheduler_frame heq
      · exact Frame.refl k

theorem schedSetStopTask_procs (k : Kernel) (cpu : Nat) (stop : Option Pid)
    (env : SchedEnv) (hook : Bool) :
    (schedSetStopTask k cpu stop env hook).procs = k.procs := by
  have hnew := (newStopper_frame k stop env hook).procs
  rw [schedSetStopTask_eq]
  split <;> exact hnew

/-! ## The inversion of `step` -/

/-- The possible steps, with what each requires and where it leads. -/
inductive StepTo (k : Kernel) : Op → Kernel → Prop
  | schedFork {cpu child : Nat} : child ∉ k.procs →
      StepTo k (.schedFork cpu child) (forkTask k cpu child)
  | wakeUpNewTask {p : Pid} {dest : Nat} {hook : Bool} : k.Named p →
      (k.task p).state = taskNew → (k.task p).onRq = .off →
      StepTo k (.wakeUpNewTask p dest hook) (wakeUpNewTask k p dest hook)
  | tryToWakeUp {p : Pid} {state dest : Nat} {hook : Bool} : k.Named p →
      StepTo k (.tryToWakeUp p state dest hook) (tryToWakeUp k p state dest hook)
  | setCurrentState {cpu state : Nat} : (k.rq cpu).curr.isProc = true →
      StepTo k (.setCurrentState cpu state)
        (k.mod (k.rq cpu).curr fun t => { t with state := state })
  | schedule {cpu : Nat} {preempt signalPending : Bool} {wake : Option Pid} {hook : Bool}
      {picks : SchedClass → ClassPick} (next : Pid) : (∀ w ∈ wake, k.Named w) →
      (pickNextTask picks (schedBlock k cpu preempt signalPending wake hook) cpu
        (k.rq cpu).curr).1 = some next →
      StepTo k (.schedule cpu preempt signalPending wake hook picks)
        (schedSwitch (schedBlock k cpu preempt signalPending wake hook) cpu next)
  | schedulerTick {cpu : Nat} {hook : Bool} {junk : Nat} :
      StepTo k (.schedulerTick cpu hook junk) (schedulerTick k cpu hook junk)
  | schedYield {cpu : Nat} : StepTo k (.schedYield cpu) (doSchedYield k cpu)
  | setUserNice {p : Pid} {nice : Int} : k.Named p →
      StepTo k (.setUserNice p nice) (setUserNice k p nice)
  | schedSetscheduler {p : Pid} {attr : SchedAttr} {user pi : Bool} {env : SchedEnv}
      {hook : Bool} {k' : Kernel} : k.Named p →
      schedSetscheduler k p attr user pi env hook = .ok k' →
      StepTo k (.schedSetscheduler p attr user pi env hook) k'
  | schedSetschedulerError {p : Pid} {attr : SchedAttr} {user pi : Bool} {env : SchedEnv}
      {hook : Bool} : StepTo k (.schedSetscheduler p attr user pi env hook) k
  | rtMutexSetprio {p : Pid} {piTask : Option Pid} {dlPreempt hook : Bool} :
      k.Live p → (∀ d ∈ piTask, k.Live d ∧ d ≠ p) →
      StepTo k (.rtMutexSetprio p piTask dlPreempt hook)
        (rtMutexSetprio k p piTask dlPreempt hook)
  | doSetCpusAllowed {p : Pid} {newMask : Nat → Bool} : k.Named p →
      StepTo k (.doSetCpusAllowed p newMask) (doSetCpusAllowed k p newMask)
  | moveQueuedTask {p : Pid} {newCpu : Nat} {hook : Bool} : k.Named p →
      (k.task p).onRq = .queued → (k.task p).onCpu = false →
      StepTo k (.moveQueuedTask p newCpu hook) (moveQueuedTask k p newCpu hook)
  | schedSetStopTask {cpu : Nat} {stop : Option Pid} {env : SchedEnv} {hook : Bool} :
      k.Parked stop → k.Parked (k.rq cpu).stop →
      StepTo k (.schedSetStopTask cpu stop env hook) (schedSetStopTask k cpu stop env hook)

theorem step_cases {k k' : Kernel} {op : Op} (h : step k op = some k') : StepTo k op k' := by
  cases op <;> simp only [step] at h
  case schedulerTick => exact Option.some.inj h ▸ .schedulerTick
  case schedYield => exact Option.some.inj h ▸ .schedYield
  case schedFork =>
    split_ifs at h with hg
    exact Option.some.inj h ▸ .schedFork hg
  case wakeUpNewTask =>
    split_ifs at h with hg
    exact Option.some.inj h ▸ .wakeUpNewTask hg.1 hg.2.1 hg.2.2
  case tryToWakeUp =>
    split_ifs at h with hg
    exact Option.some.inj h ▸ .tryToWakeUp hg
  case setCurrentState =>
    split_ifs at h with hg
    exact Option.some.inj h ▸ .setCurrentState hg
  case schedule =>
    split_ifs at h with hg
    obtain ⟨next, hnext, rfl⟩ := schedule_eq_some h
    exact .schedule next hg hnext
  case setUserNice =>
    split_ifs at h with hg
    exact Option.some.inj h ▸ .setUserNice hg
  case schedSetscheduler =>
    split_ifs at h with hg
    split at h
    · rename_i k₁ hok
      exact Option.some.inj h ▸ .schedSetscheduler hg hok
    · exact Option.some.inj h ▸ .schedSetschedulerError
  case rtMutexSetprio =>
    split_ifs at h with hg
    exact Option.some.inj h ▸ .rtMutexSetprio hg.1 hg.2
  case doSetCpusAllowed =>
    split_ifs at h with hg
    exact Option.some.inj h ▸ .doSetCpusAllowed hg
  case moveQueuedTask =>
    split_ifs at h with hg
    refine Option.some.inj h ▸ .moveQueuedTask hg.1 ?_ ?_
    · simpa [taskOnRqQueued] using hg.2.1
    · simpa [taskRunningOnCpu] using hg.2.2
  case schedSetStopTask =>
    split_ifs at h with hg
    exact Option.some.inj h ▸ .schedSetStopTask hg.1 hg.2

/-! ## Effects on a task -/

/-- Everything one step can do to the parameters of a task `q`. -/
inductive TaskStep (k : Kernel) (q : Pid) (t : TaskStruct) : Op → Prop
  | keep {op : Op} : ¬Charged k q op → SameParams (k.task q) t → TaskStep k q t op
  | wakeup {op : Op} : Wakes k q op → SameParams (wokenTask (k.task q)) t → TaskStep k q t op
  | tick {cpu : Nat} {hook : Bool} {junk : Nat} :
      Charged k q (.schedulerTick cpu hook junk) → (k.task q).timeSlice - 1 ≠ 0 →
      SameParams { k.task q with timeSlice := (k.task q).timeSlice - 1 } t →
      TaskStep k q t (.schedulerTick cpu hook junk)
  | expire {cpu : Nat} {hook : Bool} {junk : Nat} :
      Charged k q (.schedulerTick cpu hook junk) → (k.task q).timeSlice - 1 = 0 →
      SameParams (expireTask junk (k.task q)) t →
      TaskStep k q t (.schedulerTick cpu hook junk)
  | renice {nice : Int} : Renices (k.task q) nice →
      SameParams (setNice (k.task q) nice) t → TaskStep k q t (.setUserNice q nice)
  | reniceRt {nice : Int} : minNice ≤ nice ∧ nice ≤ maxNice →
      dlPolicy (k.task q).policy = true ∨ rtPolicy (k.task q).policy = true →
      SameParams { k.task q with staticPrio := niceToPrio nice } t →
      TaskStep k q t (.setUserNice q nice)
  | policy {attr : SchedAttr} {user pi : Bool} {env : SchedEnv} {hook resetOnFork : Bool} :
      (schedSetscheduler k q attr user pi env hook).isOk = true →
      unchangedParams (k.task q) attr (attrPolicy (k.task q) attr) env = false →
      SameParams (policyTask k q attr resetOnFork pi) t →
      TaskStep k q t (.schedSetscheduler q attr user pi env hook)
  | setprio {piTask : Option Pid} {dlPreempt hook : Bool} : Setprios k q piTask →
      SameParams (setprioTask (k.task q) (setprioPrio k q piTask)) t →
      TaskStep k q t (.rtMutexSetprio q piTask dlPreempt hook)
  | stopper {cpu : Nat} {stop : Option Pid} {env : SchedEnv} {hook : Bool} :
      stop = some q ∨ (k.rq cpu).stop = some q → StopperTask (k.task q) t →
      TaskStep k q t (.schedSetStopTask cpu stop env hook)

theorem HasParams.split {ts : Pid → TaskStruct} {k : Kernel} {p : Pid} {t : TaskStruct}
    (h : HasParams (Function.update ts p t) k) (q : Pid) :
    (q = p ∧ SameParams t (k.task q)) ∨ (q ≠ p ∧ SameParams (ts q) (k.task q)) := by
  have hq := h q
  by_cases hqp : q = p
  · subst hqp
    rw [Function.update_self] at hq
    exact Or.inl ⟨rfl, hq⟩
  · rw [Function.update_of_ne hqp] at hq
    exact Or.inr ⟨hqp, hq⟩

/-- A step that is not a tick charges no task. -/
theorem TaskStep.same {k : Kernel} {q : Pid} {t : TaskStruct} {op : Op}
    (hop : ∀ cpu hook junk, op ≠ .schedulerTick cpu hook junk)
    (h : SameParams (k.task q) t) : TaskStep k q t op := by
  refine TaskStep.keep ?_ h
  cases op with
  | schedulerTick cpu hook junk => exact absurd rfl (hop cpu hook junk)
  | _ => exact id

/-- `scheduler_tick` charges the current task, lets another class act, or
does nothing. -/
theorem schedulerTick_cases (k : Kernel) (cpu : Nat) (hook : Bool) (junk : Nat) :
    ((k.task (k.rq cpu).curr).schedClass = .ts ∧ (k.task (k.rq cpu).curr).policy = .ts
        ∧ schedulerTick k cpu hook junk =
          if (k.task (k.rq cpu).curr).timeSlice - 1 = 0 then
            expireTick k cpu (k.rq cpu).curr junk
          else
            (k.printk (.tick (k.rq cpu).curr (k.task (k.rq cpu).curr).timeSlice
              (k.task (k.rq cpu).curr).prio)).mod (k.rq cpu).curr
              fun t => { t with timeSlice := t.timeSlice - 1 })
    ∨ (¬((k.task (k.rq cpu).curr).schedClass = .ts ∧ (k.task (k.rq cpu).curr).policy = .ts)
        ∧ (schedulerTick k cpu hook junk = k
          ∨ ((k.task (k.rq cpu).curr).schedClass ≠ .ts
            ∧ schedulerTick k cpu hook junk = reschedCurr k cpu))) := by
  simp only [schedulerTick]
  by_cases hts : (k.task (k.rq cpu).curr).schedClass = .ts
  · rw [if_pos hts, taskTickTs_eq]
    by_cases hpol : (k.task (k.rq cpu).curr).policy = .ts
    · rw [if_neg (not_not.mpr hpol), ite_not]
      exact Or.inl ⟨hts, hpol, rfl⟩
    · rw [if_pos hpol]
      exact Or.inr ⟨fun h => hpol h.2, Or.inl rfl⟩
  · rw [if_neg hts]
    refine Or.inr ⟨fun h => hts h.1, ?_⟩
    split_ifs
    · exact Or.inr ⟨hts, rfl⟩
    · exact Or.inl rfl

theorem expireTick_params (k : Kernel) (cpu : Nat) (p : Pid) (junk : Nat) :
    HasParams (Function.update k.task p (expireTask junk (k.task p)))
      (expireTick k cpu p junk) := by
  simp only [expireTick]
  refine HasParams.mod ?_ p ⟨rfl, rfl, rfl, rfl, rfl, rfl⟩
  exact HasParams.of_eq rfl

theorem schedulerTick_taskStep (k : Kernel) (cpu : Nat) (hook : Bool) (junk : Nat)
    (q : Pid) :
    TaskStep k q ((schedulerTick k cpu hook junk).task q) (.schedulerTick cpu hook junk) := by
  have hother : q ≠ (k.rq cpu).curr → ¬Charged k q (.schedulerTick cpu hook junk) :=
    fun hq hc => hq hc.1.symm
  rcases schedulerTick_cases k cpu hook junk with ⟨hts, hpol, heq⟩ | ⟨hnot, heq⟩
  · have hcharged : Charged k (k.rq cpu).curr (.schedulerTick cpu hook junk) :=
      ⟨rfl, hts, hpol⟩
    rw [heq]
    split_ifs with hslice
    · rcases (expireTick_params k cpu (k.rq cpu).curr junk).split q with
        ⟨rfl, hto⟩ | ⟨hq, hto⟩
      · exact TaskStep.expire hcharged hslice hto
      · exact TaskStep.keep (hother hq) hto
    · by_cases hq : q = (k.rq cpu).curr
      · subst hq
        rw [mod_task_self]
        exact TaskStep.tick hcharged hslice (SameParams.refl _)
      · rw [mod_task, Function.update_of_ne hq]
        exact TaskStep.keep (hother hq) (SameParams.refl _)
  · have hnone : ¬Charged k q (.schedulerTick cpu hook junk) := by
      rintro ⟨rfl, hts, hpol⟩
      exact hnot ⟨hts, hpol⟩
    refine TaskStep.keep hnone ?_
    rcases heq with heq | ⟨-, heq⟩ <;> rw [heq]
    · exact SameParams.refl _
    · exact (HasParams.of_eq rfl).reschedCurr cpu q

theorem schedulerTick_frame (k : Kernel) (cpu : Nat) (hook : Bool) (junk : Nat) :
    Frame k (schedulerTick k cpu hook junk) := by
  rcases schedulerTick_cases k cpu hook junk with ⟨-, -, heq⟩ | ⟨-, heq | ⟨-, heq⟩⟩ <;> rw [heq]
  · split_ifs
    · refine Frame.trans ?_ (Frame.mod ..)
      refine Frame.trans ?_ (Frame.modRq rfl rfl rfl)
      exact Frame.trans (Frame.printk ..) (Frame.trans (Frame.printk ..) (Frame.mod ..))
    · exact (Frame.printk ..).trans (Frame.mod ..)
  · exact Frame.refl k
  · exact Frame.reschedCurr k cpu

theorem doSchedYield_frame (k : Kernel) (cpu : Nat) : Frame k (doSchedYield k cpu) := by
  unfold doSchedYield yieldTaskTs
  split_ifs
  · refine Frame.trans ?_ (Frame.printk ..)
    exact Frame.modRq rfl rfl rfl
  · exact Frame.refl k

theorem forkTask_task {k : Kernel} {cpu child : Nat} (hchild : child ∉ k.procs) {q : Pid}
    (hq : k.Live q) : (forkTask k cpu child).task q = k.task q := by
  have hne : q ≠ .proc child := by
    rintro rfl
    exact hchild hq
  unfold forkTask
  split
  · simp [hne]
  · rfl

/-- The state in which a migrated task is on its new runqueue. -/
def movedKernel (k : Kernel) (p : Pid) (newCpu : Nat) : Kernel :=
  let cpu := (k.task p).cpu
  let k := k.mod p fun t => { t with onRq := .migrating }
  let k := dequeueTask k cpu p dequeueNoclock
  let k := k.mod p fun t => { t with cpu := newCpu }
  let k := enqueueTask k newCpu p 0
  k.mod p fun t => { t with onRq := .queued }

theorem movedKernel_task (k : Kernel) (p : Pid) (newCpu : Nat) :
    (movedKernel k p newCpu).task =
      Function.update k.task p { k.task p with onRq := .queued, cpu := newCpu } := by
  simp only [movedKernel]
  rw [mod_task, enqueueTask_task, enqueuedTask_of_no_wakeup (by decide), Function.update_eq_self,
    mod_task, dequeueTask_task, mod_task, Function.update_idem, Function.update_idem,
    Function.update_self, Function.update_self]

theorem movedKernel_frame (k : Kernel) (p : Pid) (newCpu : Nat) :
    Frame k (movedKernel k p newCpu) := by
  simp only [movedKernel]
  refine Frame.trans ?_ (Frame.mod ..)
  refine Frame.trans ?_ (enqueueTask_frame ..)
  refine Frame.trans ?_ (Frame.mod ..)
  exact (Frame.mod k p _).trans (dequeueTask_frame ..)

theorem moveQueuedTask_params (k : Kernel) (p : Pid) (newCpu : Nat) (hook : Bool) :
    HasParams k.task (moveQueuedTask k p newCpu hook) := by
  refine HasParams.checkPreemptCurr (k := movedKernel k p newCpu) (fun q => ?_) _ p hook
  rw [movedKernel_task]
  by_cases hq : q = p
  · subst hq
    rw [Function.update_self]
    exact ⟨rfl, rfl, rfl, rfl, rfl, rfl⟩
  · rw [Function.update_of_ne hq]
    exact SameParams.refl _

theorem moveQueuedTask_frame (k : Kernel) (p : Pid) (newCpu : Nat) (hook : Bool) :
    Frame k (moveQueuedTask k p newCpu hook) :=
  (movedKernel_frame k p newCpu).trans (checkPreemptCurr_frame ..)

/-- What one step does to the parameters of a task that exists. -/
theorem step_task {k k' : Kernel} {op : Op} (h : step k op = some k') {q : Pid}
    (hq : k.Live q) : TaskStep k q (k'.task q) op := by
  cases step_cases h with
  | schedFork hchild =>
      rw [forkTask_task hchild hq]
      exact TaskStep.same (by simp) (SameParams.refl _)
  | wakeUpNewTask => exact TaskStep.same (by simp) (wakeUpNewTask_params k _ _ _ q)
  | @tryToWakeUp p state dest hook hp =>
      rcases tryToWakeUp_params k p state dest hook with hto | ⟨hwakes, hto⟩
      · exact TaskStep.same (by simp) (hto q)
      · rcases hto.split q with ⟨rfl, hto⟩ | ⟨-, hto⟩
        · exact TaskStep.wakeup hwakes hto
        · exact TaskStep.same (by simp) hto
  | setCurrentState =>
      exact TaskStep.same (by simp)
        ((HasParams.of_eq rfl).mod _ ⟨rfl, rfl, rfl, rfl, rfl, rfl⟩ q)
  | @schedule cpu preempt signalPending wake hook picks next hwake hnext =>
      rcases schedBlock_params k cpu preempt signalPending wake hook picks with
        hto | ⟨w, hwakes, hto⟩
      · exact TaskStep.same (by simp) (schedSwitch_params hto cpu next q)
      · rcases (schedSwitch_params hto cpu next).split q with ⟨rfl, hto⟩ | ⟨-, hto⟩
        · exact TaskStep.wakeup hwakes hto
        · exact TaskStep.same (by simp) hto
  | schedulerTick => exact schedulerTick_taskStep k _ _ _ q
  | schedYield =>
      refine TaskStep.same (by simp) ?_
      unfold doSchedYield
      split_ifs <;> exact SameParams.refl _
  | @setUserNice p nice hp =>
      rcases setUserNice_params k p nice with hto | ⟨hlo, hhi, hrt, hto⟩ | ⟨hren, hto⟩
      · exact TaskStep.same (by simp) (hto q)
      · rcases hto.split q with ⟨rfl, hto⟩ | ⟨-, hto⟩
        · exact TaskStep.reniceRt ⟨hlo, hhi⟩ hrt hto
        · exact TaskStep.same (by simp) hto
      · rcases hto.split q with ⟨rfl, hto⟩ | ⟨-, hto⟩
        · exact TaskStep.renice hren hto
        · exact TaskStep.same (by simp) hto
  | schedSetscheduler hp hok =>
      rcases schedSetscheduler_params hok with ⟨-, hto⟩ | ⟨hch, resetOnFork, hto⟩
      · exact TaskStep.same (by simp) (hto q)
      · rcases hto.split q with ⟨rfl, hto⟩ | ⟨-, hto⟩
        · exact TaskStep.policy (by rw [hok]; rfl) hch hto
        · exact TaskStep.same (by simp) hto
  | schedSetschedulerError => exact TaskStep.same (by simp) (SameParams.refl _)
  | @rtMutexSetprio p piTask dlPreempt hook hp hpi =>
      rcases rtMutexSetprio_params k p piTask dlPreempt hook with hto | ⟨hset, hto⟩
      · exact TaskStep.same (by simp) (hto q)
      · rcases hto.split q with ⟨rfl, hto⟩ | ⟨-, hto⟩
        · exact TaskStep.setprio hset hto
        · exact TaskStep.same (by simp) hto
  | @doSetCpusAllowed p newMask hp =>
      refine TaskStep.same (by simp) ?_
      rw [doSetCpusAllowed, saveRestore_task k p _ _ restore_no_wakeup]
      exact (HasParams.of_eq rfl).mod p (f := fun t => { t with cpusAllowed := newMask })
        ⟨rfl, rfl, rfl, rfl, rfl, rfl⟩ q
  | moveQueuedTask => exact TaskStep.same (by simp) (moveQueuedTask_params k _ _ _ q)
  | @schedSetStopTask cpu stop env hook hnew hold =>
      rcases schedSetStopTask_params k cpu stop env hook q with hto | ⟨hstop, hto⟩
      · exact TaskStep.same (by simp) hto
      · exact TaskStep.stopper hstop hto

/-! ## New tasks -/

/-- A step creates a task only by `sched_fork`. -/
theorem step_procs {k k' : Kernel} {op : Op} (h : step k op = some k') :
    k'.procs = k.procs
    ∨ ∃ cpu child t, op = .schedFork cpu child ∧ child ∉ k.procs
      ∧ schedFork (k.task (k.rq cpu).curr) cpu = some t
      ∧ k' = { k with task := Function.update k.task (.proc child) t
                      procs := insert child k.procs } := by
  cases step_cases h with
  | @schedFork cpu child hchild =>
      unfold forkTask
      split
      · rename_i t ht
        exact Or.inr ⟨cpu, child, t, rfl, hchild, ht, rfl⟩
      · exact Or.inl rfl
  | wakeUpNewTask => exact Or.inl (wakeUpNewTask_frame ..).procs
  | tryToWakeUp => exact Or.inl (tryToWakeUp_frame ..).procs
  | setCurrentState => exact Or.inl rfl
  | schedule next =>
      rw [schedSwitch_procs]
      exact Or.inl (schedBlock_frame ..).procs
  | schedulerTick => exact Or.inl (schedulerTick_frame ..).procs
  | schedYield => exact Or.inl (doSchedYield_frame ..).procs
  | setUserNice => exact Or.inl (setUserNice_frame ..).procs
  | schedSetscheduler hp hok => exact Or.inl (schedSetscheduler_frame hok).procs
  | schedSetschedulerError => exact Or.inl rfl
  | rtMutexSetprio => exact Or.inl (rtMutexSetprio_frame ..).procs
  | doSetCpusAllowed => exact Or.inl (saveRestore_frame ..).procs
  | moveQueuedTask => exact Or.inl (moveQueuedTask_frame ..).procs
  | schedSetStopTask => exact Or.inl (schedSetStopTask_procs ..)

/-- A task of the state after a step existed before or is a new child. -/
theorem step_live {k k' : Kernel} {op : Op} (h : step k op = some k') {q : Pid}
    (hq : k'.Live q) :
    k.Live q ∨ ∃ cpu child, op = .schedFork cpu child ∧ q = .proc child
      ∧ child ∉ k.procs ∧ schedFork (k.task (k.rq cpu).curr) cpu = some (k'.task q) := by
  rcases step_procs h with hprocs | ⟨cpu, child, t, rfl, hchild, ht, rfl⟩
  · rw [Kernel.live_congr hprocs] at hq
    exact Or.inl hq
  · cases q with
    | swapper c => exact Or.inl trivial
    | proc n =>
        rcases Finset.mem_insert.mp hq with rfl | hn
        · refine Or.inr ⟨cpu, n, rfl, rfl, hchild, ht.trans ?_⟩
          simp
        · exact Or.inl hn

end Sched

end Comp4511
