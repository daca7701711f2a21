import Comp4511.SchedPreempt
import Comp4511.SchedSlice

/-!
# The turn of a task

A queued TS task has a place (its runqueue and its level) and a turn (its
stamp, renewed by every line that puts it at the tail of a list).
`step_turn` is the inversion lemma for both: one step leaves place and
turn of a task alone, or it renews the turn, or the task is not queued in
the class afterwards; for each the lemma says which operations can do it.

Everything else in this file goes through `Effect X k k'`: between `k`
and `k'` the log only grew, no request to reschedule was lost, and the
tasks outside `X` kept place and turn.
-/

namespace Comp4511

namespace Sched

/-! ## Effects that spare a task -/

/-- The task is where it was, and since when it was. -/
structure SameTurn (q : Pid) (k k' : Kernel) : Prop where
  onRq : (k'.task q).onRq = (k.task q).onRq
  schedClass : (k'.task q).schedClass = (k.task q).schedClass
  cpu : (k'.task q).cpu = (k.task q).cpu
  prio : (k'.task q).prio = (k.task q).prio
  stamp : stamp q k'.log = stamp q k.log

/-- The lines of `k` are the oldest lines of `k'`, every flag of `k` is
still set, and the turns of the tasks outside `X` are as they were. -/
structure Effect (X : Pid → Prop) (k k' : Kernel) : Prop where
  log : k.log <:+ k'.log
  flag : ∀ q, (k.task q).needResched = true → (k'.task q).needResched = true
  turn : ∀ q, ¬X q → SameTurn q k k'

/-- No task is touched. -/
def nobody : Pid → Prop := fun _ => False

theorem SameTurn.refl (q : Pid) (k : Kernel) : SameTurn q k k := ⟨rfl, rfl, rfl, rfl, rfl⟩

theorem SameTurn.trans {q : Pid} {k k' k'' : Kernel} (h : SameTurn q k k')
    (h' : SameTurn q k' k'') : SameTurn q k k'' :=
  ⟨h'.onRq.trans h.onRq, h'.schedClass.trans h.schedClass, h'.cpu.trans h.cpu,
    h'.prio.trans h.prio, h'.stamp.trans h.stamp⟩

/-- The renewal of a turn: the stamp is newer than every line of `k`. -/
def Renewed (q : Pid) (k k' : Kernel) : Prop := k.log.length < stamp q k'.log

theorem Renewed.ne {q : Pid} {k k' : Kernel} (h : Renewed q k k') :
    stamp q k'.log ≠ stamp q k.log := by
  have hle := stamp_le q k.log
  unfold Renewed at h
  omega

namespace Effect

variable {X Y : Pid → Prop} {k k' k'' : Kernel}

theorem refl (X : Pid → Prop) (k : Kernel) : Effect X k k :=
  ⟨List.suffix_refl _, fun _ h => h, fun q _ => SameTurn.refl q k⟩

theorem trans (h : Effect X k k') (h' : Effect X k' k'') : Effect X k k'' :=
  ⟨h.log.trans h'.log, fun q hq => h'.flag q (h.flag q hq),
    fun q hq => (h.turn q hq).trans (h'.turn q hq)⟩

theorem mono (h : Effect X k k') (hXY : ∀ q, X q → Y q) : Effect Y k k' :=
  ⟨h.log, h.flag, fun q hq => h.turn q fun hX => hq (hXY q hX)⟩

theorem any (h : Effect nobody k k') : Effect Y k k' := h.mono fun _ hq => hq.elim

theorem mod (k : Kernel) (p : Pid) {f : TaskStruct → TaskStruct}
    (hflag : (k.task p).needResched = true → (f (k.task p)).needResched = true) :
    Effect (· = p) k (k.mod p f) := by
  refine ⟨List.suffix_refl _, fun q hq => ?_, fun q hq => ?_⟩
  · by_cases hqp : q = p
    · subst hqp
      rw [mod_task_self]
      exact hflag hq
    · rwa [mod_task, Function.update_of_ne hqp]
  · have htask : (k.mod p f).task q = k.task q := by rw [mod_task, Function.update_of_ne hq]
    exact ⟨by rw [htask], by rw [htask], by rw [htask], by rw [htask], rfl⟩

/-- A write that the turn does not depend on. -/
theorem mod_same (k : Kernel) (p : Pid) {f : TaskStruct → TaskStruct}
    (hf : SameView (k.task p) (f (k.task p))) : Effect nobody k (k.mod p f) := by
  refine ⟨List.suffix_refl _, (mod k p hf.flag).flag, fun q _ => ?_⟩
  have hview := sameView_mod hf q
  exact ⟨hview.onRq, hview.schedClass, hview.cpu, hview.prio, rfl⟩

theorem reschedCurr (k : Kernel) (cpu : Nat) : Effect nobody k (reschedCurr k cpu) :=
  mod_same k _ ⟨rfl, rfl, rfl, rfl, fun _ => rfl⟩

theorem modRq (k : Kernel) (cpu : Nat) (f : Rq → Rq) : Effect nobody k (k.modRq cpu f) :=
  ⟨List.suffix_refl _, fun _ h => h, fun _ _ => ⟨rfl, rfl, rfl, rfl, rfl⟩⟩

/-- A line renews at most one task. -/
theorem printk (k : Kernel) (line : Printk) :
    Effect (fun q => line.renews = some q) k (k.printk line) :=
  ⟨List.suffix_cons _ _, fun _ h => h,
    fun _ hq => ⟨rfl, rfl, rfl, rfl, stamp_other hq k.log⟩⟩

theorem checkPreemptCurr (k : Kernel) (cpu : Nat) (p : Pid) (hook : Bool) :
    Effect nobody k (checkPreemptCurr k cpu p hook) := by
  rcases checkPreemptCurr_cases k cpu p hook with heq | heq <;> rw [heq]
  · exact refl _ k
  · exact reschedCurr k cpu

theorem checkClassChanged (k : Kernel) (cpu : Nat) (p : Pid) (c : SchedClass) (oldprio : Int)
    (hook : Bool) : Effect nobody k (checkClassChanged k cpu p c oldprio hook) := by
  rcases checkClassChanged_cases k cpu p c oldprio hook with heq | heq <;> rw [heq]
  · exact refl _ k
  · exact reschedCurr k cpu

theorem enqueueTask (k : Kernel) (cpu : Nat) (p : Pid) (flags : Nat) :
    Effect (· = p) k (enqueueTask k cpu p flags) := by
  obtain ⟨prio, hprio⟩ := enqueuedTask_frame flags (k.task p)
  have htask := enqueueTask_task k cpu p flags
  have hlog := enqueueTask_log k cpu p flags
  refine ⟨?_, fun q hq => ?_, fun q hq => ?_⟩
  · rw [hlog]
    split_ifs
    · exact List.suffix_cons _ _
    · exact List.suffix_refl _
  · rw [htask, hprio]
    by_cases hqp : q = p
    · subst hqp
      rwa [Function.update_self]
    · rwa [Function.update_of_ne hqp]
  · have hq' : (Sched.enqueueTask k cpu p flags).task q = k.task q := by
      rw [htask, Function.update_of_ne hq]
    refine ⟨by rw [hq'], by rw [hq'], by rw [hq'], by rw [hq'], ?_⟩
    rw [hlog]
    split_ifs
    · refine stamp_other (fun he => hq ?_) k.log
      obtain rfl : p = q := Option.some.inj he
      rfl
    · rfl

theorem dequeueTask (k : Kernel) (cpu : Nat) (p : Pid) (flags : Nat) :
    Effect nobody k (dequeueTask k cpu p flags) := by
  have htask := dequeueTask_task k cpu p flags
  have hlog := dequeueTask_log k cpu p flags
  refine ⟨?_, fun q hq => by rwa [htask], fun q _ => ?_⟩
  · rw [hlog]
    split_ifs
    · exact List.suffix_cons _ _
    · exact List.suffix_refl _
  · refine ⟨by rw [htask], by rw [htask], by rw [htask], by rw [htask], ?_⟩
    rw [hlog]
    split_ifs
    · exact stamp_other (by simp [Printk.renews]) k.log
    · rfl

theorem saveRestore (k : Kernel) (p : Pid) (deqFlags : Nat) {f : TaskStruct → TaskStruct}
    (enqFlags : Nat) (hflag : (k.task p).needResched = true → (f (k.task p)).needResched = true) :
    Effect (· = p) k (saveRestore k p deqFlags f enqFlags) := by
  simp only [Sched.saveRestore, putPrevTask, setCurrTask, ite_self]
  split_ifs
  · have hdeq := dequeueTask k (k.task p).cpu p deqFlags
    have htask := dequeueTask_task k (k.task p).cpu p deqFlags
    refine hdeq.any.trans ((mod _ p ?_).trans (enqueueTask ..))
    rwa [htask]
  · exact mod k p hflag

/-! ## Effects of the entry points -/

theorem ttwuActivate (k : Kernel) (cpu : Nat) (p : Pid) (flags : Nat) :
    Effect (· = p) k (ttwuActivate k cpu p flags) :=
  (enqueueTask k cpu p flags).trans (mod _ p (f := fun t => { t with onRq := .queued }) id)

theorem ttwuDoWakeup (k : Kernel) (cpu : Nat) (p : Pid) (hook : Bool) :
    Effect nobody k (ttwuDoWakeup k cpu p hook) :=
  (checkPreemptCurr k cpu p hook).trans
    (mod_same _ p (f := fun t => { t with state := taskRunning }) ⟨rfl, rfl, rfl, rfl, id⟩)

theorem wakeUpNewTask (k : Kernel) (p : Pid) (dest : Nat) (hook : Bool) :
    Effect (· = p) k (wakeUpNewTask k p dest hook) :=
  (mod k p (f := fun t => { t with state := taskRunning, cpu := dest }) id).trans
    ((ttwuActivate _ dest p enqueueNoclock).trans (checkPreemptCurr ..).any)

theorem tryToWakeUp (k : Kernel) (p : Pid) (state dest : Nat) (hook : Bool) :
    Effect (fun q => Wakes k q (.tryToWakeUp p state dest hook)) k
      (tryToWakeUp k p state dest hook) := by
  rcases tryToWakeUp_cases k p state dest hook with heq | heq | ⟨hstate, hq, heq⟩ <;> rw [heq]
  · exact refl _ k
  · exact (ttwuDoWakeup ..).any
  · refine ((mod k p (f := fun t => { t with cpu := dest }) id).trans
      ((ttwuActivate ..).trans (ttwuDoWakeup ..).any)).mono ?_
    rintro q rfl
    exact ⟨rfl, hstate, by simpa [taskOnRqQueued] using hq⟩

theorem blockedKernel (k : Kernel) (cpu : Nat) :
    Effect (· = (k.rq cpu).curr) k (blockedKernel k cpu) :=
  (dequeueTask ..).any.trans (mod _ _ (f := fun t => { t with onRq := .off }) id)

theorem moveQueuedTask (k : Kernel) (p : Pid) (newCpu : Nat) (hook : Bool) :
    Effect (· = p) k (moveQueuedTask k p newCpu hook) := by
  suffices hmoved : Effect (· = p) k (movedKernel k p newCpu) from
    hmoved.trans (checkPreemptCurr ..).any
  simp only [movedKernel]
  have hdeq := dequeueTask (k.mod p fun t => { t with onRq := .migrating }) (k.task p).cpu p
    dequeueNoclock
  refine (mod k p (f := fun t => { t with onRq := .migrating }) id).trans (hdeq.any.trans ?_)
  refine (mod _ p (f := fun t => { t with cpu := newCpu }) id).trans ?_
  exact (enqueueTask _ newCpu p 0).trans (mod _ p (f := fun t => { t with onRq := .queued }) id)

theorem doSetCpusAllowed (k : Kernel) (p : Pid) (newMask : Nat → Bool) :
    Effect (· = p) k (doSetCpusAllowed k p newMask) := saveRestore k p _ _ id

theorem setUserNice (k : Kernel) (p : Pid) (nice : Int) :
    Effect (· = p) k (setUserNice k p nice) := by
  have hnice : Effect (· = p) k (niceKernel k p nice) := by
    refine saveRestore k p _ _ fun hflag => ?_
    obtain ⟨prio, normal, heq⟩ := setNice_frame (k.task p) nice
    rwa [heq]
  rcases setUserNice_cases k p nice with heq | ⟨-, -, -, heq⟩ | ⟨-, -, heq⟩ | ⟨-, -, heq⟩ <;>
    rw [heq]
  · exact refl _ k
  · exact mod k p id
  · exact hnice.trans (reschedCurr ..).any
  · exact hnice

/-- A policy change writes no flag. -/
theorem setscheduler_needResched (t : TaskStruct) (attr : SchedAttr) (donor : Option Int)
    (pi : Bool) : (setscheduler t attr donor pi).needResched = t.needResched := by
  obtain ⟨static, normal, heq, -⟩ := setschedulerParams_frame t attr
  rw [setscheduler_eq, heq]

theorem schedSetscheduler {k k' : Kernel} {p : Pid} {attr : SchedAttr} {user pi : Bool}
    {env : SchedEnv} {hook : Bool} (h : schedSetscheduler k p attr user pi env hook = .ok k') :
    Effect (· = p) k k' := by
  obtain ⟨resetOnFork, ⟨-, rfl⟩ | ⟨-, rfl⟩⟩ := schedSetscheduler_ok h
  · exact mod k p id
  · rw [changePolicy_eq]
    refine Effect.trans ?_ (checkClassChanged ..).any
    exact saveRestore k p _ _ fun hflag => by rwa [setscheduler_needResched]

theorem rtMutexSetprio (k : Kernel) (p : Pid) (piTask : Option Pid) (dlPreempt hook : Bool) :
    Effect (· = p) k (rtMutexSetprio k p piTask dlPreempt hook) := by
  rcases rtMutexSetprio_cases k p piTask dlPreempt hook with heq | heq | ⟨-, heq⟩ <;> rw [heq]
  · exact refl _ k
  · exact mod k p id
  · refine Effect.trans ?_ (checkClassChanged ..).any
    refine (mod k p (f := fun t => { t with piTopTask := piTask }) id).trans ?_
    exact saveRestore _ p _ _ fun hflag => by rwa [setprioTask_eq]

theorem newStopper (k : Kernel) (stop : Option Pid) (env : SchedEnv) (hook : Bool) :
    Effect (fun q => stop = some q) k (newStopper k stop env hook) := by
  cases stop with
  | none => exact refl _ k
  | some p =>
      simp only [Sched.newStopper]
      refine Effect.mono (X := (· = p)) (Effect.trans ?_
        (mod _ p (f := fun t => { t with schedClass := .stop }) id)) fun q hq => by rw [hq]
      split
      · rename_i k' heq
        exact schedSetscheduler heq
      · exact refl _ k

theorem schedSetStopTask (k : Kernel) (cpu : Nat) (stop : Option Pid) (env : SchedEnv)
    (hook : Bool) : Effect (fun q => stop = some q ∨ (k.rq cpu).stop = some q) k
      (schedSetStopTask k cpu stop env hook) := by
  have hset : Effect (fun q => stop = some q) k
      ((Sched.newStopper k stop env hook).modRq cpu fun rq => { rq with stop := stop }) :=
    (newStopper k stop env hook).trans (modRq ..).any
  rw [schedSetStopTask_eq]
  split
  · rename_i p hp
    refine (hset.mono fun q hq => Or.inl hq).trans ?_
    refine (mod _ p (f := fun t => { t with schedClass := .rt }) id).mono ?_
    rintro q rfl
    exact Or.inr hp
  · exact hset.mono fun q hq => Or.inl hq

theorem schedulerTick (k : Kernel) (cpu : Nat) (hook : Bool) (junk : Nat) :
    Effect (fun q => Expires k q (.schedulerTick cpu hook junk)) k
      (schedulerTick k cpu hook junk) := by
  rcases schedulerTick_cases k cpu hook junk with ⟨hts, hpol, heq⟩ | ⟨-, heq | ⟨-, heq⟩⟩ <;>
    rw [heq]
  · split_ifs with hslice
    · refine Effect.mono (X := (· = (k.rq cpu).curr)) ?_ ?_
      · simp only [expireTick]
        refine Effect.trans ?_ (mod _ _ (f := setTskNeedResched) fun _ => rfl)
        refine Effect.trans ?_ (modRq ..).any
        refine Effect.trans ?_ (mod _ _ (f := expireTask junk) id)
        refine ((printk k _).mono fun q hq => ?_).trans ((printk _ _).mono fun q hq => ?_)
        · cases hq
        · exact (Option.some.inj hq).symm
      · rintro q rfl
        exact ⟨⟨rfl, hts, hpol⟩, hslice⟩
    · refine Effect.any (((printk k _).mono fun q hq => ?_).trans
        (mod_same _ _ ⟨rfl, rfl, rfl, rfl, id⟩))
      cases hq
  · exact refl _ k
  · exact (reschedCurr k cpu).any

theorem doSchedYield (k : Kernel) (cpu : Nat) :
    Effect (· = (k.rq cpu).curr) k (doSchedYield k cpu) := by
  unfold Sched.doSchedYield yieldTaskTs
  split_ifs
  · refine (modRq ..).any.trans ((printk _ _).mono fun q hq => ?_)
    exact (Option.some.inj hq).symm
  · exact refl _ k

theorem tryToWakeUpLocal (k : Kernel) (cpu : Nat) (p : Pid) (hook : Bool) :
    Effect (fun q => q = p ∧ (k.task p).cpu = cpu ∧ p ≠ (k.rq cpu).curr
      ∧ (k.task p).state &&& taskNormal ≠ 0 ∧ taskOnRqQueued (k.task p) = false) k
      (tryToWakeUpLocal k cpu p hook) := by
  simp only [Sched.tryToWakeUpLocal]
  split_ifs with hplace hstate hq
  · exact refl _ k
  · exact refl _ k
  · exact (ttwuDoWakeup ..).any
  · obtain ⟨hcpu, hcurr⟩ := not_or.mp hplace
    refine ((ttwuActivate ..).trans (ttwuDoWakeup ..).any).mono ?_
    rintro q rfl
    exact ⟨rfl, not_not.mp hcpu, hcurr, hstate, by simpa using hq⟩

/-- The first half of `__schedule` touches the task that blocks and the
worker it wakes. -/
theorem schedBlock (k : Kernel) (cpu : Nat) (preempt signalPending : Bool) (wake : Option Pid)
    (hook : Bool) (picks : SchedClass → ClassPick) :
    Effect (fun q => (q = (k.rq cpu).curr ∧ preempt = false ∧ signalPending = false
        ∧ (k.task q).state ≠ taskRunning)
      ∨ Wakes k q (.schedule cpu preempt signalPending wake hook picks)) k
      (schedBlock k cpu preempt signalPending wake hook) := by
  rcases schedBlock_cases k cpu preempt signalPending wake hook with
    heq | heq | ⟨hpre, hsig, hstate, heq⟩ <;> rw [heq]
  · exact refl _ k
  · exact (mod_same k _ (f := fun t => { t with state := taskRunning })
      ⟨rfl, rfl, rfl, rfl, id⟩).any
  · have hblock := (blockedKernel k cpu).mono (Y := fun q => (q = (k.rq cpu).curr
        ∧ preempt = false ∧ signalPending = false ∧ (k.task q).state ≠ taskRunning)
      ∨ Wakes k q (.schedule cpu preempt signalPending wake hook picks)) (by
        rintro q rfl
        exact Or.inl ⟨rfl, hpre, hsig, hstate⟩)
    cases wake with
    | none => exact hblock
    | some w =>
        refine hblock.trans ((tryToWakeUpLocal _ cpu w hook).mono ?_)
        rintro q ⟨rfl, hcpu, hcurr, hnormal, hq⟩
        rw [(blockedKernel_frame k cpu).curr] at hcurr
        rw [blockedKernel_task, Function.update_of_ne hcurr] at hcpu hnormal hq
        exact Or.inr ⟨rfl, hpre, hsig, hstate, hcpu, hcurr, hnormal, hq⟩

end Effect

/-! ## What renews a turn -/

theorem enqueueTask_renewed {k : Kernel} {cpu : Nat} {p : Pid} {flags : Nat}
    (hts : (k.task p).schedClass = .ts) : Renewed p k (enqueueTask k cpu p flags) := by
  rw [Renewed, enqueueTask_log, if_pos hts, stamp_renewed rfl]
  exact Nat.lt_succ_self _

/-- The bracket relinks a queued task that is in the class afterwards. -/
theorem saveRestore_renewed {k : Kernel} {p : Pid} {deqFlags enqFlags : Nat}
    {f : TaskStruct → TaskStruct} (hq : (k.task p).onRq = .queued)
    (hts : (f (k.task p)).schedClass = .ts) :
    Renewed p k (saveRestore k p deqFlags f enqFlags) := by
  have hdeq := (Effect.dequeueTask k (k.task p).cpu p deqFlags).log.length_le
  simp only [saveRestore, putPrevTask, setCurrTask, ite_self]
  rw [if_pos (by simpa [taskOnRqQueued] using hq), if_pos (by simpa [taskOnRqQueued] using hq)]
  refine lt_of_le_of_lt hdeq (enqueueTask_renewed (k := Kernel.mod _ p f) ?_)
  rwa [mod_task_self, dequeueTask_task]

/-- A renewal with nothing but effects on others behind it. -/
theorem Renewed.later {X : Pid → Prop} {q : Pid} {k k' k'' : Kernel} (h : Renewed q k k')
    (heff : Effect X k' k'') (hq : ¬X q) : Renewed q k k'' := by
  rw [Renewed, (heff.turn q hq).stamp]
  exact h

/-! ## The inversion of a step -/

/-- The operation brings `q` to runqueue `cpu`. -/
def Enters (k : Kernel) (q : Pid) (cpu : Nat) : Op → Prop
  | .wakeUpNewTask p dest _ => p = q ∧ dest = cpu
  | .tryToWakeUp p state dest hook => dest = cpu ∧ Wakes k q (.tryToWakeUp p state dest hook)
  | .schedule c preempt signalPending wake hook picks =>
      c = cpu ∧ Wakes k q (.schedule c preempt signalPending wake hook picks)
  | .moveQueuedTask p newCpu _ => p = q ∧ newCpu = cpu
  | _ => False

/-- The operation relinks the queued task `q` on its runqueue. -/
def Relinks (k : Kernel) (q : Pid) : Op → Prop
  | .schedYield cpu => (k.rq cpu).curr = q
  | .setUserNice p _ => p = q
  | .schedSetscheduler p _ _ _ _ _ => p = q
  | .doSetCpusAllowed p _ => p = q
  | _ => False

/-- The operation may take the queued task `q` out of the class or off its
runqueue. -/
def Leaves (k : Kernel) (q : Pid) : Op → Prop
  | .schedule cpu _ _ _ _ _ => (k.rq cpu).curr = q
  | .schedSetscheduler p _ _ _ _ _ => p = q
  | .rtMutexSetprio p _ _ _ => p = q
  | _ => False

/-- Everything one step can do to the turn of a task that exists. -/
inductive TurnStep (k k' : Kernel) (q : Pid) (op : Op) : Prop
  | same : SameTurn q k k' → TurnStep k k' q op
  | enter : Enters k q (k'.task q).cpu op → Renewed q k k' →
      (k'.task q).schedClass = (k.task q).schedClass → TurnStep k k' q op
  | relink : Relinks k q op → Renewed q k k' → (k.task q).onRq = .queued →
      (k'.task q).cpu = (k.task q).cpu → TurnStep k k' q op
  | expire : Expires k q op → Renewed q k k' → (k'.task q).cpu = (k.task q).cpu →
      TurnStep k k' q op
  | leave : Leaves k q op → ¬QueuedTs k' q → TurnStep k k' q op
  | stayOut : ¬QueuedTs k q → ¬QueuedTs k' q → TurnStep k k' q op

/-- Activation renews the turn of a TS task; a task of another class does
not come into the TS class by it. -/
theorem ttwuActivate_turn {k : Kernel} {p : Pid} (f : TaskStruct → TaskStruct) {dest : Nat}
    (hclass : (f (k.task p)).schedClass = (k.task p).schedClass)
    (hdest : (f (k.task p)).cpu = dest) (flags : Nat) :
    ((ttwuActivate (k.mod p f) dest p flags).task p).cpu = dest
      ∧ ((ttwuActivate (k.mod p f) dest p flags).task p).schedClass = (k.task p).schedClass
      ∧ ((k.task p).schedClass = .ts → Renewed p k (ttwuActivate (k.mod p f) dest p flags)) := by
  refine ⟨ttwuActivate_cpu hdest flags, ?_, fun hts => ?_⟩
  · obtain ⟨prio, hprio⟩ := enqueuedTask_frame flags (f (k.task p))
    rw [ttwuActivate_task, Function.update_self, mod_task_self, hprio]
    exact hclass
  · exact enqueueTask_renewed (k := k.mod p f) (by rw [mod_task_self, hclass, hts])

/-- A task that a step activates was not queued before. -/
theorem TurnStep.of_activated {k k' k₁ : Kernel} {q : Pid} {op : Op} {dest : Nat}
    (hoff : (k.task q).onRq ≠ .queued) (hcpu : (k₁.task q).cpu = dest)
    (hclass : (k₁.task q).schedClass = (k.task q).schedClass)
    (hrenew : (k.task q).schedClass = .ts → Renewed q k k₁) (heff : SameTurn q k₁ k')
    (henters : Enters k q dest op) : TurnStep k k' q op := by
  have hclass' := heff.schedClass.trans hclass
  by_cases hts : (k.task q).schedClass = .ts
  · have hren : Renewed q k k' := by
      rw [Renewed, heff.stamp]
      exact hrenew hts
    refine .enter ?_ hren hclass'
    rwa [heff.cpu, hcpu]
  · exact .stayOut (fun hq => hoff hq.2.1) fun hq => hts (hclass'.symm.trans hq.2.2)

/-- The switch changes at most flags and `on_cpu`. -/
theorem schedSwitch_turn (k : Kernel) (cpu : Nat) (next q : Pid) :
    SameTurn q k (schedSwitch k cpu next) := by
  obtain ⟨hq, hclass, hcpu, hprio⟩ := schedSwitch_keeps k cpu next q
  exact ⟨hq, hclass, hcpu, hprio, by rw [schedSwitch_log]⟩

theorem wakeUpNewTask_turnStep {k : Kernel} {p : Pid} (hoff : (k.task p).onRq = .off)
    (dest : Nat) (hook : Bool) :
    TurnStep k (wakeUpNewTask k p dest hook) p (.wakeUpNewTask p dest hook) := by
  obtain ⟨hcpu, hclass, hrenew⟩ := ttwuActivate_turn (k := k) (p := p)
    (fun t => { t with state := taskRunning, cpu := dest }) rfl rfl enqueueNoclock
  exact TurnStep.of_activated (by rw [hoff]; decide) hcpu hclass hrenew
    ((Effect.checkPreemptCurr _ dest p hook).turn p id) ⟨rfl, rfl⟩

theorem tryToWakeUp_turnStep {k : Kernel} {p : Pid} {state dest : Nat} {hook : Bool}
    (hwakes : Wakes k p (.tryToWakeUp p state dest hook)) :
    TurnStep k (tryToWakeUp k p state dest hook) p (.tryToWakeUp p state dest hook) := by
  have hnot : (k.task p).onRq ≠ .queued := by simpa [taskOnRqQueued] using hwakes.2.2
  rcases tryToWakeUp_cases k p state dest hook with heq | heq | ⟨-, -, heq⟩
  · rw [heq]
    exact .same (SameTurn.refl p k)
  · rw [heq]
    exact .same ((Effect.ttwuDoWakeup ..).turn p id)
  · obtain ⟨hcpu, hclass, hrenew⟩ := ttwuActivate_turn (k := k) (p := p)
      (fun t => { t with cpu := dest }) rfl rfl
      (enqueueWakeup ||| enqueueNoclock ||| if (k.task p).cpu = dest then 0 else enqueueMigrated)
    rw [heq]
    exact TurnStep.of_activated hnot hcpu hclass hrenew
      ((Effect.ttwuDoWakeup _ dest p hook).turn p id) ⟨rfl, hwakes⟩

/-- The first half of `__schedule` when it wakes a worker. -/
theorem schedBlock_wakes {k : Kernel} {w : Pid} {cpu : Nat} {preempt signalPending : Bool}
    {wake : Option Pid} {hook : Bool} {picks : SchedClass → ClassPick}
    (hwakes : Wakes k w (.schedule cpu preempt signalPending wake hook picks)) :
    schedBlock k cpu preempt signalPending wake hook =
      ttwuDoWakeup (ttwuActivate (blockedKernel k cpu) cpu w (enqueueWakeup ||| enqueueNoclock))
        cpu w hook := by
  obtain ⟨rfl, rfl, rfl, hstate, hcpu, hcurr, hnormal, hq⟩ := hwakes
  have htask : (blockedKernel k cpu).task w = k.task w := by
    rw [blockedKernel_task, Function.update_of_ne hcurr]
  have hlocal : schedBlock k cpu false false (some w) hook =
      tryToWakeUpLocal (blockedKernel k cpu) cpu w hook := by
    simp only [schedBlock]
    rw [if_pos ⟨rfl, hstate⟩, if_neg Bool.false_ne_true]
    rfl
  rw [hlocal]
  simp only [tryToWakeUpLocal]
  rw [htask, (blockedKernel_frame k cpu).curr, if_neg (not_or.mpr ⟨not_not.mpr hcpu, hcurr⟩),
    if_neg hnormal, if_neg (by rw [hq]; exact Bool.false_ne_true)]

theorem schedBlock_turnStep {k : Kernel} {w : Pid} {cpu : Nat} {preempt signalPending : Bool}
    {wake : Option Pid} {hook : Bool} {picks : SchedClass → ClassPick} (next : Pid)
    (hwakes : Wakes k w (.schedule cpu preempt signalPending wake hook picks)) :
    TurnStep k (schedSwitch (schedBlock k cpu preempt signalPending wake hook) cpu next) w
      (.schedule cpu preempt signalPending wake hook picks) := by
  have hcurr : w ≠ (k.rq cpu).curr := hwakes.2.2.2.2.2.1
  have htask : (blockedKernel k cpu).task w = k.task w := by
    rw [blockedKernel_task, Function.update_of_ne hcurr]
  have hplace : ((blockedKernel k cpu).task w).cpu = cpu := by
    rw [htask]
    exact hwakes.2.2.2.2.1
  obtain ⟨hcpu, hclass, hrenew⟩ := ttwuActivate_turn (k := blockedKernel k cpu) (p := w)
    id rfl hplace (enqueueWakeup ||| enqueueNoclock)
  rw [mod_id, htask] at hclass hrenew
  rw [mod_id] at hcpu
  refine TurnStep.of_activated ?_ hcpu hclass (fun hts => ?_) ?_ ⟨rfl, hwakes⟩
  · simpa [taskOnRqQueued] using hwakes.2.2.2.2.2.2.2
  · exact lt_of_le_of_lt (Effect.blockedKernel k cpu).log.length_le (hrenew hts)
  · rw [schedBlock_wakes hwakes]
    exact ((Effect.ttwuDoWakeup _ cpu w hook).turn w id).trans (schedSwitch_turn ..)

/-- The task that calls `__schedule` keeps its turn or is off the queue. -/
theorem schedule_prev_turnStep {k : Kernel} {cpu : Nat} {preempt signalPending : Bool}
    {wake : Option Pid} {hook : Bool} {picks : SchedClass → ClassPick} (next : Pid) :
    TurnStep k (schedSwitch (schedBlock k cpu preempt signalPending wake hook) cpu next)
      (k.rq cpu).curr (.schedule cpu preempt signalPending wake hook picks) := by
  have hswitch := schedSwitch_turn (schedBlock k cpu preempt signalPending wake hook) cpu next
    (k.rq cpu).curr
  rcases schedBlock_cases k cpu preempt signalPending wake hook with
    heq | heq | ⟨hpre, hsig, hstate, heq⟩
  · rw [heq] at hswitch ⊢
    exact .same hswitch
  · rw [heq] at hswitch ⊢
    exact .same (((Effect.mod_same k _ (f := fun t => { t with state := taskRunning })
      ⟨rfl, rfl, rfl, rfl, id⟩).turn _ id).trans hswitch)
  · refine .leave rfl fun hq => ?_
    -- it was dequeued, and the worker woken instead is another task
    have hoff : ((blockedKernel k cpu).task (k.rq cpu).curr).onRq = .off := by
      rw [blockedKernel_task, Function.update_self]
    have hlast : ((schedBlock k cpu preempt signalPending wake hook).task
        (k.rq cpu).curr).onRq = .off := by
      rw [heq]
      cases wake with
      | none => exact hoff
      | some w =>
          refine Eq.trans ?_ hoff
          refine ((Effect.tryToWakeUpLocal (blockedKernel k cpu) cpu w hook).turn _ ?_).onRq
          rintro ⟨hw, -, hne, -⟩
          rw [(blockedKernel_frame k cpu).curr] at hne
          exact hne hw.symm
    rw [QueuedTs, hswitch.onRq, hlast] at hq
    exact nomatch hq.2.1

/-- A slice that runs out renews the turn. -/
theorem Expires.renewed {k k' : Kernel} {q : Pid} {op : Op} (he : Expires k q op)
    (hstep : step k op = some k') : Renewed q k k' ∧ (k'.task q).cpu = (k.task q).cpu := by
  obtain ⟨hc, hslice⟩ := he
  cases op with
  | schedulerTick cpu hook junk =>
      obtain ⟨rfl, hts, hpol⟩ := hc
      obtain rfl := Option.some.inj hstep
      have heq : schedulerTick k cpu hook junk = expireTick k cpu (k.rq cpu).curr junk := by
        rcases schedulerTick_cases k cpu hook junk with ⟨-, -, heq⟩ | ⟨hnot, -⟩
        · rw [heq, if_pos hslice]
        · exact absurd ⟨hts, hpol⟩ hnot
      rw [heq]
      constructor
      · simp only [Renewed, expireTick, mod_log, modRq_log, printk_log]
        rw [stamp_renewed rfl, List.length_cons]
        omega
      · simp only [expireTick]
        rw [mod_task_self, modRq_task, mod_task_self]
        rfl
  | _ => exact hc.elim

theorem schedulerTick_turnStep (k : Kernel) (cpu : Nat) (hook : Bool) (junk : Nat) (q : Pid) :
    TurnStep k (schedulerTick k cpu hook junk) q (.schedulerTick cpu hook junk) := by
  by_cases he : Expires k q (.schedulerTick cpu hook junk)
  · obtain ⟨hren, hcpu⟩ := he.renewed rfl
    exact .expire he hren hcpu
  · exact .same ((Effect.schedulerTick k cpu hook junk).turn q he)

theorem doSchedYield_turnStep (k : Kernel) (cpu : Nat) (q : Pid)
    (hq : q = (k.rq cpu).curr → (k.task q).onRq = .queued) :
    TurnStep k (doSchedYield k cpu) q (.schedYield cpu) := by
  by_cases hcurr : q = (k.rq cpu).curr
  · by_cases hts : (k.task (k.rq cpu).curr).schedClass = .ts
    · refine .relink hcurr.symm ?_ (hq hcurr) ?_ <;> rw [doSchedYield, if_pos hts]
      · subst hcurr
        rw [Renewed, yieldTaskTs, printk_log, modRq_log, stamp_renewed rfl]
        exact Nat.lt_succ_self _
      · rfl
    · rw [doSchedYield, if_neg hts]
      exact .same (SameTurn.refl q k)
  · exact .same ((Effect.doSchedYield k cpu).turn q hcurr)

/-- A change of the task's fields inside the bracket. -/
theorem saveRestore_turnStep {k k' k₁ : Kernel} {p : Pid} {deqFlags enqFlags : Nat}
    {f : TaskStruct → TaskStruct} {op : Op} (hk₁ : k' = k₁ ∨ ∃ cpu, k' = reschedCurr k₁ cpu)
    (heq : k₁ = saveRestore k p deqFlags f enqFlags) (hlive : k₁.Live = k.Live)
    (htask : k₁.task p = f (k.task p)) (honRq : (f (k.task p)).onRq = (k.task p).onRq)
    (hcpu : (f (k.task p)).cpu = (k.task p).cpu)
    (hin : (f (k.task p)).schedClass = .ts → Relinks k p op)
    (hout : (f (k.task p)).schedClass ≠ .ts → Leaves k p op ∨ ¬QueuedTs k p) :
    TurnStep k k' p op := by
  have hlast : SameTurn p k₁ k' ∧ k'.Live = k₁.Live := by
    rcases hk₁ with rfl | ⟨cpu, rfl⟩
    · exact ⟨SameTurn.refl p _, rfl⟩
    · exact ⟨(Effect.reschedCurr k₁ cpu).turn p id, (Frame.reschedCurr k₁ cpu).live⟩
  have hqueued : QueuedTs k' p ↔ k.Live p ∧ (k.task p).onRq = .queued
      ∧ (f (k.task p)).schedClass = .ts := by
    rw [QueuedTs, hlast.2, hlive, hlast.1.onRq, hlast.1.schedClass, htask, honRq]
  by_cases hq : (k.task p).onRq = .queued
  · by_cases hts : (f (k.task p)).schedClass = .ts
    · refine .relink (hin hts) ?_ hq ?_
      · rw [Renewed, hlast.1.stamp, heq]
        exact saveRestore_renewed hq hts
      · rw [hlast.1.cpu, htask, hcpu]
    · have hno : ¬QueuedTs k' p := fun h => hts (hqueued.mp h).2.2
      rcases hout hts with hleave | hno'
      · exact .leave hleave hno
      · exact .stayOut hno' hno
  · exact .stayOut (fun h => hq h.2.1) fun h => hq (hqueued.mp h).2.1

theorem setUserNice_turnStep (k : Kernel) (p : Pid) (nice : Int) :
    TurnStep k (setUserNice k p nice) p (.setUserNice p nice) := by
  obtain ⟨prio, normal, hnice⟩ := setNice_frame (k.task p) nice
  have hstep : ∀ k', k' = niceKernel k p nice ∨ (∃ cpu, k' = reschedCurr (niceKernel k p nice) cpu)
      → TurnStep k k' p (.setUserNice p nice) := by
    intro k' hk'
    refine saveRestore_turnStep hk' rfl ?_ ?_ ?_ ?_ (fun _ => rfl) fun hts => Or.inr fun hq => ?_
    · exact (saveRestore_frame ..).live
    · rw [niceKernel_task, Function.update_self]
    · rw [hnice]
    · rw [hnice]
    · rw [hnice] at hts
      exact hts hq.2.2
  rcases setUserNice_cases k p nice with heq | ⟨-, -, -, heq⟩ | ⟨-, -, heq⟩ | ⟨-, -, heq⟩ <;>
    rw [heq]
  · exact .same (SameTurn.refl p k)
  · exact .same ((Effect.mod_same k p (f := fun t => { t with staticPrio := niceToPrio nice })
      ⟨rfl, rfl, rfl, rfl, id⟩).turn p id)
  · exact hstep _ (Or.inr ⟨_, rfl⟩)
  · exact hstep _ (Or.inl rfl)

theorem doSetCpusAllowed_turnStep (k : Kernel) (p : Pid) (newMask : Nat → Bool) :
    TurnStep k (doSetCpusAllowed k p newMask) p (.doSetCpusAllowed p newMask) := by
  refine saveRestore_turnStep (Or.inl rfl) rfl (saveRestore_frame ..).live ?_ rfl rfl
    (fun _ => rfl) fun hts => Or.inr fun hq => hts hq.2.2
  rw [doSetCpusAllowed, saveRestore_task k p _ _ restore_no_wakeup, Function.update_self]

theorem schedSetscheduler_turnStep {k k' : Kernel} {p : Pid} {attr : SchedAttr} {user pi : Bool}
    {env : SchedEnv} {hook : Bool} (h : schedSetscheduler k p attr user pi env hook = .ok k') :
    TurnStep k k' p (.schedSetscheduler p attr user pi env hook) := by
  obtain ⟨resetOnFork, ⟨-, rfl⟩ | ⟨-, rfl⟩⟩ := schedSetscheduler_ok h
  · exact .same ((Effect.mod_same k p (f := fun t => { t with schedResetOnFork := resetOnFork })
      ⟨rfl, rfl, rfl, rfl, id⟩).turn p id)
  · obtain ⟨static, normal, hparams, -⟩ :=
      setschedulerParams_frame { k.task p with schedResetOnFork := resetOnFork } attr
    rw [changePolicy_eq]
    have hlast : ∀ c oldprio, checkClassChanged (policyKernel k p attr resetOnFork pi)
          (k.task p).cpu p c oldprio hook = policyKernel k p attr resetOnFork pi
        ∨ ∃ cpu, checkClassChanged (policyKernel k p attr resetOnFork pi) (k.task p).cpu p c
          oldprio hook = Sched.reschedCurr (policyKernel k p attr resetOnFork pi) cpu := by
      intro c oldprio
      rcases checkClassChanged_cases (policyKernel k p attr resetOnFork pi) (k.task p).cpu p
        c oldprio hook with heq | heq
      · exact Or.inl heq
      · exact Or.inr ⟨_, heq⟩
    refine saveRestore_turnStep (hlast _ _) rfl (saveRestore_frame ..).live ?_ ?_ ?_
      (fun _ => rfl) fun _ => Or.inl rfl
    · rw [policyKernel_task, Function.update_self]
      rfl
    · rw [setscheduler_eq, hparams]
    · rw [setscheduler_eq, hparams]

theorem rtMutexSetprio_turnStep (k : Kernel) (p : Pid) (piTask : Option Pid)
    (dlPreempt hook : Bool) : TurnStep k (rtMutexSetprio k p piTask dlPreempt hook) p
      (.rtMutexSetprio p piTask dlPreempt hook) := by
  rcases rtMutexSetprio_cases k p piTask dlPreempt hook with heq | heq | ⟨-, heq⟩ <;> rw [heq]
  · exact .same (SameTurn.refl p k)
  · exact .same ((Effect.mod_same k p (f := fun t => { t with piTopTask := piTask })
      ⟨rfl, rfl, rfl, rfl, id⟩).turn p id)
  · -- the classes it decides between do not include the TS class
    refine .leave rfl fun hq => ?_
    have hclass := ((Effect.checkClassChanged (setprioKernel k p piTask dlPreempt) (k.task p).cpu p
      (k.task p).schedClass (k.task p).prio hook).turn p id).schedClass
    rw [setprioKernel_task, Function.update_self, setprioTask_eq] at hclass
    exact setprioClass_ne_ts _ (hclass.symm.trans hq.2.2)

/-- Migration relinks a TS task on the new runqueue. -/
theorem movedKernel_renewed {k : Kernel} {p : Pid} (hts : (k.task p).schedClass = .ts)
    (newCpu : Nat) : Renewed p k (movedKernel k p newCpu) := by
  let k₁ := k.mod p fun t => { t with onRq := .migrating }
  let k₂ := dequeueTask k₁ (k.task p).cpu p dequeueNoclock
  let k₃ := k₂.mod p fun t => { t with cpu := newCpu }
  have hlog : k.log.length ≤ k₃.log.length :=
    (Effect.dequeueTask k₁ (k.task p).cpu p dequeueNoclock).log.length_le
  have hclass : (k₃.task p).schedClass = .ts := by
    rw [mod_task_self, dequeueTask_task, mod_task_self]
    exact hts
  have hlast : Renewed p k₃ (enqueueTask k₃ newCpu p 0) := enqueueTask_renewed hclass
  exact lt_of_le_of_lt hlog hlast

theorem moveQueuedTask_turnStep (k : Kernel) (p : Pid) (newCpu : Nat) (hook : Bool) :
    TurnStep k (moveQueuedTask k p newCpu hook) p (.moveQueuedTask p newCpu hook) := by
  have heq : moveQueuedTask k p newCpu hook =
      checkPreemptCurr (movedKernel k p newCpu) newCpu p hook := rfl
  have hlast := (Effect.checkPreemptCurr (movedKernel k p newCpu) newCpu p hook).turn p id
  have htask : (movedKernel k p newCpu).task p =
      { k.task p with onRq := .queued, cpu := newCpu } := by
    rw [movedKernel_task, Function.update_self]
  have hclass : ((moveQueuedTask k p newCpu hook).task p).schedClass = (k.task p).schedClass :=
    hlast.schedClass.trans (by rw [htask])
  by_cases hts : (k.task p).schedClass = .ts
  · refine .enter ⟨rfl, ?_⟩ ?_ hclass
    · rw [heq, hlast.cpu, htask]
    · rw [heq, Renewed, hlast.stamp]
      exact movedKernel_renewed hts newCpu
  · exact .stayOut (fun h => hts h.2.2) fun h => hts (hclass.symm.trans h.2.2)

/-- Exchanging the stopper queues and unqueues no task. -/
theorem schedSetStopTask_onRq {k : Kernel} (hinv : Inv k) {cpu : Nat} {stop : Option Pid}
    (hstop : k.Parked stop) (env : SchedEnv) (hook : Bool) (q : Pid) :
    ((schedSetStopTask k cpu stop env hook).task q).onRq = (k.task q).onRq := by
  refine Eq.trans ?_ ((hinv.newStopper hstop env hook).2 q)
  rw [schedSetStopTask_eq]
  split
  · rename_i p hp
    by_cases hqp : q = p
    · subst hqp
      rw [mod_task_self]
      rfl
    · rw [mod_task, Function.update_of_ne hqp]
      rfl
  · rfl

/-- One step of the scheduler, seen from a task that exists. -/
theorem step_turn {k k' : Kernel} {op : Op} (hinv : Inv k) (h : step k op = some k') {q : Pid}
    (hq : k.Live q) : TurnStep k k' q op := by
  cases step_cases h with
  | @schedFork cpu child hchild =>
      have htask : (forkTask k cpu child).task q = k.task q := forkTask_task hchild hq
      refine .same ⟨by rw [htask], by rw [htask], by rw [htask], by rw [htask], ?_⟩
      unfold forkTask
      split <;> rfl
  | @wakeUpNewTask p dest hook hp hnew hoff =>
      by_cases hqp : q = p
      · subst hqp
        exact wakeUpNewTask_turnStep hoff dest hook
      · exact .same ((Effect.wakeUpNewTask k p dest hook).turn q hqp)
  | @tryToWakeUp p state dest hook hp =>
      by_cases hwakes : Wakes k q (.tryToWakeUp p state dest hook)
      · obtain rfl : p = q := hwakes.1
        exact tryToWakeUp_turnStep hwakes
      · exact .same ((Effect.tryToWakeUp k p state dest hook).turn q hwakes)
  | @setCurrentState cpu state hproc =>
      exact .same ((Effect.mod_same k _ (f := fun t => { t with state := state })
        ⟨rfl, rfl, rfl, rfl, id⟩).turn q id)
  | @schedule cpu preempt signalPending wake hook picks next hwake hnext =>
      by_cases hwakes : Wakes k q (.schedule cpu preempt signalPending wake hook picks)
      · exact schedBlock_turnStep next hwakes
      by_cases hcurr : q = (k.rq cpu).curr
      · subst hcurr
        exact schedule_prev_turnStep next
      · have hblock := (Effect.schedBlock k cpu preempt signalPending wake hook picks).turn q
          (not_or.mpr ⟨fun hb => hcurr hb.1, hwakes⟩)
        exact .same (hblock.trans (schedSwitch_turn ..))
  | schedulerTick => exact schedulerTick_turnStep k _ _ _ q
  | @schedYield cpu =>
      refine doSchedYield_turnStep k cpu q fun hcurr => ?_
      subst hcurr
      exact ((hinv.tasks _ hq).current cpu rfl).2.resolve_right fun he => nomatch he
  | @setUserNice p nice hp =>
      by_cases hqp : q = p
      · subst hqp
        exact setUserNice_turnStep k q nice
      · exact .same ((Effect.setUserNice k p nice).turn q hqp)
  | @schedSetscheduler p attr user pi env hook _ hp hok =>
      by_cases hqp : q = p
      · subst hqp
        exact schedSetscheduler_turnStep hok
      · exact .same ((Effect.schedSetscheduler hok).turn q hqp)
  | schedSetschedulerError => exact .same (SameTurn.refl q k)
  | @rtMutexSetprio p piTask dlPreempt hook hp hpi =>
      by_cases hqp : q = p
      · subst hqp
        exact rtMutexSetprio_turnStep k q piTask dlPreempt hook
      · exact .same ((Effect.rtMutexSetprio k p piTask dlPreempt hook).turn q hqp)
  | @doSetCpusAllowed p newMask hp =>
      by_cases hqp : q = p
      · subst hqp
        exact doSetCpusAllowed_turnStep k q newMask
      · exact .same ((Effect.doSetCpusAllowed k p newMask).turn q hqp)
  | @moveQueuedTask p newCpu hook hp hpq hoff =>
      by_cases hqp : q = p
      · subst hqp
        exact moveQueuedTask_turnStep k q newCpu hook
      · exact .same ((Effect.moveQueuedTask k p newCpu hook).turn q hqp)
  | @schedSetStopTask cpu stop env hook hnew hold =>
      by_cases hstop : stop = some q ∨ (k.rq cpu).stop = some q
      · -- a stopper is parked when it is exchanged
        have hoff : (k.task q).onRq ≠ .queued := by
          rcases hstop with hs | hs
          · simpa [taskOnRqQueued] using (hnew q hs).2
          · simpa [taskOnRqQueued] using (hold q hs).2
        refine .stayOut (fun hqq => hoff hqq.2.1) fun hqq => hoff ?_
        rw [← schedSetStopTask_onRq hinv hnew env hook]
        exact hqq.2.1
      · exact .same ((Effect.schedSetStopTask k cpu stop env hook).turn q hstop)

/-! ## What every step leaves alone -/

/-- The operation is a call of `__schedule` on `cpu`. -/
def Schedules (cpu : Nat) : Op → Prop
  | .schedule c _ _ _ _ _ => c = cpu
  | _ => False

/-- The log grows at its end only; only `__schedule` changes which task
runs on a CPU, and only for that task does it take a request to reschedule
back. -/
structure Onward (k k' : Kernel) (op : Op) : Prop where
  log : k.log <:+ k'.log
  curr : ∀ cpu, ¬Schedules cpu op → k'.curr cpu = k.curr cpu
  flag : ∀ q, k.Live q → (∀ cpu, Schedules cpu op → k.curr cpu ≠ q) →
    (k.task q).needResched = true → (k'.task q).needResched = true

theorem Effect.onward {X : Pid → Prop} {k k' : Kernel} {op : Op} (h : Effect X k k')
    (hframe : Frame k k') : Onward k k' op :=
  ⟨h.log, fun cpu _ => hframe.curr cpu, fun q _ _ hq => h.flag q hq⟩

theorem step_onward {k k' : Kernel} {op : Op} (h : step k op = some k') : Onward k k' op := by
  cases step_cases h with
  | @schedFork cpu child hchild =>
      refine ⟨?_, fun c _ => ?_, fun q hq _ hflag => ?_⟩
      · unfold forkTask
        split <;> exact List.suffix_refl _
      · unfold Kernel.curr forkTask
        split <;> rfl
      · rwa [forkTask_task hchild hq]
  | wakeUpNewTask => exact (Effect.wakeUpNewTask ..).onward (wakeUpNewTask_frame ..)
  | tryToWakeUp => exact (Effect.tryToWakeUp ..).onward (tryToWakeUp_frame ..)
  | @setCurrentState cpu state =>
      exact (Effect.mod_same k _ (f := fun t => { t with state := state })
        ⟨rfl, rfl, rfl, rfl, id⟩).onward (Frame.mod ..)
  | @schedule cpu preempt signalPending wake hook picks next =>
      have hblock := Effect.schedBlock k cpu preempt signalPending wake hook picks
      have hframe := schedBlock_frame k cpu preempt signalPending wake hook
      refine ⟨?_, fun c hc => ?_, fun q _ hq hflag => ?_⟩
      · rw [schedSwitch_log]
        exact hblock.log
      · rw [schedSwitch_curr, Function.update_of_ne fun he => hc he.symm]
        exact hframe.curr c
      · have hne : q ≠ (k.rq cpu).curr := fun he => hq cpu rfl he.symm
        rw [schedSwitch_task, hframe.curr, if_neg hne]
        split_ifs <;> exact hblock.flag q hflag
  | schedulerTick => exact (Effect.schedulerTick ..).onward (schedulerTick_frame ..)
  | schedYield => exact (Effect.doSchedYield ..).onward (doSchedYield_frame ..)
  | setUserNice => exact (Effect.setUserNice ..).onward (setUserNice_frame ..)
  | schedSetscheduler _ hok =>
      exact (Effect.schedSetscheduler hok).onward (schedSetscheduler_frame hok)
  | schedSetschedulerError => exact (Effect.refl nobody k).onward (Frame.refl k)
  | rtMutexSetprio => exact (Effect.rtMutexSetprio ..).onward (rtMutexSetprio_frame ..)
  | doSetCpusAllowed => exact (Effect.doSetCpusAllowed ..).onward (saveRestore_frame ..)
  | moveQueuedTask => exact (Effect.moveQueuedTask ..).onward (moveQueuedTask_frame ..)
  | @schedSetStopTask cpu stop env hook =>
      have heff := Effect.schedSetStopTask k cpu stop env hook
      refine ⟨heff.log, fun c _ => ?_, fun q _ _ hq => heff.flag q hq⟩
      have hnew := (newStopper_frame k stop env hook).curr c
      refine Eq.trans ?_ hnew
      rw [schedSetStopTask_eq]
      unfold Kernel.curr
      by_cases hc : c = cpu
      · subst hc
        split <;> simp
      · split <;> simp [hc]

end Sched

end Comp4511
