import Comp4511.SchedInv

/-!
# Every reachable state is well formed

Each operation keeps `Inv`, so every reachable state has it
(`Reachable.inv`); the same for the parameters of every task
(`Reachable.taskOk`). What the two say about the lists of the TS class is
the last section: a task is on exactly one of the forty lists when it is
queued in the class, on none otherwise.
-/

namespace Comp4511

namespace Sched

open ListTable

/-! ## Picking and switching -/

/-- A task that is picked is queued on the CPU, or is its idle thread. -/
theorem classPickNextTask_mem {picks : SchedClass → ClassPick} {k : Kernel} {cpu : Nat}
    {prev : Pid} {c : SchedClass} {next : Pid}
    (h : (classPickNextTask picks k cpu prev c).1 = some next) :
    next = (k.rq cpu).idle ∨ ∃ s, next ∈ (k.rq cpu).queue s := by
  cases c
  case idle => exact Or.inl (Option.some.inj h).symm
  case ts =>
    simp only [classPickNextTask, pickNextTaskTs, putPrevTask] at h
    split_ifs at h
    exact Or.inr ⟨_, List.mem_of_mem_head? h⟩
  all_goals exact Or.inr ⟨_, (picks _).mem h⟩

theorem pickNextTask_mem {picks : SchedClass → ClassPick} {k : Kernel} {cpu : Nat}
    {prev next : Pid} (h : (pickNextTask picks k cpu prev).1 = some next) :
    next = (k.rq cpu).idle ∨ ∃ s, next ∈ (k.rq cpu).queue s := by
  rw [pickNextTask_eq] at h
  obtain ⟨c, -, hc⟩ := pickLoop_from h
  exact classPickNextTask_mem hc

/-- In a state with the invariant the candidates are queued on the CPU. -/
theorem InvBut.candidate {x : Option Pid} {k : Kernel} (h : InvBut x k) {cpu : Nat}
    {next : Pid} (hnext : next = (k.rq cpu).idle ∨ ∃ s, next ∈ (k.rq cpu).queue s) :
    k.Live next ∧ (k.task next).onRq = .queued ∧ (k.task next).cpu = cpu := by
  rcases hnext with rfl | ⟨s, hs⟩
  · rw [h.idle cpu]
    obtain ⟨hq, hcpu, -⟩ := (h.tasks (.swapper cpu) trivial).swapper cpu rfl
    exact ⟨trivial, hq, hcpu⟩
  · have hloc := (h.linked.mem (cpu, s) next).mp hs
    have hlive : k.Live next := live_of_loc hloc
    rw [loc_of_live hlive] at hloc
    obtain ⟨hq, -, hi⟩ := slot_eq_some hloc
    exact ⟨hlive, hq, (Prod.mk.inj hi).1.symm⟩

/-- The context switch writes the flag and `on_cpu` of the two tasks. -/
theorem schedSwitch_task (k : Kernel) (cpu : Nat) (next q : Pid) :
    (schedSwitch k cpu next).task q =
      if q = (k.rq cpu).curr then
        { k.task q with
          needResched := false
          onCpu := if (k.rq cpu).curr = next then (k.task q).onCpu else false }
      else if q = next then { k.task q with onCpu := true }
      else k.task q := by
  simp only [schedSwitch]
  by_cases hnext : (k.rq cpu).curr = next
  · subst hnext
    by_cases hq : q = (k.rq cpu).curr
    · subst hq; simp [clearTskNeedResched]
    · simp [hq]
  · by_cases hq : q = (k.rq cpu).curr
    · subst hq; simp [hnext, clearTskNeedResched]
    · by_cases hqn : q = next
      · subst hqn; simp [hq, hnext]
      · simp [hq, hqn, hnext]

theorem schedSwitch_log (k : Kernel) (cpu : Nat) (next : Pid) :
    (schedSwitch k cpu next).log = k.log := by
  simp only [schedSwitch]
  split_ifs <;> rfl

theorem schedSwitch_curr (k : Kernel) (cpu : Nat) (next : Pid) :
    (schedSwitch k cpu next).curr = Function.update k.curr cpu next := by
  funext c
  simp only [schedSwitch]
  by_cases hnext : (k.rq cpu).curr = next
  · subst hnext
    by_cases hc : c = cpu
    · subst hc; simp [Kernel.curr]
    · simp [Kernel.curr, hc]
  · by_cases hc : c = cpu
    · subst hc; simp [Kernel.curr, hnext]
    · simp [Kernel.curr, hnext, hc]

theorem schedSwitch_queue (k : Kernel) (cpu : Nat) (next : Pid) (c : Nat) :
    ∃ curr, (schedSwitch k cpu next).rq c = { k.rq c with curr := curr } := by
  simp only [schedSwitch]
  split_ifs
  · by_cases hc : c = cpu
    · subst hc; exact ⟨next, by simp⟩
    · exact ⟨(k.rq c).curr, by simp [hc]⟩
  · exact ⟨(k.rq c).curr, by simp⟩

/-- After the switch `on_cpu` is set for the task running on its CPU. -/
theorem TaskInv.onCpu_schedSwitch {k : Kernel} {cpu : Nat} {q next : Pid}
    (h : TaskInv (some (k.curr cpu)) k.curr q (k.task q)) (hcpu : (k.task next).cpu = cpu) :
    ((schedSwitch k cpu next).task q).onCpu = true ↔
      Function.update k.curr cpu next ((schedSwitch k cpu next).task q).cpu = q := by
  rw [schedSwitch_task]
  by_cases hprev : q = (k.rq cpu).curr
  · have hqc : (k.task q).cpu = cpu := (h.current cpu hprev.symm).1
    rw [if_pos hprev]
    simp only [hqc, Function.update_self]
    by_cases hn : (k.rq cpu).curr = next
    · rw [if_pos hn, h.onCpu, hqc]
      exact iff_of_true hprev.symm (hn.symm.trans hprev.symm)
    · rw [if_neg hn]
      refine iff_of_false Bool.false_ne_true fun he => hn ?_
      exact hprev.symm.trans he.symm
  rw [if_neg hprev]
  by_cases hqn : q = next
  · subst hqn
    rw [if_pos rfl]
    simp only [hcpu, Function.update_self]
  rw [if_neg hqn, h.onCpu]
  by_cases hqc : (k.task q).cpu = cpu
  · rw [hqc, Function.update_self]
    exact iff_of_false (fun he => hprev he.symm) fun he => hqn he.symm
  · rw [Function.update_of_ne hqc]

/-- The switch puts a queued task in the place of the one that may have
blocked, so no task is exempt any more. -/
theorem TaskInv.schedSwitch {k : Kernel} {cpu : Nat} {q next : Pid}
    (h : TaskInv (some (k.curr cpu)) k.curr q (k.task q))
    (hq : (k.task next).onRq = .queued) (hcpu : (k.task next).cpu = cpu) :
    TaskInv none (Function.update k.curr cpu next) q ((schedSwitch k cpu next).task q) := by
  refine ⟨?_, ?_, ?_, ?_, h.onCpu_schedSwitch hcpu⟩
  · rw [schedSwitch_task]
    split_ifs <;> exact h.class_idle
  · rw [schedSwitch_task]
    split_ifs <;> exact h.settled
  · intro c hc
    have hsw := h.swapper c hc
    rw [schedSwitch_task]
    split_ifs <;> exact hsw
  · intro c hc
    rw [schedSwitch_task]
    by_cases hcc : c = cpu
    · subst hcc
      rw [Function.update_self] at hc
      subst hc
      split_ifs <;> exact ⟨hcpu, Or.inl hq⟩
    · rw [Function.update_of_ne hcc] at hc
      obtain ⟨hqc, hqq⟩ := h.current c hc
      have hne : q ≠ k.curr cpu := by
        intro he
        exact hcc (hqc.symm.trans (h.current cpu he.symm).1)
      have hqueued : (k.task q).onRq = .queued :=
        hqq.resolve_right fun he => hne (Option.some.inj he).symm
      split_ifs <;> exact ⟨hqc, Or.inl hqueued⟩

/-- Switching to a queued task restores the invariant after a block. -/
theorem InvBut.schedSwitch {k : Kernel} {cpu : Nat} (h : InvBut (some (k.curr cpu)) k)
    {next : Pid} (hlive : k.Live next) (hq : (k.task next).onRq = .queued)
    (hcpu : (k.task next).cpu = cpu) : Inv (schedSwitch k cpu next) := by
  have hlv : (Sched.schedSwitch k cpu next).Live = k.Live :=
    Kernel.live_congr (schedSwitch_procs k cpu next)
  have hslot : ∀ q, ((Sched.schedSwitch k cpu next).task q).slot = (k.task q).slot := by
    intro q
    rw [schedSwitch_task]
    split_ifs <;> rfl
  have hlists : (Sched.schedSwitch k cpu next).lists = k.lists := by
    funext i
    obtain ⟨curr, hrq⟩ := schedSwitch_queue k cpu next i.1
    simp only [Kernel.lists, hrq]
  refine ⟨?_, ?_, fun c => ?_, fun q hqlive => ?_, fun c => ?_, fun c => ?_⟩
  · rw [hlists]
    exact h.linked.congr (loc_congr hlv fun q _ => hslot q)
  · rw [InOrder, hlists, schedSwitch_log]
    exact h.ordered
  · obtain ⟨curr, hrq⟩ := schedSwitch_queue k cpu next c
    rw [hrq]
    exact h.counts c
  · rw [hlv] at hqlive
    rw [schedSwitch_curr]
    exact (h.tasks q hqlive).schedSwitch hq hcpu
  · obtain ⟨curr, hrq⟩ := schedSwitch_queue k cpu next c
    rw [hrq]
    exact h.idle c
  · rw [hlv, schedSwitch_curr]
    by_cases hc : c = cpu
    · subst hc
      rw [Function.update_self]
      exact hlive
    · rw [Function.update_of_ne hc]
      exact h.curr c

/-! ## Blocking -/

theorem InvBut.weaken {x : Option Pid} {k : Kernel} (h : Inv k) : InvBut x k :=
  { h with tasks := fun q hq => (h.tasks q hq).weaken }

theorem InvBut.ttwuDoWakeup {x : Option Pid} {k : Kernel} (h : InvBut x k) (cpu : Nat)
    (p : Pid) (hook : Bool) : InvBut x (ttwuDoWakeup k cpu p hook) :=
  (h.checkPreemptCurr cpu p hook).setRunning p

theorem InvBut.tryToWakeUpLocal {x : Option Pid} {k : Kernel} (h : InvBut x k) (cpu : Nat)
    {p : Pid} (hp : k.Named p) (hx : x = some (k.curr cpu)) (hook : Bool) :
    InvBut x (tryToWakeUpLocal k cpu p hook) := by
  simp only [Sched.tryToWakeUpLocal]
  split_ifs with hplace hstate hq
  · exact h
  · exact h
  · exact h.ttwuDoWakeup cpu p hook
  · obtain ⟨hcpu, hcurr⟩ := not_or.mp hplace
    refine InvBut.ttwuDoWakeup ?_ cpu p hook
    rw [← mod_id k p]
    refine h.ttwuActivate hp.1 hp.2 (by simpa [taskOnRqQueued] using hq) ?_ rfl rfl
      (not_not.mp hcpu) _
    rw [hx]
    exact fun he => hcurr (Option.some.inj he).symm

theorem Inv.blockedKernel {k : Kernel} (h : Inv k) {cpu : Nat}
    (hstate : (k.task (k.curr cpu)).state ≠ taskRunning) :
    InvBut (some (k.curr cpu)) (blockedKernel k cpu) := by
  have hlive := h.curr cpu
  have hprev := h.tasks _ hlive
  obtain ⟨hcpu, hq⟩ := hprev.current cpu rfl
  have hq : (k.task (k.curr cpu)).onRq = .queued := hq.resolve_right fun he => nomatch he
  have hproc : (k.curr cpu).isProc = true := by
    cases hcurr : k.curr cpu with
    | swapper c => exact absurd (hprev.swapper c hcurr).2.2 hstate
    | proc n => rfl
  have hout := (h.dequeueTask hlive hproc hq (dequeueSleep ||| dequeueNoclock)).mod
    (fun t => { t with onRq := .off })
  rw [hcpu] at hout
  refine (hout.weaken (x := some (k.curr cpu))).close ?_ ?_
  · rw [mod_task_self]
    simp
  · rw [mod_task_self, dequeueTask_task, mod_curr, (dequeueTask_frame ..).curr_eq]
    refine ⟨hprev.class_idle, by simp, ?_, ?_, hprev.onCpu⟩
    · intro c hc
      rw [hc] at hproc
      cases hproc
    · exact fun c hc => ⟨(hprev.current c hc).1, Or.inr rfl⟩

theorem Inv.schedBlock {k : Kernel} (h : Inv k) (cpu : Nat) (preempt signalPending : Bool)
    {wake : Option Pid} (hwake : ∀ w ∈ wake, k.Named w) (hook : Bool) :
    InvBut (some (k.curr cpu)) (schedBlock k cpu preempt signalPending wake hook) := by
  rcases schedBlock_cases k cpu preempt signalPending wake hook with
    heq | heq | ⟨-, -, hstate, heq⟩ <;> rw [heq]
  · exact InvBut.weaken h
  · exact InvBut.setRunning (InvBut.weaken h) _
  · have hblocked := h.blockedKernel hstate
    have hframe := blockedKernel_frame k cpu
    cases wake with
    | none => exact hblocked
    | some w =>
        refine hblocked.tryToWakeUpLocal cpu ?_ (by rw [hframe.curr_eq]) hook
        rw [Kernel.Named, hframe.live]
        exact hwake w rfl

theorem Inv.schedule {k : Kernel} (h : Inv k) {cpu : Nat} {preempt signalPending : Bool}
    {wake : Option Pid} {hook : Bool} {picks : SchedClass → ClassPick} {next : Pid}
    (hwake : ∀ w ∈ wake, k.Named w)
    (hnext : (pickNextTask picks (Sched.schedBlock k cpu preempt signalPending wake hook) cpu
      (k.rq cpu).curr).1 = some next) :
    Inv (schedSwitch (Sched.schedBlock k cpu preempt signalPending wake hook) cpu next) := by
  have hblock := h.schedBlock cpu preempt signalPending hwake hook
  have hframe := schedBlock_frame k cpu preempt signalPending wake hook
  obtain ⟨hlive, hq, hcpu⟩ := hblock.candidate (pickNextTask_mem hnext)
  rw [← hframe.curr_eq] at hblock
  exact hblock.schedSwitch hlive hq hcpu

/-! ## Fork, wakeups, ticks, yields, migration -/

theorem Inv.forkTask {k : Kernel} (h : Inv k) (cpu : Nat) {child : Nat}
    (hchild : child ∉ k.procs) : Inv (forkTask k cpu child) := by
  unfold Sched.forkTask
  split
  · rename_i t ht
    obtain ⟨hoff, hcpu, honCpu, hidle⟩ := schedFork_place ht
    have hne : ∀ q, k.Live q → q ≠ .proc child := by
      rintro q hq rfl
      exact hchild hq
    have hsplit : ∀ q, Kernel.Live { k with
        task := Function.update k.task (.proc child) t
        procs := insert child k.procs } q → q = .proc child ∨ k.Live q := by
      intro q hq
      cases q with
      | swapper c => exact Or.inr trivial
      | proc n => exact (Finset.mem_insert.mp hq).imp (fun he => by rw [he]) id
    have hmono : ∀ q, k.Live q → Kernel.Live { k with
        task := Function.update k.task (.proc child) t
        procs := insert child k.procs } q := by
      intro q hq
      cases q with
      | swapper c => trivial
      | proc n => exact Finset.mem_insert_of_mem hq
    refine ⟨h.linked.congr fun q => ?_, h.ordered, h.counts, fun q hq => ?_, h.idle,
      fun c => hmono _ (h.curr c)⟩
    · by_cases hq : k.Live q
      · rw [loc_of_live hq, loc_of_live (hmono q hq)]
        simp [hne q hq]
      · rw [Kernel.loc, Kernel.loc, if_neg hq]
        split_ifs with hq'
        · obtain rfl := (hsplit q hq').resolve_right hq
          simpa using slot_of_not_queued (by rw [hoff]; decide)
        · rfl
    · rcases hsplit q hq with rfl | hq'
      · have hnot : ∀ c, k.curr c ≠ .proc child := fun c => hne _ (h.curr c)
        simp only [Function.update_self]
        refine ⟨iff_of_false hidle (by simp [Pid.isProc]), by rw [hoff]; decide, ?_, ?_, ?_⟩
        · rintro c ⟨⟩
        · exact fun c hc => absurd hc (hnot c)
        · exact iff_of_false (by rw [honCpu]; decide) (hnot _)
      · simp only [Function.update_of_ne (hne q hq')]
        exact h.tasks q hq'
  · exact h

theorem Inv.wakeUpNewTask {k : Kernel} (h : Inv k) {p : Pid} (hp : k.Named p)
    (hoff : (k.task p).onRq = .off) (dest : Nat) (hook : Bool) :
    Inv (wakeUpNewTask k p dest hook) := by
  refine InvBut.checkPreemptCurr ?_ dest p hook
  refine InvBut.ttwuActivate h hp.1 hp.2 (by rw [hoff]; decide) (fun he => nomatch he)
    ?_ ?_ ?_ enqueueNoclock
  all_goals rfl

theorem Inv.tryToWakeUp {k : Kernel} (h : Inv k) {p : Pid} (hp : k.Named p)
    (state dest : Nat) (hook : Bool) : Inv (tryToWakeUp k p state dest hook) := by
  rcases tryToWakeUp_cases k p state dest hook with heq | heq | ⟨-, hq, heq⟩ <;> rw [heq]
  · exact h
  · exact InvBut.ttwuDoWakeup h _ p hook
  · refine InvBut.ttwuDoWakeup ?_ dest p hook
    refine InvBut.ttwuActivate h hp.1 hp.2 hq (fun he => nomatch he) ?_ ?_ ?_ _
    all_goals rfl

theorem Inv.setState {k : Kernel} (h : Inv k) {p : Pid} (hp : p.isProc = true)
    (state : Nat) : Inv (k.mod p fun t => { t with state := state }) := by
  refine InvBut.mod h (fun hlive => ?_) rfl
  have hold := h.tasks p hlive
  refine { hold with swapper := ?_ }
  rintro c rfl
  cases hp

/-- A tick that uses up the slice of the current task. -/
theorem Inv.expireTick {k : Kernel} (h : Inv k) {cpu : Nat}
    (hts : (k.task (k.curr cpu)).schedClass = .ts) (junk : Nat) :
    Inv (expireTick k cpu (k.curr cpu) junk) := by
  obtain ⟨hcpu, hq⟩ := (h.tasks _ (h.curr cpu)).current cpu rfl
  have hq : (k.task (k.curr cpu)).onRq = .queued := hq.resolve_right fun he => nomatch he
  have hlog : InvBut none (k.printk (.tick (k.curr cpu) (k.task (k.curr cpu)).timeSlice
      (k.task (k.curr cpu)).prio)) := InvBut.printk h rfl
  have hmove := hlog.moveTail (p := k.curr cpu) (f := expireTask junk) (h.curr cpu) hq hts
    ⟨rfl, rfl, rfl, Iff.rfl, Or.inl rfl⟩ hts
    (.expire (k.curr cpu) (expirePrio (k.task (k.curr cpu)).prio)) rfl
  simp only [printk_task, hcpu] at hmove
  exact hmove.mod
    (fun hlive => (hmove.tasks _ hlive).congr ⟨rfl, rfl, rfl, Iff.rfl, Or.inl rfl⟩) rfl

theorem Inv.schedulerTick {k : Kernel} (h : Inv k) (cpu : Nat) (hook : Bool) (junk : Nat) :
    Inv (schedulerTick k cpu hook junk) := by
  rcases schedulerTick_cases k cpu hook junk with ⟨hts, -, heq⟩ | ⟨-, heq | ⟨-, heq⟩⟩ <;>
    rw [heq]
  · split_ifs
    · exact h.expireTick hts junk
    · have hlog : InvBut none (k.printk (.tick (k.rq cpu).curr
          (k.task (k.rq cpu).curr).timeSlice (k.task (k.rq cpu).curr).prio)) :=
        InvBut.printk h rfl
      exact hlog.mod
        (fun hlive => (hlog.tasks _ hlive).congr ⟨rfl, rfl, rfl, Iff.rfl, Or.inl rfl⟩) rfl
  · exact h
  · exact InvBut.reschedCurr h cpu

theorem Inv.doSchedYield {k : Kernel} (h : Inv k) (cpu : Nat) : Inv (doSchedYield k cpu) := by
  unfold Sched.doSchedYield
  split_ifs with hts
  · obtain ⟨hcpu, hq⟩ := (h.tasks _ (h.curr cpu)).current cpu rfl
    have hq : (k.task (k.curr cpu)).onRq = .queued := hq.resolve_right fun he => nomatch he
    have hmove := InvBut.moveTail h (p := k.curr cpu) (f := id) (h.curr cpu) hq hts
      ⟨rfl, rfl, rfl, Iff.rfl, Or.inl rfl⟩ hts
      (.yield (k.curr cpu) (k.task (k.curr cpu)).prio) rfl
    rw [mod_id, hcpu] at hmove
    exact hmove
  · exact h

/-- A dequeue does not see the fields of the task other than its class and
priority. -/
theorem dequeueTask_mod (k : Kernel) (cpu : Nat) (p : Pid) (flags : Nat)
    {f : TaskStruct → TaskStruct} (hclass : (f (k.task p)).schedClass = (k.task p).schedClass)
    (hprio : (f (k.task p)).prio = (k.task p).prio) :
    dequeueTask (k.mod p f) cpu p flags = (dequeueTask k cpu p flags).mod p f := by
  unfold dequeueTask
  rw [mod_task_self, hclass]
  split
  · simp only [dequeueTaskTs, modRq_task, mod_task_self, hprio]
    rfl
  · rfl

theorem Inv.moveQueuedTask {k : Kernel} (h : Inv k) {p : Pid} (hp : k.Named p)
    (hq : (k.task p).onRq = .queued) (hoff : (k.task p).onCpu = false) (newCpu : Nat)
    (hook : Bool) : Inv (moveQueuedTask k p newCpu hook) := by
  have hold := h.tasks p hp.1
  have hidle := hold.not_idle hp.2
  have hnot := h.not_current_of_onCpu hp.1 hoff
  simp only [Sched.moveQueuedTask]
  refine InvBut.checkPreemptCurr ?_ newCpu p hook
  rw [dequeueTask_mod k _ p dequeueNoclock rfl rfl]
  have hout := ((h.dequeueTask hp.1 hp.2 hq dequeueNoclock).mod
    (fun t => { t with onRq := .migrating })).mod (fun t => { t with cpu := newCpu })
  have hput := hout.enqueueTask newCpu 0 (g := fun t => { t with onRq := .queued })
  rw [enqueuedTask_of_no_wakeup (by decide)] at hput
  simp only [mod_task_self, mod_curr, dequeueTask_task, (dequeueTask_frame ..).curr_eq] at hput
  refine hput ?_ hidle ?_
  · exact slot_of_queued (t := { k.task p with onRq := .queued, cpu := newCpu }) rfl hidle
  · refine ⟨hold.class_idle, by simp, ?_, ?_, ?_⟩
    · rintro c rfl
      cases hp.2
    · exact fun c hc => absurd hc (hnot c)
    · exact iff_of_false (by simp only [hoff]; decide) (hnot _)

/-! ## Changes of the parameters -/

theorem samePlace_setNice (t : TaskStruct) (nice : Int) : SamePlace t (setNice t nice) := by
  obtain ⟨prio, normal, heq⟩ := setNice_frame t nice
  rw [heq]
  exact ⟨rfl, rfl, rfl, Iff.rfl, Or.inl rfl⟩

theorem samePlace_setscheduler {t : TaskStruct} (hidle : t.schedClass ≠ .idle)
    (resetOnFork : Bool) (attr : SchedAttr) (donor : Option Int) (pi : Bool) :
    SamePlace t (setscheduler { t with schedResetOnFork := resetOnFork } attr donor pi) := by
  rw [setscheduler_eq]
  obtain ⟨static, normal, heq, -⟩ :=
    setschedulerParams_frame { t with schedResetOnFork := resetOnFork } attr
  rw [heq]
  exact ⟨rfl, rfl, rfl, iff_of_false (classOf_ne_idle _ _) hidle, Or.inl rfl⟩

theorem samePlace_setprioTask {t : TaskStruct} (hidle : t.schedClass ≠ .idle) (prio : Int) :
    SamePlace t (setprioTask t prio) := by
  rw [setprioTask_eq]
  exact ⟨rfl, rfl, rfl, iff_of_false (setprioClass_ne_idle prio) hidle, Or.inl rfl⟩

theorem Inv.setUserNice {k : Kernel} (h : Inv k) {p : Pid} (hp : k.Named p) (nice : Int) :
    Inv (setUserNice k p nice) := by
  have hnice : Inv (niceKernel k p nice) :=
    InvBut.saveRestore h hp.1 hp.2 _ (samePlace_setNice _ nice) restore_no_wakeup
  rcases setUserNice_cases k p nice with heq | ⟨-, -, -, heq⟩ | ⟨-, -, heq⟩ | ⟨-, -, heq⟩ <;>
    rw [heq]
  · exact h
  · exact InvBut.mod h
      (fun hlive => (h.tasks p hlive).congr ⟨rfl, rfl, rfl, Iff.rfl, Or.inl rfl⟩) rfl
  · exact InvBut.reschedCurr hnice _
  · exact hnice

theorem Inv.schedSetscheduler {k k' : Kernel} (h : Inv k) {p : Pid} (hp : k.Named p)
    {attr : SchedAttr} {user pi : Bool} {env : SchedEnv} {hook : Bool}
    (hok : schedSetscheduler k p attr user pi env hook = .ok k') : Inv k' := by
  obtain ⟨resetOnFork, ⟨-, rfl⟩ | ⟨-, rfl⟩⟩ := schedSetscheduler_ok hok
  · exact InvBut.mod h
      (fun hlive => (h.tasks p hlive).congr ⟨rfl, rfl, rfl, Iff.rfl, Or.inl rfl⟩) rfl
  · have hidle := (h.tasks p hp.1).not_idle hp.2
    rw [changePolicy_eq]
    refine InvBut.checkClassChanged ?_ _ p _ _ hook
    exact InvBut.saveRestore h hp.1 hp.2 _
      (samePlace_setscheduler hidle resetOnFork attr (donorPrio k p) pi)
      (setschedulerFlags_no_wakeup ..)

theorem Inv.rtMutexSetprio {k : Kernel} (h : Inv k) {p : Pid} (hlive : k.Live p)
    (piTask : Option Pid) (dlPreempt hook : Bool) :
    Inv (rtMutexSetprio k p piTask dlPreempt hook) := by
  have hpi : Inv (k.mod p fun t => { t with piTopTask := piTask }) := InvBut.mod h
    (fun hlive => (h.tasks p hlive).congr ⟨rfl, rfl, rfl, Iff.rfl, Or.inl rfl⟩) rfl
  rcases rtMutexSetprio_cases k p piTask dlPreempt hook with heq | heq | ⟨hset, heq⟩ <;> rw [heq]
  · exact h
  · exact hpi
  · have hproc : p.isProc = true := by
      cases p with
      | swapper c =>
          obtain ⟨-, hcpu, -⟩ := (h.tasks _ hlive).swapper c rfl
          exact absurd (by rw [hcpu, h.idle]) hset.2
      | proc n => rfl
    have hidle := (h.tasks p hlive).not_idle hproc
    refine InvBut.checkClassChanged ?_ _ p _ _ hook
    refine InvBut.saveRestore hpi hlive hproc _ ?_ (setprioFlags_no_wakeup ..)
    rw [mod_task_self]
    exact samePlace_setprioTask (t := { k.task p with piTopTask := piTask }) hidle _

/-! ## The stopper -/

theorem reschedCurr_onRq (k : Kernel) (cpu : Nat) (q : Pid) :
    ((reschedCurr k cpu).task q).onRq = (k.task q).onRq := by
  rw [reschedCurr_task]
  by_cases hq : q = (k.rq cpu).curr
  · subst hq
    rw [Function.update_self]
    rfl
  · rw [Function.update_of_ne hq]

/-- A policy change queues and unqueues no task. -/
theorem schedSetscheduler_onRq {k k' : Kernel} {p : Pid} {attr : SchedAttr}
    {user pi : Bool} {env : SchedEnv} {hook : Bool}
    (hidle : (k.task p).schedClass ≠ .idle)
    (hok : schedSetscheduler k p attr user pi env hook = .ok k') (q : Pid) :
    (k'.task q).onRq = (k.task q).onRq := by
  obtain ⟨resetOnFork, ⟨-, rfl⟩ | ⟨-, rfl⟩⟩ := schedSetscheduler_ok hok
  · by_cases hq : q = p
    · subst hq
      rw [mod_task_self]
    · rw [mod_task, Function.update_of_ne hq]
  · have hsame : ((policyKernel k p attr resetOnFork pi).task q).onRq = (k.task q).onRq := by
      rw [policyKernel_task]
      by_cases hq : q = p
      · subst hq
        rw [Function.update_self]
        exact (samePlace_setscheduler hidle resetOnFork attr (donorPrio k q) pi).onRq
      · rw [Function.update_of_ne hq]
    rw [changePolicy_eq]
    rcases checkClassChanged_cases (policyKernel k p attr resetOnFork pi) (k.task p).cpu p
      (k.task p).schedClass (k.task p).prio hook with heq | heq <;> rw [heq]
    · exact hsame
    · rw [reschedCurr_onRq]
      exact hsame

/-- A change of the class of a task that is not queued. -/
theorem Inv.setClass {k : Kernel} (h : Inv k) {p : Pid} (hp : k.Named p)
    (hq : (k.task p).onRq ≠ .queued) {c : SchedClass} (hc : c ≠ .idle) :
    Inv (k.mod p fun t => { t with schedClass := c }) := by
  have hidle := (h.tasks p hp.1).not_idle hp.2
  refine InvBut.mod h (fun hlive => ?_) ?_
  · exact (h.tasks p hlive).congr ⟨rfl, rfl, rfl, iff_of_false hc hidle, Or.inl rfl⟩
  · rw [slot_of_not_queued (t := k.task p) hq]
    exact slot_of_not_queued hq

theorem Inv.newStopper {k : Kernel} (h : Inv k) {stop : Option Pid} (hstop : k.Parked stop)
    (env : SchedEnv) (hook : Bool) :
    Inv (newStopper k stop env hook)
      ∧ ∀ q, ((newStopper k stop env hook).task q).onRq = (k.task q).onRq := by
  cases stop with
  | none => exact ⟨h, fun q => rfl⟩
  | some p =>
      obtain ⟨hp, hq⟩ := hstop p rfl
      have hq : (k.task p).onRq ≠ .queued := by simpa [taskOnRqQueued] using hq
      have hidle := (h.tasks p hp.1).not_idle hp.2
      simp only [Sched.newStopper]
      split
      · rename_i k' hok
        have hrq := schedSetscheduler_onRq hidle hok
        have hinv := h.schedSetscheduler hp hok
        refine ⟨hinv.setClass ?_ (by rwa [hrq]) (by decide), fun q => ?_⟩
        · rw [Kernel.Named, (schedSetscheduler_frame hok).live]
          exact hp
        · rw [← hrq q]
          by_cases hqp : q = p
          · subst hqp
            rw [mod_task_self]
          · rw [mod_task, Function.update_of_ne hqp]
      · refine ⟨h.setClass hp hq (by decide), fun q => ?_⟩
        by_cases hqp : q = p
        · subst hqp
          rw [mod_task_self]
        · rw [mod_task, Function.update_of_ne hqp]

theorem Inv.setStop {k : Kernel} (h : Inv k) (cpu : Nat) (stop : Option Pid) :
    Inv (k.modRq cpu fun rq => { rq with stop := stop }) := by
  have hrq : ∀ c, ∃ s, (k.modRq cpu fun rq => { rq with stop := stop }).rq c =
      { k.rq c with stop := s } := by
    intro c
    by_cases hc : c = cpu
    · subst hc
      exact ⟨stop, by simp⟩
    · exact ⟨(k.rq c).stop, by simp [hc]⟩
  have hlists : (k.modRq cpu fun rq => { rq with stop := stop }).lists = k.lists := by
    funext i
    obtain ⟨s, hs⟩ := hrq i.1
    simp only [Kernel.lists, hs]
  have hcurr : (k.modRq cpu fun rq => { rq with stop := stop }).curr = k.curr := by
    funext c
    obtain ⟨s, hs⟩ := hrq c
    simp only [Kernel.curr, hs]
  refine ⟨?_, ?_, fun c => ?_, fun q hq => ?_, fun c => ?_, fun c => ?_⟩
  · rw [hlists]
    exact h.linked
  · rw [InOrder, hlists]
    exact h.ordered
  · obtain ⟨s, hs⟩ := hrq c
    rw [hs]
    exact h.counts c
  · rw [hcurr]
    exact h.tasks q hq
  · obtain ⟨s, hs⟩ := hrq c
    rw [hs]
    exact h.idle c
  · rw [hcurr]
    exact h.curr c

theorem Inv.schedSetStopTask {k : Kernel} (h : Inv k) {cpu : Nat} {stop : Option Pid}
    (hstop : k.Parked stop) (hold : k.Parked (k.rq cpu).stop) (env : SchedEnv)
    (hook : Bool) : Inv (schedSetStopTask k cpu stop env hook) := by
  obtain ⟨hnew, hrq⟩ := h.newStopper hstop env hook
  have hset := hnew.setStop cpu stop
  rw [schedSetStopTask_eq]
  split
  · rename_i p hp
    obtain ⟨hnamed, hq⟩ := hold p hp
    refine hset.setClass ?_ ?_ (by decide)
    · have hprocs : ((Sched.newStopper k stop env hook).modRq cpu
          fun rq => { rq with stop := stop }).procs = k.procs :=
        (newStopper_frame k stop env hook).procs
      rw [Kernel.Named, Kernel.live_congr hprocs]
      exact hnamed
    · rw [modRq_task, hrq p]
      simpa [taskOnRqQueued] using hq
  · exact hset

/-! ## Steps and runs -/

theorem inv_step {k k' : Kernel} {op : Op} (h : Inv k) (hstep : step k op = some k') :
    Inv k' := by
  cases step_cases hstep with
  | schedFork hchild => exact h.forkTask _ hchild
  | wakeUpNewTask hp _ hoff => exact h.wakeUpNewTask hp hoff _ _
  | tryToWakeUp hp => exact h.tryToWakeUp hp _ _ _
  | setCurrentState hp => exact h.setState hp _
  | schedule next hwake hnext => exact h.schedule hwake hnext
  | schedulerTick => exact h.schedulerTick _ _ _
  | schedYield => exact h.doSchedYield _
  | setUserNice hp => exact h.setUserNice hp _
  | schedSetscheduler hp hok => exact h.schedSetscheduler hp hok
  | schedSetschedulerError => exact h
  | rtMutexSetprio hp _ => exact h.rtMutexSetprio hp _ _ _
  | doSetCpusAllowed hp =>
      exact InvBut.saveRestore h hp.1 hp.2 _ ⟨rfl, rfl, rfl, Iff.rfl, Or.inl rfl⟩
        restore_no_wakeup
  | moveQueuedTask hp hq hoff => exact h.moveQueuedTask hp hq hoff _ _
  | schedSetStopTask hstop hold => exact h.schedSetStopTask hstop hold _ _

theorem inv_boot : Inv boot := by
  have hqueue : ∀ i, boot.lists i = [] := by
    rintro ⟨c, s⟩
    cases s with
    | ts i => simp [Kernel.lists, boot, bootRq, initTsRq]
    | cls c => rfl
  have hloc : ∀ p, boot.loc p = none := by
    intro p
    cases p with
    | swapper c => rfl
    | proc n => rfl
  refine ⟨⟨fun i p => ?_, fun i => ?_⟩, fun i _ => ?_, fun c => ⟨rfl, rfl⟩, fun p hp => ?_,
    fun c => rfl, fun c => trivial⟩
  · rw [hqueue, hloc]
    simp
  · rw [hqueue]
    exact List.nodup_nil
  · rw [hqueue]
    exact List.Pairwise.nil
  · cases p with
    | swapper c =>
        have hq : (boot.task (.swapper c)).onRq = .queued := rfl
        refine ⟨iff_of_true rfl rfl, by rw [hq]; decide, ?_, ?_, ?_⟩
        · rintro c' ⟨⟩
          exact ⟨rfl, rfl, rfl⟩
        · rintro c' ⟨⟩
          exact ⟨rfl, Or.inl rfl⟩
        · exact iff_of_true rfl rfl
    | proc n => exact absurd hp (Finset.notMem_empty n)

theorem Reachable.inv {k : Kernel} (h : Reachable k) : Inv k :=
  Lts.Reaches.inv (fun _ _ _ hi hs => inv_step hi hs) h inv_boot

/-! ## The parameters -/

theorem TaskOk.congr {t t' : TaskStruct} (h : TaskOk t) (hs : SameParams t t') : TaskOk t' where
  static := by rw [hs.staticPrio]; exact h.static
  normal_le := by rw [hs.normalPrio]; exact h.normal_le
  prio_le := by rw [hs.prio]; exact h.prio_le
  ts_ge hts := by rw [hs.prio]; exact h.ts_ge (hs.schedClass.symm.trans hts)
  ts_policy hts := hs.policy.trans (h.ts_policy (hs.schedClass.symm.trans hts))
  slice_pos := by rw [hs.timeSlice]; exact h.slice_pos
  slice_le := by rw [hs.timeSlice]; exact h.slice_le

theorem taskOk_wokenTask {t : TaskStruct} (h : TaskOk t) : TaskOk (wokenTask t) := by
  have hflag : enqueueWakeup &&& enqueueWakeup ≠ 0 := by decide
  rw [← enqueuedTask_of_wakeup hflag]
  exact taskOk_enqueuedTask h enqueueWakeup

/-- The decrement of a slice that has not run out does not wrap. -/
theorem timeSlice_sub_one {s : UInt32} (h : 1 ≤ s.toNat) : (s - 1).toNat = s.toNat - 1 :=
  UInt32.toNat_sub_of_le _ _ (UInt32.le_iff_toNat_le.mpr h)

theorem taskOk_tick {t : TaskStruct} (h : TaskOk t) (hslice : t.timeSlice - 1 ≠ 0) :
    TaskOk { t with timeSlice := t.timeSlice - 1 } := by
  have hsub := timeSlice_sub_one h.slice_pos
  have hne : (t.timeSlice - 1).toNat ≠ 0 := fun he => hslice (UInt32.toNat_inj.mp he)
  have hle := h.slice_le
  exact { h with
    slice_pos := by simp only; omega
    slice_le := by simp only [hsub]; omega }

/-- The new slice of an expired task is the quantum of its new level. -/
theorem expireTask_slice {t : TaskStruct} (h : TsRange t.prio) (junk : Nat) :
    ∃ q, prioTimeslice (expirePrio t.prio) = some q ∧ 4 ≤ q ∧ q ≤ 16
      ∧ (expireTask junk t).timeSlice.toNat = q := by
  obtain ⟨q, hq, hlo, hhi⟩ := prioTimeslice_range (expirePrio_range h)
  refine ⟨q, hq, hlo, hhi, ?_⟩
  simp only [expireTask, hq, Option.getD_some]
  exact UInt32.toNat_ofNat_of_lt' (lt_of_le_of_lt hhi (by decide))

theorem taskOk_expireTask {t : TaskStruct} (h : TaskOk t) (hts : t.schedClass = .ts)
    (junk : Nat) : TaskOk (expireTask junk t) := by
  obtain ⟨q, -, hlo, hhi, hslice⟩ := expireTask_slice (h.tsRange hts) junk
  obtain ⟨hge, hle⟩ := expirePrio_range (h.tsRange hts)
  exact { h with
    prio_le := hle
    ts_ge := fun _ => hge
    slice_pos := by omega
    slice_le := by omega }

theorem taskOk_stopper {t t' : TaskStruct} (h : TaskOk t) (hs : StopperTask t t') :
    TaskOk t' := by
  obtain ⟨base, c, hc, hbase, hto⟩ := hs
  have hcts : c ≠ .ts := by rcases hc with rfl | rfl <;> decide
  have hok : TaskOk base := by
    rcases hbase with hb | ⟨resetOnFork, attr, donor, pi, hb⟩
    · exact h.congr hb
    · exact (taskOk_setscheduler
        (t := { t with schedResetOnFork := resetOnFork })
        ⟨h.static, h.normal_le, h.prio_le, h.ts_ge, h.ts_policy, h.slice_pos, h.slice_le⟩
        attr donor pi).congr hb
  refine TaskOk.congr ?_ hto
  exact { hok with
    ts_ge := fun hts => absurd hts hcts
    ts_policy := fun hts => absurd hts hcts }

theorem taskOk_static {t : TaskStruct} (h : TaskOk t) {static : Int}
    (hs : TsRange static) : TaskOk { t with staticPrio := static } :=
  ⟨hs, h.normal_le, h.prio_le, h.ts_ge, h.ts_policy, h.slice_pos, h.slice_le⟩

theorem taskOk_policyTask {k : Kernel} {p : Pid} (h : TaskOk (k.task p))
    (attr : SchedAttr) (resetOnFork pi : Bool) :
    TaskOk (policyTask k p attr resetOnFork pi) := by
  have hreset : TaskOk { k.task p with schedResetOnFork := resetOnFork } :=
    ⟨h.static, h.normal_le, h.prio_le, h.ts_ge, h.ts_policy, h.slice_pos, h.slice_le⟩
  exact taskOk_setscheduler hreset attr (donorPrio k p) pi

/-- A step keeps the parameters of a task in order. -/
theorem TaskStep.taskOk {k : Kernel} {q : Pid} {t : TaskStruct} {op : Op}
    (hstep : TaskStep k q t op) (h : TaskOk (k.task q)) : TaskOk t := by
  cases hstep with
  | keep _ hto => exact h.congr hto
  | wakeup _ hto => exact (taskOk_wokenTask h).congr hto
  | tick _ hslice hto => exact (taskOk_tick h hslice).congr hto
  | expire hc _ hto =>
      obtain ⟨-, hts, -⟩ := hc
      exact (taskOk_expireTask h hts _).congr hto
  | renice hren hto =>
      obtain ⟨-, hlo, hhi, hdl, hrt⟩ := hren
      exact (taskOk_setNice h hdl hrt ⟨hlo, hhi⟩).congr hto
  | reniceRt hnice _ hto =>
      exact (taskOk_static h (niceToPrio_range hnice)).congr hto
  | policy _ _ hto => exact (taskOk_policyTask h ..).congr hto
  | setprio _ hto =>
      exact (taskOk_setprioTask h
        (le_trans (rtEffectivePrio_le _ _) h.normal_le)).congr hto
  | stopper _ hto => exact taskOk_stopper h hto

/-- Every task that exists has its parameters in order. -/
def TasksOk (k : Kernel) : Prop := ∀ p, k.Live p → TaskOk (k.task p)

theorem tasksOk_step {k k' : Kernel} {op : Op} (hinv : Inv k) (h : TasksOk k)
    (hstep : step k op = some k') : TasksOk k' := by
  intro p hp
  rcases step_live hstep hp with hlive | ⟨cpu, child, -, rfl, -, hfork⟩
  · exact (step_task hstep hlive).taskOk (h p hlive)
  · exact (taskOk_schedFork (h _ (hinv.curr cpu)) hfork).1

theorem tasksOk_boot : TasksOk boot := by
  intro p hp
  cases p with
  | swapper c =>
      exact
        { static := ⟨(by decide : (100 : Int) ≤ 120), (by decide : (120 : Int) ≤ 139)⟩
          normal_le := (by decide : (120 : Int) ≤ 139)
          prio_le := (by decide : (120 : Int) ≤ 139)
          ts_ge := fun hts => nomatch hts
          ts_policy := fun hts => nomatch hts
          slice_pos := (by decide : 1 ≤ (12 : UInt32).toNat)
          slice_le := (by decide : (12 : UInt32).toNat ≤ 16) }
  | proc n => exact absurd hp (Finset.notMem_empty n)

theorem Reachable.tasksOk {k : Kernel} (h : Reachable k) : TasksOk k :=
  (Lts.Reaches.inv (I := fun k => Inv k ∧ TasksOk k)
    (fun _ _ _ hi hs => ⟨inv_step hi.1 hs, tasksOk_step hi.1 hi.2 hs⟩)
    h ⟨inv_boot, tasksOk_boot⟩).2

/-! ## The lists of the TS class -/

/-- The task is queued in the TS class. -/
def QueuedTs (k : Kernel) (p : Pid) : Prop :=
  k.Live p ∧ (k.task p).onRq = .queued ∧ (k.task p).schedClass = .ts

instance (k : Kernel) : DecidablePred (QueuedTs k) :=
  fun _ => inferInstanceAs (Decidable (_ ∧ _ ∧ _))

theorem InvBut.mem_ts {x : Option Pid} {k : Kernel} (h : InvBut x k) (cpu : Nat) (i : Int)
    (p : Pid) : p ∈ (k.rq cpu).queue (.ts i) ↔
      QueuedTs k p ∧ cpu = (k.task p).cpu ∧ i = prioQueue (k.task p).prio := by
  rw [show (k.rq cpu).queue (.ts i) = k.lists (cpu, .ts i) from rfl, h.linked.mem]
  constructor
  · intro hloc
    have hlive : k.Live p := live_of_loc hloc
    rw [loc_of_live hlive] at hloc
    obtain ⟨hq, -, hi⟩ := slot_eq_some hloc
    obtain ⟨hcpu, hslot⟩ := Prod.mk.inj hi
    unfold TaskStruct.queueSlot at hslot
    split_ifs at hslot with hts
    exact ⟨⟨hlive, hq, hts⟩, hcpu, Slot.ts.inj hslot⟩
  · rintro ⟨⟨hlive, hq, hts⟩, rfl, rfl⟩
    rw [loc_of_live hlive, slot_of_queued hq (by rw [hts]; decide), TaskStruct.queueSlot,
      if_pos hts]

/-- The representation of the TS runqueue: a task queued in the class is
once on the list `queue[139 - prio]` of its CPU and on no other, the index
is one of the forty, and any other task is on no list. -/
theorem ts_lists_represent {k : Kernel} (h : Reachable k) (p : Pid) :
    (QueuedTs k p → 0 ≤ 139 - (k.task p).prio ∧ 139 - (k.task p).prio ≤ 39
      ∧ ∀ cpu i, ((k.rq cpu).queue (.ts i)).count p =
        if cpu = (k.task p).cpu ∧ i = 139 - (k.task p).prio then 1 else 0)
    ∧ (¬QueuedTs k p → ∀ cpu i, ((k.rq cpu).queue (.ts i)).count p = 0) := by
  have hinv := h.inv
  have hprio : ∀ prio, prioQueue prio = 139 - prio := fun prio => by
    unfold prioQueue
    omega
  constructor
  · intro hq
    have hrange := ((h.tasksOk p hq.1).tsRange hq.2.2)
    refine ⟨by have := hrange.2; omega, by have := hrange.1; omega, fun cpu i => ?_⟩
    rw [← hprio]
    split_ifs with hi
    · exact List.count_eq_one_of_mem (hinv.linked.nodup (cpu, .ts i))
        ((hinv.mem_ts cpu i p).mpr ⟨hq, hi⟩)
    · exact List.count_eq_zero_of_not_mem fun hmem => hi ((hinv.mem_ts cpu i p).mp hmem).2
  · intro hq cpu i
    exact List.count_eq_zero_of_not_mem fun hmem => hq ((hinv.mem_ts cpu i p).mp hmem).1

/-- A run that leaves one TS task queued behind the idle thread. -/
def tsRun : List Op :=
  [.schedFork 0 0,
    .schedSetscheduler (.proc 0) (schedCopyAttr (some 10) 0 0 0) false true SchedEnv.root false,
    .wakeUpNewTask (.proc 0) 0 false]

/-- What a decidable property of the state at the end of a run of labels
says about a reachable state. -/
theorem exists_reachable (ops : List Op) {P : Kernel → Prop} [DecidablePred P]
    (h : (Lts.exec step boot ops).any (fun k => decide (P k)) = true) :
    ∃ k, Reachable k ∧ P k := by
  obtain ⟨k, hk, hP⟩ := (Option.any_eq_true _ _).mp h
  exact ⟨k, Lts.exec_reaches hk, of_decide_eq_true hP⟩

/-- After that run the new task is on the list of nice 0 and on no other. -/
theorem ts_lists_represent_tsRun : ∃ k, Reachable k ∧ QueuedTs k (.proc 0)
    ∧ 0 ≤ 139 - (k.task (.proc 0)).prio ∧ 139 - (k.task (.proc 0)).prio ≤ 39
    ∧ ∀ cpu i, ((k.rq cpu).queue (.ts i)).count (.proc 0) =
      if cpu = (k.task (.proc 0)).cpu ∧ i = 139 - (k.task (.proc 0)).prio then 1 else 0 := by
  obtain ⟨k, hk, hq⟩ := exists_reachable tsRun (P := fun k => QueuedTs k (.proc 0))
    (by decide)
  exact ⟨k, hk, hq, (ts_lists_represent hk (.proc 0)).1 hq⟩

end Sched

end Comp4511
