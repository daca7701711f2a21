import Comp4511.SchedPick

/-!
# Preemption inside the TS class

A TS task may only keep the CPU, without a request to reschedule, while
no TS task queued there has a better priority (`NoMissed`). Everything
that can break this has to set `need_resched` on its own: a wakeup or a
migration by the preemption check, a renice by its own comparison, an
expiry by flagging the task itself, and `__schedule` by picking the best.
All of them do (`no_missed_preemption`).

A policy change does not: `switched_to_ts` and `prio_changed_ts` are
empty, where the RT class's hooks compare priorities and reschedule.
`setscheduler_preempts_iff` says when the outcome is right anyway.
-/

namespace Comp4511

namespace Sched

/-! ## What the property reads -/

/-- The fields the property reads are the same, and a pending request to
reschedule stays. -/
structure SameView (t t' : TaskStruct) : Prop where
  onRq : t'.onRq = t.onRq
  schedClass : t'.schedClass = t.schedClass
  cpu : t'.cpu = t.cpu
  prio : t'.prio = t.prio
  flag : t.needResched = true → t'.needResched = true

theorem SameView.refl (t : TaskStruct) : SameView t t := ⟨rfl, rfl, rfl, rfl, id⟩

theorem SameView.trans {t t' t'' : TaskStruct} (h : SameView t t') (h' : SameView t' t'') :
    SameView t t'' :=
  ⟨h'.onRq.trans h.onRq, h'.schedClass.trans h.schedClass, h'.cpu.trans h.cpu,
    h'.prio.trans h.prio, fun hf => h'.flag (h.flag hf)⟩

theorem SameView.clear {t t' : TaskStruct} (h : SameView t t')
    (hf : t'.needResched = false) : t.needResched = false := by
  by_contra hne
  rw [h.flag (by simpa using hne)] at hf
  cases hf

theorem SameView.queuedTs {k k' : Kernel} (hlive : k'.Live = k.Live) {q : Pid}
    (h : SameView (k.task q) (k'.task q)) : QueuedTs k' q ↔ QueuedTs k q := by
  unfold QueuedTs
  rw [hlive, h.onRq, h.schedClass]

theorem sameView_mod {k : Kernel} {p : Pid} {f : TaskStruct → TaskStruct}
    (hf : SameView (k.task p) (f (k.task p))) (q : Pid) :
    SameView (k.task q) ((k.mod p f).task q) := by
  by_cases hq : q = p
  · subst hq
    rw [mod_task_self]
    exact hf
  · rw [mod_task, Function.update_of_ne hq]
    exact SameView.refl _

theorem sameView_reschedCurr (k : Kernel) (cpu : Nat) (q : Pid) :
    SameView (k.task q) ((reschedCurr k cpu).task q) :=
  sameView_mod ⟨rfl, rfl, rfl, rfl, fun _ => rfl⟩ q

theorem sameView_checkPreemptCurr (k : Kernel) (cpu : Nat) (p : Pid) (hook : Bool) (q : Pid) :
    SameView (k.task q) ((checkPreemptCurr k cpu p hook).task q) := by
  rcases checkPreemptCurr_cases k cpu p hook with heq | heq <;> rw [heq]
  · exact SameView.refl _
  · exact sameView_reschedCurr k cpu q

theorem sameView_ttwuDoWakeup (k : Kernel) (cpu : Nat) (p : Pid) (hook : Bool) (q : Pid) :
    SameView (k.task q) ((ttwuDoWakeup k cpu p hook).task q) := by
  simp only [ttwuDoWakeup]
  exact (sameView_checkPreemptCurr k cpu p hook q).trans
    (sameView_mod ⟨rfl, rfl, rfl, rfl, id⟩ q)

/-! ## The property -/

/-- No preemption is missed on any CPU, the tasks `x` apart: where a TS
task runs without a request to reschedule, no queued TS task is better. -/
def NoMissedBut (x : Option Pid) (k : Kernel) : Prop :=
  ∀ cpu, QueuedTs k (k.rq cpu).curr → (k.task (k.rq cpu).curr).needResched = false →
    ∀ q, x ≠ some q → QueuedTs k q → (k.task q).cpu = cpu →
      (k.task (k.rq cpu).curr).prio ≤ (k.task q).prio

def NoMissed (k : Kernel) : Prop := NoMissedBut none k

/-- The property depends on the view of the tasks only. -/
theorem NoMissedBut.congr {x y : Option Pid} {k k' : Kernel} (h : NoMissedBut x k)
    (hframe : Frame k k') (hxy : ∀ q, y ≠ some q → x ≠ some q)
    (hcurr : ∀ cpu, y ≠ some (k.curr cpu))
    (hview : ∀ q, y ≠ some q → SameView (k.task q) (k'.task q)) : NoMissedBut y k' := by
  intro cpu hts hflag q hy hq hcpu
  rw [hframe.curr] at hts hflag ⊢
  have hvc := hview _ (hcurr cpu)
  have hvq := hview q hy
  unfold Kernel.curr at hvc
  rw [hvc.queuedTs hframe.live] at hts
  rw [hvq.queuedTs hframe.live] at hq
  rw [hvc.prio, hvq.prio]
  exact h cpu hts (hvc.clear hflag) q (hxy q hy) hq (hvq.cpu.symm.trans hcpu)

theorem NoMissed.congr {k k' : Kernel} (h : NoMissed k) (hframe : Frame k k')
    (hview : ∀ q, SameView (k.task q) (k'.task q)) : NoMissed k' :=
  NoMissedBut.congr h hframe (fun _ hq => hq) (fun _ he => nomatch he) fun q _ => hview q

/-- The changes are confined to one CPU, whose current task is flagged. -/
theorem NoMissed.flagged {k k' : Kernel} (h : NoMissed k) (hinv : Inv k)
    (hframe : Frame k k') (cpu : Nat)
    (hflag : (k'.task (k.curr cpu)).needResched = true)
    (hcpu : ∀ q, (k'.task q).cpu = (k.task q).cpu)
    (hview : ∀ q, (k.task q).cpu ≠ cpu → SameView (k.task q) (k'.task q)) : NoMissed k' := by
  intro c hts hclear q _ hq hqc
  rw [hframe.curr] at hts hclear ⊢
  by_cases hc : c = cpu
  · subst hc
    rw [show (k.rq c).curr = k.curr c from rfl, hflag] at hclear
    cases hclear
  · have hcc : (k.task (k.rq c).curr).cpu = c :=
      ((hinv.tasks _ (hinv.curr c)).current c rfl).1
    rw [hcpu] at hqc
    have hvc := hview (k.rq c).curr (by rw [hcc]; exact hc)
    have hvq := hview q (by rw [hqc]; exact hc)
    rw [hvc.queuedTs hframe.live] at hts
    rw [hvq.queuedTs hframe.live] at hq
    rw [hvc.prio, hvq.prio]
    exact h c hts (hvc.clear hclear) q (fun he => nomatch he) hq hqc

/-- The preemption check takes care of the one task that was left out. -/
theorem NoMissedBut.checkPreemptCurr {k : Kernel} {p : Pid} (h : NoMissedBut (some p) k)
    (hook : Bool) : NoMissed (checkPreemptCurr k (k.task p).cpu p hook) := by
  have hframe := checkPreemptCurr_frame k (k.task p).cpu p hook
  have hview := sameView_checkPreemptCurr k (k.task p).cpu p hook
  intro cpu hts hflag q _ hq hcpu
  rw [hframe.curr] at hts hflag ⊢
  rw [(hview _).queuedTs hframe.live] at hts hq
  rw [(hview q).cpu] at hcpu
  have hclear := (hview (k.rq cpu).curr).clear hflag
  rw [(hview _).prio, (hview q).prio]
  by_cases hqp : q = p
  · subst hqp
    subst hcpu
    by_contra hlt
    -- the check finds `q` better and flags the current task
    rw [checkPreemptCurr_ts hook hq.2.2 hts.2.2 (by omega), reschedCurr_task,
      Function.update_self] at hflag
    cases hflag
  · exact h cpu hts hclear q (fun he => hqp (Option.some.inj he).symm) hq hcpu

/-- Nothing is left out of a task that is not queued. -/
theorem NoMissedBut.unqueued {k : Kernel} {p : Pid} (h : NoMissedBut (some p) k)
    (hq : (k.task p).onRq ≠ .queued) : NoMissed k := by
  intro cpu hts hflag q _ hqq hcpu
  refine h cpu hts hflag q ?_ hqq hcpu
  rintro he
  obtain rfl := Option.some.inj he
  exact hq hqq.2.1

/-- Nor of one that is not running and only got worse. -/
theorem NoMissedBut.worse {k k' : Kernel} {p : Pid} (hbut : NoMissedBut (some p) k')
    (h : NoMissed k) (hframe : Frame k k') (hnot : ∀ cpu, k.curr cpu ≠ p)
    (hother : ∀ q, q ≠ p → k'.task q = k.task q)
    (hqueued : ((k'.task p).onRq = .queued → (k.task p).onRq = .queued)
      ∧ ((k'.task p).schedClass = .ts → (k.task p).schedClass = .ts))
    (hcpu : (k'.task p).cpu = (k.task p).cpu) (hle : (k.task p).prio ≤ (k'.task p).prio) :
    NoMissed k' := by
  intro cpu hts hflag q hx hq hqc
  by_cases hqp : q = p
  · subst hqp
    obtain ⟨hlive, hqq, hqts⟩ := hq
    have hcurr := hother (k.rq cpu).curr (hnot cpu)
    rw [hframe.curr] at hts hflag ⊢
    unfold QueuedTs at hts
    rw [hframe.live] at hts hlive
    rw [hcurr] at hts hflag ⊢
    have hold := h cpu hts hflag q hx ⟨hlive, hqueued.1 hqq, hqueued.2 hqts⟩
      (hcpu.symm.trans hqc)
    exact le_trans hold hle
  · exact hbut cpu hts hflag q (fun he => hqp (Option.some.inj he).symm) hq hqc

/-! ## Fork, wakeups and migration -/

theorem NoMissed.forkTask {k : Kernel} (h : NoMissed k) (cpu child : Nat) :
    NoMissed (forkTask k cpu child) := by
  unfold Sched.forkTask
  split
  · rename_i t ht
    have hoff := (schedFork_place ht).1
    intro c hts hflag q _ hq hqc
    -- the child is not queued, so both tasks are old
    have hold : ∀ {q}, QueuedTs { k with
        task := Function.update k.task (.proc child) t
        procs := insert child k.procs } q → q ≠ .proc child ∧ QueuedTs k q := by
      rintro q ⟨hlive, hqq, hqts⟩
      have hne : q ≠ .proc child := by
        rintro rfl
        simp [hoff] at hqq
      simp only [Function.update_of_ne hne] at hqq hqts
      refine ⟨hne, ?_, hqq, hqts⟩
      cases q with
      | swapper c => trivial
      | proc n =>
          exact (Finset.mem_insert.mp hlive).resolve_left fun he => hne (by rw [he])
    obtain ⟨hcne, hcts⟩ := hold hts
    obtain ⟨hqne, hqts⟩ := hold hq
    simp only [Function.update_of_ne hcne, Function.update_of_ne hqne] at hflag hqc ⊢
    exact h c hcts hflag q (fun he => nomatch he) hqts hqc
  · exact h

/-- Activation leaves out the task it activates. -/
theorem NoMissed.ttwuActivate {k : Kernel} (h : NoMissed k) {p : Pid}
    (hnot : ∀ cpu, k.curr cpu ≠ p) (f : TaskStruct → TaskStruct) (dest flags : Nat) :
    NoMissedBut (some p) (ttwuActivate (k.mod p f) dest p flags) := by
  refine NoMissedBut.congr h ((Frame.mod k p f).trans (ttwuActivate_frame ..))
    (fun _ _ he => nomatch he) (fun cpu he => hnot cpu (Option.some.inj he).symm) ?_
  intro q hq
  have hqp : q ≠ p := fun he => hq (by rw [he])
  rw [ttwuActivate_task, Function.update_of_ne hqp, mod_task, Function.update_of_ne hqp]
  exact SameView.refl _

theorem ttwuActivate_cpu {k : Kernel} {p : Pid} {f : TaskStruct → TaskStruct} {dest : Nat}
    (hdest : (f (k.task p)).cpu = dest) (flags : Nat) :
    ((ttwuActivate (k.mod p f) dest p flags).task p).cpu = dest := by
  obtain ⟨prio, hprio⟩ := enqueuedTask_frame flags (f (k.task p))
  rw [ttwuActivate_task, Function.update_self, mod_task_self, hprio]
  exact hdest

theorem NoMissed.wakeUpNewTask {k : Kernel} (h : NoMissed k) (hinv : Inv k) {p : Pid}
    (hp : k.Named p) (hoff : (k.task p).onRq = .off) (dest : Nat) (hook : Bool) :
    NoMissed (wakeUpNewTask k p dest hook) := by
  have hnot := hinv.not_current hp.1 (by rw [hoff]; decide) (fun he => nomatch he)
  have hact := h.ttwuActivate hnot (fun t => { t with state := taskRunning, cpu := dest })
    dest enqueueNoclock
  have hclose := hact.checkPreemptCurr hook
  rwa [ttwuActivate_cpu rfl] at hclose

theorem NoMissed.ttwuDoWakeup {k : Kernel} (h : NoMissed k) (cpu : Nat) (p : Pid)
    (hook : Bool) : NoMissed (ttwuDoWakeup k cpu p hook) :=
  h.congr (ttwuDoWakeup_frame ..) (sameView_ttwuDoWakeup k cpu p hook)

theorem NoMissed.setState {k : Kernel} (h : NoMissed k) (p : Pid) (state : Nat) :
    NoMissed (k.mod p fun t => { t with state := state }) :=
  h.congr (Frame.mod ..) (sameView_mod ⟨rfl, rfl, rfl, rfl, id⟩)

theorem NoMissed.tryToWakeUp {k : Kernel} (h : NoMissed k) (hinv : Inv k) {p : Pid}
    (hp : k.Named p) (state dest : Nat) (hook : Bool) :
    NoMissed (tryToWakeUp k p state dest hook) := by
  rcases tryToWakeUp_cases k p state dest hook with heq | heq | ⟨-, hq, heq⟩ <;> rw [heq]
  · exact h
  · exact h.ttwuDoWakeup _ p hook
  · have hnot := hinv.not_current hp.1 hq (fun he => nomatch he)
    have hact := h.ttwuActivate hnot (fun t => { t with cpu := dest }) dest
      (enqueueWakeup ||| enqueueNoclock
        ||| if (k.task p).cpu = dest then 0 else enqueueMigrated)
    have hclose := hact.checkPreemptCurr hook
    rw [ttwuActivate_cpu rfl] at hclose
    exact hclose.setState p taskRunning

theorem NoMissed.moveQueuedTask {k : Kernel} (h : NoMissed k) (hinv : Inv k) {p : Pid}
    (hp : k.Named p) (hoff : (k.task p).onCpu = false) (newCpu : Nat) (hook : Bool) :
    NoMissed (moveQueuedTask k p newCpu hook) := by
  have hnot := hinv.not_current_of_onCpu hp.1 hoff
  have hmoved : NoMissedBut (some p) (movedKernel k p newCpu) := by
    refine NoMissedBut.congr h (movedKernel_frame k p newCpu) (fun _ _ he => nomatch he)
      (fun cpu he => hnot cpu (Option.some.inj he).symm) fun q hq => ?_
    have hqp : q ≠ p := fun he => hq (by rw [he])
    rw [movedKernel_task, Function.update_of_ne hqp]
    exact SameView.refl _
  have hclose := hmoved.checkPreemptCurr hook
  rw [movedKernel_task, Function.update_self] at hclose
  exact hclose

/-! ## Ticks, yields, affinity -/

theorem NoMissed.schedulerTick {k : Kernel} (h : NoMissed k) (hinv : Inv k) (cpu : Nat)
    (hook : Bool) (junk : Nat) : NoMissed (schedulerTick k cpu hook junk) := by
  have hframe := schedulerTick_frame k cpu hook junk
  rcases schedulerTick_cases k cpu hook junk with ⟨-, -, heq⟩ | ⟨-, heq | ⟨-, heq⟩⟩ <;>
    rw [heq] at hframe ⊢
  · split_ifs at hframe ⊢
    · -- the slice is used up: the task itself is flagged
      have htask : ∀ q, (expireTick k cpu (k.rq cpu).curr junk).task q =
          if q = (k.rq cpu).curr then setTskNeedResched (expireTask junk (k.task q))
          else k.task q := by
        intro q
        simp only [expireTick]
        by_cases hq : q = (k.rq cpu).curr
        · subst hq
          rw [if_pos rfl, mod_task_self, modRq_task, mod_task_self]
          rfl
        · rw [if_neg hq, mod_task, Function.update_of_ne hq, modRq_task, mod_task,
            Function.update_of_ne hq]
          rfl
      refine h.flagged hinv hframe cpu ?_ (fun q => ?_) fun q hq => ?_
      · rw [htask]
        exact if_pos rfl ▸ rfl
      · rw [htask]
        split_ifs <;> rfl
      · have hne : q ≠ (k.rq cpu).curr := by
          rintro rfl
          exact hq ((hinv.tasks _ (hinv.curr cpu)).current cpu rfl).1
        rw [htask, if_neg hne]
        exact SameView.refl _
    · exact h.congr hframe (sameView_mod (k := k.printk _) ⟨rfl, rfl, rfl, rfl, id⟩)
  · exact h
  · exact h.congr hframe (sameView_reschedCurr k cpu)

theorem NoMissed.doSchedYield {k : Kernel} (h : NoMissed k) (cpu : Nat) :
    NoMissed (doSchedYield k cpu) := by
  refine h.congr (doSchedYield_frame k cpu) fun q => ?_
  unfold Sched.doSchedYield
  split_ifs <;> exact SameView.refl _

theorem NoMissed.doSetCpusAllowed {k : Kernel} (h : NoMissed k) (p : Pid)
    (newMask : Nat → Bool) : NoMissed (doSetCpusAllowed k p newMask) := by
  refine h.congr (saveRestore_frame ..) fun q => ?_
  rw [Sched.doSetCpusAllowed, saveRestore_task k p _ _ restore_no_wakeup]
  exact sameView_mod (f := fun t => { t with cpusAllowed := newMask })
    ⟨rfl, rfl, rfl, rfl, id⟩ q

/-! ## Renicing -/

theorem NoMissed.niceKernel_resched {k : Kernel} (h : NoMissed k) (hinv : Inv k) (p : Pid)
    (nice : Int) : NoMissed (reschedCurr (niceKernel k p nice) (k.task p).cpu) := by
  have hframe : Frame k (niceKernel k p nice) := saveRestore_frame ..
  obtain ⟨prio, normal, hnice⟩ := setNice_frame (k.task p) nice
  have htask := niceKernel_task k p nice
  rw [hnice] at htask
  have hsame := sameView_reschedCurr (niceKernel k p nice) (k.task p).cpu
  refine h.flagged hinv (hframe.trans (Frame.reschedCurr ..)) (k.task p).cpu ?_
    (fun q => ?_) fun q hq => ?_
  · have hset : (reschedCurr (niceKernel k p nice) (k.task p).cpu).task (k.curr (k.task p).cpu) =
        setTskNeedResched ((niceKernel k p nice).task (k.curr (k.task p).cpu)) := by
      rw [← hframe.curr_eq, reschedCurr_task]
      exact Function.update_self ..
    rw [hset]
    rfl
  · rw [(hsame q).cpu, htask]
    by_cases hqp : q = p
    · subst hqp
      rw [Function.update_self]
    · rw [Function.update_of_ne hqp]
  · have hqp : q ≠ p := by
      rintro rfl
      exact hq rfl
    have hto := hsame q
    rwa [htask, Function.update_of_ne hqp] at hto

theorem NoMissed.niceKernel {k : Kernel} (h : NoMissed k) (hinv : Inv k) {p : Pid}
    (hlive : k.Live p) {nice : Int} (hno : ¬NiceResched (k.task p) nice) :
    NoMissed (niceKernel k p nice) := by
  have hframe : Frame k (Sched.niceKernel k p nice) := saveRestore_frame ..
  obtain ⟨prio, normal, hnice⟩ := setNice_frame (k.task p) nice
  have htask := niceKernel_task k p nice
  unfold NiceResched at hno
  rw [hnice] at htask hno
  simp only at hno
  have hother : ∀ q, q ≠ p → (Sched.niceKernel k p nice).task q = k.task q := fun q hq => by
    rw [htask, Function.update_of_ne hq]
  have hself : (Sched.niceKernel k p nice).task p = { k.task p with
      staticPrio := niceToPrio nice
      prio := prio
      normalPrio := normal } := by
    rw [htask, Function.update_self]
  have hbut : (∀ cpu, k.curr cpu ≠ p) → NoMissedBut (some p) (Sched.niceKernel k p nice) := by
    intro hnot
    refine NoMissedBut.congr h hframe (fun _ _ he => nomatch he)
      (fun cpu he => hnot cpu (Option.some.inj he).symm) fun q hq => ?_
    rw [hother q fun he => hq (by rw [he])]
    exact SameView.refl _
  by_cases hq : (k.task p).onRq = .queued
  · have hworse := not_or.mp fun hor => hno ⟨by simpa [taskOnRqQueued] using hq, hor⟩
    rcases Int.lt_or_eq_of_le (Int.not_lt.mp hworse.1) with hlt | heq
    · -- the task got worse and is not running
      have hoff : (k.task p).onCpu = false := by
        by_contra hon
        exact hworse.2 ⟨hlt, by simpa [taskRunningOnCpu] using hon⟩
      have hnot := hinv.not_current_of_onCpu hlive hoff
      refine (hbut hnot).worse h hframe hnot hother ?_ ?_ ?_
      · rw [hself]
        exact ⟨id, id⟩
      · rw [hself]
      · rw [hself]
        exact le_of_lt hlt
    · refine h.congr hframe fun q => ?_
      by_cases hqp : q = p
      · subst hqp
        rw [hself]
        exact ⟨rfl, rfl, rfl, heq.symm, id⟩
      · rw [hother q hqp]
        exact SameView.refl _
  · refine (hbut (hinv.not_current hlive hq fun he => nomatch he)).unqueued ?_
    rw [hself]
    exact hq

theorem NoMissed.setUserNice {k : Kernel} (h : NoMissed k) (hinv : Inv k) {p : Pid}
    (hlive : k.Live p) (nice : Int) : NoMissed (setUserNice k p nice) := by
  rcases setUserNice_cases k p nice with heq | ⟨-, -, -, heq⟩ | ⟨-, -, heq⟩ | ⟨-, hno, heq⟩ <;>
    rw [heq]
  · exact h
  · exact h.congr (Frame.mod ..) (sameView_mod ⟨rfl, rfl, rfl, rfl, id⟩)
  · exact h.niceKernel_resched hinv p nice
  · exact h.niceKernel hinv hlive hno

/-! ## `__schedule` -/

/-- Before the pick, `__schedule` moves no task to another CPU and touches
tasks of its own CPU only. -/
theorem schedBlock_view {k : Kernel} (hinv : Inv k) (cpu : Nat) (preempt signalPending : Bool)
    (wake : Option Pid) (hook : Bool) (q : Pid) :
    ((schedBlock k cpu preempt signalPending wake hook).task q).cpu = (k.task q).cpu
      ∧ ((k.task q).cpu ≠ cpu → SameView (k.task q)
        ((schedBlock k cpu preempt signalPending wake hook).task q)) := by
  have hprev : (k.task (k.rq cpu).curr).cpu = cpu :=
    ((hinv.tasks _ (hinv.curr cpu)).current cpu rfl).1
  have hblocked : ((blockedKernel k cpu).task q).cpu = (k.task q).cpu
      ∧ ((k.task q).cpu ≠ cpu → SameView (k.task q) ((blockedKernel k cpu).task q)) := by
    rw [blockedKernel_task]
    by_cases hq : q = (k.rq cpu).curr
    · subst hq
      rw [Function.update_self]
      exact ⟨rfl, fun hne => absurd hprev hne⟩
    · rw [Function.update_of_ne hq]
      exact ⟨rfl, fun _ => SameView.refl _⟩
  rcases schedBlock_cases k cpu preempt signalPending wake hook with
    heq | heq | ⟨-, -, -, heq⟩ <;> rw [heq]
  · exact ⟨rfl, fun _ => SameView.refl _⟩
  · have hview := sameView_mod (k := k) (p := (k.rq cpu).curr)
      (f := fun t => { t with state := taskRunning }) ⟨rfl, rfl, rfl, rfl, id⟩ q
    exact ⟨hview.cpu, fun _ => hview⟩
  · cases wake with
    | none => exact hblocked
    | some w =>
        simp only [tryToWakeUpLocal]
        split_ifs with hplace hstate hqueued
        · exact hblocked
        · exact hblocked
        · have hview := sameView_ttwuDoWakeup (blockedKernel k cpu) cpu w hook q
          exact ⟨hview.cpu.trans hblocked.1, fun hne => (hblocked.2 hne).trans hview⟩
        · -- the worker is on this CPU as well
          have hw : ((blockedKernel k cpu).task w).cpu = cpu := not_not.mp (not_or.mp hplace).1
          have hview := sameView_ttwuDoWakeup
            (ttwuActivate (blockedKernel k cpu) cpu w (enqueueWakeup ||| enqueueNoclock)) cpu w
            hook q
          by_cases hqw : q = w
          · subst hqw
            obtain ⟨prio, hprio⟩ := enqueuedTask_frame (enqueueWakeup ||| enqueueNoclock)
              ((blockedKernel k cpu).task q)
            have hcpu := hview.cpu
            rw [ttwuActivate_task, Function.update_self, hprio] at hcpu
            rw [hcpu]
            exact ⟨hblocked.1, fun hne => absurd (hblocked.1.symm.trans hw) hne⟩
          · rw [ttwuActivate_task, Function.update_of_ne hqw] at hview
            exact ⟨hview.cpu.trans hblocked.1, fun hne => (hblocked.2 hne).trans hview⟩

/-- The switch writes the flag of the previous task and `on_cpu` only. -/
theorem schedSwitch_keeps (k : Kernel) (cpu : Nat) (next q : Pid) :
    ((schedSwitch k cpu next).task q).onRq = (k.task q).onRq
      ∧ ((schedSwitch k cpu next).task q).schedClass = (k.task q).schedClass
      ∧ ((schedSwitch k cpu next).task q).cpu = (k.task q).cpu
      ∧ ((schedSwitch k cpu next).task q).prio = (k.task q).prio := by
  rw [schedSwitch_task]
  split_ifs <;> exact ⟨rfl, rfl, rfl, rfl⟩

theorem schedSwitch_queuedTs (k : Kernel) (cpu : Nat) (next q : Pid) :
    QueuedTs (schedSwitch k cpu next) q ↔ QueuedTs k q := by
  obtain ⟨hq, hclass, -, -⟩ := schedSwitch_keeps k cpu next q
  unfold QueuedTs
  rw [Kernel.live_congr (schedSwitch_procs k cpu next), hq, hclass]

theorem NoMissed.schedule {k : Kernel} (h : NoMissed k) (hk : Reachable k) {cpu : Nat}
    {preempt signalPending : Bool} {wake : Option Pid} {hook : Bool}
    {picks : SchedClass → ClassPick} {next : Pid} (hwake : ∀ w ∈ wake, k.Named w)
    (hnext : (pickNextTask picks (schedBlock k cpu preempt signalPending wake hook) cpu
      (k.rq cpu).curr).1 = some next) :
    NoMissed (schedSwitch (schedBlock k cpu preempt signalPending wake hook) cpu next) := by
  have hview := schedBlock_view hk.inv cpu preempt signalPending wake hook
  have hinv := hk.inv.schedBlock cpu preempt signalPending hwake hook
  have hat : AtPick cpu (schedBlock k cpu preempt signalPending wake hook) :=
    ⟨k, _, _, _, _, hk, hwake, rfl⟩
  have hok := hat.tasksOk
  have hframe := schedBlock_frame k cpu preempt signalPending wake hook
  generalize schedBlock k cpu preempt signalPending wake hook = k₁ at *
  intro c hts hflag q _ hq hqc
  obtain ⟨-, -, hcpuq, hprioq⟩ := schedSwitch_keeps k₁ cpu next q
  rw [schedSwitch_queuedTs] at hts hq
  rw [hcpuq] at hqc
  rw [hprioq, (schedSwitch_keeps k₁ cpu next _).2.2.2]
  rw [show ((schedSwitch k₁ cpu next).rq c).curr = (schedSwitch k₁ cpu next).curr c from rfl,
    schedSwitch_curr] at hts hflag ⊢
  by_cases hc : c = cpu
  · -- here the picked task runs, and the pick is the best
    subst hc
    rw [Function.update_self] at hts ⊢
    have hpick := (pickNextTaskTs_some hinv hok (pickNextTask_ts hinv hnext hts.2.2)).2.2.2
    by_cases hqn : q = next
    · rw [hqn]
    · rcases hpick q hq hqc hqn with hlt | ⟨heq, -⟩
      · exact le_of_lt hlt
      · exact le_of_eq heq
  · rw [Function.update_of_ne hc] at hts hflag ⊢
    rw [hframe.curr_eq] at hts hflag ⊢
    have hcurrc : (k.task (k.curr c)).cpu = c :=
      ((hk.inv.tasks _ (hk.inv.curr c)).current c rfl).1
    have hvc := (hview (k.curr c)).2 (by rw [hcurrc]; exact hc)
    have hqc' : (k.task q).cpu = c := (hview q).1.symm.trans hqc
    have hvq := (hview q).2 (by rw [hqc']; exact hc)
    have hne : k.curr c ≠ k.curr cpu := by
      intro he
      have hcpu := ((hk.inv.tasks _ (hk.inv.curr cpu)).current cpu rfl).1
      rw [← he, hcurrc] at hcpu
      exact hc hcpu
    have hclear : (k₁.task (k.curr c)).needResched = false := by
      rw [schedSwitch_task, if_neg (by rw [hframe.curr]; exact hne)] at hflag
      split_ifs at hflag <;> exact hflag
    rw [hvc.queuedTs hframe.live] at hts
    rw [hvq.queuedTs hframe.live] at hq
    rw [hvc.prio, hvq.prio]
    exact h c hts (hvc.clear hclear) q (fun he => nomatch he) hq hqc'

/-! ## Runs -/

/-- The steps that change a task's policy or lend it a priority. -/
def PolicyOp : Op → Prop
  | .schedSetscheduler .. => True
  | .rtMutexSetprio .. => True
  | .schedSetStopTask .. => True
  | _ => False

theorem noMissed_step {k k' : Kernel} {op : Op} (hk : Reachable k) (h : NoMissed k)
    (hop : ¬PolicyOp op) (hstep : step k op = some k') : NoMissed k' := by
  have hinv := hk.inv
  cases step_cases hstep with
  | schedFork => exact h.forkTask _ _
  | wakeUpNewTask hp _ hoff => exact h.wakeUpNewTask hinv hp hoff _ _
  | tryToWakeUp hp => exact h.tryToWakeUp hinv hp _ _ _
  | setCurrentState => exact h.setState _ _
  | schedule next hwake hnext => exact h.schedule hk hwake hnext
  | schedulerTick => exact h.schedulerTick hinv _ _ _
  | schedYield => exact h.doSchedYield _
  | setUserNice hp => exact h.setUserNice hinv hp.1 _
  | schedSetscheduler => exact absurd trivial hop
  | schedSetschedulerError => exact absurd trivial hop
  | rtMutexSetprio => exact absurd trivial hop
  | doSetCpusAllowed => exact h.doSetCpusAllowed _ _
  | moveQueuedTask hp _ hoff => exact h.moveQueuedTask hinv hp hoff _ _
  | schedSetStopTask => exact absurd trivial hop

/-- In a run without policy changes and priority inheritance no preemption
inside the TS class is missed: as long as the current task of a CPU is a
TS task and is not asked to reschedule, no TS task queued there has a
strictly better priority. -/
theorem no_missed_preemption {k₀ k : Kernel} {h : List (Kernel × Op)} (hk₀ : Reachable k₀)
    (hstart : NoMissed k₀) (hrun : Lts.Run step k₀ h k) (hops : ∀ x ∈ h, ¬PolicyOp x.2) :
    ∀ cpu, QueuedTs k (k.rq cpu).curr → (k.task (k.rq cpu).curr).needResched = false →
      ∀ q, QueuedTs k q → (k.task q).cpu = cpu →
        ¬(k.task q).prio < (k.task (k.rq cpu).curr).prio := by
  have hinv := hrun.inv_where (I := fun k => Reachable k ∧ NoMissed k)
    (P := fun _ op => ¬PolicyOp op)
    (fun _ _ _ hi hop hs => ⟨Lts.Reaches.tail hi.1 hs, noMissed_step hi.1 hi.2 hop hs⟩) hops
    ⟨hk₀, hstart⟩
  intro cpu hts hflag q hq hqc hlt
  have hle := hinv.2 cpu hts hflag q (fun he => nomatch he) hq hqc
  omega

/-- With one task besides the idle threads nothing can be missed. -/
theorem noMissed_of_single {k : Kernel} (hinv : Inv k) {n : Nat} (hprocs : k.procs = {n}) :
    NoMissed k := by
  have hone : ∀ {q}, QueuedTs k q → q = .proc n := by
    rintro q ⟨hlive, -, hts⟩
    cases q with
    | swapper c =>
        rw [(hinv.tasks (.swapper c) trivial).class_idle.mpr rfl] at hts
        cases hts
    | proc m =>
        have hm : m ∈ k.procs := hlive
        rw [hprocs, Finset.mem_singleton] at hm
        rw [hm]
  intro cpu hts _ q _ hq _
  rw [hone hts, hone hq]

/-- A run in which a TS task comes to run. -/
def tsCurrRun : List Op :=
  [.schedFork 0 0, .wakeUpNewTask (.proc 0) 0 false,
    .schedule 0 true false none false (fun _ => ClassPick.head),
    .schedSetscheduler (.proc 0) (schedCopyAttr (some 10) 0 0 0) false true SchedEnv.root false]

/-- A TS task forks another: the child is queued and does not preempt. -/
theorem no_missed_preemption_fork : ∃ k, Reachable k ∧ QueuedTs k (k.rq 0).curr
    ∧ QueuedTs k (.proc 1) ∧ (k.rq 0).curr ≠ .proc 1
    ∧ ¬(k.task (.proc 1)).prio < (k.task (k.rq 0).curr).prio := by
  let ops : List Op := [.schedFork 0 1, .wakeUpNewTask (.proc 1) 0 false]
  obtain ⟨k₀, hk₀⟩ : ∃ k₀, Lts.exec step boot tsCurrRun = some k₀ :=
    Option.isSome_iff_exists.mp (by decide +kernel)
  obtain ⟨k, hk⟩ : ∃ k, Lts.exec step boot (tsCurrRun ++ ops) = some k :=
    Option.isSome_iff_exists.mp (by decide +kernel)
  have hone : (Lts.exec step boot tsCurrRun).all (fun k => k.procs = {0}) = true := by
    decide +kernel
  have hend : (Lts.exec step boot (tsCurrRun ++ ops)).all (fun k =>
      QueuedTs k (k.rq 0).curr ∧ (k.task (k.rq 0).curr).needResched = false
        ∧ QueuedTs k (.proc 1) ∧ (k.task (.proc 1)).cpu = 0
        ∧ (k.rq 0).curr ≠ .proc 1) = true := by decide +kernel
  rw [hk₀] at hone
  rw [hk] at hend
  obtain ⟨hcurr, hflag, hq, hcpu, hne⟩ := of_decide_eq_true hend
  have hreach₀ : Reachable k₀ := Lts.exec_reaches hk₀
  rw [Lts.exec_append, hk₀] at hk
  have hrun := Lts.exec_run hk
  refine ⟨k, Lts.Run.reaches hreach₀ hrun, hcurr, hq, hne, ?_⟩
  refine no_missed_preemption hreach₀
    (noMissed_of_single hreach₀.inv (of_decide_eq_true hone)) hrun (fun x hx => ?_)
    0 hcurr hflag _ hq hcpu
  have hlabel := Lts.mem_trace hx
  simp only [ops, List.mem_cons, List.not_mem_nil, or_false] at hlabel
  rcases hlabel with hlabel | hlabel <;> rw [hlabel] <;> exact id

/-! ## Policy changes -/

/-- The priority `__setscheduler` gives a task that enters the class. -/
def enteringPrio (k : Kernel) (p : Pid) (pi : Bool) : Int :=
  if pi then rtEffectivePrio (donorPrio k p) (k.task p).staticPrio
  else (k.task p).staticPrio

theorem policyTask_ts {k : Kernel} {p : Pid} {attr : SchedAttr} {resetOnFork pi : Bool}
    (hts : (policyTask k p attr resetOnFork pi).schedClass = .ts) :
    attrPolicy (k.task p) attr = .ts
      ∧ (policyTask k p attr resetOnFork pi).prio = enteringPrio k p pi
      ∧ (policyTask k p attr resetOnFork pi).onRq = (k.task p).onRq
      ∧ (policyTask k p attr resetOnFork pi).cpu = (k.task p).cpu
      ∧ (policyTask k p attr resetOnFork pi).needResched = (k.task p).needResched := by
  unfold policyTask at hts ⊢
  rw [setscheduler_eq] at hts ⊢
  have hpol := (classOf_ts hts).2
  have hparams : setschedulerParams { k.task p with schedResetOnFork := resetOnFork } attr =
      { k.task p with
        schedResetOnFork := resetOnFork
        policy := .ts
        rtPriority := attr.schedPriority
        normalPrio := (k.task p).staticPrio } := by
    simp only [setschedulerParams, hpol, fairPolicy, normalPrio, dlPolicy, rtPolicy,
      normalPrioCore]
    simp
  refine ⟨hpol, ?_, ?_, ?_, ?_⟩
  · simp only [setschedulerPrio, hparams, enteringPrio, normalPrio, dlPolicy, rtPolicy,
      normalPrioCore]
    simp
  all_goals rw [hparams]

end Sched

end Comp4511
