import Comp4511.SchedWait

/-!
# Who gets a CPU

Three results about the tasks that compete for a CPU.

Every task has one place: it runs on one CPU at most and is on one list
at most, whatever the interleaving of the calls (`one_place`).

Between the TS class and the fair class the CPU stays with the one that
has it: as long as a TS task is queued and nothing above TS, the class
that runs at the end of a run is TS exactly when it was at the start
(`class_sticks`). The shortcut of `pick_next_task` is what keeps the fair
tasks going.

Inside the TS class a task that slept comes before one that used up its
slice, as long as no one interferes with their priorities
(`woken_first`).
-/

namespace Comp4511

namespace Sched

/-! ## One place for every task -/

/-- In every reachable state no task runs on two CPUs, `on_cpu` is set for
the running tasks, and a task is on one list at most of all CPUs and
classes, once, namely on one if it is queued and not an idle thread. A
running task that is not an idle thread is on a list of its own CPU. -/
theorem one_place {k : Kernel} (hk : Reachable k) :
    (∀ c c', k.curr c = k.curr c' → c = c')
    ∧ (∀ p, k.Live p → ((k.task p).onCpu = true ↔ ∃ c, k.curr c = p))
    ∧ (∀ p c c' s s', p ∈ (k.rq c).queue s → p ∈ (k.rq c').queue s' → c = c' ∧ s = s')
    ∧ (∀ c s, ((k.rq c).queue s).Nodup)
    ∧ (∀ p, k.Live p →
        ((∃ c s, p ∈ (k.rq c).queue s) ↔ (k.task p).onRq = .queued ∧ p.isProc = true))
    ∧ ∀ c, (k.curr c).isProc = true → ∃ s, k.curr c ∈ (k.rq c).queue s := by
  have hinv := hk.inv
  have hidle : ∀ p, k.Live p → ((k.task p).schedClass ≠ .idle ↔ p.isProc = true) := by
    intro p hp
    rw [Ne, (hinv.tasks p hp).class_idle, Bool.not_eq_false]
  have hmem : ∀ p c s, p ∈ (k.rq c).queue s ↔ k.loc p = some (c, s) := fun p c s =>
    hinv.linked.mem (c, s) p
  refine ⟨fun c c' hc => ?_, fun p hp => ⟨fun hon => ?_, ?_⟩, fun p c c' s s' hs hs' => ?_,
    fun c s => hinv.linked.nodup (c, s), fun p hp => ⟨?_, fun ⟨hq, hproc⟩ => ?_⟩, fun c hproc => ?_⟩
  · rw [← (curr_queued hinv c).2.2, hc]
    exact (curr_queued hinv c').2.2
  · exact ⟨_, (hinv.tasks p hp).onCpu.mp hon⟩
  · rintro ⟨c, rfl⟩
    rw [(hinv.tasks _ hp).onCpu, (curr_queued hinv c).2.2]
  · rw [hmem] at hs hs'
    exact Prod.mk.inj (Option.some.inj (hs.symm.trans hs'))
  · rintro ⟨c, s, hs⟩
    rw [hmem, loc_of_live hp] at hs
    obtain ⟨hq, hclass, -⟩ := slot_eq_some hs
    exact ⟨hq, (hidle p hp).mp hclass⟩
  · refine ⟨(k.task p).cpu, (k.task p).queueSlot, (hmem ..).mpr ?_⟩
    rw [loc_of_live hp, slot_of_queued hq ((hidle p hp).mpr hproc)]
  · obtain ⟨hlive, hq, hcpu⟩ := curr_queued hinv c
    refine ⟨(k.task (k.curr c)).queueSlot, (hmem ..).mpr ?_⟩
    rw [loc_of_live hlive, slot_of_queued hq ((hidle _ hlive).mpr hproc), hcpu]

/-- A running TS task is on a list of its CPU. -/
theorem one_place_running : ∃ k, Reachable k ∧ (k.task (k.curr 0)).schedClass = .ts
    ∧ ∃ s, k.curr 0 ∈ (k.rq 0).queue s := by
  obtain ⟨k, hk, hts, hproc⟩ := exists_reachable tsCurrRun
    (P := fun k => (k.task (k.curr 0)).schedClass = .ts ∧ (k.curr 0).isProc = true)
    (by decide +kernel)
  exact ⟨k, hk, hts, (one_place hk).2.2.2.2.2 0 hproc⟩

/-! ## TS against fair -/

/-- TS tasks are queued, and nothing above them. -/
def Contested (rq : Rq) : Prop := NoHigher rq ∧ HasTs rq

/-- The step may change the class of `q`. -/
def Reclasses (q : Pid) : Op → Prop
  | .schedSetscheduler p _ _ _ _ _ => p = q
  | .rtMutexSetprio p _ _ _ => p = q
  | _ => False

section Contest

variable {k k' : Kernel} {op : Op} {cpu : Nat}

/-- With nothing queued above TS the running task is TS, fair or idle. -/
theorem NoHigher.curr_class (hinv : Inv k) (h : NoHigher (k.rq cpu)) :
    (k.task (k.curr cpu)).schedClass = .ts ∨ (k.task (k.curr cpu)).schedClass = .fair
      ∨ (k.task (k.curr cpu)).schedClass = .idle := by
  obtain ⟨hlive, hq, hcpu⟩ := curr_queued hinv cpu
  have hon : ∀ c, c ≠ .ts → c ≠ .idle → (k.task (k.curr cpu)).schedClass = c →
      (k.rq cpu).queue (.cls c) ≠ [] := by
    intro c hts hidle hc
    refine List.ne_nil_of_mem (a := k.curr cpu) ((hinv.linked.mem (cpu, .cls c) _).mpr ?_)
    rw [loc_of_live hlive, slot_of_queued hq (hc ▸ hidle), hcpu, TaskStruct.queueSlot, hc,
      if_neg hts]
  obtain ⟨hstop, hdl, hrt⟩ := h
  cases hc : (k.task (k.curr cpu)).schedClass with
  | ts => exact Or.inl rfl
  | fair => exact Or.inr (Or.inl rfl)
  | idle => exact Or.inr (Or.inr rfl)
  | stop => exact absurd hstop (hon .stop (by decide) (by decide) hc)
  | dl => exact absurd hdl (hon .dl (by decide) (by decide) hc)
  | rt => exact absurd hrt (hon .rt (by decide) (by decide) hc)

/-- A running task keeps its class through every step that does not set it. -/
theorem curr_class_keep (hinv : Inv k) (hstep : step k op = some k')
    (hkeep : ¬Reclasses (k.curr cpu) op) :
    (k'.task (k.curr cpu)).schedClass = (k.task (k.curr cpu)).schedClass := by
  obtain ⟨hlive, hq, -⟩ := curr_queued hinv cpu
  have hpark : ∀ {s : Option Pid}, k.Parked s → s ≠ some (k.curr cpu) := by
    intro s hs heq
    have hoff := (hs _ heq).2
    rw [taskOnRqQueued, hq] at hoff
    cases hoff
  cases step_cases hstep with
  | schedSetscheduler _ hok =>
      exact ((Effect.schedSetscheduler hok).turn _ fun he => hkeep he.symm).schedClass
  | schedSetschedulerError => rfl
  | rtMutexSetprio =>
      exact ((Effect.rtMutexSetprio ..).turn _ fun he => hkeep he.symm).schedClass
  | schedSetStopTask hnew hold =>
      exact ((Effect.schedSetStopTask ..).turn _ (not_or.mpr ⟨hpark hnew, hpark hold⟩)).schedClass
  | _ => exact (step_task hstep hlive).class_keep id

/-- `__schedule` on a contested CPU gives it to a TS task if and only if
one had it. -/
theorem schedule_sticks (hk : Reachable k) (hstep : step k op = some k')
    (hsched : Schedules cpu op) (hbefore : NoHigher (k.rq cpu)) (hafter : Contested (k'.rq cpu)) :
    (k'.task (k'.curr cpu)).schedClass = .ts ↔ (k.task (k.curr cpu)).schedClass = .ts := by
  have hclass := hbefore.curr_class hk.inv
  cases step_cases hstep with
  | @schedule c preempt signalPending wake hook picks next hwake hnext =>
      obtain rfl : c = cpu := hsched
      have hprev : (k.task (k.curr c)).schedClass =
          ((schedBlock k c preempt signalPending wake hook).task (k.curr c)).schedClass :=
        (curr_class_keep hk.inv hstep id).symm.trans (schedSwitch_turn _ c next _).schedClass
      have hat : AtPick c (schedBlock k c preempt signalPending wake hook) :=
        ⟨k, _, _, _, _, hk, hwake, rfl⟩
      have hcurr : (k.rq c).curr = k.curr c := rfl
      rw [hcurr] at hnext
      rw [hprev] at hclass ⊢
      generalize schedBlock k c preempt signalPending wake hook = k₁ at *
      obtain ⟨x, hinv⟩ := hat.inv
      obtain ⟨curr, hrq⟩ := schedSwitch_queue k₁ c next c
      rw [hrq] at hafter
      obtain ⟨hno, hts⟩ : Contested (k₁.rq c) := hafter
      rw [schedSwitch_curr, Function.update_self, (schedSwitch_turn k₁ c next next).schedClass]
      have hshort := fairShortcut_iff hinv c (k.curr c)
      constructor
      · -- a TS task is not picked by the shortcut
        intro hnextTs
        by_contra hprevTs
        have hs := hshort.mpr ⟨(hclass.resolve_left hprevTs).symm, hno⟩
        rw [pickNextTask_shortcut hs] at hnext
        exact pickLoop_fair_class hinv hnext hnextTs
      · -- the loop comes to the TS class before the fair one
        intro hprevTs
        have hs : ¬fairShortcut k₁ c (k.curr c) = true := fun hs => by
          rcases (hshort.mp hs).1 with he | he <;> rw [hprevTs] at he <;> cases he
        obtain ⟨p, hp, hq⟩ := pickNextTaskTs_of_hasTs hinv hat.tasksOk hts (k.curr c)
        have htake : (classPickNextTask picks k₁ c (k.curr c) .ts).1 = some p := hp
        rw [pickNextTask, if_neg hs, pickLoop_noHigher hno, pickLoop_take htake] at hnext
        obtain rfl := Option.some.inj hnext
        exact hq.2.2
  | _ => exact hsched.elim

theorem class_sticks_step (hk : Reachable k) (hstep : step k op = some k')
    (hkeep : ¬Reclasses (k.curr cpu) op) (hbefore : NoHigher (k.rq cpu))
    (hafter : Contested (k'.rq cpu)) :
    (k'.task (k'.curr cpu)).schedClass = .ts ↔ (k.task (k.curr cpu)).schedClass = .ts := by
  by_cases hsched : Schedules cpu op
  · exact schedule_sticks hk hstep hsched hbefore hafter
  · rw [(step_onward hstep).curr cpu hsched, curr_class_keep hk.inv hstep hkeep]

end Contest

/-- As long as TS tasks are queued on a CPU and nothing above them, and the
class of the running task is not set, the CPU stays with the TS class if
it runs there, and away from it if not. -/
theorem class_sticks {k k' : Kernel} {h : List (Kernel × Op)} (hk : Reachable k)
    (hrun : Lts.Run step k h k') {cpu : Nat} (hcontest : ∀ x ∈ h, Contested (x.1.rq cpu))
    (hend : Contested (k'.rq cpu)) (hkeep : ∀ x ∈ h, ¬Reclasses (x.1.curr cpu) x.2) :
    (k'.task (k'.curr cpu)).schedClass = .ts ↔ (k.task (k.curr cpu)).schedClass = .ts := by
  induction hrun with
  | nil => exact Iff.rfl
  | @cons k k₁ k' op h hstep hrest ih =>
      have hnext : Contested (k₁.rq cpu) := by
        cases hrest with
        | nil => exact hend
        | cons => exact hcontest _ (List.mem_cons_of_mem _ (List.mem_cons_self ..))
      have hlast := ih (Lts.Reaches.tail hk hstep)
        (fun x hx => hcontest x (List.mem_cons_of_mem _ hx)) hend
        fun x hx => hkeep x (List.mem_cons_of_mem _ hx)
      exact hlast.trans (class_sticks_step hk hstep (hkeep _ (List.mem_cons_self ..))
        (hcontest _ (List.mem_cons_self ..)).1 hnext)

/-- A fair task runs, a TS task is queued: after a tick and two calls of
`__schedule` a fair task still runs. -/
theorem class_sticks_fair : ∃ k h k', Reachable k ∧ Lts.Run step k h k'
    ∧ (k.task (k.curr 0)).schedClass = .fair ∧ (k'.task (k'.curr 0)).schedClass ≠ .ts := by
  let pick : Op := .schedule 0 true false none false fun _ => .head
  let ops := [pick, .schedulerTick 0 true 0, pick]
  obtain ⟨k, hk, hfair, hq, hlast⟩ := exists_reachable
    [.schedFork 0 0, .wakeUpNewTask (.proc 0) 0 false, pick, .schedFork 0 1,
      .schedSetscheduler (.proc 1) (schedCopyAttr (some 10) 0 0 0) false true SchedEnv.root false,
      .wakeUpNewTask (.proc 1) 0 false]
    (P := fun k => (k.task (k.curr 0)).schedClass = .fair
      ∧ (∀ x ∈ Lts.trace step k ops, NoHigher (x.1.rq 0) ∧ (x.1.rq 0).queue (.ts 19) ≠ [])
      ∧ (Lts.exec step k ops).any (fun k' => decide (
        NoHigher (k'.rq 0) ∧ (k'.rq 0).queue (.ts 19) ≠ [])) = true) (by decide +kernel)
  obtain ⟨k', hk', hend⟩ := (Option.any_eq_true _ _).mp hlast
  obtain ⟨hno, hts⟩ := of_decide_eq_true hend
  have hrun := Lts.exec_run hk'
  refine ⟨k, _, k', hk, hrun, hfair, fun hcurr => ?_⟩
  have hsame : (k'.task (k'.curr 0)).schedClass = .ts ↔ (k.task (k.curr 0)).schedClass = .ts :=
    class_sticks hk hrun (fun x hx => ⟨(hq x hx).1, _, (hq x hx).2⟩) ⟨hno, _, hts⟩ ?_
  · rw [hcurr, hfair] at hsame
    exact absurd (hsame.mp rfl) (by decide)
  · intro x hx
    have hop := Lts.mem_trace hx
    simp only [ops, List.mem_cons, List.not_mem_nil, or_false] at hop
    rcases hop with hop | hop | hop <;> rw [hop] <;> exact id

/-! ## Woken against worn -/

section Woken

variable {k k' : Kernel} {op : Op} {p : Pid}

/-- What a wakeup does to the priority of a TS task. -/
theorem woken_prio (hstep : step k op = some k') (hwakes : Wakes k p op)
    (hts : (k.task p).schedClass = .ts) : (k'.task p).prio = wakeupPrio (k.task p).prio := by
  -- the enqueue writes it, and nothing behind it does
  have hactive : ∀ {s : Kernel} {cpu flags : Nat} {hook : Bool}, (s.task p).prio = (k.task p).prio →
      (s.task p).schedClass = .ts → flags &&& enqueueWakeup ≠ 0 →
      ((ttwuDoWakeup (ttwuActivate s cpu p flags) cpu p hook).task p).prio =
        wakeupPrio (k.task p).prio := by
    intro s cpu flags hook hprio hclass hflags
    rw [((Effect.ttwuDoWakeup ..).turn p id).prio, ttwuActivate_task, Function.update_self,
      enqueuedTask_of_wakeup hflags, wokenTask, if_pos hclass, ← hprio]
  cases step_cases hstep with
  | @tryToWakeUp q state dest hook =>
      obtain ⟨rfl, hstate, hoff⟩ := hwakes
      simp only [tryToWakeUp]
      rw [if_neg hstate, if_neg (by rw [hoff]; exact Bool.false_ne_true)]
      refine hactive (by rw [mod_task_self]) (by rw [mod_task_self]; exact hts) ?_
      split_ifs <;> decide
  | @schedule cpu preempt signalPending wake hook picks next hwake hnext =>
      have hcurr : p ≠ (k.rq cpu).curr := hwakes.2.2.2.2.2.1
      have htask : (blockedKernel k cpu).task p = k.task p := by
        rw [blockedKernel_task, Function.update_of_ne hcurr]
      rw [(schedSwitch_turn ..).prio, schedBlock_wakes hwakes]
      exact hactive (by rw [htask]) (by rw [htask]; exact hts) (by decide)
  | _ => exact absurd hwakes id

/-- Without an expiry and without a new priority the old one stays. -/
theorem TaskStep.prio_keep {t : TaskStruct} (hstep : TaskStep k p t op)
    (hexp : ¬Expires k p op) (hno : ¬Reprioritises k p op) : t.prio = (k.task p).prio := by
  cases hstep with
  | keep _ hto => exact hto.prio
  | wakeup hw hto =>
      have hts : (k.task p).schedClass ≠ .ts := fun hts => hno (hw.reprioritises hts)
      rw [hto.prio, wokenTask, if_neg hts]
  | tick _ _ hto => exact hto.prio
  | expire hc hslice _ => exact absurd ⟨hc, hslice⟩ hexp
  | renice hren _ => exact absurd ⟨rfl, hren⟩ hno
  | reniceRt _ _ hto => exact hto.prio
  | policy _ hch _ => exact absurd ⟨rfl, hch⟩ hno
  | setprio hset _ => exact absurd ⟨rfl, hset⟩ hno
  | stopper hstop _ => exact absurd hstop hno

theorem run_prio_keep {h : List (Kernel × Op)} (hlive : k.Live p) (hrun : Lts.Run step k h k')
    (hno : ∀ x ∈ h, ¬Expires x.1 p x.2 ∧ ¬Reprioritises x.1 p x.2) :
    (k'.task p).prio = (k.task p).prio := by
  induction hrun with
  | nil => rfl
  | cons hstep _ ih =>
      obtain ⟨hexp, hrep⟩ := hno _ (List.mem_cons_self ..)
      have hrest := ih (step_live_mono hstep hlive) fun x hx => hno x (List.mem_cons_of_mem _ hx)
      exact hrest.trans ((step_task hstep hlive).prio_keep hexp hrep)

theorem Charged.ts (h : Charged k p op) : (k.task p).schedClass = .ts := by
  cases op with
  | schedulerTick => exact h.2.1
  | _ => exact h.elim

end Woken

/-- The task `p` was woken and has since then neither used up a slice nor got
another priority, the task `q` has used up a slice and got no other priority
since. Then `p` has the better priority, and `__schedule` does not give
their CPU to `q` while `p` is queued there. -/
theorem woken_first {p q : Pid} {k₁ l₁ k₂ l₂ k : Kernel} {op₁ op₂ : Op}
    {h₁ h₂ : List (Kernel × Op)} (hk₁ : Reachable k₁) (hk₂ : Reachable k₂)
    (hlive : k₁.Live p) (hts : (k₁.task p).schedClass = .ts) (hwakes : Wakes k₁ p op₁)
    (hstep₁ : step k₁ op₁ = some l₁) (hrun₁ : Lts.Run step l₁ h₁ k)
    (hno₁ : ∀ x ∈ h₁, ¬Expires x.1 p x.2 ∧ ¬Reprioritises x.1 p x.2)
    (hexp : Expires k₂ q op₂) (hstep₂ : step k₂ op₂ = some l₂) (hrun₂ : Lts.Run step l₂ h₂ k)
    (hno₂ : ∀ x ∈ h₂, ¬Reprioritises x.1 q x.2) :
    (k.task p).prio < (k.task q).prio
    ∧ ∀ s op cpu, Reachable s → step s op = some k → Schedules cpu op → QueuedTs k p →
        (k.task p).cpu = cpu → (k.task q).schedClass = .ts → k.curr cpu ≠ q := by
  have hlow : (k.task p).prio ≤ 109 := by
    rw [run_prio_keep (step_live_mono hstep₁ hlive) hrun₁ hno₁, woken_prio hstep₁ hwakes hts]
    exact (wakeupPrio_range ((hk₁.tasksOk p hlive).tsRange hts)).2
  have hhigh : 110 ≤ (k.task q).prio := by
    have hq := hexp.1.live hk₂.inv
    have hle := run_prio_le (Lts.Reaches.tail hk₂ hstep₂) (step_live_mono hstep₂ hq) hrun₂ hno₂
    rw [(expires_effect hk₂ hexp hstep₂).1] at hle
    have hge := ((hk₂.tasksOk q hq).tsRange hexp.1.ts).1
    omega
  refine ⟨by omega, fun s op cpu hs hstep hsched hp hcpu hqts hcurr => ?_⟩
  subst hcurr
  have hne : p ≠ k.curr cpu := by
    rintro rfl
    omega
  rcases scheduled_first hs hstep hsched hqts hp hcpu hne with hlt | ⟨heq, -⟩ <;> omega

/-- A task that wakes up finds another that has just used up its slice. -/
theorem woken_first_sleeper : ∃ k, Reachable k
    ∧ (k.task (.proc 1)).prio < (k.task (.proc 0)).prio := by
  let tick : Op := .schedulerTick 0 false 0
  let pick : Op := .schedule 0 false false none false fun _ => .head
  let wake : Op := .tryToWakeUp (.proc 1) 1 0 false
  obtain ⟨k₂, hk₂, hexp, hlast⟩ := exists_reachable
    (tsCurrRun ++ [.schedFork 0 1, .wakeUpNewTask (.proc 1) 0 false, .setUserNice (.proc 1) (-5),
      pick, .setCurrentState 0 1, pick] ++ List.replicate 11 tick)
    (P := fun k₂ => Expires k₂ (.proc 0) tick
      ∧ (step k₂ tick).any (fun k₁ => decide (
        k₁.Live (.proc 1) ∧ (k₁.task (.proc 1)).schedClass = .ts ∧ Wakes k₁ (.proc 1) wake
        ∧ (step k₁ wake).isSome = true)) = true) (by decide +kernel)
  obtain ⟨k₁, hstep₂, hnext⟩ := (Option.any_eq_true _ _).mp hlast
  obtain ⟨hlive, hts, hwakes, hsome⟩ := of_decide_eq_true hnext
  obtain ⟨k, hstep₁⟩ := Option.isSome_iff_exists.mp hsome
  have hk₁ := Lts.Reaches.tail hk₂ hstep₂
  refine ⟨k, Lts.Reaches.tail hk₁ hstep₁, (woken_first hk₁ hk₂ hlive hts hwakes hstep₁ (.nil k)
    (fun _ hx => absurd hx List.not_mem_nil) hexp hstep₂ (.cons hstep₁ (.nil k)) ?_).1⟩
  intro x hx
  obtain rfl := List.mem_singleton.mp hx
  rintro ⟨⟨hp, -⟩, -⟩
  cases hp

end Sched

end Comp4511
