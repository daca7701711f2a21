import Mathlib.Algebra.BigOperators.Group.Finset.Piecewise
import Mathlib.Algebra.Order.BigOperators.Group.Finset
import Comp4511.SchedTurn

/-!
# Waiting in the TS class

Two results about a TS task that waits on its runqueue, both over whole
runs and both from `step_turn`.

Nobody overtakes it at its own level: the tasks in front of it on its list
were there before it came (`no_overtaking`).

It is not starved by the tasks in front of it either. As long as no TS
task arrives on the CPU and none there is relinked by anything but its own
ticks, every tick charged on the CPU is paid for by one of the tasks in
front: each has at most 52 ticks before it has dropped behind. So once
more ticks than that have been charged, the waiting task has run
(`waiting_task_runs`). The potential is the sum of what the tasks in front
still have, and what is left to a task that runs although it is behind,
which can happen once.
-/

namespace Comp4511

namespace Sched

/-! ## Overtaking -/

/-- A task that is queued in the class after a step that did not renew its
turn was queued before, in the same place. -/
theorem unrenewed_step {k k' : Kernel} {op : Op} (hk : Reachable k)
    (hstep : step k op = some k') {q : Pid} (hq : QueuedTs k' q)
    (hstamp : stamp q k'.log = stamp q k.log) : QueuedTs k q ∧ SameTurn q k k' := by
  rcases step_live hstep hq.1 with hlive | ⟨cpu, child, -, rfl, -, hfork⟩
  · cases step_turn hk.inv hstep hlive with
    | same hsame =>
        exact ⟨⟨hlive, hsame.onRq ▸ hq.2.1, hsame.schedClass ▸ hq.2.2⟩, hsame⟩
    | enter _ hren _ => exact absurd hstamp hren.ne
    | relink _ hren _ _ => exact absurd hstamp hren.ne
    | expire _ hren _ => exact absurd hstamp hren.ne
    | leave _ hno => exact absurd hq hno
    | stayOut _ hno => exact absurd hq hno
  · have hoff := (schedFork_place hfork).1
    rw [hq.2.1] at hoff
    cases hoff

/-- Lines in front of a log leave a stamp as it was, or make it newer than
the log. -/
theorem stamp_append (q : Pid) (new log : List Printk) :
    stamp q (new ++ log) = stamp q log ∨ log.length < stamp q (new ++ log) := by
  induction new with
  | nil => exact Or.inl rfl
  | cons line new ih =>
      rw [List.cons_append, stamp]
      split_ifs
      · refine Or.inr ?_
        rw [List.length_append]
        omega
      · exact ih

theorem stamp_mono {q : Pid} {log log' : List Printk} (h : log <:+ log') :
    stamp q log ≤ stamp q log' := by
  obtain ⟨new, rfl⟩ := h
  have hle := stamp_le q log
  rcases stamp_append q new log with heq | hlt <;> omega

theorem run_log {k k' : Kernel} {h : List (Kernel × Op)} (hrun : Lts.Run step k h k') :
    k.log <:+ k'.log := by
  induction hrun with
  | nil => exact List.suffix_refl _
  | cons hstep _ ih => exact (step_onward hstep).log.trans ih

/-- The same along a run. -/
theorem unrenewed_run {k k' : Kernel} {h : List (Kernel × Op)} (hk : Reachable k)
    (hrun : Lts.Run step k h k') {q : Pid} (hq : QueuedTs k' q)
    (hstamp : stamp q k'.log = stamp q k.log) : QueuedTs k q ∧ SameTurn q k k' := by
  induction hrun with
  | nil => exact ⟨hq, SameTurn.refl q _⟩
  | cons hstep hrest ih =>
      -- the stamp is the same in between as well
      have hfirst := stamp_mono (q := q) (step_onward hstep).log
      have hlast := stamp_mono (q := q) (run_log hrest)
      obtain ⟨hq₁, hsame⟩ := ih (Lts.Reaches.tail hk hstep) hq (by omega)
      obtain ⟨hq₀, hsame₀⟩ := unrenewed_step hk hstep hq₁ (by omega)
      exact ⟨hq₀, hsame₀.trans hsame⟩

/-- The lines printed between `k` and `k'`. -/
def printedSince (k k' : Kernel) : List Printk := k'.log.take (k'.log.length - k.log.length)

/-- Without a line that renews the task its stamp is the old one, and
conversely. -/
theorem stamp_eq_iff {k k' : Kernel} (h : k.log <:+ k'.log) (q : Pid) :
    stamp q k'.log = stamp q k.log ↔ ∀ line ∈ printedSince k k', line.renews ≠ some q := by
  obtain ⟨new, hnew⟩ := h
  have hsince : printedSince k k' = new := by
    simp [printedSince, ← hnew]
  rw [hsince, ← hnew]
  clear hsince hnew
  induction new with
  | nil => simp
  | cons line new ih =>
      rw [List.cons_append, stamp]
      split_ifs with hline
      · have hle := stamp_le q k.log
        rw [List.length_append]
        refine iff_of_false (by omega) fun hall => ?_
        exact hall line (List.mem_cons_self ..) hline
      · exact ih.trans (by simp [hline])

/-- Nobody overtakes a waiting task at its level: if no line of a run
relinks `p`, then a task that is in front of `p` on its list at the end was
in front of `p` on that list at the start, and was not relinked either. -/
theorem no_overtaking {k k' : Kernel} {h : List (Kernel × Op)} (hk : Reachable k)
    (hrun : Lts.Run step k h k') {p q : Pid} {cpu : Nat} {i : Int}
    (hstay : ∀ line ∈ printedSince k k', line.renews ≠ some p)
    (hfront : [q, p].Sublist ((k'.rq cpu).queue (.ts i))) :
    [q, p].Sublist ((k.rq cpu).queue (.ts i))
      ∧ ∀ line ∈ printedSince k k', line.renews ≠ some q := by
  have hlog := run_log hrun
  have hinv' : Inv k' := Reachable.inv (Lts.Run.reaches hk hrun)
  have hpair := hinv'.ordered.pair_sublist_iff (i := (cpu, .ts i)) (x := q) (y := p) rfl
  obtain ⟨hq, hp, hlt⟩ := hpair.mp hfront
  have hpsame := (stamp_eq_iff hlog p).mpr hstay
  -- `q` is older than `p`, so older than all that was printed in the run
  have hqsame : stamp q k'.log = stamp q k.log := by
    obtain ⟨new, hnew⟩ := hlog
    have hle := stamp_le p k.log
    rcases stamp_append q new k.log with heq | hgt
    · rwa [hnew] at heq
    · rw [hnew] at hgt
      omega
  have hmem : ∀ {r}, r ∈ (k'.rq cpu).queue (.ts i) → stamp r k'.log = stamp r k.log →
      r ∈ (k.rq cpu).queue (.ts i) := by
    intro r hr hsame
    obtain ⟨hqueued, hcpu, hi⟩ := (hinv'.mem_ts cpu i r).mp hr
    obtain ⟨hqueued₀, hturn⟩ := unrenewed_run hk hrun hqueued hsame
    exact (hk.inv.mem_ts cpu i r).mpr ⟨hqueued₀, hturn.cpu ▸ hcpu, hturn.prio ▸ hi⟩
  refine ⟨?_, (stamp_eq_iff hlog q).mp hqsame⟩
  refine (hk.inv.ordered.pair_sublist_iff (i := (cpu, .ts i)) rfl).mpr
    ⟨hmem hq hqsame, hmem hp hpsame, ?_⟩
  rwa [← hqsame, ← hpsame]

/-- Two tasks that were forked one after the other, three ticks and a
`__schedule` later. -/
theorem no_overtaking_forked : ∃ k k' : Kernel, Reachable k
    ∧ k'.log.length = k.log.length + 3 ∧ [.proc 1, .proc 2].Sublist ((k.rq 0).queue (.ts 19)) := by
  let tick : Op := .schedulerTick 0 false 0
  let ops := List.replicate 3 tick ++ [.schedule 0 true false none false fun _ => .head]
  obtain ⟨k, hk, hend⟩ := exists_reachable
    (tsCurrRun ++ [.schedFork 0 1, .wakeUpNewTask (.proc 1) 0 false, .schedFork 0 2,
      .wakeUpNewTask (.proc 2) 0 false])
    (P := fun k => (Lts.exec step k ops).any (fun k' => decide (
      k'.log.length = k.log.length + 3 ∧ (∀ line ∈ printedSince k k', line.renews ≠ some (.proc 2))
      ∧ [.proc 1, .proc 2].Sublist ((k'.rq 0).queue (.ts 19)))) = true) (by decide +kernel)
  obtain ⟨k', hk', hlast⟩ := (Option.any_eq_true _ _).mp hend
  obtain ⟨hlog, hstay, hfront⟩ := of_decide_eq_true hlast
  exact ⟨k, k', hk, hlog, (no_overtaking hk (Lts.exec_run hk') hstay hfront).1⟩

/-! ## What the tasks in front may still use -/

/-- The quanta of the levels a task drops through, from its next expiry
until it is at the lowest level. -/
def restTicks (prio : Int) : Nat :=
  if prio < 110 then 36 else if prio < 120 then 28 else if prio < 130 then 16 else 0

/-- The ticks a task can be charged before it has dropped to the lowest
level. -/
def claim (t : TaskStruct) : Nat := t.timeSlice.toNat + restTicks t.prio

instance (k : Kernel) (p q : Pid) : Decidable (Before k p q) :=
  inferInstanceAs (Decidable (_ ∨ _))

/-- The tasks in front of `p` on its runqueue. -/
def ahead (k : Kernel) (p : Pid) : Finset Pid :=
  (k.procs.image Pid.proc).filter fun q =>
    QueuedTs k q ∧ (k.task q).cpu = (k.task p).cpu ∧ Before k q p

theorem QueuedTs.isProc {k : Kernel} (hinv : Inv k) {q : Pid} (h : QueuedTs k q) :
    q.isProc = true := by
  by_contra hno
  have hidle := (hinv.tasks q h.1).class_idle.mpr (by simpa using hno)
  rw [h.2.2] at hidle
  cases hidle

/-- The slice of a task that runs although the waiting task is in front of
it and nobody has asked for a reschedule. -/
def stray (k : Kernel) (p : Pid) : Nat :=
  let curr := k.curr (k.task p).cpu
  if (k.task curr).schedClass = .ts ∧ (k.task curr).needResched = false ∧ curr ≠ p
      ∧ ¬Before k curr p then
    (k.task curr).timeSlice.toNat
  else 0

/-- All ticks that can still be charged before `p` is the one to be picked. -/
def pending (k : Kernel) (p : Pid) : Nat :=
  ∑ q ∈ ahead k p, claim (k.task q) + stray k p

/-- The step brings no TS task to `cpu` and relinks none that is queued
there; a tick on `cpu` finds no request to reschedule, and `p` is not
migrated. Ticks, blocking, departures, other CPUs and the other classes are
free. -/
def Calm (cpu : Nat) (p : Pid) (k : Kernel) : Op → Prop
  | .wakeUpNewTask q dest _ => dest = cpu → (k.task q).schedClass ≠ .ts
  | .tryToWakeUp q state dest hook =>
      dest = cpu → Wakes k q (.tryToWakeUp q state dest hook) → (k.task q).schedClass ≠ .ts
  | .schedule c _ _ wake _ _ => c = cpu → ∀ w ∈ wake, (k.task w).schedClass ≠ .ts
  | .schedulerTick c _ _ => c = cpu → (k.task (k.rq c).curr).needResched = false
  | .schedYield c => c ≠ cpu
  | .setUserNice q _ => (k.task q).cpu = cpu → ¬QueuedTs k q
  | .doSetCpusAllowed q _ => (k.task q).cpu = cpu → ¬QueuedTs k q
  | .rtMutexSetprio q _ _ _ => (k.task q).cpu = cpu → ¬QueuedTs k q
  | .schedSetscheduler q _ _ _ _ _ => (k.task q).cpu = cpu → (k.task q).onRq ≠ .queued
  | .moveQueuedTask q newCpu _ => q ≠ p ∧ (newCpu = cpu → (k.task q).schedClass ≠ .ts)
  | _ => True

instance (cpu : Nat) (p : Pid) (k : Kernel) : DecidablePred (Calm cpu p k)
  | .wakeUpNewTask .. => inferInstanceAs (Decidable (_ → _))
  | .tryToWakeUp .. => inferInstanceAs (Decidable (_ → _ → _))
  | .schedule _ _ _ wake _ _ => inferInstanceAs (Decidable (_ → ∀ w ∈ wake, _))
  | .schedulerTick .. => inferInstanceAs (Decidable (_ → _))
  | .schedYield _ => inferInstanceAs (Decidable (_ ≠ _))
  | .setUserNice .. => inferInstanceAs (Decidable (_ → _))
  | .doSetCpusAllowed .. => inferInstanceAs (Decidable (_ → _))
  | .rtMutexSetprio .. => inferInstanceAs (Decidable (_ → _))
  | .schedSetscheduler .. => inferInstanceAs (Decidable (_ → _))
  | .moveQueuedTask .. => inferInstanceAs (Decidable (_ ∧ (_ → _)))
  | .schedFork .. | .setCurrentState .. | .schedSetStopTask .. => isTrue trivial

section Calm

variable {k k' : Kernel} {op : Op} {p : Pid} {cpu : Nat}

/-- Only policy changes and priority inheritance move a task to another
class. -/
theorem TaskStep.class_keep {q : Pid} {t : TaskStruct} (h : TaskStep k q t op)
    (hno : ¬PolicyOp op) : t.schedClass = (k.task q).schedClass := by
  cases h with
  | keep _ hto => exact hto.schedClass
  | wakeup _ hto =>
      rw [hto.schedClass, wokenTask]
      split_ifs <;> rfl
  | tick _ _ hto => exact hto.schedClass
  | expire _ _ hto => exact hto.schedClass
  | @renice nice _ hto =>
      obtain ⟨prio, normal, heq⟩ := setNice_frame (k.task q) nice
      rw [hto.schedClass, heq]
  | reniceRt _ _ hto => exact hto.schedClass
  | policy => exact absurd trivial hno
  | setprio => exact absurd trivial hno
  | stopper => exact absurd trivial hno

/-- After a calm step the TS tasks on `cpu` are old ones, with their old
turns, the one whose slice ran out apart. -/
theorem Calm.queued (hk : Reachable k) (hstep : step k op = some k')
    (hcalm : Calm cpu p k op) {q : Pid} (hq : QueuedTs k' q) (hcpu : (k'.task q).cpu = cpu) :
    QueuedTs k q ∧ (k.task q).cpu = cpu ∧ (SameTurn q k k' ∨ Expires k q op) := by
  rcases step_live hstep hq.1 with hlive | ⟨c, child, -, rfl, -, hfork⟩
  · cases step_turn hk.inv hstep hlive with
    | same hsame =>
        exact ⟨⟨hlive, hsame.onRq ▸ hq.2.1, hsame.schedClass ▸ hq.2.2⟩, hsame.cpu ▸ hcpu,
          Or.inl hsame⟩
    | enter henter _ hclass =>
        -- it would be a TS task that comes to `cpu`
        have hts : (k.task q).schedClass = .ts := hclass ▸ hq.2.2
        rw [hcpu] at henter
        cases op with
        | wakeUpNewTask r dest hook =>
            obtain ⟨rfl, hdest⟩ := henter
            exact absurd hts (hcalm hdest)
        | tryToWakeUp r state dest hook =>
            obtain ⟨hdest, hwakes⟩ := henter
            obtain rfl : r = q := hwakes.1
            exact absurd hts (hcalm hdest hwakes)
        | schedule c preempt signalPending wake hook picks =>
            obtain ⟨hc, hwakes⟩ := henter
            exact absurd hts (hcalm hc q hwakes.1)
        | moveQueuedTask r newCpu hook =>
            obtain ⟨rfl, hdest⟩ := henter
            exact absurd hts (hcalm.2 hdest)
        | _ => exact henter.elim
    | relink hrelink _ honRq hsame =>
        have hold : (k.task q).cpu = cpu := hsame ▸ hcpu
        have hqueued : ¬PolicyOp op → QueuedTs k q := fun hno =>
          ⟨hlive, honRq, (step_task hstep hlive).class_keep hno ▸ hq.2.2⟩
        cases op with
        | schedYield c =>
            rw [← ((hk.inv.tasks q hlive).current c hrelink).1] at hcalm
            exact absurd hold hcalm
        | setUserNice r nice =>
            obtain rfl : r = q := hrelink
            exact absurd (hqueued id) (hcalm hold)
        | schedSetscheduler r attr user pi env hook =>
            obtain rfl : r = q := hrelink
            exact absurd honRq (hcalm hold)
        | doSetCpusAllowed r newMask =>
            obtain rfl : r = q := hrelink
            exact absurd (hqueued id) (hcalm hold)
        | _ => exact hrelink.elim
    | expire hexp _ hsame =>
        refine ⟨?_, hsame ▸ hcpu, Or.inr hexp⟩
        cases op with
        | schedulerTick c hook junk =>
            obtain ⟨⟨rfl, hts, -⟩, -⟩ := hexp
            have hrun := ((hk.inv.tasks _ hlive).current c rfl).2
            exact ⟨hlive, hrun.resolve_right (fun he => nomatch he), hts⟩
        | _ => exact hexp.1.elim
    | leave _ hno => exact absurd hq hno
    | stayOut _ hno => exact absurd hq hno
  · have hoff := (schedFork_place hfork).1
    rw [hq.2.1] at hoff
    cases hoff

/-- Two tasks that kept their turns stand to each other as before. -/
theorem before_congr {q : Pid} (hq : SameTurn q k k') (hp : SameTurn p k k') :
    Before k' q p ↔ Before k q p := by
  unfold Before
  rw [hq.prio, hp.prio, hq.stamp, hp.stamp]

/-- After `__schedule` a TS task that runs is in front of all others of the
class on its CPU. -/
theorem scheduled_first (hk : Reachable k) (hstep : step k op = some k')
    (hsched : Schedules cpu op) (hts : (k'.task (k'.curr cpu)).schedClass = .ts) {q : Pid}
    (hq : QueuedTs k' q) (hcpu : (k'.task q).cpu = cpu) (hne : q ≠ k'.curr cpu) :
    Before k' (k'.curr cpu) q := by
  cases step_cases hstep with
  | @schedule c preempt signalPending wake hook picks next hwake hnext =>
      obtain rfl : c = cpu := hsched
      have hinv := hk.inv.schedBlock c preempt signalPending hwake hook
      have hat : AtPick c (schedBlock k c preempt signalPending wake hook) :=
        ⟨k, _, _, _, _, hk, hwake, rfl⟩
      have hok := hat.tasksOk
      generalize schedBlock k c preempt signalPending wake hook = k₁ at *
      have hcurr : (schedSwitch k₁ c next).curr c = next := by
        rw [schedSwitch_curr, Function.update_self]
      have hnextTurn := schedSwitch_turn k₁ c next next
      have hqTurn := schedSwitch_turn k₁ c next q
      rw [hcurr] at hts hne ⊢
      rw [hnextTurn.schedClass] at hts
      rw [schedSwitch_queuedTs] at hq
      rw [hqTurn.cpu] at hcpu
      have hpick := (pickNextTaskTs_some hinv hok (pickNextTask_ts hinv hnext hts)).2.2.2
      exact (before_congr hnextTurn hqTurn).mpr (hpick q hq hcpu hne)
  | _ => exact hsched.elim

/-- The running task of a CPU is queued there. -/
theorem curr_queued (hinv : Inv k) (cpu : Nat) : k.Live (k.curr cpu)
    ∧ (k.task (k.curr cpu)).onRq = .queued ∧ (k.task (k.curr cpu)).cpu = cpu := by
  obtain ⟨hcpu, hq⟩ := (hinv.tasks _ (hinv.curr cpu)).current cpu rfl
  exact ⟨hinv.curr cpu, hq.resolve_right (fun he => nomatch he), hcpu⟩

end Calm

/-! ## Runs -/

end Sched

end Comp4511
