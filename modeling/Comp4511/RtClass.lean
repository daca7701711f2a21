import Comp4511.RtKeep

/-!
# The real-time class between its steps

`Sane on kept run rq` is what holds of a runqueue before and after each
function that `core.c` calls: `on` are the tasks that are queued, `kept` is
one that stays on its list while it is off, and `run` is the task that runs
as far as `pushable_tasks` is concerned, none between `put_prev_task` and
the choice of the next. Every function has one lemma, which says what it
makes of the three.
-/

namespace Comp4511

namespace Rt

open Sched (Pid SchedClass Policy)

structure Sane (on : Pid → Prop) (kept run : Option Pid) (rq : Rq) : Prop where
  queues : Queues on kept rq
  pushed : Pushed (fun q => rq.isRt q = true ∧ on q ∧ run ≠ some q ∧
    1 < (rq.task q).nrCpusAllowed) rq
  top : Top rq

section Sane

variable {on on' : Pid → Prop} {kept run : Option Pid} {rq rq' : Rq} {p : Pid} {flags : ℕ}

/-- The tasks that can be pushed, from a runqueue with the same tasks. -/
theorem Pushed.keeps (h : Pushed (fun q => rq.isRt q = true ∧ on q ∧ run ≠ some q ∧
    1 < (rq.task q).nrCpusAllowed) rq') (hkeeps : Keeps rq rq') :
    Pushed (fun q => rq'.isRt q = true ∧ on q ∧ run ≠ some q ∧
      1 < (rq'.task q).nrCpusAllowed) rq' :=
  h.congr (fun q => by rw [hkeeps.isRt, hkeeps.nrCpusAllowed]) (fun _ _ => rfl) rfl rfl

theorem Sane.calm (h : Sane on kept run rq) (hcalm : Calm rq rq') (htop : Top rq') :
    Sane on kept run rq' :=
  ⟨hcalm.queues h.queues, (hcalm.pushed h.pushed).keeps hcalm.toKeeps, htop⟩

theorem Sane.on_congr (h : Sane on kept run rq) (hon : ∀ q, on' q ↔ on q) :
    Sane on' kept run rq := by
  obtain rfl : on' = on := funext fun q => propext (hon q)
  exact h

theorem Sane.reschedCurr (h : Sane on kept run rq) : Sane on kept run (reschedCurr rq) :=
  h.calm (calm_reschedCurr rq) ((calm_reschedCurr rq).top h.top rfl rfl rfl rfl)

theorem Sane.updateCurrRt (h : Sane on kept run rq) (e : Env) :
    Sane on kept run (updateCurrRt e rq) :=
  h.calm (calm_updateCurrRt e rq) (top_updateCurrRt e h.top)

/-! ## Enqueue and dequeue -/

/-- From the `rest` of a runqueue. -/
theorem pushed_of_rest {S : Pid → Prop} (h : Pushed S rq) (hkeeps : Keeps rq rq')
    (hrest : rq'.rest = rq.rest) : Pushed S rq' :=
  h.congr (fun _ => Iff.rfl) (fun q _ => hkeeps.prio q) (congrArg Rest.pushableTasks hrest)
    (congrArg Rest.highestNext hrest)

theorem bare_of_rest (hkeeps : Keeps rq rq') (hrest : rq'.rest = rq.rest)
    (hqueued : rq.rt.rtQueued = false) (hnr : rq.nrRunning = rq.otherShare) :
    rq'.rt.rtQueued = false ∧ rq'.nrRunning = rq'.otherShare := by
  have hother : rq'.other = rq.other := congrArg Rest.other hrest
  rw [otherShare_congr hkeeps hother, ← hqueued, ← hnr]
  exact ⟨congrArg Rest.rtQueued hrest, congrArg Rest.nrRunning hrest⟩

theorem Sane.enqueueRtEntity (h : Sane on kept run rq) (hp : rq.isRt p = true) (hon : ¬ on p)
    (hready : Ready flags kept p) (b : Bandwidth) :
    Queues (fun q => on q ∨ q = p) none (enqueueRtEntity b rq p flags) ∧
      Pushed (fun q => rq.isRt q = true ∧ on q ∧ run ≠ some q ∧
        1 < (rq.task q).nrCpusAllowed) (enqueueRtEntity b rq p flags) ∧
      Top (enqueueRtEntity b rq p flags) ∧ Keeps rq (enqueueRtEntity b rq p flags) := by
  have hdeq := calm_dequeueTopRtRq rq
  have hout : ((dequeueTopRtRq rq).task p).rt.onRq = false := by
    rw [hdeq.counted, Bool.eq_false_iff]
    exact fun hc => hon ((h.queues.counted p).mp hc).2
  obtain ⟨hqueued, hnr⟩ := bare_dequeueTopRtRq h.top.running
  obtain ⟨hqueues, hkeeps, hrest⟩ := (hdeq.queues h.queues).enqueueCore
    (by rwa [hdeq.isRt]) hon hready b
  rw [Rt.enqueueRtEntity, dequeueRtStack]
  simp only [hout, Bool.false_eq_true, if_false]
  obtain ⟨hqueued', hnr'⟩ := bare_of_rest hkeeps hrest hqueued hnr
  have henq := calm_enqueueTopRtRq (enqueueRtEntityCore b (dequeueTopRtRq rq) p flags)
  exact ⟨henq.queues hqueues, henq.pushed (pushed_of_rest (hdeq.pushed h.pushed) hkeeps hrest),
    top_enqueueTopRtRq (loose_of_bare hqueued' hnr')
      ((congrArg Rest.bug hrest).trans (h.top.bug_dequeued)),
    (hdeq.toKeeps.trans hkeeps).trans henq.toKeeps⟩

theorem Sane.dequeueRtEntity (h : Sane on none run rq) (hp : rq.isRt p = true) (hon : on p)
    (flags : ℕ) :
    Queues (fun q => on q ∧ q ≠ p) (if moveEntity flags then none else some p)
        (dequeueRtEntity rq p flags) ∧
      Pushed (fun q => rq.isRt q = true ∧ on q ∧ run ≠ some q ∧
        1 < (rq.task q).nrCpusAllowed) (dequeueRtEntity rq p flags) ∧
      Top (dequeueRtEntity rq p flags) ∧ Keeps rq (dequeueRtEntity rq p flags) := by
  have hdeq := calm_dequeueTopRtRq rq
  have hin : ((dequeueTopRtRq rq).task p).rt.onRq = true := by
    rw [hdeq.counted]
    exact (h.queues.counted p).mpr ⟨hp, hon⟩
  obtain ⟨hqueued, hnr⟩ := bare_dequeueTopRtRq h.top.running
  obtain ⟨hqueues, hkeeps, hrest⟩ := (hdeq.queues h.queues).dequeueCore
    (by rwa [hdeq.isRt]) hon flags
  rw [Rt.dequeueRtEntity, dequeueRtStack]
  simp only [hin, if_true]
  obtain ⟨hqueued', hnr'⟩ := bare_of_rest hkeeps hrest hqueued hnr
  have henq := calm_enqueueTopRtRq (dequeueRtEntityCore (dequeueTopRtRq rq) p flags)
  exact ⟨henq.queues hqueues, henq.pushed (pushed_of_rest (hdeq.pushed h.pushed) hkeeps hrest),
    top_enqueueTopRtRq (loose_of_bare hqueued' hnr')
      ((congrArg Rest.bug hrest).trans (h.top.bug_dequeued)),
    (hdeq.toKeeps.trans hkeeps).trans henq.toKeeps⟩

/-- The tasks that can be pushed come with a step between `rtQueued` and
`nrRunning` unchanged. -/
theorem top_enqueuePushableTask (h : Top rq) (p : Pid) : Top (enqueuePushableTask rq p) := by
  refine (still_enqueuePushableTask rq p).top h ?_ ?_ ?_ ?_ <;>
    (unfold enqueuePushableTask; dsimp only; split <;> rfl)

theorem top_dequeuePushableTask (h : Top rq) (p : Pid) : Top (dequeuePushableTask rq p) := by
  refine (still_dequeuePushableTask rq p).top h ?_ ?_ ?_ ?_ <;>
    (unfold dequeuePushableTask; dsimp only; split <;> rfl)

theorem Sane.enqueueTaskRt (h : Sane on kept run rq) (hp : rq.isRt p = true) (hon : ¬ on p)
    (hready : Ready flags kept p) (hrun : run = some p ↔ rq.curr = p) (e : Env) :
    Sane (fun q => on q ∨ q = p) none run (enqueueTaskRt e rq p flags) ∧
      Keeps rq (enqueueTaskRt e rq p flags) := by
  obtain ⟨hqueues, hpushed, htop, hkeeps⟩ := h.enqueueRtEntity hp hon hready e.toBandwidth
  rw [Rt.enqueueTaskRt]
  have hcurr : taskCurrent (Rt.enqueueRtEntity e.toBandwidth rq p flags) p = true ↔
      run = some p := by
    rw [taskCurrent, decide_eq_true_eq, hkeeps.curr, hrun]
  split
  · next hpush =>
      have hpush := hpush
      rw [Bool.not_eq_true', ← Bool.not_eq_true, hcurr] at hpush
      have hadd := hpushed.add (p := p) (fun hS => hon hS.2.1) (by
        rw [hkeeps.prio]
        exact (h.queues.range p hp).2)
      have hstill := still_enqueuePushableTask (Rt.enqueueRtEntity e.toBandwidth rq p flags) p
      refine ⟨⟨hstill.queues hqueues, ?_, top_enqueuePushableTask htop p⟩,
        hkeeps.trans hstill.toKeeps⟩
      refine hadd.congr (fun q => ?_) (fun _ _ => rfl) rfl rfl
      rw [(hkeeps.trans hstill.toKeeps).isRt, (hkeeps.trans hstill.toKeeps).nrCpusAllowed]
      rw [hkeeps.nrCpusAllowed] at hpush
      constructor
      · rintro ⟨hq, hq' | rfl, hq''⟩
        · exact .inl ⟨hq, hq', hq''⟩
        · exact .inr rfl
      · rintro (⟨hq, hq', hq''⟩ | rfl)
        · exact ⟨hq, .inl hq', hq''⟩
        · exact ⟨hp, .inr rfl, hpush⟩
  · next hstay =>
      rw [Bool.not_eq_true', ← Bool.not_eq_true, hcurr, hkeeps.nrCpusAllowed] at hstay
      refine ⟨⟨hqueues, ?_, htop⟩, hkeeps⟩
      refine hpushed.congr (fun q => ?_) (fun _ _ => rfl) rfl rfl
      rw [hkeeps.isRt, hkeeps.nrCpusAllowed]
      constructor
      · rintro ⟨hq, hq' | rfl, hq''⟩
        · exact ⟨hq, hq', hq''⟩
        · exact absurd hq'' hstay
      · rintro ⟨hq, hq', hq''⟩
        exact ⟨hq, .inl hq', hq''⟩

theorem Sane.dequeueTaskRt (h : Sane on none run rq) (hp : rq.isRt p = true) (hon : on p)
    (e : Env) (flags : ℕ) :
    Sane (fun q => on q ∧ q ≠ p) (if moveEntity flags then none else some p) run
        (dequeueTaskRt e rq p flags) ∧
      Keeps rq (dequeueTaskRt e rq p flags) := by
  have hcalm := calm_updateCurrRt e rq
  obtain ⟨hqueues, hpushed, htop, hkeeps⟩ :=
    (h.updateCurrRt e).dequeueRtEntity (by rwa [hcalm.isRt]) hon flags
  have hkeeps := hcalm.toKeeps.trans hkeeps
  have hstill := still_dequeuePushableTask (Rt.dequeueRtEntity (Rt.updateCurrRt e rq) p flags) p
  rw [Rt.dequeueTaskRt]
  refine ⟨⟨hstill.queues hqueues, ?_, top_dequeuePushableTask htop p⟩,
    hkeeps.trans hstill.toKeeps⟩
  refine (hpushed.del p).congr (fun q => ?_) (fun _ _ => rfl) rfl rfl
  rw [(hkeeps.trans hstill.toKeeps).isRt, (hkeeps.trans hstill.toKeeps).nrCpusAllowed,
    hcalm.isRt, hcalm.nrCpusAllowed]
  tauto

/-- A task of another class that comes to the runqueue. -/
theorem Sane.enqueueOther (h : Sane on none run rq) (hp : rq.isRt p = false) (hon : ¬ on p)
    (hidle : p ≠ rq.idle) :
    Sane (fun q => on q ∨ q = p) none run (addNrRunning { rq with other := rq.other ++ [p] }
      (nrShare (rq.task p).schedClass)) where
  queues := by
    have hq := h.queues
    refine ⟨hq.sound, hq.listed, fun q => ?_, hq.range, hq.tally, ?_, fun q => ?_⟩
    · show rq.Counted q ↔ rq.isRt q = true ∧ (on q ∨ q = p)
      rw [hq.counted]
      refine and_congr_right fun hrt => ⟨.inl, fun hor => hor.resolve_right ?_⟩
      rintro rfl
      rw [hp] at hrt
      cases hrt
    · refine List.nodup_append.mpr ⟨hq.nodup, List.nodup_singleton p, fun a ha b hb => ?_⟩
      rintro rfl
      rw [List.mem_singleton.mp hb] at ha
      exact hon ((hq.other p).mp ha).2.1
    · show q ∈ rq.other ++ [p] ↔ q ≠ rq.idle ∧ (on q ∨ q = p) ∧ rq.isRt q = false
      rw [List.mem_append, hq.other, List.mem_singleton]
      constructor
      · rintro (⟨hne, hq, hrt⟩ | rfl)
        · exact ⟨hne, .inl hq, hrt⟩
        · exact ⟨hidle, .inr rfl, hp⟩
      · rintro ⟨hne, hq | rfl, hrt⟩
        · exact .inl ⟨hne, hq, hrt⟩
        · exact .inr rfl
  pushed := by
    refine h.pushed.congr (fun q => ?_) (fun _ _ => rfl) rfl rfl
    show rq.isRt q = true ∧ (on q ∨ q = p) ∧ _ ↔ rq.isRt q = true ∧ on q ∧ _
    refine and_congr_right fun hrt => and_congr_left fun _ => ⟨fun hor => hor.resolve_right ?_, .inl⟩
    rintro rfl
    rw [hp] at hrt
    cases hrt
  top := by
    refine ⟨h.top.queued, ?_, h.top.bug⟩
    have hshare : ((rq.other ++ [p]).map fun q => nrShare (rq.task q).schedClass).sum =
        rq.otherShare + nrShare (rq.task p).schedClass := by
      simp [Rq.otherShare]
    show rq.nrRunning + nrShare (rq.task p).schedClass =
      ((rq.other ++ [p]).map fun q => nrShare (rq.task q).schedClass).sum + _
    rw [hshare, h.top.running]
    exact Nat.add_right_comm _ _ _

theorem Sane.dequeueOther (h : Sane on none run rq) (hp : rq.isRt p = false) (hon : on p)
    (hidle : p ≠ rq.idle) :
    Sane (fun q => on q ∧ q ≠ p) none run (subNrRunning { rq with other := rq.other.erase p }
      (nrShare (rq.task p).schedClass)) where
  queues := by
    have hq := h.queues
    refine ⟨hq.sound, hq.listed, fun q => ?_, hq.range, hq.tally, hq.nodup.erase p, fun q => ?_⟩
    · show rq.Counted q ↔ rq.isRt q = true ∧ (on q ∧ q ≠ p)
      rw [hq.counted]
      refine and_congr_right fun hrt => ⟨fun hq => ⟨hq, ?_⟩, fun hq => hq.1⟩
      rintro rfl
      rw [hp] at hrt
      cases hrt
    · show q ∈ rq.other.erase p ↔ q ≠ rq.idle ∧ (on q ∧ q ≠ p) ∧ rq.isRt q = false
      rw [hq.nodup.mem_erase_iff, hq.other]
      tauto
  pushed := by
    refine h.pushed.congr (fun q => ?_) (fun _ _ => rfl) rfl rfl
    show rq.isRt q = true ∧ (on q ∧ q ≠ p) ∧ _ ↔ rq.isRt q = true ∧ on q ∧ _
    refine and_congr_right fun hrt => and_congr_left fun _ => ⟨fun hq => hq.1, fun hq => ⟨hq, ?_⟩⟩
    rintro rfl
    rw [hp] at hrt
    cases hrt
  top := by
    refine ⟨h.top.queued, ?_, h.top.bug⟩
    have hmem : p ∈ rq.other := (h.queues.other p).mpr ⟨hidle, hon, hp⟩
    have hsum := List.sum_map_erase (fun q => nrShare (rq.task q).schedClass) hmem
    show rq.nrRunning - nrShare (rq.task p).schedClass =
      ((rq.other.erase p).map fun q => nrShare (rq.task q).schedClass).sum + _
    have hrunning := h.top.running
    rw [Rq.otherShare, ← hsum, Nat.add_assoc] at hrunning
    rw [hrunning, Nat.add_sub_cancel_left]
    rfl

theorem Sane.enqueueTask (h : Sane on kept run rq) (flags : ℕ) (hon : ¬ on p) (hidle : p ≠ rq.idle)
    (hready : rq.isRt p = true → Ready flags kept p) (hkept : rq.isRt p = false → kept = none)
    (hrun : run = some p ↔ rq.curr = p) (e : Env) :
    Sane (fun q => on q ∨ q = p) none run (enqueueTask e rq p flags) ∧
      Keeps rq (enqueueTask e rq p flags) := by
  unfold Rt.enqueueTask
  cases hp : rq.isRt p with
  | true =>
      simp only [if_true]
      exact h.enqueueTaskRt hp hon (hready hp) hrun e
  | false =>
      simp only [Bool.false_eq_true, if_false]
      obtain rfl := hkept hp
      exact ⟨h.enqueueOther hp hon hidle, ⟨fun _ => rfl, rfl, rfl, rfl, rfl, id⟩⟩

theorem Sane.dequeueTask (h : Sane on none run rq) (hon : on p) (hidle : p ≠ rq.idle) (e : Env)
    (flags : ℕ) :
    Sane (fun q => on q ∧ q ≠ p)
        (if rq.isRt p = true ∧ moveEntity flags = false then some p else none) run
        (dequeueTask e rq p flags) ∧
      Keeps rq (dequeueTask e rq p flags) := by
  unfold Rt.dequeueTask
  cases hp : rq.isRt p with
  | true =>
      have hdeq := h.dequeueTaskRt hp hon e flags
      cases hmove : moveEntity flags <;> simpa [hmove] using hdeq
  | false =>
      simp only [Bool.false_eq_true, if_false, false_and]
      exact ⟨h.dequeueOther hp hon hidle, ⟨fun _ => rfl, rfl, rfl, rfl, rfl, id⟩⟩

/-! ## The task that runs -/

/-- Once the task that runs is put back, all that can migrate can be
pushed. -/
theorem Sane.putPrevTask (h : Sane on kept (some p) rq) (e : Env) :
    Sane on kept none (putPrevTask e rq p) ∧ Keeps rq (putPrevTask e rq p) := by
  unfold Rt.putPrevTask
  cases hp : rq.isRt p with
  | false =>
      simp only [Bool.false_eq_true, if_false]
      refine ⟨⟨h.queues, h.pushed.congr (fun q => ?_) (fun _ _ => rfl) rfl rfl, h.top⟩, .refl rq⟩
      refine and_congr_right fun hrt => and_congr_right fun _ => and_congr_left fun _ => ?_
      refine iff_of_true (Option.some_ne_none _).symm fun heq => ?_
      rw [Option.some.inj heq, hrt] at hp
      cases hp
  | true =>
      simp only [if_true]
      rw [putPrevTaskRt]
      have hcalm := calm_updateCurrRt e rq
      have h' := h.updateCurrRt e
      have hin : ((Rt.updateCurrRt e rq).task p).rt.onRq = true ↔ on p := by
        rw [← Rq.Counted, h'.queues.counted, hcalm.isRt, hp]
        simp
      split
      · next hadd =>
          rw [hin] at hadd
          have hprio : (Rt.updateCurrRt e rq).prio p < maxRtPrio := by
            rw [hcalm.prio]
            exact (h.queues.range p hp).2
          have hpushed := h'.pushed.add (p := p) (fun hS => hS.2.2.1 rfl) hprio
          have hstill := still_enqueuePushableTask (Rt.updateCurrRt e rq) p
          refine ⟨⟨hstill.queues h'.queues, ?_, top_enqueuePushableTask h'.top p⟩,
            hcalm.toKeeps.trans hstill.toKeeps⟩
          refine hpushed.congr (fun q => ?_) (fun _ _ => rfl) rfl rfl
          rw [hstill.isRt, hstill.nrCpusAllowed]
          constructor
          · rintro ⟨hq, hq', -, hq''⟩
            by_cases heq : q = p
            · exact .inr heq
            · exact .inl ⟨hq, hq', fun hsome => heq (Option.some.inj hsome).symm, hq''⟩
          · rintro (⟨hq, hq', -, hq''⟩ | rfl)
            · exact ⟨hq, hq', (Option.some_ne_none _).symm, hq''⟩
            · exact ⟨by rw [hcalm.isRt, hp], hadd.1, (Option.some_ne_none _).symm, hadd.2⟩
      · next hstay =>
          rw [hin] at hstay
          refine ⟨⟨h'.queues, h'.pushed.congr (fun q => ?_) (fun _ _ => rfl) rfl rfl, h'.top⟩,
            hcalm.toKeeps⟩
          constructor
          · rintro ⟨hq, hq', -, hq''⟩
            refine ⟨hq, hq', fun hsome => ?_, hq''⟩
            obtain rfl := Option.some.inj hsome
            exact hstay ⟨hq', hq''⟩
          · rintro ⟨hq, hq', -, hq''⟩
            exact ⟨hq, hq', (Option.some_ne_none _).symm, hq''⟩

/-- The task that is to run cannot be pushed. -/
theorem Sane.dequeuePushable (h : Sane on kept run rq) (hrun : run = none ∨ run = some p) :
    Sane on kept (some p) (dequeuePushableTask rq p) := by
  have hstill := still_dequeuePushableTask rq p
  refine ⟨hstill.queues h.queues, ?_, top_dequeuePushableTask h.top p⟩
  refine (h.pushed.del p).congr (fun q => ?_) (fun _ _ => rfl) rfl rfl
  rw [hstill.isRt, hstill.nrCpusAllowed]
  have hone : q ≠ p → run ≠ some q := by
    rintro hne rfl
    rcases hrun with hrun | hrun
    · cases hrun
    · exact hne (Option.some.inj hrun)
  constructor
  · rintro ⟨hq, hq', hne, hq''⟩
    have hne : q ≠ p := fun heq => hne (by rw [heq])
    exact ⟨⟨hq, hq', hone hne, hq''⟩, hne⟩
  · rintro ⟨⟨hq, hq', -, hq''⟩, hne⟩
    exact ⟨hq, hq', fun hsome => hne (Option.some.inj hsome).symm, hq''⟩

/-- A task of another class that is to run. -/
theorem Sane.runOther (h : Sane on kept run rq) (hp : rq.isRt p = false)
    (hrun : run = none ∨ run = some p) : Sane on kept (some p) rq := by
  rcases hrun with rfl | rfl
  · refine ⟨h.queues, h.pushed.congr (fun q => ?_) (fun _ _ => rfl) rfl rfl, h.top⟩
    refine and_congr_right fun hrt => and_congr_right fun _ => and_congr_left fun _ => ?_
    refine iff_of_true (fun heq => ?_) (Option.some_ne_none _).symm
    rw [Option.some.inj heq, hrt] at hp
    cases hp
  · exact h

theorem Sane.setCurrTask (h : Sane on kept run rq) (hrun : run = none ∨ run = some rq.curr) :
    Sane on kept (some rq.curr) (setCurrTask rq) ∧ Keeps rq (setCurrTask rq) := by
  unfold Rt.setCurrTask
  cases hp : rq.isRt rq.curr with
  | false =>
      simp only [Bool.false_eq_true, if_false]
      exact ⟨h.runOther hp hrun, .refl rq⟩
  | true =>
      simp only [if_true]
      rw [setCurrTaskRt]
      have hexec := calm_mod (f := fun t => { t with execStart := rq.clockTask }) (fun _ => rfl)
        (fun _ => rfl) (fun _ => rfl) rq rq.curr
      have hmod := h.calm hexec (hexec.top h.top rfl rfl rfl rfl)
      exact ⟨hmod.dequeuePushable hrun, hexec.toKeeps.trans
        (still_dequeuePushableTask _ rq.curr).toKeeps⟩

/-- Of a task that is off the runqueue and its list it makes no difference
whether it runs. -/
theorem Sane.runOut (h : Sane on kept none rq) (hp : ¬ on p) : Sane on kept (some p) rq := by
  refine ⟨h.queues, h.pushed.congr (fun q => ?_) (fun _ _ => rfl) rfl rfl, h.top⟩
  refine and_congr_right fun _ => and_congr_right fun hq => and_congr_left fun _ => ?_
  refine iff_of_true (fun heq => hp ?_) (Option.some_ne_none _).symm
  rwa [Option.some.inj heq]

/-! ## Changes of a task -/

/-- A write to a task: to one that is queued it does not change what the
class reads, and one that is kept on its list stays at its level. -/
theorem Sane.retask (h : Sane on kept run rq) {f : Task → Task}
    (hrt : (f (rq.task p)).rt = (rq.task p).rt)
    (hclass : on p → (f (rq.task p)).schedClass = (rq.task p).schedClass ∧
      (f (rq.task p)).policy = (rq.task p).policy ∧
      (f (rq.task p)).nrCpusAllowed = (rq.task p).nrCpusAllowed)
    (hprio : on p ∨ kept = some p → (f (rq.task p)).prio = rq.prio p)
    (hrange : (f (rq.task p)).schedClass = .rt →
      0 ≤ (f (rq.task p)).prio ∧ (f (rq.task p)).prio < maxRtPrio) :
    Sane on kept run (rq.mod p f) := by
  have hother : ∀ q, q ≠ p → (rq.mod p f).task q = rq.task q := fun q hq => mod_task_of_ne rq f hq
  have hself : (rq.mod p f).task p = f (rq.task p) := mod_task_self rq p f
  have hentity : ∀ q, ((rq.mod p f).task q).rt = (rq.task q).rt := fun q => by
    by_cases hq : q = p
    · rw [hq, hself, hrt]
    · rw [hother q hq]
  have hsame : ∀ q, on q → ((rq.mod p f).task q).schedClass = (rq.task q).schedClass ∧
      ((rq.mod p f).task q).policy = (rq.task q).policy ∧
      ((rq.mod p f).task q).nrCpusAllowed = (rq.task q).nrCpusAllowed := fun q hon => by
    by_cases hq : q = p
    · rw [hq, hself]
      exact hclass (hq ▸ hon)
    · rw [hother q hq]
      exact ⟨rfl, rfl, rfl⟩
  have hlevel : ∀ q, on q ∨ kept = some q → (rq.mod p f).prio q = rq.prio q := fun q hon => by
    by_cases hq : q = p
    · rw [Rq.prio, hq, hself]
      exact hprio (hq ▸ hon)
    · rw [Rq.prio, hother q hq]
      rfl
  have hisRt : ∀ q, on q → (rq.mod p f).isRt q = rq.isRt q := fun q hon => by
    rw [Rq.isRt, Rq.isRt, (hsame q hon).1]
  have hlisted : ∀ q, (rq.mod p f).Listed q ↔ rq.Listed q := fun q => by
    rw [Rq.Listed, Rq.Listed, hentity]
  have hcounted : ∀ q, (rq.mod p f).Counted q ↔ rq.Counted q := fun q => by
    rw [Rq.Counted, Rq.Counted, hentity]
  have hq := h.queues
  have hin : ∀ q, rq.Counted q → on q := fun q hc => ((hq.counted q).mp hc).2
  have hshare : (rq.mod p f).otherShare = rq.otherShare := by
    refine congrArg List.sum (List.map_congr_left fun q hmem => ?_)
    rw [(hsame q ((hq.other q).mp hmem).2.1).1]
  refine ⟨⟨?_, fun q => ?_, fun q => ?_, fun q hrt' => ?_, ?_, hq.nodup, fun q => ?_⟩, ?_,
    ⟨h.top.queued, ?_, h.top.bug⟩⟩
  · refine hq.sound.congr hlisted fun q hl => hlevel q ?_
    exact ((hq.listed q).mp hl).imp_left (hin q)
  · rw [hlisted, hcounted, hq.listed]
  · rw [hcounted, hq.counted]
    exact and_congr_left fun hon => by rw [hisRt q hon]
  · by_cases heq : q = p
    · rw [Rq.isRt, heq, hself, decide_eq_true_eq] at hrt'
      rw [Rq.prio, heq, hself]
      exact hrange hrt'
    · rw [Rq.isRt, hother q heq] at hrt'
      rw [Rq.prio, hother q heq]
      exact hq.range q hrt'
  · obtain ⟨C, hnodup, hmem, htally⟩ := hq.tally
    refine ⟨C, hnodup, fun q => by rw [hmem, hcounted], htally.trans ?_⟩
    have hmigr : (C.map fun q => migratory ((rq.mod p f).task q)) =
        C.map fun q => migratory (rq.task q) := List.map_congr_left fun q hq => by
      rw [migratory, migratory, (hsame q (hin q ((hmem q).mp hq))).2.2]
    have hrr : (C.map fun q => rtSeRrNrRunning ((rq.mod p f).task q)) =
        C.map fun q => rtSeRrNrRunning (rq.task q) := List.map_congr_left fun q hq => by
      rw [rtSeRrNrRunning, rtSeRrNrRunning, (hsame q (hin q ((hmem q).mp hq))).2.1]
    simp only [tallyOf, tallyAt, hmigr, hrr]
    rfl
  · show q ∈ rq.other ↔ q ≠ rq.idle ∧ _
    rw [hq.other]
    refine and_congr_right fun _ => and_congr_right fun hon => ?_
    rw [hisRt q hon]
  · refine h.pushed.congr (fun q => ?_) (fun q hS => hlevel q (.inl hS.2.1)) rfl rfl
    constructor
    · rintro ⟨hrt', hon, hne, hcpus⟩
      rw [hisRt q hon] at hrt'
      rw [(hsame q hon).2.2] at hcpus
      exact ⟨hrt', hon, hne, hcpus⟩
    · rintro ⟨hrt', hon, hne, hcpus⟩
      rw [hisRt q hon, (hsame q hon).2.2]
      exact ⟨hrt', hon, hne, hcpus⟩
  · show rq.nrRunning = (rq.mod p f).otherShare + _
    rw [hshare]
    exact h.top.running

/-! ## Moves within a list -/

/-- The tasks of the class in the order in which they are served. -/
def Rq.order (rq : Rq) : List Pid := PrioArray.order maxRtPrio rq.rt.active

/-- A move within a list does not show in the counts. -/
theorem Sane.requeueTaskRt (h : Sane on none run rq) (p : Pid) (head : Bool) :
    Sane on none run (requeueTaskRt rq p head) ∧ Keeps rq (requeueTaskRt rq p head) := by
  unfold Rt.requeueTaskRt
  split
  · next hin =>
      have hq := h.queues
      have hlisted : rq.Listed p := (hq.listed p).mpr (.inl hin)
      have hsound : PrioArray.Sound maxRtPrio rq.prio rq.Listed
          (if head then (rq.rt.active.del p).addHead (rq.prio p) p
            else (rq.rt.active.del p).addTail (rq.prio p) p) := by
        cases head
        · exact hq.sound.moveTail hlisted
        · exact hq.sound.moveHead hlisted
      refine ⟨⟨⟨hsound, hq.listed, hq.counted, hq.range, ?_, hq.nodup, hq.other⟩, ?_,
        ⟨h.top.queued, h.top.running, h.top.bug⟩⟩, ⟨fun _ => rfl, rfl, rfl, rfl, rfl, id⟩⟩
      · obtain ⟨C, hnodup, hmem, htally⟩ := hq.tally
        refine ⟨C, hnodup, hmem, htally.trans ?_⟩
        cases head <;> rfl
      · exact h.pushed.congr (fun _ => Iff.rfl) (fun _ _ => rfl) rfl rfl
  · exact ⟨h, .refl rq⟩

theorem Sane.yieldTaskRt (h : Sane on none run rq) :
    Sane on none run (yieldTaskRt rq) ∧ Keeps rq (yieldTaskRt rq) :=
  h.requeueTaskRt rq.curr false

theorem Sane.taskTickRt (h : Sane on none run rq) (e : Env) (p : Pid) :
    Sane on none run (taskTickRt e rq p) ∧ Keeps rq (taskTickRt e rq p) := by
  have hcalm := calm_updateCurrRt e rq
  have h' := h.updateCurrRt e
  have hslice : ∀ s : UInt32, Calm (Rt.updateCurrRt e rq)
      ((Rt.updateCurrRt e rq).mod p fun t => { t with rt := { t.rt with timeSlice := s } }) :=
    fun s => calm_mod (by intro t; rfl) (by intro t; rfl) (by intro t; rfl) _ p
  unfold Rt.taskTickRt
  dsimp only
  split_ifs
  · exact ⟨h', hcalm.toKeeps⟩
  · exact ⟨h'.calm (hslice _) ((hslice _).top h'.top rfl rfl rfl rfl),
      hcalm.toKeeps.trans (hslice _).toKeeps⟩
  · have hnew := h'.calm (hslice e.rrTimeslice) ((hslice e.rrTimeslice).top h'.top rfl rfl rfl rfl)
    obtain ⟨hmoved, hkeeps⟩ := hnew.requeueTaskRt p false
    exact ⟨hmoved.reschedCurr, ((hcalm.toKeeps.trans (hslice _).toKeeps).trans hkeeps).trans
      (calm_reschedCurr _).toKeeps⟩
  · exact ⟨h'.calm (hslice _) ((hslice _).top h'.top rfl rfl rfl rfl),
      hcalm.toKeeps.trans (hslice _).toKeeps⟩

theorem Sane.checkPreemptCurr (h : Sane on none run rq) (p : Pid) (hook currFits pFits : Bool) :
    Sane on none run (checkPreemptCurr rq p hook currFits pFits) ∧
      Keeps rq (checkPreemptCurr rq p hook currFits pFits) := by
  have hresched : ∀ {rq'}, Sane on none run rq' → Keeps rq rq' →
      Sane on none run (Rt.reschedCurr rq') ∧ Keeps rq (Rt.reschedCurr rq') :=
    fun h hkeeps => ⟨h.reschedCurr, hkeeps.trans (calm_reschedCurr _).toKeeps⟩
  have hmoved := h.requeueTaskRt p true
  unfold Rt.checkPreemptCurr checkPreemptCurrRt checkPreemptEqualPrio
  dsimp only
  split_ifs
  all_goals first
    | exact hresched h (.refl rq)
    | exact ⟨h, .refl rq⟩
    | exact hresched hmoved.1 hmoved.2

/-- What the classes do after a change does no more than ask for a
reschedule. -/
theorem Sane.checkClassChanged (h : Sane on none run rq) (p : Pid) (prevClass : SchedClass)
    (oldprio : ℤ) (hook cpuOnline : Bool) :
    Sane on none run (checkClassChanged rq p prevClass oldprio hook cpuOnline) ∧
      Keeps rq (checkClassChanged rq p prevClass oldprio hook cpuOnline) := by
  unfold Rt.checkClassChanged switchedToRt prioChangedRt
  dsimp only
  split_ifs
  all_goals first
    | exact ⟨h.reschedCurr, (calm_reschedCurr _).toKeeps⟩
    | exact ⟨h, .refl rq⟩

/-! ## The choice of the next task -/

/-- The task that is picked is the first in the order. -/
theorem Queues.pickNextRtEntity (h : Queues on kept rq) :
    pickNextRtEntity rq = rq.order.head? := by
  unfold Rt.pickNextRtEntity schedFindFirstBit Rq.order
  dsimp only
  rw [h.sound.head?_findFirst, h.sound.findFirst_eq]
  cases hhead : (PrioArray.order maxRtPrio rq.rt.active).head? with
  | none => exact if_pos (le_refl (maxRtPrio : ℤ))
  | some x =>
      have hlt := (h.sound.range x (h.sound.mem_order.mp (List.mem_of_mem_head? hhead))).2
      exact if_neg (not_le.mpr hlt)

theorem Queues.mem_order (h : Queues on none rq) (p : Pid) :
    p ∈ rq.order ↔ rq.isRt p = true ∧ on p := by
  rw [Rq.order, h.sound.mem_order, h.listed, h.counted]
  simp

/-- The order has all the tasks that are counted. -/
theorem Queues.order_perm (h : Queues on none rq) :
    ∃ C, rq.order.Perm C ∧ rq.tally = tallyOf rq C := by
  obtain ⟨C, hnodup, hmem, htally⟩ := h.tally
  refine ⟨C, (List.perm_ext_iff_of_nodup h.sound.nodup_order hnodup).mpr fun p => ?_, htally⟩
  rw [hmem, h.counted]
  exact h.mem_order p

theorem Queues.length_order (h : Queues on none rq) : rq.order.length = rq.rt.rtNrRunning := by
  obtain ⟨C, hperm, htally⟩ := h.order_perm
  rw [hperm.length_eq]
  exact (congrArg Tally.rtNrRunning htally).symm

/-- There is a task to pick whenever the class is queued. -/
theorem Sane.exists_pick (h : Sane on none run rq) (hqueued : rq.rt.rtQueued = true) :
    ∃ p, pickNextRtEntity rq = some p ∧ rq.isRt p = true ∧ on p := by
  have hrun : rq.rt.rtNrRunning ≠ 0 := by
    have heq := h.top.queued
    rw [hqueued] at heq
    simpa using (Bool.and_eq_true_iff.mp heq.symm).2
  rw [← h.queues.length_order, Ne, List.length_eq_zero_iff] at hrun
  obtain ⟨p, l, horder⟩ := List.exists_cons_of_ne_nil hrun
  refine ⟨p, by rw [h.queues.pickNextRtEntity, horder, List.head?_cons], ?_⟩
  rw [← h.queues.mem_order, horder]
  exact List.mem_cons_self ..

/-! ## The bandwidth -/

theorem Sane.modRt (h : Sane on kept run rq) {f : RtRq → RtRq}
    (hf : ∃ time runtime, f rq.rt = { rq.rt with rtTime := time, rtRuntime := runtime }) :
    Sane on kept run (rq.modRt f) := by
  obtain ⟨time, runtime, hf⟩ := hf
  have hq := h.queues
  rw [Rq.modRt, hf]
  exact ⟨⟨hq.sound, hq.listed, hq.counted, hq.range, hq.tally, hq.nodup, hq.other⟩,
    h.pushed.congr (fun _ => Iff.rfl) (fun _ _ => rfl) rfl rfl, ⟨h.top.queued, h.top.running, h.top.bug⟩⟩

/-- No longer throttled, the tasks of the class count again. -/
theorem Sane.unthrottle (h : Sane on kept run rq) {f : RtRq → RtRq}
    (hf : ∃ time runtime, f rq.rt =
      { rq.rt with rtThrottled := false, rtTime := time, rtRuntime := runtime })
    (hfree : rq.Free → (rq.modRt f).Free) :
    Sane on kept run (schedRtRqEnqueue (rq.modRt f)) ∧
      Keeps rq (schedRtRqEnqueue (rq.modRt f)) := by
  obtain ⟨time, runtime, hf⟩ := hf
  have hcalm : Calm rq (rq.modRt f) := calm_modRt ⟨false, time, runtime, hf⟩ hfree
  have hqueued : (rq.modRt f).rt.rtQueued = rq.rt.rtQueued := by rw [Rq.modRt, hf]
  have hloose : (rq.modRt f).Loose := by
    refine ⟨hcalm.adds h.top.running hqueued rfl, fun hq => ⟨by rw [Rq.modRt, hf], ?_⟩⟩
    rw [hcalm.rtNrRunning]
    exact (h.top.loose.2 (hqueued ▸ hq)).2
  have hcalm' := hcalm.trans (calm_schedRtRqEnqueue _)
  exact ⟨h.calm hcalm' (top_schedRtRqEnqueue hloose h.top.bug), hcalm'.toKeeps⟩

theorem Sane.schedRtRqEnqueue (h : Sane on kept run rq) :
    Sane on kept run (schedRtRqEnqueue rq) :=
  h.calm (calm_schedRtRqEnqueue rq) (top_schedRtRqEnqueue h.top.loose h.top.bug)

theorem Sane.doSchedRtPeriodTimer (h : Sane on kept run rq) (e : Env) (overrun : ℕ) :
    Sane on kept run (doSchedRtPeriodTimer e rq overrun).2 ∧
      Keeps rq (doSchedRtPeriodTimer e rq overrun).2 := by
  obtain ⟨rq₁, hrq₁⟩ : ∃ rq₁, rq₁ = (if !e.runtimeShare ∧ rq.rt.rtRuntime ≠ runtimeInf then
      rq.modRt fun rt => { rt with rtRuntime := e.rtRuntime } else rq) := ⟨_, rfl⟩
  have h₁ : Sane on kept run rq₁ ∧ Keeps rq rq₁ := by
    rw [hrq₁]
    split
    · next hne =>
        exact ⟨h.modRt ⟨_, _, rfl⟩,
          ⟨fun _ => rfl, rfl, rfl, rfl, rfl, fun hfree => absurd hfree.1 hne.2⟩⟩
    · exact ⟨h, .refl rq⟩
  obtain ⟨rq₂, hrq₂⟩ : ∃ rq₂, rq₂ =
      (if rq₁.rt.rtThrottled then rq₁.modRt (balanceRuntime e) else rq₁) := ⟨_, rfl⟩
  have h₂ : Sane on kept run rq₂ ∧ Keeps rq rq₂ := by
    rw [hrq₂]
    split
    · next hthrottled =>
        obtain ⟨runtime, hbal⟩ := balanceRuntime_eq e rq₁.rt
        refine ⟨h₁.1.modRt ⟨_, runtime, hbal⟩, h₁.2.trans (calm_balanceRuntime e ?_).toKeeps⟩
        intro hfree
        rw [hfree.2] at hthrottled
        cases hthrottled
    · exact h₁
  have hless := h₂.1.modRt (f := fun rt => { rt with
    rtTime := rt.rtTime - min rt.rtTime (overrun * rq₂.rt.rtRuntime % 2 ^ 64) }) ⟨_, _, rfl⟩
  have hkeeps : Keeps rq (rq₂.modRt fun rt => { rt with
      rtTime := rt.rtTime - min rt.rtTime (overrun * rq₂.rt.rtRuntime % 2 ^ 64) }) :=
    h₂.2.trans ⟨fun _ => rfl, rfl, rfl, rfl, rfl, id⟩
  unfold Rt.doSchedRtPeriodTimer
  dsimp only
  rw [← hrq₁, ← hrq₂]
  split_ifs
  · exact h₁
  · obtain ⟨hun, hkeeps'⟩ := hless.unthrottle (f := fun rt => { rt with rtThrottled := false })
      ⟨_, _, rfl⟩ fun hfree => ⟨hfree.1, rfl⟩
    exact ⟨hun, hkeeps.trans hkeeps'⟩
  · exact ⟨hless, hkeeps⟩
  · exact ⟨h₁.1.schedRtRqEnqueue, h₁.2.trans (calm_schedRtRqEnqueue _).toKeeps⟩
  · exact h₁

theorem Sane.schedRtPeriodTimer (h : Sane on kept run rq) (e : Env) (overrun : ℕ)
    (othersIdle othersThrottled : Bool) :
    Sane on kept run (schedRtPeriodTimer e rq overrun othersIdle othersThrottled) ∧
      Keeps rq (schedRtPeriodTimer e rq overrun othersIdle othersThrottled) := by
  obtain ⟨h', hkeeps⟩ := h.doSchedRtPeriodTimer e overrun
  unfold Rt.schedRtPeriodTimer
  dsimp only
  split
  · have hcalm : Calm (Rt.doSchedRtPeriodTimer e rq overrun).2
        { (Rt.doSchedRtPeriodTimer e rq overrun).2 with rtPeriodActive := false } :=
      ⟨⟨⟨fun _ => rfl, rfl, rfl, rfl, rfl, id⟩, fun _ => rfl, fun _ => rfl, rfl, rfl, rfl⟩, rfl, rfl⟩
    exact ⟨h'.calm hcalm (hcalm.top h'.top rfl rfl rfl rfl), hkeeps.trans hcalm.toKeeps⟩
  · exact ⟨h', hkeeps⟩

/-! ## Hot-plug -/

/-- The share of a runqueue in the root domain goes with `online`. -/
theorem Sane.setOnline (h : Sane on none run rq) (online rtoMask : Bool) (rtoCount : ℕ)
    (cpupri : ℤ) (hmask : rtoMask = (online && rq.rt.overloaded))
    (hcount : rtoCount = if online && rq.rt.overloaded then 1 else 0)
    (hpri : cpupri = if online then rq.rt.highestCurr else cpupriInvalid) :
    Sane on none run { rq with
      online := online
      rtoMask := rtoMask
      rtoCount := rtoCount
      cpupri := cpupri } := by
  have hq := h.queues
  refine ⟨⟨hq.sound, hq.listed, hq.counted, hq.range, ?_, hq.nodup, hq.other⟩,
    h.pushed.congr (fun _ => Iff.rfl) (fun _ _ => rfl) rfl rfl, ⟨h.top.queued, h.top.running, h.top.bug⟩⟩
  obtain ⟨C, hnodup, hmem, htally⟩ := hq.tally
  refine ⟨C, hnodup, hmem, ?_⟩
  simp only [Rq.tally, tallyOf, tallyAt, Tally.mk.injEq] at htally ⊢
  obtain ⟨hrun, hrr, hhighest, hmigr, htotal, hover, -⟩ := htally
  refine ⟨hrun, hrr, hhighest, hmigr, htotal, hover, ?_, ?_, ?_⟩
  · rw [hmask, hover]
  · rw [hcount, hover]
  · rw [hpri, hhighest]
    rfl

/-- What the root domain is told of a runqueue. -/
theorem Sane.share (h : Sane on none run rq) :
    rq.rtoMask = (rq.online && rq.rt.overloaded) ∧
      rq.rtoCount = (if rq.online && rq.rt.overloaded then 1 else 0) ∧
      rq.cpupri = if rq.online then rq.rt.highestCurr else cpupriInvalid := by
  obtain ⟨C, -, -, htally⟩ := h.queues.tally
  simp only [Rq.tally, tallyOf, tallyAt, Tally.mk.injEq] at htally
  obtain ⟨-, -, hhighest, -, -, hover, hmask, hcount, hpri⟩ := htally
  rw [hover, hhighest]
  exact ⟨hmask, hcount, hpri⟩

theorem Sane.rqOnlineRt (h : Sane on none run rq) (hoff : rq.online = false)
    (hfree : rq.rt.rtThrottled = false) (b : Bandwidth) :
    Sane on none run (rqOnlineRt b { rq with online := true }) := by
  obtain ⟨hmask, hcount, -⟩ := h.share
  rw [hoff] at hmask hcount
  have henable := h.modRt (f := fun rt => { rt with
    rtRuntime := b.rtRuntime, rtTime := 0, rtThrottled := false }) ⟨0, b.rtRuntime, by rw [← hfree]⟩
  have hset := henable.setOnline true rq.rt.overloaded
    (if rq.rt.overloaded then 1 else 0) rq.rt.highestCurr rfl rfl rfl
  have heq : Rt.rqOnlineRt b { rq with online := true } =
      { rq.modRt fun rt => { rt with
          rtRuntime := b.rtRuntime, rtTime := 0, rtThrottled := false } with
        online := true
        rtoMask := rq.rt.overloaded
        rtoCount := if rq.rt.overloaded then 1 else 0
        cpupri := rq.rt.highestCurr } := by
    cases hover : rq.rt.overloaded <;>
      simp [Rt.rqOnlineRt, enableRuntime, rtSetOverload, Rq.modRt, hover, hmask, hcount]
  rw [heq]
  exact hset

theorem Sane.rqOfflineRt (h : Sane on none run rq) (hon : rq.online = true) :
    Sane on none run { rqOfflineRt rq with online := false } := by
  obtain ⟨hmask, hcount, -⟩ := h.share
  rw [hon, Bool.true_and] at hmask hcount
  have hcleared : (if rq.rt.overloaded then rtClearOverload rq else rq) =
      { rq with rtoMask := false, rtoCount := 0 } := by
    cases hover : rq.rt.overloaded
    · simp only [hover, Bool.false_eq_true, if_false] at hmask hcount ⊢
      rw [← hmask, ← hcount]
    · simp only [hover, if_true] at hcount ⊢
      simp [rtClearOverload, hon, hcount]
  have hset := h.setOnline false false 0 cpupriInvalid rfl rfl rfl
  obtain ⟨hun, -⟩ := hset.unthrottle (f := fun rt => { rt with
    rtRuntime := runtimeInf, rtThrottled := false }) ⟨_, runtimeInf, rfl⟩
    fun _ => ⟨rfl, rfl⟩
  have heq : { Rt.rqOfflineRt rq with online := false } = Rt.schedRtRqEnqueue
      ((Rq.modRt { rq with
        online := false
        rtoMask := false
        rtoCount := 0
        cpupri := cpupriInvalid } fun rt => { rt with
          rtRuntime := runtimeInf, rtThrottled := false })) := by
    rw [Rt.rqOfflineRt]
    dsimp only
    rw [hcleared]
    by_cases hrun : rq.rt.rtNrRunning = 0 <;> cases hqueued : rq.rt.rtQueued <;>
      simp [disableRuntime, Rt.schedRtRqEnqueue, enqueueTopRtRq, Rq.modRt, addNrRunning,
        Rt.reschedCurr, Rq.mod, hrun, hqueued]
  rw [heq]
  exact hun

end Sane

end Rt

end Comp4511
