import Comp4511.RtInv

/-!
# The order of service

Under the hundred lists and their bitmap the class keeps one list, in which
better priorities come first. `served` says what every operation does to
that list, in terms of the list alone: a task that comes goes behind those
of its priority or, with `ENQUEUE_HEAD`, in front of them; one that has had
its slice or yields goes behind them again; everything else but the removal
of a task leaves the order alone. `order_served` is the refinement, and
`schedule_first` says that the first of the list is the task that runs.
-/

namespace Comp4511

namespace Rt

open Sched (Pid SchedClass Policy)

/-! ## What the functions do to the array -/

section Active

variable {rq rq' : Rq} {p : Pid} {flags : ℕ}

theorem active_updateRtMigration (rq : Rq) :
    (updateRtMigration rq).rt.active = rq.rt.active := by
  unfold updateRtMigration rtSetOverload rtClearOverload
  split_ifs <;> rfl

theorem active_incRtTasks (b : Bandwidth) (rq : Rq) (p : Pid) :
    (incRtTasks b rq p).rt.active = rq.rt.active := by
  have hgroup : ∀ rq : Rq, (incRtGroup b rq).rt.active = rq.rt.active := fun rq => by
    rw [incRtGroup_eq]
  have hprio : ∀ (rq : Rq) (prio : ℤ), (incRtPrio rq prio).rt.active = rq.rt.active := by
    intro rq prio
    unfold incRtPrio incRtPrioSmp
    dsimp only
    split_ifs <;> rfl
  rw [incRtTasks, hgroup, incRtMigration, active_updateRtMigration]
  exact hprio _ _

theorem active_decRtTasks (rq : Rq) (p : Pid) : (decRtTasks rq p).rt.active = rq.rt.active := by
  have hprio : ∀ (rq : Rq) (prio : ℤ), (decRtPrio rq prio).rt.active = rq.rt.active := by
    intro rq prio
    unfold decRtPrio decRtPrioSmp
    dsimp only
    split_ifs <;> rfl
  rw [decRtTasks, decRtMigration, active_updateRtMigration]
  exact hprio _ _

theorem active_enqueueRtEntityCore (b : Bandwidth) (rq : Rq) (p : Pid) (flags : ℕ) :
    (enqueueRtEntityCore b rq p flags).rt.active =
      if moveEntity flags then linked rq.rt.active (rq.prio p) p flags else rq.rt.active := by
  rw [enqueueRtEntityCore_eq, active_incRtTasks]
  rfl

theorem active_dequeueRtEntityCore (rq : Rq) (p : Pid) (flags : ℕ) :
    (dequeueRtEntityCore rq p flags).rt.active =
      if moveEntity flags then unlinked rq.rt.active (rq.prio p) p else rq.rt.active := by
  rw [dequeueRtEntityCore_eq, active_decRtTasks]
  rfl

theorem active_enqueueTaskRt (e : Env) (flags : ℕ) (hout : ¬ rq.Counted p) :
    (enqueueTaskRt e rq p flags).rt.active =
      if moveEntity flags then linked rq.rt.active (rq.prio p) p flags else rq.rt.active := by
  have hdeq := calm_dequeueTopRtRq rq
  have hoff : ((dequeueTopRtRq rq).task p).rt.onRq = false := by
    rw [hdeq.counted, Bool.eq_false_iff]
    exact hout
  have hentity : (enqueueRtEntity e.toBandwidth rq p flags).rt.active =
      if moveEntity flags then linked rq.rt.active (rq.prio p) p flags else rq.rt.active := by
    rw [enqueueRtEntity, (calm_enqueueTopRtRq _).active, active_enqueueRtEntityCore, dequeueRtStack]
    simp only [hoff, Bool.false_eq_true, if_false]
    rw [hdeq.active, hdeq.prio]
  rw [enqueueTaskRt]
  split
  · rw [(still_enqueuePushableTask _ p).active, hentity]
  · exact hentity

theorem active_dequeueTaskRt (e : Env) (flags : ℕ) (hin : rq.Counted p) :
    (dequeueTaskRt e rq p flags).rt.active =
      if moveEntity flags then unlinked rq.rt.active (rq.prio p) p else rq.rt.active := by
  have hcalm := (calm_updateCurrRt e rq).trans (calm_dequeueTopRtRq _)
  have hon : ((dequeueTopRtRq (updateCurrRt e rq)).task p).rt.onRq = true := by
    rw [hcalm.counted]
    exact hin
  rw [dequeueTaskRt, (still_dequeuePushableTask _ p).active, dequeueRtEntity,
    (calm_enqueueTopRtRq _).active, dequeueRtStack]
  simp only [hon, if_true]
  rw [active_dequeueRtEntityCore, hcalm.active, hcalm.prio]

theorem active_putPrevTask (e : Env) (rq : Rq) (p : Pid) :
    (putPrevTask e rq p).rt.active = rq.rt.active := by
  unfold putPrevTask putPrevTaskRt
  dsimp only
  split_ifs
  · rw [(still_enqueuePushableTask _ p).active, (calm_updateCurrRt e rq).active]
  · exact (calm_updateCurrRt e rq).active
  · rfl

theorem active_setCurrTask (rq : Rq) : (setCurrTask rq).rt.active = rq.rt.active := by
  unfold setCurrTask setCurrTaskRt
  dsimp only
  split_ifs
  · rw [(still_dequeuePushableTask _ _).active]
    rfl
  · rfl

theorem active_pickNextTaskRt {e : Env} {prev : Pid} {r : Option Pid × Rq}
    (h : pickNextTaskRt e rq prev = some r) : r.2.rt.active = rq.rt.active := by
  have hupdate : (if rq.isRt prev then updateCurrRt e rq else rq).rt.active = rq.rt.active := by
    split
    · exact (calm_updateCurrRt e rq).active
    · rfl
  unfold pickNextTaskRt at h
  dsimp only at h
  generalize (if rq.isRt prev then updateCurrRt e rq else rq) = rq₁ at h hupdate
  rw [← hupdate]
  split at h
  · obtain rfl := Option.some.inj h
    rfl
  · obtain ⟨p, -, rfl⟩ := Option.map_eq_some_iff.mp h
    rw [(still_dequeuePushableTask _ p).active]
    exact active_putPrevTask ..

theorem active_pickNextTask {e : Env} {prev : Pid} {above below : Option Pid} {r : Pid × Rq}
    (h : pickNextTask e rq prev above below = some r) : r.2.rt.active = rq.rt.active := by
  unfold pickNextTask at h
  cases above with
  | some p =>
      obtain rfl := Option.some.inj h
      exact active_putPrevTask ..
  | none =>
      obtain ⟨⟨next, rq'⟩, hpick, rfl⟩ := Option.map_eq_some_iff.mp h
      have hactive := active_pickNextTaskRt hpick
      cases next with
      | none => exact (active_putPrevTask ..).trans hactive
      | some p => exact hactive

end Active

/-! ## One list -/

/-- A task joins those of its priority, behind them or in front of them. -/
def arrive (prio : Pid → ℤ) (head : Bool) (p : Pid) (q : List Pid) : List Pid :=
  if head then q.orderedInsert (prio · ≤ prio ·) p else q.orderedInsert (prio · < prio ·) p

/-- The order of service after an operation. -/
def served (rq : Rq) : Op → List Pid
  | .activate p flags =>
      if rq.isRt p then arrive rq.prio (flags &&& Sched.enqueueHead ≠ 0) p rq.order else rq.order
  | .deactivate p _ => rq.order.erase p
  | .change p c move head .. =>
      if (rq.task p).onRq ∧ move then
        let q := rq.order.erase p
        if c.schedClass = .rt then arrive (Function.update rq.prio p c.prio) head p q else q
      else rq.order
  | .schedule blocks .. => if blocks then rq.order.erase rq.curr else rq.order
  | .tick =>
      let t := rq.task rq.curr
      if t.schedClass = .rt ∧ t.policy = .rr ∧ t.rt.timeSlice = 1 then
        arrive rq.prio false rq.curr (rq.order.erase rq.curr)
      else rq.order
  | .yield =>
      if rq.isRt rq.curr then arrive rq.prio false rq.curr (rq.order.erase rq.curr) else rq.order
  | .preempt p _ currFits pFits =>
      let curr := rq.task rq.curr
      let t := rq.task p
      if t.schedClass = .rt ∧ curr.schedClass = .rt ∧ t.prio = curr.prio ∧ !curr.needResched ∧
          curr.nrCpusAllowed ≠ 1 ∧ currFits ∧ (t.nrCpusAllowed = 1 ∨ !pFits) then
        arrive rq.prio true p (rq.order.erase p)
      else rq.order
  | .push found =>
      match rq.rt.pushableTasks with
      | [] => rq.order
      | p :: _ =>
          if rq.rt.overloaded ∧ rq.prio rq.curr ≤ rq.prio p ∧ found then rq.order.erase p
          else rq.order
  | .timer .. | .share _ | .online | .offline | .clock _ => rq.order

section Order

variable {rq rq' : Rq} {on : Pid → Prop} {kept run : Option Pid} {p : Pid} {flags : ℕ}

theorem order_of_active (h : rq'.rt.active = rq.rt.active) : rq'.order = rq.order := by
  rw [Rq.order, h, Rq.order]

theorem Queues.order_linked (h : Queues on kept rq) (hp : rq.isRt p = true) (flags : ℕ) :
    PrioArray.order maxRtPrio (linked rq.rt.active (rq.prio p) p flags) =
      arrive rq.prio (flags &&& Sched.enqueueHead ≠ 0) p rq.order := by
  have hrange := h.range p hp
  unfold linked arrive
  split
  · next hhead =>
      rw [if_pos (decide_eq_true hhead)]
      exact h.sound.order_addHead hrange
  · next htail =>
      rw [if_neg fun hhead => htail (of_decide_eq_true hhead)]
      exact h.sound.order_addTail hrange

theorem Queues.order_unlinked (h : Queues on kept rq) (p : Pid) :
    PrioArray.order maxRtPrio (unlinked rq.rt.active (rq.prio p) p) = rq.order.erase p := by
  rw [Rq.order, ← h.sound.order_del p]
  unfold unlinked
  split <;> rfl

theorem Queues.order_erase (h : Queues on none rq) (hp : ¬ (rq.isRt p = true ∧ on p)) :
    rq.order.erase p = rq.order := List.erase_of_not_mem fun hmem => hp ((h.mem_order p).mp hmem)

theorem Sane.order_enqueueTask (h : Sane on kept run rq) (flags : ℕ) (hon : ¬ on p) (e : Env) :
    (Rt.enqueueTask e rq p flags).order =
      if rq.isRt p = true ∧ moveEntity flags = true then
        arrive rq.prio (flags &&& Sched.enqueueHead ≠ 0) p rq.order
      else rq.order := by
  unfold Rt.enqueueTask
  by_cases hp : rq.isRt p = true
  · have hactive := active_enqueueTaskRt e flags fun hc =>
      hon ((h.queues.counted p).mp hc).2
    simp only [hp, if_true, true_and]
    rw [Rq.order, hactive]
    split
    · exact h.queues.order_linked hp flags
    · rfl
  · rw [if_neg hp, if_neg fun hmove => hp hmove.1]
    rfl

theorem Sane.order_dequeueTask (h : Sane on none run rq) (flags : ℕ) (hon : on p) (e : Env) :
    (Rt.dequeueTask e rq p flags).order =
      if moveEntity flags = true then rq.order.erase p else rq.order := by
  unfold Rt.dequeueTask
  by_cases hp : rq.isRt p = true
  · have hactive := active_dequeueTaskRt e flags ((h.queues.counted p).mpr ⟨hp, hon⟩)
    simp only [hp, if_true]
    rw [Rq.order, hactive]
    split
    · exact h.queues.order_unlinked p
    · rfl
  · rw [if_neg hp, h.queues.order_erase fun hp' => hp hp'.1, ite_self]
    rfl

theorem Sane.order_requeueTaskRt (h : Sane on none run rq) (hp : rq.isRt p = true) (hon : on p)
    (head : Bool) :
    (Rt.requeueTaskRt rq p head).order = arrive rq.prio head p (rq.order.erase p) := by
  have hin : (rq.task p).rt.onRq = true := (h.queues.counted p).mpr ⟨hp, hon⟩
  have hlisted : rq.Listed p := (h.queues.listed p).mpr (.inl hin)
  unfold Rt.requeueTaskRt arrive
  simp only [hin, if_true]
  cases head
  · exact h.queues.sound.order_moveTail hlisted
  · exact h.queues.sound.order_moveHead hlisted

theorem Inv.order_changeTask (h : Inv rq) {c : Change} {move : Bool} (hidle : p ≠ rq.idle)
    (hfits : c.Fits)
    (hstay : move = false → c.schedClass = (rq.task p).schedClass ∧ c.prio = rq.prio p) (e : Env)
    (head hook cpuOnline : Bool) :
    (Rt.changeTask e rq p c move head hook cpuOnline).order =
      served rq (.change p c move head hook cpuOnline) := by
  have hdone : ∀ rq' : Rq,
      (checkClassChanged rq' p (rq.task p).schedClass (rq.prio p) hook cpuOnline).order =
        rq'.order := by
    intro rq'
    unfold checkClassChanged switchedToRt prioChangedRt
    dsimp only
    split_ifs <;> rfl
  unfold Rt.changeTask served
  dsimp only
  rw [hdone]
  by_cases hon : rq.On p
  · have hqueued : (rq.task p).onRq = true := hon
    obtain ⟨hchanged, -, hprio⟩ := h.takenOff hon hidle hfits hstay e
    have hclass := isRt_takenOff e rq p c move
    -- off the runqueue it has left the order if it moves
    have horder : (Rt.takenOff e rq p c move).order =
        if move = true then rq.order.erase p else rq.order := by
      obtain ⟨hmove, -⟩ := moveEntity_changeFlags move head
      have hdeq := h.sane.order_dequeueTask (changeFlags move) hon e
      rw [hmove] at hdeq
      rw [← hdeq]
      unfold Rt.takenOff
      dsimp only
      split
      · exact order_of_active (active_putPrevTask ..)
      · rfl
    have hset : ∀ rq' : Rq, (if taskCurrent rq p then setCurrTask rq' else rq').order =
        rq'.order := by
      intro rq'
      split
      · exact order_of_active (active_setCurrTask rq')
      · rfl
    have henq := hchanged.order_enqueueTask (p := p)
      (changeFlags move ||| if head then Sched.enqueueHead else 0) (fun hq => hq.2 rfl) e
    have hflag : decide ((changeFlags move ||| if head then Sched.enqueueHead else 0) &&&
        Sched.enqueueHead ≠ 0) = head := by
      cases move <;> cases head <;> decide
    rw [hprio, hclass, (moveEntity_changeFlags move head).2, horder, hflag] at henq
    simp only [hqueued, if_true, true_and]
    rw [hset]
    refine henq.trans ?_
    cases move <;> simp
  · have hqueued : (rq.task p).onRq = false := Bool.eq_false_iff.mpr hon
    have hrun : taskCurrent rq p = false := decide_eq_false_iff_not.mpr fun hcurr =>
      hon (hcurr ▸ h.curr)
    simp only [hqueued, hrun, Bool.false_eq_true, if_false, false_and]
    rfl

theorem rt_updateCurrRt (e : Env) (rq : Rq) (p : Pid) :
    ((updateCurrRt e rq).task p).rt = (rq.task p).rt := by
  have hmod : ∀ (rq : Rq) (q : Pid) (f : Task → Task), (∀ t, (f t).rt = t.rt) →
      ((rq.mod q f).task p).rt = (rq.task p).rt := by
    intro rq q f hf
    by_cases hp : p = q
    · rw [hp, mod_task_self, hf]
    · rw [mod_task_of_ne _ _ hp]
  have hexec := hmod rq rq.curr (fun t => { t with
    sumExecRuntime := t.sumExecRuntime + (rq.clockTask - (rq.task rq.curr).execStart)
    execStart := rq.clockTask }) fun _ => rfl
  unfold updateCurrRt
  dsimp only
  split_ifs
  · rfl
  · rfl
  · exact hexec
  · exact hexec
  · generalize hrq : Rq.modRt _ _ = rq'
    have htask := task_schedRtRuntimeExceeded e rq'
    have hrt : (rq'.task p).rt = (rq.task p).rt := by
      rw [← hrq]
      exact hexec
    split
    · next rq'' heq =>
        rw [heq] at htask
        refine (hmod rq'' rq''.curr (fun t => { t with needResched := true }) fun _ => rfl).trans ?_
        rw [show rq''.task = rq'.task from htask, hrt]
    · next rq'' heq =>
        rw [heq] at htask
        rw [show rq''.task = rq'.task from htask, hrt]

theorem Inv.order_taskTickRt (h : Inv rq) (e : Env) (hrt : rq.isRt rq.curr = true) :
    (taskTickRt e rq rq.curr).order = served rq .tick := by
  have hcalm := calm_updateCurrRt e rq
  have hsane := h.sane.updateCurrRt e
  have hclass : (rq.task rq.curr).schedClass = .rt := of_decide_eq_true hrt
  have horder : (updateCurrRt e rq).order = rq.order := order_of_active hcalm.active
  have hrt' : (updateCurrRt e rq).isRt rq.curr = true := by rwa [hcalm.isRt]
  have hslice : ∀ s : UInt32, s - 1 = 0 ↔ s = 1 := fun s => by grind
  unfold taskTickRt served
  dsimp only
  rw [hcalm.policy, rt_updateCurrRt]
  simp only [hclass, true_and, hslice, ne_eq]
  by_cases hpolicy : (rq.task rq.curr).policy = .rr
  · by_cases hone : (rq.task rq.curr).rt.timeSlice = 1
    · simp only [hpolicy, hone, not_true_eq_false, if_false, and_self, if_true]
      have hcalm' := calm_mod
        (f := fun t => { t with rt := { t.rt with timeSlice := e.rrTimeslice } })
        (by intro t; rfl) (by intro t; rfl) (by intro t; rfl) (updateCurrRt e rq) rq.curr
      have hsane' := hsane.calm hcalm' (hcalm'.top hsane.top rfl rfl rfl rfl)
      have hprio : ((updateCurrRt e rq).mod rq.curr fun t =>
          { t with rt := { t.rt with timeSlice := e.rrTimeslice } }).prio = rq.prio :=
        funext fun q => (hcalm'.prio q).trans (hcalm.prio q)
      split
      · have hmoved := hsane'.order_requeueTaskRt (p := rq.curr) (by rwa [hcalm'.isRt]) h.curr false
        rw [hprio] at hmoved
        exact hmoved.trans (congrArg (fun q => arrive rq.prio false rq.curr (q.erase rq.curr)) horder)
      · next halone =>
          -- alone in its list the task stays where it is
          have hlisted : rq.Listed rq.curr := (h.sane.queues.listed _).mpr
            (.inl ((h.sane.queues.counted _).mpr ⟨hrt, h.curr⟩))
          have hmem : rq.curr ∈ rq.rt.active.queue (rq.prio rq.curr) :=
            (h.sane.queues.sound.mem _ _).mpr ⟨hlisted, rfl⟩
          refine horder.trans (h.sane.queues.sound.order_alone hlisted ?_).symm
          unfold hasCompany at halone
          rw [hprio] at halone
          dsimp only [Rq.mod] at halone
          rw [hcalm.active] at halone
          simpa [hmem] using halone
    · simp only [hpolicy, hone, not_true_eq_false, if_false, not_false_eq_true, if_true, and_false]
      exact horder
  · simp only [hpolicy, not_false_eq_true, if_true, false_and, if_false]
    exact horder

theorem Inv.order_checkPreemptCurr (h : Inv rq) (hon : rq.On p) (hook currFits pFits : Bool) :
    (checkPreemptCurr rq p hook currFits pFits).order =
      served rq (.preempt p hook currFits pFits) := by
  have hresched : ∀ rq' : Rq, (reschedCurr rq').order = rq'.order := fun _ => rfl
  unfold checkPreemptCurr served
  dsimp only
  by_cases hrt : (rq.task p).schedClass = .rt
  · have hisRt : rq.isRt p = true := decide_eq_true hrt
    by_cases hcurr : (rq.task rq.curr).schedClass = .rt
    · simp only [hrt, hcurr, hisRt, if_true, true_and]
      unfold checkPreemptCurrRt checkPreemptEqualPrio Rq.prio
      have hmoved := h.sane.order_requeueTaskRt hisRt hon true
      by_cases hlt : (rq.task p).prio < (rq.task rq.curr).prio
      · rw [if_pos hlt, if_neg fun hand => hlt.ne hand.1]
        rfl
      · rw [if_neg hlt]
        by_cases heq : (rq.task p).prio = (rq.task rq.curr).prio
        · by_cases hresched' : (!(rq.task rq.curr).needResched) = true
          · rw [if_pos ⟨heq, hresched'⟩]
            by_cases hstay : (rq.task rq.curr).nrCpusAllowed = 1 ∨ (!currFits) = true
            · rw [if_pos hstay, if_neg]
              rintro ⟨-, -, hcpus, hfits, -⟩
              rcases hstay with hstay | hstay
              · exact hcpus hstay
              · rw [hfits] at hstay
                cases hstay
            · rw [if_neg hstay]
              obtain ⟨hcpus, hfits⟩ := not_or.mp hstay
              have hfits : currFits = true := by simpa using hfits
              by_cases hpush : (rq.task p).nrCpusAllowed ≠ 1 ∧ pFits = true
              · rw [if_pos hpush, if_neg]
                rintro ⟨-, -, -, -, hone | hnofit⟩
                · exact hpush.1 hone
                · rw [hpush.2] at hnofit
                  cases hnofit
              · rw [if_neg hpush, if_pos]
                · exact hmoved
                · refine ⟨heq, hresched', hcpus, hfits, ?_⟩
                  by_cases hone : (rq.task p).nrCpusAllowed = 1
                  · exact .inl hone
                  · have hnofit : pFits = false := by
                      by_contra hfit
                      exact hpush ⟨hone, by simpa using hfit⟩
                    exact .inr (by rw [hnofit]; rfl)
          · rw [if_neg fun hand => hresched' hand.2, if_neg fun hand => hresched' hand.2.1]
        · rw [if_neg fun hand => heq hand.1, if_neg fun hand => heq hand.1]
    · have hne : (rq.task p).schedClass ≠ (rq.task rq.curr).schedClass := fun hsame =>
        hcurr (hsame.symm.trans hrt)
      rw [if_neg hne, if_neg fun hand : _ ∧ _ => hcurr hand.2.1]
      split
      · rfl
      · rfl
  · have hisRt : rq.isRt p = false := decide_eq_false hrt
    rw [if_neg fun hand : _ ∧ _ => hrt hand.1]
    simp only [hisRt, Bool.false_eq_true, if_false]
    split_ifs <;> rfl

theorem active_doSchedRtPeriodTimer (e : Env) (rq : Rq) (overrun : ℕ) :
    (doSchedRtPeriodTimer e rq overrun).2.rt.active = rq.rt.active := by
  have hbalance : ∀ rt : RtRq, (balanceRuntime e rt).active = rt.active := fun rt => by
    obtain ⟨runtime, heq⟩ := balanceRuntime_eq e rt
    rw [heq]
  have henq : ∀ rq : Rq, (schedRtRqEnqueue rq).rt.active = rq.rt.active := fun rq =>
    (calm_schedRtRqEnqueue rq).active
  unfold doSchedRtPeriodTimer
  dsimp only
  split_ifs <;> simp only [henq, Rq.modRt, hbalance]

theorem active_plug (b : Bandwidth) (rq : Rq) : (rqOnlineRt b rq).rt.active = rq.rt.active ∧
    (rqOfflineRt rq).rt.active = rq.rt.active := by
  have henq : ∀ rq : Rq, (schedRtRqEnqueue rq).rt.active = rq.rt.active := fun rq =>
    (calm_schedRtRqEnqueue rq).active
  unfold rqOnlineRt rqOfflineRt disableRuntime rtSetOverload rtClearOverload
  dsimp only
  rw [henq]
  constructor <;> split_ifs <;> rfl

theorem Inv.order_schedule (h : Inv rq) {e : Env} {blocks : Bool} {above below : Option Pid}
    (hstep : Rt.schedule e rq blocks above below = some rq') :
    rq'.order = if blocks then rq.order.erase rq.curr else rq.order := by
  unfold Rt.schedule at hstep
  obtain ⟨r, hpick, rfl⟩ := Option.map_eq_some_iff.mp hstep
  refine (order_of_active (active_pickNextTask hpick)).trans ?_
  cases blocks with
  | false => rfl
  | true =>
      exact h.sane.order_dequeueTask (Sched.dequeueSleep ||| Sched.dequeueNoclock) h.curr e

theorem Inv.order_pushRtTask (h : Inv rq) {e : Env} {found : Bool} {r : Bool × Rq}
    (hr : Rt.pushRtTask e rq found = some r) : r.2.order = served rq (.push found) := by
  unfold Rt.pushRtTask at hr
  rw [h.pickNextPushableTask] at hr
  unfold served
  cases hlist : rq.rt.pushableTasks with
  | nil =>
      rw [hlist] at hr
      split at hr
      · obtain rfl := Option.some.inj hr
        rfl
      · obtain rfl := Option.some.inj hr
        rfl
  | cons p l =>
      obtain ⟨-, hon, hrun, -⟩ := (h.sane.pushed.mem p).mp (by
        rw [hlist]
        exact List.mem_cons_self ..)
      have hne : p ≠ rq.curr := fun heq => hrun (congrArg some heq.symm)
      have horder := h.sane.order_dequeueTask 0 hon e
      rw [hlist] at hr
      cases hover : rq.rt.overloaded with
      | false =>
          simp only [hover, Bool.not_false, if_true] at hr
          obtain rfl := Option.some.inj hr
          simp
      | true =>
          simp only [hover, Bool.not_true, Bool.false_eq_true, if_false, List.head?_cons,
            Option.map_some, hne] at hr
          obtain rfl := Option.some.inj hr
          by_cases hprio : rq.prio p < rq.prio rq.curr
          · rw [if_pos hprio]
            dsimp only
            rw [if_neg fun hand => not_le.mpr hprio hand.2.1]
            rfl
          · rw [if_neg hprio]
            cases found with
            | false => simp
            | true =>
                show (Rt.deactivateTask e rq p 0).order = _
                dsimp only
                rw [if_pos ⟨rfl, not_lt.mp hprio, rfl⟩]
                exact horder

/-- Every step does to the order what `served` says. -/
theorem Inv.order_served (h : Inv rq) {b : Bandwidth} {a : Act}
    (hstep : Rt.step b rq a = some rq') : rq'.order = served rq a.op := by
  obtain ⟨hallowed, hstep⟩ := step_cases hstep
  obtain ⟨op, balanced⟩ := a
  unfold Rt.perform at hstep
  cases op with
  | activate p flags =>
      obtain ⟨-, hoff, hmove⟩ := hallowed
      obtain rfl := Option.some.inj hstep
      have horder := h.sane.order_enqueueTask (p := p) flags
        (Bool.eq_false_iff.mp hoff) ⟨b, balanced⟩
      simp only [hmove, and_true] at horder
      exact horder
  | deactivate p flags =>
      obtain ⟨-, -, hon, hmove⟩ := hallowed
      obtain rfl := Option.some.inj hstep
      have horder := h.sane.order_dequeueTask flags hon ⟨b, balanced⟩
      rw [hmove] at horder
      exact horder
  | change p c move head hook cpuOnline =>
      obtain ⟨hidle, hfits, hstay⟩ := hallowed
      obtain rfl := Option.some.inj hstep
      exact h.order_changeTask hidle hfits hstay _ head hook cpuOnline
  | schedule blocks above below =>
      exact h.order_schedule hstep
  | tick =>
      obtain rfl := Option.some.inj hstep
      split
      · next hrt => exact h.order_taskTickRt _ hrt
      · next hrt =>
          have hclass : (rq.task rq.curr).schedClass ≠ .rt := fun hclass =>
            hrt (decide_eq_true hclass)
          simp [served, hclass]
  | yield =>
      obtain rfl := Option.some.inj hstep
      unfold served
      split
      · next hrt => exact h.sane.order_requeueTaskRt hrt h.curr false
      · rfl
  | preempt p hook currFits pFits =>
      obtain rfl := Option.some.inj hstep
      exact h.order_checkPreemptCurr hallowed hook currFits pFits
  | push found =>
      dsimp only at hstep
      obtain ⟨r, hr, rfl⟩ := Option.map_eq_some_iff.mp hstep
      exact h.order_pushRtTask hr
  | timer overrun othersIdle othersThrottled =>
      obtain rfl := Option.some.inj hstep
      refine order_of_active ?_
      have hactive := active_doSchedRtPeriodTimer ⟨b, balanced⟩ rq overrun
      unfold schedRtPeriodTimer
      dsimp only
      split
      · exact hactive
      · exact hactive
  | share runtime =>
      obtain rfl := Option.some.inj hstep
      rfl
  | online =>
      obtain rfl := Option.some.inj hstep
      exact order_of_active (active_plug b _).1
  | offline =>
      obtain rfl := Option.some.inj hstep
      exact order_of_active (active_plug b rq).2
  | clock d =>
      obtain rfl := Option.some.inj hstep
      rfl

end Order

end Rt

end Comp4511
