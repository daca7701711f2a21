import Comp4511.RtClass
import Comp4511.Runs

/-!
# The invariant of a runqueue with real-time tasks

`Steady` is what every function of `core.c` keeps, `Inv` adds that the task
that runs is queued, which is not so while `__schedule` is at work. Each
step has a lemma, and `Reachable.inv` is the induction over a run.

A CPU that is offline has no limit on its runtime and is not throttled;
this is what lets `rq_online_rt` clear `rt_throttled` without a look at the
tasks that are queued.
-/

namespace Comp4511

namespace Rt

open Sched (Pid SchedClass Policy)

structure Steady (rq : Rq) : Prop where
  sane : Sane rq.On none (some rq.curr) rq
  idle : rq.On rq.idle
  idleClass : (rq.task rq.idle).schedClass = .idle
  offline : rq.online = false → rq.Free

structure Inv (rq : Rq) : Prop extends Steady rq where
  curr : rq.On rq.curr

def Reachable (b : Bandwidth) (cpu : ℕ) (rq : Rq) : Prop := Lts.Reaches (step b) (boot b cpu) rq

/-! ## Steps that leave the tasks alone -/

section Keep

variable {rq rq' : Rq} {p : Pid} {flags : ℕ}

theorem Steady.keeps (h : Steady rq) (hsane : Sane rq.On none (some rq.curr) rq')
    (hkeeps : Keeps rq rq') : Steady rq' where
  sane := by
    rw [hkeeps.curr]
    exact hsane.on_congr hkeeps.onRq
  idle := by
    rw [hkeeps.idle, hkeeps.onRq]
    exact h.idle
  idleClass := by
    rw [hkeeps.idle, hkeeps.schedClass]
    exact h.idleClass
  offline hoff := by
    rw [hkeeps.online] at hoff
    exact hkeeps.free (h.offline hoff)

theorem Inv.keeps (h : Inv rq) (hsane : Sane rq.On none (some rq.curr) rq')
    (hkeeps : Keeps rq rq') : Inv rq' where
  toSteady := h.toSteady.keeps hsane hkeeps
  curr := by
    rw [hkeeps.curr, hkeeps.onRq]
    exact h.curr

theorem Steady.isRt_idle (h : Steady rq) : rq.isRt rq.idle = false := by
  rw [Rq.isRt, h.idleClass]
  rfl

theorem Steady.idle_not_rt (h : Steady rq) (hp : rq.isRt p = true) : p ≠ rq.idle := by
  rintro rfl
  rw [h.isRt_idle] at hp
  cases hp

/-! ## Activation -/

theorem on_mod (rq : Rq) (p : Pid) (onRq : Bool) (q : Pid) :
    (rq.mod p fun t => { t with onRq := onRq }).On q ↔ if q = p then onRq = true else rq.On q := by
  by_cases hq : q = p
  · rw [if_pos hq, hq, Rq.On, mod_task_self]
  · rw [if_neg hq, Rq.On, mod_task_of_ne _ _ hq, Rq.On]

theorem schedClass_mod (rq : Rq) (p : Pid) (onRq : Bool) (q : Pid) :
    ((rq.mod p fun t => { t with onRq := onRq }).task q).schedClass = (rq.task q).schedClass := by
  by_cases hq : q = p
  · rw [hq, mod_task_self]
  · rw [mod_task_of_ne _ _ hq]

/-- `p->on_rq` is not among what the class reads. -/
theorem Sane.setOnRq {on : Pid → Prop} {run : Option Pid} (h : Sane on none run rq) (p : Pid)
    (onRq : Bool) : Sane on none run (rq.mod p fun t => { t with onRq := onRq }) :=
  h.retask rfl (fun _ => ⟨rfl, rfl, rfl⟩) (fun _ => rfl) fun hrt =>
    h.queues.range p (decide_eq_true hrt)

/-- A task has come to the runqueue or has left it. -/
theorem Steady.setOnRq (h : Steady rq) {on : Pid → Prop} (hsane : Sane on none (some rq.curr) rq')
    (hkeeps : Keeps rq rq') (hidle : p ≠ rq.idle) (onRq : Bool)
    (hon : ∀ q, on q ↔ if q = p then onRq = true else rq.On q) :
    Steady (rq'.mod p fun t => { t with onRq := onRq }) := by
  have hon' : ∀ q, (rq'.mod p fun t => { t with onRq := onRq }).On q ↔
      if q = p then onRq = true else rq.On q := fun q => by
    rw [on_mod, hkeeps.onRq]
  refine ⟨?_, ?_, ?_, fun hoff => ?_⟩
  · rw [show (rq'.mod p fun t => { t with onRq := onRq }).curr = rq.curr from hkeeps.curr]
    exact (hsane.setOnRq p onRq).on_congr fun q => (hon' q).trans (hon q).symm
  · rw [show (rq'.mod p fun t => { t with onRq := onRq }).idle = rq.idle from hkeeps.idle, hon',
      if_neg hidle.symm]
    exact h.idle
  · rw [show (rq'.mod p fun t => { t with onRq := onRq }).idle = rq.idle from hkeeps.idle,
      schedClass_mod, hkeeps.schedClass]
    exact h.idleClass
  · exact hkeeps.free (h.offline (hkeeps.online.symm.trans hoff))

theorem Inv.activateTask (h : Inv rq) (hidle : p ≠ rq.idle) (hoff : ¬ rq.On p)
    (hmove : moveEntity flags = true) (e : Env) : Inv (activateTask e rq p flags) := by
  have hne : rq.curr ≠ p := by
    rintro rfl
    exact hoff h.curr
  obtain ⟨hsane, hkeeps⟩ := h.sane.enqueueTask flags hoff hidle (fun _ => .inl ⟨hmove, rfl⟩)
    (fun _ => rfl) ⟨Option.some.inj, congrArg some⟩ e
  refine ⟨h.toSteady.setOnRq hsane hkeeps hidle true fun q => ?_, ?_⟩
  · by_cases hq : q = p <;> simp [hq]
  · show ((enqueueTask e rq p flags).mod p fun t => { t with onRq := true }).On
      (enqueueTask e rq p flags).curr
    rw [hkeeps.curr, on_mod, if_neg hne, hkeeps.onRq]
    exact h.curr

theorem Steady.deactivateTask (h : Steady rq) (flags : ℕ) (hon : rq.On p) (hidle : p ≠ rq.idle)
    (hmove : moveEntity flags = true) (e : Env) :
    Steady (deactivateTask e rq p flags) ∧ (deactivateTask e rq p flags).curr = rq.curr ∧
      (deactivateTask e rq p flags).idle = rq.idle ∧
      (∀ q, (deactivateTask e rq p flags).On q ↔ rq.On q ∧ q ≠ p) ∧
      ∀ q, ((deactivateTask e rq p flags).task q).schedClass = (rq.task q).schedClass := by
  obtain ⟨hsane, hkeeps⟩ := h.sane.dequeueTask hon hidle e flags
  rw [if_neg fun hkept => by simp [hmove] at hkept] at hsane
  refine ⟨h.setOnRq hsane hkeeps hidle false fun q => ?_, hkeeps.curr, hkeeps.idle, fun q => ?_,
    fun q => ?_⟩
  · by_cases hq : q = p <;> simp [hq]
  · rw [Rt.deactivateTask, on_mod, hkeeps.onRq]
    by_cases hq : q = p <;> simp [hq]
  · rw [Rt.deactivateTask, schedClass_mod, hkeeps.schedClass]

theorem Inv.deactivateTask (h : Inv rq) (hon : rq.On p) (hidle : p ≠ rq.idle) (hcurr : p ≠ rq.curr)
    (hmove : moveEntity flags = true) (e : Env) : Inv (deactivateTask e rq p flags) := by
  obtain ⟨hsteady, hcurr', -, hon', -⟩ := h.toSteady.deactivateTask flags hon hidle hmove e
  refine ⟨hsteady, ?_⟩
  rw [hcurr', hon']
  exact ⟨h.curr, hcurr.symm⟩

/-! ## Changes of a task -/

/-- What a change of `p` leaves alone. -/
structure Spares (p : Pid) (rq rq' : Rq) : Prop where
  onRq : ∀ q, rq'.On q ↔ rq.On q
  curr : rq'.curr = rq.curr
  idle : rq'.idle = rq.idle
  online : rq'.online = rq.online
  schedClass : ∀ q, q ≠ p → (rq'.task q).schedClass = (rq.task q).schedClass
  free : rq.Free → rq'.Free

theorem Keeps.spares (h : Keeps rq rq') : Spares p rq rq' :=
  ⟨h.onRq, h.curr, h.idle, h.online, fun q _ => h.schedClass q, h.free⟩

theorem Spares.trans {rq'' : Rq} (h : Spares p rq rq') (h' : Spares p rq' rq'') :
    Spares p rq rq'' :=
  ⟨fun q => (h'.onRq q).trans (h.onRq q), h'.curr.trans h.curr, h'.idle.trans h.idle,
    h'.online.trans h.online, fun q hq => (h'.schedClass q hq).trans (h.schedClass q hq),
    fun hfree => h'.free (h.free hfree)⟩

theorem spares_apply (rq : Rq) (p : Pid) (c : Change) : Spares p rq (rq.mod p c.apply) := by
  refine ⟨fun q => ?_, rfl, rfl, rfl, fun q hq => by rw [mod_task_of_ne _ _ hq], id⟩
  by_cases hq : q = p
  · rw [hq, Rq.On, mod_task_self]
    rfl
  · rw [Rq.On, mod_task_of_ne _ _ hq, Rq.On]

theorem Inv.spares (h : Inv rq) (hsane : Sane rq.On none (some rq.curr) rq')
    (hspares : Spares p rq rq') (hidle : p ≠ rq.idle) : Inv rq' := by
  refine ⟨⟨?_, ?_, ?_, fun hoff => ?_⟩, ?_⟩
  · rw [hspares.curr]
    exact hsane.on_congr hspares.onRq
  · rw [hspares.idle, hspares.onRq]
    exact h.idle
  · rw [hspares.idle, hspares.schedClass _ hidle.symm]
    exact h.idleClass
  · exact hspares.free (h.offline (hspares.online.symm.trans hoff))
  · rw [hspares.curr, hspares.onRq]
    exact h.curr

theorem moveEntity_changeFlags (move head : Bool) :
    moveEntity (changeFlags move) = move ∧
      moveEntity (changeFlags move ||| if head then Sched.enqueueHead else 0) = move := by
  cases move <;> cases head <;> decide

/-- The task off the runqueue, and put back if it is the one that runs. -/
theorem Inv.takeOff (h : Inv rq) (hon : rq.On p) (hidle : p ≠ rq.idle) (e : Env) (move : Bool) :
    let rq₁ := dequeueTask e rq p (changeFlags move)
    let rq₂ := if taskCurrent rq p then putPrevTask e rq₁ p else rq₁
    Sane (fun q => rq.On q ∧ q ≠ p) (if rq.isRt p = true ∧ move = false then some p else none)
      (some rq.curr) rq₂ ∧ Keeps rq rq₂ := by
  obtain ⟨hsane, hkeeps⟩ := h.sane.dequeueTask hon hidle e (changeFlags move)
  rw [(moveEntity_changeFlags move false).1] at hsane
  dsimp only
  by_cases hrun : taskCurrent rq p = true
  · rw [if_pos hrun]
    obtain rfl : rq.curr = p := of_decide_eq_true hrun
    obtain ⟨hput, hkeeps'⟩ := hsane.putPrevTask e
    exact ⟨hput.runOut fun hq => hq.2 rfl, hkeeps.trans hkeeps'⟩
  · rw [if_neg hrun]
    exact ⟨hsane, hkeeps⟩

/-- The bracket up to the change. -/
def takenOff (e : Env) (rq : Rq) (p : Pid) (c : Change) (move : Bool) : Rq :=
  let rq₁ := dequeueTask e rq p (changeFlags move)
  (if taskCurrent rq p then putPrevTask e rq₁ p else rq₁).mod p c.apply

theorem Inv.takenOff (h : Inv rq) {c : Change} {move : Bool} (hon : rq.On p) (hidle : p ≠ rq.idle)
    (hfits : c.Fits)
    (hstay : move = false → c.schedClass = (rq.task p).schedClass ∧ c.prio = rq.prio p) (e : Env) :
    Sane (fun q => rq.On q ∧ q ≠ p) (if rq.isRt p = true ∧ move = false then some p else none)
        (some rq.curr) (takenOff e rq p c move) ∧
      Spares p rq (takenOff e rq p c move) ∧
      (takenOff e rq p c move).prio = Function.update rq.prio p c.prio := by
  obtain ⟨hoff, hkeeps⟩ := h.takeOff hon hidle e move
  unfold Rt.takenOff
  dsimp only
  generalize (if taskCurrent rq p then putPrevTask e (dequeueTask e rq p (changeFlags move)) p
    else dequeueTask e rq p (changeFlags move)) = rq₂ at hoff hkeeps
  refine ⟨hoff.retask rfl (fun hq => absurd rfl hq.2) (fun hq => ?_) hfits,
    hkeeps.spares.trans (spares_apply ..), funext fun q => ?_⟩
  · have hkept := hq.resolve_left fun hq => hq.2 rfl
    split at hkept
    · next hmove =>
        rw [hkeeps.prio]
        exact (hstay hmove.2).2
    · cases hkept
  · by_cases hq : q = p
    · rw [hq, Function.update_self, Rq.prio, mod_task_self]
      rfl
    · rw [Function.update_of_ne hq, Rq.prio, mod_task_of_ne _ _ hq]
      exact hkeeps.prio q

theorem isRt_takenOff (e : Env) (rq : Rq) (p : Pid) (c : Change) (move : Bool) :
    (takenOff e rq p c move).isRt p = decide (c.schedClass = .rt) := by
  rw [Rq.isRt, takenOff, mod_task_self]
  rfl

theorem Inv.changeTask (h : Inv rq) {c : Change} {move : Bool} (hidle : p ≠ rq.idle)
    (hfits : c.Fits)
    (hstay : move = false → c.schedClass = (rq.task p).schedClass ∧ c.prio = rq.prio p) (e : Env)
    (head hook cpuOnline : Bool) : Inv (changeTask e rq p c move head hook cpuOnline) := by
  unfold Rt.changeTask
  dsimp only
  by_cases hon : rq.On p
  · have hqueued : (rq.task p).onRq = true := hon
    simp only [hqueued, if_true]
    obtain ⟨hchanged, hspares, -⟩ := h.takenOff hon hidle hfits hstay e
    have hclass := isRt_takenOff e rq p c move
    unfold Rt.takenOff at hchanged hspares hclass
    dsimp only at hchanged hspares hclass
    generalize Rq.mod _ p c.apply = rq₃ at hchanged hspares hclass
    obtain ⟨-, hmove⟩ := moveEntity_changeFlags move head
    obtain ⟨hback, hkeeps'⟩ := hchanged.enqueueTask
      (changeFlags move ||| if head then Sched.enqueueHead else 0)
      (fun hq => hq.2 rfl) (by rwa [hspares.idle])
      (fun hrt => by
        rw [hclass, decide_eq_true_eq] at hrt
        cases move with
        | true => exact .inl ⟨hmove, by simp⟩
        | false =>
            rw [(hstay rfl).1] at hrt
            exact .inr ⟨hmove, by simp [Rq.isRt, hrt]⟩)
      (fun hrt => by
        rw [hclass, decide_eq_false_iff_not] at hrt
        cases move with
        | true => simp
        | false =>
            rw [(hstay rfl).1] at hrt
            simp [Rq.isRt, hrt])
      (by rw [hspares.curr]; exact ⟨Option.some.inj, congrArg some⟩) e
    have hspares' := hspares.trans (hkeeps'.spares (p := p))
    generalize enqueueTask e rq₃ p
      (changeFlags move ||| if head then Sched.enqueueHead else 0) = rq₄ at hback hspares'
    have hback : Sane rq.On none (some rq.curr) rq₄ := hback.on_congr fun q => by
      by_cases hq : q = p <;> simp [hq, hon]
    obtain ⟨hset, hspares''⟩ : Sane rq.On none (some rq.curr)
        (if taskCurrent rq p then setCurrTask rq₄ else rq₄) ∧
        Spares p rq (if taskCurrent rq p then setCurrTask rq₄ else rq₄) := by
      split
      · rw [← hspares'.curr] at hback ⊢
        obtain ⟨hset, hkeeps''⟩ := hback.setCurrTask (.inr rfl)
        exact ⟨hset, hspares'.trans hkeeps''.spares⟩
      · exact ⟨hback, hspares'⟩
    obtain ⟨hdone, hkeeps''⟩ := hset.checkClassChanged p (rq.task p).schedClass (rq.prio p) hook
      cpuOnline
    exact h.spares hdone (hspares''.trans hkeeps''.spares) hidle
  · have hqueued : (rq.task p).onRq = false := Bool.eq_false_iff.mpr hon
    have hrun : taskCurrent rq p = false := decide_eq_false_iff_not.mpr fun hcurr =>
      hon (hcurr ▸ h.curr)
    simp only [hqueued, hrun, Bool.false_eq_true, if_false]
    have hchanged := h.sane.retask (f := c.apply) (p := p) rfl (fun hq => absurd hq hon)
      (fun hq => absurd (hq.resolve_right (Option.some_ne_none _).symm) hon) hfits
    obtain ⟨hdone, hkeeps⟩ := hchanged.checkClassChanged p (rq.task p).schedClass (rq.prio p) hook
      cpuOnline
    exact h.spares hdone ((spares_apply rq p c).trans hkeeps.spares) hidle

/-! ## The choice of the next task -/

theorem updateCurrRt_of_le (e : Env) (h : rq.clockTask ≤ (rq.task rq.curr).execStart) :
    updateCurrRt e rq = rq := by
  unfold updateCurrRt
  dsimp only
  split_ifs
  · rfl
  · rfl

theorem task_schedRtRuntimeExceeded (e : Env) (rq : Rq) :
    (schedRtRuntimeExceeded e rq).2.task = rq.task := by
  unfold schedRtRuntimeExceeded dequeueTopRtRq
  dsimp only
  split_ifs <;> rfl

/-- Once it is up to date, the clock of the task that runs stays so. -/
theorem execStart_updateCurrRt (e : Env) (hrt : rq.isRt rq.curr = true) :
    (updateCurrRt e rq).clockTask ≤
      ((updateCurrRt e rq).task (updateCurrRt e rq).curr).execStart := by
  rw [(calm_updateCurrRt e rq).clockTask, (calm_updateCurrRt e rq).curr]
  unfold updateCurrRt
  simp only [hrt, Bool.not_true, Bool.false_eq_true, if_false]
  split_ifs with hclock
  · exact hclock
  · rw [mod_task_self]
  · rw [mod_task_self]
  · generalize hrq : Rq.modRt _ _ = rq'
    have htask := task_schedRtRuntimeExceeded e rq'
    have hstart : (rq'.task rq.curr).execStart = rq.clockTask := by
      rw [← hrq, Rq.modRt, mod_task_self]
    have hcurr : (schedRtRuntimeExceeded e rq').2.curr = rq.curr := by
      rw [← hrq]
      unfold schedRtRuntimeExceeded dequeueTopRtRq
      dsimp only
      split_ifs <;> rfl
    split
    · next rq'' heq =>
        rw [heq] at htask hcurr
        simp only at htask hcurr
        rw [reschedCurr, hcurr, mod_task_self, htask, hstart]
    · next rq'' heq =>
        rw [heq] at htask
        simp only at htask
        rw [htask, hstart]

/-- What `pick_next_task` comes to: a class above this one has its way, then
the first task in the order if the class is queued, then the rest. -/
def Chosen (rq : Rq) (p : Pid) (above below : Option Pid) : Prop :=
  match above with
  | some q => p = q
  | none => if rq.rt.rtQueued then rq.order.head? = some p else p = below.getD rq.idle

theorem rtQueued_putPrevTask (e : Env)
    (h : rq.isRt rq.curr = true → rq.clockTask ≤ (rq.task rq.curr).execStart) :
    (putPrevTask e rq rq.curr).rt.rtQueued = rq.rt.rtQueued := by
  unfold putPrevTask putPrevTaskRt
  split
  · next hrt =>
      rw [updateCurrRt_of_le e (h hrt)]
      unfold enqueuePushableTask
      dsimp only
      split_ifs <;> rfl
  · rfl

/-- The class comes to its first task whenever it is queued. -/
theorem Steady.pickNextTaskRt (h : Steady rq) (e : Env) :
    ∃ p rq', pickNextTaskRt e rq rq.curr = some (p, rq') ∧ Keeps rq rq' ∧
      match p with
      | some p => Sane rq.On none (some p) rq' ∧ rq.On p ∧ rq'.rt.rtQueued = true ∧
          rq'.order.head? = some p
      | none => Sane rq.On none (some rq.curr) rq' ∧ rq'.rt.rtQueued = false ∧
          (rq'.isRt rq'.curr = true → rq'.clockTask ≤ (rq'.task rq'.curr).execStart) := by
  obtain ⟨rq₁, hrq₁⟩ : ∃ rq₁, rq₁ = (if rq.isRt rq.curr then updateCurrRt e rq else rq) := ⟨_, rfl⟩
  obtain ⟨h₁, hkeeps₁⟩ : Sane rq.On none (some rq.curr) rq₁ ∧ Keeps rq rq₁ := by
    rw [hrq₁]
    split
    · exact ⟨h.sane.updateCurrRt e, (calm_updateCurrRt e rq).toKeeps⟩
    · exact ⟨h.sane, .refl rq⟩
  have hfresh : rq₁.isRt rq₁.curr = true → rq₁.clockTask ≤ (rq₁.task rq₁.curr).execStart := by
    rw [hkeeps₁.isRt, hkeeps₁.curr]
    intro hrt
    have hfresh := execStart_updateCurrRt e hrt
    rw [(calm_updateCurrRt e rq).curr] at hfresh
    rwa [hrq₁, if_pos hrt]
  unfold Rt.pickNextTaskRt
  dsimp only
  rw [← hrq₁]
  cases hqueued : rq₁.rt.rtQueued with
  | false =>
      simp only [Bool.not_false, if_true]
      exact ⟨none, rq₁, rfl, hkeeps₁, h₁, hqueued, hfresh⟩
  | true =>
      simp only [Bool.not_true, Bool.false_eq_true, if_false]
      obtain ⟨h₂, hkeeps₂⟩ := h₁.putPrevTask e
      have hqueued₂ : (putPrevTask e rq₁ rq.curr).rt.rtQueued = true := by
        rw [← hkeeps₁.curr, rtQueued_putPrevTask e hfresh, hqueued]
      obtain ⟨p, hpick, -, hon⟩ := h₂.exists_pick hqueued₂
      rw [hpick]
      have hexec := calm_mod
        (f := fun t => { t with execStart := (putPrevTask e rq₁ rq.curr).clockTask })
        (by intro t; rfl) (by intro t; rfl) (by intro t; rfl) (putPrevTask e rq₁ rq.curr) p
      have hstill := still_dequeuePushableTask
        ((putPrevTask e rq₁ rq.curr).mod p fun t =>
          { t with execStart := (putPrevTask e rq₁ rq.curr).clockTask }) p
      refine ⟨some p, _, rfl, ((hkeeps₁.trans hkeeps₂).trans hexec.toKeeps).trans hstill.toKeeps,
        ?_, hon, ?_, ?_⟩
      · exact (h₂.calm hexec (hexec.top h₂.top rfl rfl rfl rfl)).dequeuePushable (.inl rfl)
      · rw [← hqueued₂]
        unfold dequeuePushableTask
        dsimp only
        split <;> rfl
      · rw [Rq.order, hstill.active, hexec.active, ← hpick, h₂.queues.pickNextRtEntity]
        rfl

theorem Steady.pickNextTask (h : Steady rq) {above below : Option Pid}
    (habove : ∀ p ∈ above, rq.isRt p = false ∧ rq.On p)
    (hbelow : ∀ p ∈ below, rq.isRt p = false ∧ rq.On p) (e : Env) :
    ∃ p rq', pickNextTask e rq rq.curr above below = some (p, rq') ∧ Keeps rq rq' ∧
      Sane rq.On none (some p) rq' ∧ rq.On p ∧ Chosen rq' p above below := by
  unfold Rt.pickNextTask
  cases above with
  | some p =>
      obtain ⟨hrt, hon⟩ := habove p rfl
      obtain ⟨h', hkeeps⟩ := h.sane.putPrevTask e
      exact ⟨p, _, rfl, hkeeps, h'.runOther (by rwa [hkeeps.isRt]) (.inl rfl), hon, rfl⟩
  | none =>
      dsimp only
      obtain ⟨p, rq', hpick, hkeeps, hcases⟩ := h.pickNextTaskRt e
      rw [hpick]
      cases p with
      | some p =>
          obtain ⟨h', hon, hqueued, hhead⟩ := hcases
          refine ⟨p, rq', rfl, hkeeps, h', hon, ?_⟩
          rw [Chosen, if_pos hqueued]
          exact hhead
      | none =>
          obtain ⟨h', hqueued, hfresh⟩ := hcases
          obtain ⟨h'', hkeeps'⟩ := h'.putPrevTask e
          have hkeeps'' := hkeeps.trans hkeeps'
          obtain ⟨hrt, hon⟩ : rq.isRt (below.getD rq.idle) = false ∧ rq.On (below.getD rq.idle) := by
            cases below with
            | none => exact ⟨h.isRt_idle, h.idle⟩
            | some p => exact hbelow p rfl
          refine ⟨below.getD rq'.idle, putPrevTask e rq' rq.curr, rfl, hkeeps'', ?_, ?_, ?_⟩
          · refine h''.runOther ?_ (.inl rfl)
            rw [hkeeps''.isRt, hkeeps.idle]
            exact hrt
          · rw [hkeeps.idle]
            exact hon
          · rw [Chosen, ← hkeeps.curr, rtQueued_putPrevTask e hfresh, hqueued]
            simp only [Bool.false_eq_true, if_false]
            rw [hkeeps.curr, hkeeps'.idle]

theorem Picks.mem {blocks : Bool} {cs : List SchedClass} {pick : Option Pid}
    (h : Picks rq blocks cs pick) (hinv : Steady rq) :
    ∀ q ∈ pick, rq.isRt q = false ∧ rq.On q ∧ (blocks = true → q ≠ rq.curr) := by
  intro q hq
  obtain ⟨hmem, -, hne⟩ := h q hq
  obtain ⟨-, hon, hrt⟩ := (hinv.sane.queues.other q).mp hmem
  exact ⟨hrt, hon, hne⟩

theorem Inv.schedule (h : Inv rq) {blocks : Bool} {above below : Option Pid}
    (hallowed : Allowed rq (.schedule blocks above below)) (e : Env) :
    ∃ rq', schedule e rq blocks above below = some rq' ∧ Inv rq' ∧
      Chosen rq' rq'.curr above below := by
  obtain ⟨hblocks, habove, hbelow⟩ := hallowed
  obtain ⟨rq₁, hrq₁⟩ : ∃ rq₁, rq₁ = (if blocks then
      Rt.deactivateTask e rq rq.curr (Sched.dequeueSleep ||| Sched.dequeueNoclock) else rq) :=
    ⟨_, rfl⟩
  -- the block takes nothing away that another class may pick
  obtain ⟨h₁, hcurr, hpicks⟩ : Steady rq₁ ∧ rq₁.curr = rq.curr ∧
      ∀ q, rq.isRt q = false ∧ rq.On q ∧ (blocks = true → q ≠ rq.curr) →
        rq₁.isRt q = false ∧ rq₁.On q := by
    rw [hrq₁]
    cases blocks with
    | false => exact ⟨h.toSteady, rfl, fun q hq => ⟨hq.1, hq.2.1⟩⟩
    | true =>
        obtain ⟨hsteady, hcurr, -, hon, hclass⟩ := h.toSteady.deactivateTask
          (Sched.dequeueSleep ||| Sched.dequeueNoclock) h.curr (hblocks rfl) (by decide) e
        refine ⟨hsteady, hcurr, fun q hq => ⟨?_, (hon q).mpr ⟨hq.2.1, hq.2.2 rfl⟩⟩⟩
        show decide (_ = _) = false
        simp only [if_true]
        rw [hclass]
        exact hq.1
  obtain ⟨p, rq₂, hpick, hkeeps, hsane, hon, hchosen⟩ := h₁.pickNextTask
    (fun q hq => hpicks q (habove.mem h.toSteady q hq))
    (fun q hq => hpicks q (hbelow.mem h.toSteady q hq)) e
  rw [hcurr] at hpick
  have hcalm := calm_mod (f := fun t => { t with needResched := false })
    (by intro t; rfl) (by intro t; rfl) (by intro t; rfl) rq₂ rq.curr
  have hsane' := hsane.calm hcalm (hcalm.top hsane.top rfl rfl rfl rfl)
  have hkeeps' := hkeeps.trans hcalm.toKeeps
  refine ⟨{ rq₂.mod rq.curr fun t => { t with needResched := false } with curr := p }, ?_,
    ⟨⟨?_, ?_, ?_, fun hoff => ?_⟩, ?_⟩, hchosen⟩
  · unfold Rt.schedule
    dsimp only
    rw [← hrq₁, hpick]
    rfl
  · have hq := hsane'.queues
    have hnext : Sane rq₁.On none (some p)
        { rq₂.mod rq.curr fun t => { t with needResched := false } with curr := p } :=
      ⟨⟨hq.sound, hq.listed, hq.counted, hq.range, hq.tally, hq.nodup, hq.other⟩,
        hsane'.pushed.congr (fun _ => Iff.rfl) (fun _ _ => rfl) rfl rfl,
        ⟨hsane'.top.queued, hsane'.top.running, hsane'.top.bug⟩⟩
    exact hnext.on_congr hkeeps'.onRq
  · show (rq₂.mod rq.curr fun t => { t with needResched := false }).On _
    rw [hkeeps'.onRq]
    show rq₁.On rq₂.idle
    rw [hkeeps.idle]
    exact h₁.idle
  · show ((rq₂.mod rq.curr fun t => { t with needResched := false }).task rq₂.idle).schedClass = _
    rw [hkeeps'.schedClass, hkeeps.idle]
    exact h₁.idleClass
  · exact hkeeps'.free (h₁.offline (hkeeps.online.symm.trans hoff))
  · show (rq₂.mod rq.curr fun t => { t with needResched := false }).On p
    rw [hkeeps'.onRq]
    exact hon

/-! ## Pushing a task away -/

/-- None of the `BUG_ON`s of `pick_next_pushable_task` is met. -/
theorem Inv.pickNextPushableTask (h : Inv rq) :
    pickNextPushableTask rq = some rq.rt.pushableTasks.head? := by
  unfold Rt.pickNextPushableTask hasPushableTasks
  cases hlist : rq.rt.pushableTasks with
  | nil => rfl
  | cons p l =>
      rw [if_neg (by simp), List.head?_cons, Option.bind_some]
      obtain ⟨hrt, hon, hrun, hcpus⟩ := (h.sane.pushed.mem p).mp (by
        rw [hlist]
        exact List.mem_cons_self ..)
      have hprio := h.sane.queues.range p hrt
      refine if_neg ?_
      have hcurr : taskCurrent rq p = false :=
        decide_eq_false_iff_not.mpr fun heq => hrun (congrArg some heq)
      have hrange : Sched.rtPrio (rq.prio p) = true := decide_eq_true hprio.2
      have hon : (rq.task p).onRq = true := hon
      simp [hcurr, hrange, hon, hcpus]

theorem Inv.pushRtTask (h : Inv rq) (e : Env) (found : Bool) :
    ∃ r, pushRtTask e rq found = some r ∧ Inv r.2 := by
  unfold Rt.pushRtTask
  rw [h.pickNextPushableTask]
  split
  · exact ⟨_, rfl, h⟩
  · refine ⟨_, rfl, ?_⟩
    cases hhead : rq.rt.pushableTasks.head? with
    | none => exact h
    | some p =>
        obtain ⟨hrt, hon, hrun, -⟩ := (h.sane.pushed.mem p).mp (List.mem_of_mem_head? hhead)
        dsimp only
        split_ifs with hcurr hprio hfound
        · exact h
        · exact h.keeps h.sane.reschedCurr (calm_reschedCurr rq).toKeeps
        · exact h
        · exact h.deactivateTask hon (h.idle_not_rt hrt) hcurr (by decide) e

end Keep

/-! ## Runs -/

section Runs

variable {b : Bandwidth} {cpu : ℕ} {rq rq' : Rq} {a : Act}

/-- The invariant on the runqueue with nothing but its idle task. -/
theorem inv_boot (b : Bandwidth) (cpu : ℕ) : Inv (boot b cpu) := by
  have hclass : ∀ p, (boot b cpu).isRt p = false := fun p => by
    show decide ((if p = Pid.swapper cpu then SchedClass.idle else .fair) = .rt) = false
    split <;> rfl
  have hon : ∀ p, (boot b cpu).On p ↔ p = .swapper cpu := fun p => decide_eq_true_iff
  refine ⟨⟨⟨⟨?_, fun p => ?_, fun p => ?_, fun p hrt => ?_, ?_, List.nodup_nil, fun p => ?_⟩, ?_, ?_⟩,
    (hon _).mpr rfl, ?_, fun hoff => ?_⟩, (hon _).mpr rfl⟩
  · refine ⟨fun i p => ?_, fun i => List.nodup_nil, fun p hp => ?_, fun i hle hlt => ?_, ?_⟩
    · exact iff_of_false List.not_mem_nil fun hp => Bool.false_ne_true hp.1
    · exact absurd hp Bool.false_ne_true
    · have hne : decide (i = maxRtPrio) = false := decide_eq_false hlt.ne
      exact iff_of_false (fun hbit => by simp [boot, hlt.ne] at hbit) fun hne => hne rfl
    · exact decide_eq_true (rfl : (maxRtPrio : ℤ) = maxRtPrio)
  · exact iff_of_false Bool.false_ne_true (by rintro (h | h) <;> cases h)
  · exact iff_of_false Bool.false_ne_true fun hp => by simp [hclass] at hp
  · simp [hclass] at hrt
  · exact ⟨[], List.nodup_nil, fun p => iff_of_false List.not_mem_nil Bool.false_ne_true, rfl⟩
  · refine iff_of_false List.not_mem_nil fun hp => hp.1 ?_
    exact (hon p).mp hp.2.1
  · refine ⟨List.Pairwise.nil, List.nodup_nil, fun p => ?_, rfl⟩
    exact iff_of_false List.not_mem_nil fun hp => by simp [hclass] at hp
  · exact ⟨rfl, rfl, rfl⟩
  · exact if_pos rfl
  · cases hoff

theorem same_rqOnlineRt (b : Bandwidth) (rq : Rq) : (rqOnlineRt b rq).task = rq.task ∧
    (rqOnlineRt b rq).curr = rq.curr ∧ (rqOnlineRt b rq).idle = rq.idle := by
  unfold rqOnlineRt rtSetOverload
  dsimp only
  split_ifs <;> exact ⟨rfl, rfl, rfl⟩

theorem keeps_rqOfflineRt (rq : Rq) : Keeps rq (rqOfflineRt rq) ∧ (rqOfflineRt rq).Free := by
  have hclear : Keeps rq (if rq.rt.overloaded then rtClearOverload rq else rq) := by
    unfold rtClearOverload
    split_ifs <;> exact ⟨fun _ => rfl, rfl, rfl, rfl, rfl, id⟩
  have hdisable : ∀ rq : Rq, Calm rq (disableRuntime rq) ∧ (disableRuntime rq).Free := fun rq =>
    ⟨(calm_modRt ⟨_, _, _, rfl⟩ fun _ => ⟨rfl, rfl⟩).trans (calm_schedRtRqEnqueue _),
      (calm_schedRtRqEnqueue _).free ⟨rfl, rfl⟩⟩
  have hkeeps := hclear.trans (hdisable _).1.toKeeps
  exact ⟨⟨hkeeps.attrs, hkeeps.curr, hkeeps.idle, hkeeps.online, hkeeps.clockTask, hkeeps.free⟩,
    (hdisable _).2⟩

/-- The same tasks, on a runqueue that was or is offline. -/
theorem Inv.plug (h : Inv rq) (hsane : Sane rq.On none (some rq.curr) rq')
    (hsame : (∀ p, (rq'.task p).attrs = (rq.task p).attrs) ∧ rq'.curr = rq.curr ∧
      rq'.idle = rq.idle) (hfree : rq'.online = false → rq'.Free) : Inv rq' := by
  obtain ⟨hattrs, hcurr, hidle⟩ := hsame
  have hon : ∀ p, rq'.On p ↔ rq.On p := fun p => by
    rw [Rq.On, Rq.On, show (rq'.task p).onRq = (rq.task p).onRq from
      congrArg Attrs.onRq (hattrs p)]
  refine ⟨⟨?_, ?_, ?_, hfree⟩, ?_⟩
  · rw [hcurr]
    exact hsane.on_congr hon
  · rw [hidle, hon]
    exact h.idle
  · rw [hidle, show (rq'.task rq.idle).schedClass = (rq.task rq.idle).schedClass from
      congrArg Attrs.schedClass (hattrs rq.idle)]
    exact h.idleClass
  · rw [hcurr, hon]
    exact h.curr

/-- Every step is possible and keeps the invariant. -/
theorem Inv.perform (h : Inv rq) (hallowed : Allowed rq a.op) (b : Bandwidth) :
    ∃ rq', perform b rq a = some rq' ∧ Inv rq' := by
  have hkeeps : ∀ rq', Sane rq.On none (some rq.curr) rq' ∧ Keeps rq rq' →
      ∃ rq'', some rq' = some rq'' ∧ Inv rq'' := fun rq' h' => ⟨rq', rfl, h.keeps h'.1 h'.2⟩
  have hsame : ∃ rq'', some rq = some rq'' ∧ Inv rq'' := ⟨rq, rfl, h⟩
  obtain ⟨op, balanced⟩ := a
  cases op with
  | activate p flags =>
      obtain ⟨hidle, hoff, hmove⟩ := hallowed
      exact ⟨_, rfl, h.activateTask hidle (Bool.eq_false_iff.mp hoff) hmove _⟩
  | deactivate p flags =>
      obtain ⟨hidle, hcurr, hon, hmove⟩ := hallowed
      exact ⟨_, rfl, h.deactivateTask hon hidle hcurr hmove _⟩
  | change p c move head hook cpuOnline =>
      obtain ⟨hidle, hfits, hstay⟩ := hallowed
      exact ⟨_, rfl, h.changeTask hidle hfits hstay _ head hook cpuOnline⟩
  | schedule blocks above below =>
      obtain ⟨rq', hrq', hinv, -⟩ := h.schedule hallowed ⟨b, balanced⟩
      exact ⟨rq', hrq', hinv⟩
  | tick =>
      unfold Rt.perform
      dsimp only
      split
      · exact hkeeps _ (h.sane.taskTickRt ⟨b, balanced⟩ rq.curr)
      · exact hsame
  | yield =>
      unfold Rt.perform
      dsimp only
      split
      · exact hkeeps _ h.sane.yieldTaskRt
      · exact hsame
  | preempt p hook currFits pFits => exact hkeeps _ (h.sane.checkPreemptCurr p hook currFits pFits)
  | push found =>
      obtain ⟨r, hr, hinv⟩ := h.pushRtTask ⟨b, balanced⟩ found
      refine ⟨r.2, ?_, hinv⟩
      unfold Rt.perform
      dsimp only
      rw [hr]
      rfl
  | timer overrun othersIdle othersThrottled =>
      exact hkeeps _ (h.sane.schedRtPeriodTimer ⟨b, balanced⟩ overrun othersIdle othersThrottled)
  | share runtime =>
      refine hkeeps _ ⟨h.sane.modRt ⟨_, _, rfl⟩, ⟨fun _ => rfl, rfl, rfl, rfl, rfl, fun hfree => ?_⟩⟩
      exact absurd hfree.1 hallowed.1
  | online =>
      obtain ⟨htask, hcurr, hidle⟩ := same_rqOnlineRt b { rq with online := true }
      refine ⟨_, rfl, h.plug ?_ ⟨fun p => by rw [htask], hcurr, hidle⟩ fun honline => ?_⟩
      · exact h.sane.rqOnlineRt hallowed (h.offline hallowed).2 b
      · have hplugged : (Rt.rqOnlineRt b { rq with online := true }).online = true := by
          unfold Rt.rqOnlineRt rtSetOverload
          dsimp only
          split_ifs <;> rfl
        rw [hplugged] at honline
        cases honline
  | offline =>
      obtain ⟨hkeeps, hfree⟩ := keeps_rqOfflineRt rq
      exact ⟨_, rfl, h.plug (h.sane.rqOfflineRt hallowed) ⟨hkeeps.attrs, hkeeps.curr, hkeeps.idle⟩
        fun _ => hfree⟩
  | clock d =>
      have hcalm : Sane rq.On none (some rq.curr) { rq with clockTask := rq.clockTask + d } := by
        have hq := h.sane.queues
        exact ⟨⟨hq.sound, hq.listed, hq.counted, hq.range, hq.tally, hq.nodup, hq.other⟩,
          h.sane.pushed.congr (fun _ => Iff.rfl) (fun _ _ => rfl) rfl rfl,
          ⟨h.sane.top.queued, h.sane.top.running, h.sane.top.bug⟩⟩
      exact ⟨_, rfl, ⟨hcalm, h.idle, h.idleClass, h.offline⟩, h.curr⟩

/-- No `BUG_ON` stops it. -/
theorem Inv.step (h : Inv rq) (hallowed : Allowed rq a.op) (b : Bandwidth) :
    ∃ rq', step b rq a = some rq' ∧ Inv rq' := by
  obtain ⟨rq', hperform, hinv⟩ := h.perform hallowed b
  exact ⟨rq', step_eq hallowed hperform hinv.sane.top.bug, hinv⟩

theorem Reachable.inv (h : Reachable b cpu rq) : Inv rq := by
  refine Lts.Reaches.inv (fun rq a rq' hinv hstep => ?_) h (inv_boot b cpu)
  by_cases hallowed : Allowed rq a.op
  · obtain ⟨rq'', hstep', hinv'⟩ := hinv.step hallowed b
    rw [hstep] at hstep'
    rwa [Option.some.inj hstep']
  · rw [Rt.step, if_neg hallowed] at hstep
    cases hstep

end Runs

end Rt

end Comp4511
