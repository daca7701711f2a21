import Comp4511.RtBooks

/-!
# First come, first served

A task of the real-time class keeps its place in the order of service until
it leaves it itself: by blocking, by `sched_yield`, with the end of a round
robin slice, by a change of its own class or priority, or because it is
pushed to another CPU. Only a better task that arrives or becomes better
gets ahead of it meanwhile, and of its equals only those that are put at the
head of their level. `Respects p` are the operations that do none of this to
`p` and bring nobody in front of it.
-/

namespace Comp4511

namespace Rt

open Sched (Pid SchedClass Policy)

/-! ## Those in front -/

/-- The tasks that are served before `p`. -/
def ahead (p : Pid) (l : List Pid) : List Pid := l.takeWhile fun q => q ≠ p

/-- `p` is still there, and nobody new in front of it. -/
structure Stays (p : Pid) (l l' : List Pid) : Prop where
  mem : p ∈ l'
  ahead : ahead p l' ⊆ ahead p l

section Ahead

variable {p q x : Pid} {l l' l'' : List Pid} {prio : Pid → ℤ}

theorem Stays.refl (hp : p ∈ l) : Stays p l l := ⟨hp, List.Subset.refl _⟩

theorem Stays.trans (h : Stays p l l') (h' : Stays p l' l'') : Stays p l l'' :=
  ⟨h'.mem, List.Subset.trans h'.ahead h.ahead⟩

@[simp] theorem ahead_cons (p x : Pid) (l : List Pid) :
    ahead p (x :: l) = if x = p then [] else x :: ahead p l := by
  by_cases hx : x = p <;> simp [ahead, hx]

/-- The first in the order is `p` or someone in front of it. -/
theorem head_or_ahead (hp : p ∈ l) (hx : l.head? = some x) : x = p ∨ x ∈ ahead p l := by
  obtain ⟨l, rfl⟩ := List.head?_eq_some_iff.mp hx
  by_cases heq : x = p
  · exact .inl heq
  · rw [ahead_cons, if_neg heq]
    exact .inr (List.mem_cons_self ..)

theorem le_of_mem_ahead (hsorted : l.Pairwise fun a b => prio a ≤ prio b) (hp : p ∈ l)
    (hx : x ∈ ahead p l) : prio x ≤ prio p := by
  induction l with
  | nil => cases hp
  | cons y l ih =>
      rw [List.pairwise_cons] at hsorted
      rw [ahead_cons] at hx
      split at hx
      · cases hx
      · next hy =>
          have hpl : p ∈ l := (List.mem_cons.mp hp).resolve_left fun heq => hy heq.symm
          rcases List.mem_cons.mp hx with rfl | hx
          · exact hsorted.1 p hpl
          · exact ih hsorted.2 hpl hx

theorem mem_ahead_of_lt (hsorted : l.Pairwise fun a b => prio a ≤ prio b) (hp : p ∈ l)
    (hx : x ∈ l) (hlt : prio x < prio p) : x ∈ ahead p l := by
  induction l with
  | nil => cases hp
  | cons y l ih =>
      rw [List.pairwise_cons] at hsorted
      rw [ahead_cons]
      by_cases hy : y = p
      · subst hy
        rcases List.mem_cons.mp hx with rfl | hx
        · exact absurd hlt (lt_irrefl _)
        · exact absurd (hsorted.1 x hx) (not_le.mpr hlt)
      · rw [if_neg hy]
        have hpl : p ∈ l := (List.mem_cons.mp hp).resolve_left fun heq => hy heq.symm
        rcases List.mem_cons.mp hx with rfl | hx
        · exact List.mem_cons_self ..
        · exact List.mem_cons_of_mem _ (ih hsorted.2 hpl hx)

theorem stays_erase (hp : p ∈ l) (hne : q ≠ p) : Stays p l (l.erase q) := by
  refine ⟨(List.mem_erase_of_ne hne.symm).mpr hp, ?_⟩
  clear hp
  induction l with
  | nil => exact List.Subset.refl _
  | cons x l ih =>
      rw [List.erase_cons, ahead_cons]
      by_cases hx : x = q
      · subst hx
        simp [hne]
      · rw [if_neg (by simpa using hx), ahead_cons]
        split
        · exact List.Subset.refl _
        · exact List.cons_subset_cons _ ih

theorem ahead_orderedInsert_subset (r : Pid → Pid → Prop) [DecidableRel r] (q : Pid) :
    ahead p (l.orderedInsert r q) ⊆ q :: ahead p l := by
  induction l with
  | nil =>
      rw [List.orderedInsert_nil, ahead_cons]
      split
      · exact List.nil_subset _
      · exact List.Subset.refl _
  | cons x l ih =>
      rw [List.orderedInsert_cons]
      split
      · rw [ahead_cons]
        split
        · exact List.nil_subset _
        · exact List.Subset.refl _
      · rw [ahead_cons, ahead_cons]
        split
        · exact List.nil_subset _
        · exact List.Subset.trans (List.cons_subset_cons x ih) (List.Perm.swap q x _).subset

/-- Who goes neither before `p` nor before one in front of `p` lands behind. -/
theorem ahead_orderedInsert (r : Pid → Pid → Prop) [DecidableRel r] (hp : p ∈ l) (hrp : ¬ r q p)
    (hr : ∀ x ∈ ahead p l, ¬ r q x) : ahead p (l.orderedInsert r q) = ahead p l := by
  induction l with
  | nil => cases hp
  | cons x l ih =>
      rw [List.orderedInsert_cons]
      by_cases hx : x = p
      · subst hx
        rw [if_neg hrp, ahead_cons, ahead_cons, if_pos rfl, if_pos rfl]
      · rw [ahead_cons, if_neg hx] at hr ⊢
        rw [if_neg (hr x (List.mem_cons_self ..)), ahead_cons, if_neg hx]
        have hp : p ∈ l := (List.mem_cons.mp hp).resolve_left fun heq => hx heq.symm
        rw [ih hp fun y hy => hr y (List.mem_cons_of_mem _ hy)]

/-- A task of this priority that is put at the head or the tail of its level
comes behind `p`. -/
def Behind (prio : Pid → ℤ) (p : Pid) (head : Bool) (new : ℤ) : Prop :=
  if head then prio p < new else prio p ≤ new

instance (prio : Pid → ℤ) (p : Pid) (head : Bool) (new : ℤ) :
    Decidable (Behind prio p head new) := by
  unfold Behind
  infer_instance

theorem stays_arrive (hsorted : l.Pairwise fun a b => prio a ≤ prio b) (hp : p ∈ l) {head : Bool}
    (hbehind : Behind prio p head (prio q)) : Stays p l (arrive prio head q l) := by
  have hle : ∀ x ∈ ahead p l, prio x ≤ prio p := fun x hx => le_of_mem_ahead hsorted hp hx
  unfold Behind at hbehind
  unfold arrive
  cases head with
  | true =>
      refine ⟨(List.mem_orderedInsert _).mpr (.inr hp), ?_⟩
      rw [if_pos rfl] at hbehind ⊢
      rw [ahead_orderedInsert (prio · ≤ prio ·) hp (not_le.mpr hbehind) fun x hx =>
        not_le.mpr ((hle x hx).trans_lt hbehind)]
      exact List.Subset.refl _
  | false =>
      refine ⟨(List.mem_orderedInsert _).mpr (.inr hp), ?_⟩
      rw [if_neg Bool.false_ne_true] at hbehind ⊢
      rw [ahead_orderedInsert (prio · < prio ·) hp (not_lt.mpr hbehind) fun x hx =>
        not_lt.mpr ((hle x hx).trans hbehind)]
      exact List.Subset.refl _

/-- Another task that is requeued: one in front of `p` may stay there. -/
theorem stays_requeue (hsorted : l.Pairwise fun a b => prio a ≤ prio b) (hp : p ∈ l) (hq : q ∈ l)
    (hne : q ≠ p) {head : Bool} (hhead : head = true → prio q ≠ prio p) :
    Stays p l (arrive prio head q (l.erase q)) := by
  have herase := stays_erase hp hne
  rcases lt_or_ge (prio q) (prio p) with hlt | hge
  · have hin : ∀ r : Pid → Pid → Prop, [DecidableRel r] → Stays p l ((l.erase q).orderedInsert r q) :=
      fun r _ => by
        refine ⟨(List.mem_orderedInsert _).mpr (.inr herase.mem), ?_⟩
        refine List.Subset.trans (ahead_orderedInsert_subset r q)
          (List.cons_subset.mpr ⟨?_, herase.ahead⟩)
        exact mem_ahead_of_lt hsorted hp hq hlt
    unfold arrive
    split
    · exact hin _
    · exact hin _
  · refine herase.trans (stays_arrive (hsorted.sublist List.erase_sublist) herase.mem ?_)
    unfold Behind
    cases head with
    | true => exact lt_of_le_of_ne hge (hhead rfl).symm
    | false => exact hge

end Ahead

/-! ## The steps -/

/-- The operation leaves `p` where it is: `p` is not taken off or moved, and
who comes belongs behind it. -/
def Respects (p : Pid) (rq : Rq) : Op → Prop
  | .activate q flags =>
      rq.isRt q = true → Behind rq.prio p (flags &&& Sched.enqueueHead ≠ 0) (rq.prio q)
  | .deactivate q _ => q ≠ p
  | .change q c move head .. =>
      move = true → q ≠ p ∧ (c.schedClass = .rt → Behind rq.prio p head c.prio)
  | .schedule blocks .. => blocks = true → rq.curr ≠ p
  | .tick => rq.curr = p → (rq.task p).policy = .rr → (rq.task p).rt.timeSlice ≠ 1
  | .yield => rq.curr ≠ p
  | .preempt q _ currFits _ => currFits = true → rq.prio q ≠ rq.prio p
  | .push found => found = true → rq.rt.pushableTasks.head? ≠ some p
  | .timer .. | .share _ | .online | .offline | .clock _ => True

instance (p : Pid) (rq : Rq) : DecidablePred (Respects p rq)
  | .activate .. => inferInstanceAs (Decidable (_ → _))
  | .deactivate .. => inferInstanceAs (Decidable (_ ≠ _))
  | .change .. => inferInstanceAs (Decidable (_ → _ ∧ (_ → _)))
  | .schedule .. => inferInstanceAs (Decidable (_ → _))
  | .tick => inferInstanceAs (Decidable (_ → _ → _))
  | .yield => inferInstanceAs (Decidable (_ ≠ _))
  | .preempt .. => inferInstanceAs (Decidable (_ → _))
  | .push _ => inferInstanceAs (Decidable (_ → _))
  | .timer .. | .share _ | .online | .offline | .clock _ => inferInstanceAs (Decidable True)

section Fifo

variable {b : Bandwidth} {cpu : ℕ} {rq rq' : Rq} {p : Pid}

theorem Inv.stays_change (h : Inv rq) (hp : p ∈ rq.order) {q : Pid} {c : Change} {head : Bool}
    (hne : q ≠ p) (hbehind : c.schedClass = .rt → Behind rq.prio p head c.prio) :
    Stays p rq.order (if c.schedClass = .rt then
      arrive (Function.update rq.prio q c.prio) head q (rq.order.erase q)
      else rq.order.erase q) := by
  have herase := stays_erase hp hne
  have hsound := h.sane.queues.sound
  split
  · next hclass =>
      refine herase.trans (stays_arrive ?_ herase.mem ?_)
      · refine (hsound.sorted.sublist List.erase_sublist).imp_of_mem fun {x y} hx hy hxy => ?_
        rw [Function.update_of_ne (hsound.nodup_order.mem_erase_iff.mp hx).1,
          Function.update_of_ne (hsound.nodup_order.mem_erase_iff.mp hy).1]
        exact hxy
      · rw [Function.update_self]
        unfold Behind
        rw [Function.update_of_ne hne.symm]
        exact hbehind hclass
  · exact herase

/-- One step. -/
theorem Inv.stays_served (h : Inv rq) (hp : p ∈ rq.order) {op : Op} (hallowed : Allowed rq op)
    (hrespects : Respects p rq op) : Stays p rq.order (served rq op) := by
  have hsorted := h.sane.queues.sound.sorted
  rw [← Rq.order] at hsorted
  have hmem : ∀ q, rq.isRt q = true → rq.On q → q ∈ rq.order := fun q hrt hon =>
    (h.sane.queues.mem_order q).mpr ⟨hrt, hon⟩
  have hstay : Stays p rq.order rq.order := .refl hp
  cases op with
  | activate q flags =>
      unfold served
      dsimp only
      split
      · next hrt => exact stays_arrive hsorted hp (hrespects hrt)
      · exact hstay
  | deactivate q flags => exact stays_erase hp hrespects
  | change q c move head hook cpuOnline =>
      unfold served
      dsimp only
      split
      · next hmove => exact h.stays_change hp (hrespects hmove.2).1 (hrespects hmove.2).2
      · exact hstay
  | schedule blocks above below =>
      unfold served
      dsimp only
      split
      · next hblocks => exact stays_erase hp (hrespects hblocks)
      · exact hstay
  | tick =>
      unfold served
      dsimp only
      split
      · next hend =>
          have hne : rq.curr ≠ p := fun heq =>
            hrespects heq (heq ▸ hend.2.1) (heq ▸ hend.2.2)
          exact stays_requeue hsorted hp (hmem _ (decide_eq_true hend.1) h.curr) hne
            fun hhead => absurd hhead Bool.false_ne_true
      · exact hstay
  | yield =>
      unfold served
      dsimp only
      split
      · next hrt =>
          exact stays_requeue hsorted hp (hmem _ hrt h.curr) hrespects
            fun hhead => absurd hhead Bool.false_ne_true
      · exact hstay
  | preempt q hook currFits pFits =>
      unfold served
      dsimp only
      split
      · next hhead =>
          have hprio := hrespects hhead.2.2.2.2.2.1
          exact stays_requeue hsorted hp (hmem q (decide_eq_true hhead.1) hallowed)
            (fun heq => hprio (congrArg rq.prio heq)) fun _ => hprio
      · exact hstay
  | push found =>
      unfold served
      dsimp only
      split
      · exact hstay
      · next q l hlist =>
          split
          · next hpush =>
              refine stays_erase hp fun heq => hrespects hpush.2.2 ?_
              rw [hlist, heq, List.head?_cons]
          · exact hstay
  | timer | share | online | offline | clock => exact hstay

/-- A run in which every step spares `p`. -/
theorem stays_run (h : Reachable b cpu rq) (hp : p ∈ rq.order) {hist : List (Rq × Act)}
    (hrun : Lts.Run (step b) rq hist rq') (hrespects : ∀ x ∈ hist, Respects p x.1 x.2.op) :
    Inv rq' ∧ Stays p rq.order rq'.order := by
  refine hrun.inv_where (P := fun rq a => Respects p rq a.op)
    (I := fun rq' => Inv rq' ∧ Stays p rq.order rq'.order)
    (fun s a t hs hrespects hstep => ?_) hrespects ⟨h.inv, .refl hp⟩
  obtain ⟨hinv, hstay⟩ := hs
  have hallowed : Allowed s a.op := (step_cases hstep).1
  obtain ⟨t', hstep', hinv'⟩ := hinv.step hallowed b
  obtain rfl : t' = t := Option.some.inj (hstep'.symm.trans hstep)
  refine ⟨hinv', hstay.trans ?_⟩
  rw [hinv.order_served hstep]
  exact hinv.stays_served hstay.mem hallowed hrespects

/-- First come, first served. In a run whose steps all respect a queued task
`p` of the class, so that none takes it off its place and none brings a task
in front of it, it stays queued, and only tasks that were in front of it at
the start are in front of it. When no class above has a task and this one is
not throttled, `__schedule` chooses `p` or one of them. -/
theorem first_come (h : Reachable b cpu rq) (hrt : rq.isRt p = true) (hon : rq.On p)
    {hist : List (Rq × Act)} (hrun : Lts.Run (step b) rq hist rq')
    (hrespects : ∀ x ∈ hist, Respects p x.1 x.2.op) :
    rq'.isRt p = true ∧ rq'.On p ∧ ahead p rq'.order ⊆ ahead p rq.order
    ∧ ∀ (blocks : Bool) (below : Option Pid) (balanced : ℕ) (rq'' : Rq),
        step b rq' ⟨.schedule blocks none below, balanced⟩ = some rq'' →
        (blocks = true → rq'.curr ≠ p) → rq''.rt.rtThrottled = false →
          rq''.curr = p ∨ rq''.curr ∈ ahead p rq.order := by
  have hp : p ∈ rq.order := (h.inv.sane.queues.mem_order p).mpr ⟨hrt, hon⟩
  obtain ⟨hinv', hstay⟩ := stays_run h hp hrun hrespects
  obtain ⟨hrt', hon'⟩ := (hinv'.sane.queues.mem_order p).mp hstay.mem
  refine ⟨hrt', hon', hstay.ahead, fun blocks below balanced rq'' hstep hblocks hfree => ?_⟩
  obtain ⟨hallowed, hperform⟩ := step_cases hstep
  have hstay' := hinv'.stays_served hstay.mem hallowed hblocks
  rw [← hinv'.order_served hstep] at hstay'
  obtain ⟨t, hsched, hinv'', hchosen⟩ := hinv'.schedule hallowed ⟨b, balanced⟩
  obtain rfl : t = rq'' := Option.some.inj (hsched.symm.trans hperform)
  obtain ⟨hrt'', hon''⟩ := (hinv''.sane.queues.mem_order p).mp hstay'.mem
  have hhead := (hinv''.chosen_first hchosen hfree hrt'' hon'').1
  exact (head_or_ahead hstay'.mem hhead).imp_right fun hin => hstay.ahead (hstay'.ahead hin)

/-- The first of two tasks is preferred to the other one of its priority also
after `check_preempt_curr` for that one. -/
theorem first_come_preempt : ∃ rq rq' rq'', Reachable sampleBandwidth 0 rq
    ∧ Lts.exec (step sampleBandwidth) rq [⟨.clock 5, 0⟩, ⟨.preempt (.proc 1) false false true, 0⟩] =
      some rq'
    ∧ step sampleBandwidth rq' ⟨.schedule false none none, 0⟩ = some rq'' ∧ rq''.curr = .proc 0 := by
  let as : List Act := [⟨.clock 5, 0⟩, ⟨.preempt (.proc 1) false false true, 0⟩]
  obtain ⟨rq, hrq, hrt, hon, hahead, hnext⟩ := exists_reachable sampleBandwidth 0 firstRuns
    (P := fun rq => rq.isRt (.proc 0) = true ∧ (rq.task (.proc 0)).onRq = true ∧
      ahead (.proc 0) rq.order = [] ∧
      (Lts.exec (step sampleBandwidth) rq as).any (fun rq' => decide (
        (∀ x ∈ Lts.trace (step sampleBandwidth) rq as, Respects (.proc 0) x.1 x.2.op) ∧
        (step sampleBandwidth rq' ⟨.schedule false none none, 0⟩).any (fun rq'' =>
          decide (rq''.rt.rtThrottled = false)) = true)) = true)
    (by decide +kernel)
  obtain ⟨rq', hrun, hseen⟩ := (Option.any_eq_true _ _).mp hnext
  obtain ⟨hrespects, hlast⟩ := of_decide_eq_true hseen
  obtain ⟨rq'', hstep, hfree⟩ := (Option.any_eq_true _ _).mp hlast
  obtain ⟨-, -, -, hpick⟩ := first_come hrq hrt hon (Lts.exec_run hrun) hrespects
  have hcurr := hpick false none 0 rq'' hstep (fun hblocks => absurd hblocks Bool.false_ne_true)
    (of_decide_eq_true hfree)
  rw [hahead] at hcurr
  exact ⟨rq, rq', rq'', hrq, hrun, hstep, hcurr.resolve_right List.not_mem_nil⟩

end Fifo

end Rt

end Comp4511
