import Mathlib.Data.List.Infix
import Mathlib.Data.Nat.Notation

/-!
# Cutting a list at the occurrences of another

`Cuts old s us` says that `us` is what stands between the occurrences of
`old` in `s`, from left to right and without overlaps: up to the first
occurrence, and behind it likewise. Putting `new` between the parts
replaces the occurrences.

Programs do not look for the next occurrence, they try one place after the
other. `scan_induction` is the induction along such a scan, and `nil_iff`,
`hit_iff` and `miss_iff` are its three cases; so there is one way to cut
(`existsUnique`).
-/

/-- The parts of `s` between the occurrences of `old`. That `old` is not in
`u ++ old.dropLast` says that it does not begin before the end of `u`. -/
inductive Cuts {α : Type*} (old : List α) : List α → List (List α) → Prop
  | last {s : List α} (h : ¬ old <:+: s) : Cuts old s [s]
  | next {u s : List α} {us : List (List α)} (h : ¬ old <:+: u ++ old.dropLast)
      (hs : Cuts old s us) : Cuts old (u ++ (old ++ s)) (u :: us)

namespace Cuts

variable {α : Type*} {old s u : List α} {us : List (List α)} {c : α}

theorem ne_nil (h : Cuts old s us) : us ≠ [] := by
  cases h <;> exact List.cons_ne_nil _ _

/-- The parts with what was cut out between them. -/
theorem join (h : Cuts old s us) : old.intercalate us = s := by
  induction h with
  | last h => exact List.intercalate_singleton
  | next h hs ih => rw [List.intercalate_cons_of_ne_nil hs.ne_nil, ih, List.append_assoc]

/-! ## Lengths -/

/-- What is put between the parts counts as often as there are gaps. -/
theorem length_intercalate (x : List α) (us : List (List α)) :
    (x.intercalate us).length = us.flatten.length + (us.length - 1) * x.length := by
  induction us with
  | nil => simp
  | cons u us ih =>
      cases us with
      | nil => simp
      | cons v us =>
          rw [List.intercalate_cons_cons, List.length_append, List.length_append, ih]
          simp only [List.flatten_cons, List.length_append, List.length_cons, Nat.add_sub_cancel,
            Nat.succ_mul]
          omega

/-- Replacing changes the length by the difference at each occurrence. -/
theorem length_add (h : Cuts old s us) (new : List α) :
    (new.intercalate us).length + (us.length - 1) * old.length
      = s.length + (us.length - 1) * new.length := by
  have hjoin := congrArg List.length h.join
  rw [length_intercalate] at hjoin
  rw [length_intercalate, ← hjoin]
  omega

/-! ## Scanning -/

theorem not_infix_dropLast (hne : old ≠ []) : ¬ old <:+: old.dropLast := by
  intro hin
  have hle := hin.length_le
  have hpos := List.length_pos_iff.mpr hne
  rw [List.length_dropLast] at hle
  omega

theorem prefix_next (old u s : List α) : u ++ old.dropLast <+: u ++ (old ++ s) := by
  have hdrop : old.dropLast <+: old ++ s :=
    (List.dropLast_prefix old).trans (List.prefix_append _ _)
  exact (List.prefix_append_right_inj u).mpr hdrop

/-- Nothing begins at a place before the first occurrence. -/
theorem not_prefix_of_next (h : ¬ old <:+: (c :: u) ++ old.dropLast) (s : List α) :
    ¬ old <+: c :: (u ++ (old ++ s)) := by
  intro hpre
  have hfirst : (c :: u) ++ old.dropLast <+: c :: (u ++ (old ++ s)) := prefix_next old (c :: u) s
  have hle : old.length ≤ ((c :: u) ++ old.dropLast).length := by
    rw [List.length_append, List.length_cons, List.length_dropLast]
    omega
  exact h (List.prefix_of_prefix_length_le hpre hfirst hle).isInfix

theorem nil_iff (hne : old ≠ []) : Cuts old [] us ↔ us = [[]] := by
  constructor
  · intro h
    generalize hs : ([] : List α) = s at h
    cases h with
    | last h => rw [← hs]
    | next h _ =>
        have hold := (List.append_eq_nil_iff.mp (List.append_eq_nil_iff.mp hs.symm).2).1
        exact absurd hold hne
  · rintro rfl
    exact .last fun hin => hne (List.eq_nil_of_infix_nil hin)

/-- At an occurrence. -/
theorem hit_iff (hne : old ≠ []) :
    Cuts old (old ++ s) us ↔ ∃ us', us = [] :: us' ∧ Cuts old s us' := by
  constructor
  · intro h
    generalize ht : old ++ s = t at h
    cases h with
    | last h => exact absurd (ht ▸ (List.prefix_append old s).isInfix) h
    | @next u s' us' h hs =>
        cases u with
        | nil =>
            obtain rfl := List.append_cancel_left ht
            exact ⟨us', rfl, hs⟩
        | cons c u =>
            rw [List.cons_append] at ht
            exact absurd (ht ▸ List.prefix_append old s) (not_prefix_of_next h s')
  · rintro ⟨us', rfl, hs⟩
    exact .next (u := []) (not_infix_dropLast hne) hs

/-- At a place that is none. -/
theorem miss_iff (h : ¬ old <+: c :: s) :
    Cuts old (c :: s) us ↔ ∃ u us', us = (c :: u) :: us' ∧ Cuts old s (u :: us') := by
  constructor
  · intro hcuts
    generalize ht : c :: s = t at hcuts
    cases hcuts with
    | last hlast =>
        subst ht
        exact ⟨s, [], rfl, .last fun hin => hlast (List.infix_cons hin)⟩
    | @next u s' us' hnext hs =>
        cases u with
        | nil => exact absurd (ht ▸ List.prefix_append old s') h
        | cons d u =>
            obtain ⟨rfl, rfl⟩ := List.cons.inj ht
            exact ⟨u, us', rfl, .next (fun hin => hnext (List.infix_cons hin)) hs⟩
  · rintro ⟨u, us', rfl, hcuts⟩
    generalize hv : u :: us' = vs at hcuts
    cases hcuts with
    | last hlast =>
        obtain ⟨rfl, rfl⟩ := List.cons.inj hv
        exact .last fun hin => (List.infix_cons_iff.mp hin).elim h hlast
    | @next u' s' us'' hnext hs =>
        obtain ⟨rfl, rfl⟩ := List.cons.inj hv
        refine .next (u := c :: u) (fun hin => ?_) hs
        rcases List.infix_cons_iff.mp hin with hpre | hin
        · exact h (hpre.trans (prefix_next old (c :: u) s'))
        · exact hnext hin

/-- Induction along a scan: over an occurrence, or else over one element. -/
theorem scan_induction {P : List α → Prop} (hne : old ≠ []) (nil : P [])
    (hit : ∀ s, P s → P (old ++ s)) (miss : ∀ c s, ¬ old <+: c :: s → P s → P (c :: s))
    (s : List α) : P s := by
  induction hn : s.length using Nat.strong_induction_on generalizing s with
  | _ n ih =>
      subst hn
      cases s with
      | nil => exact nil
      | cons c s =>
          by_cases hpre : old <+: c :: s
          · obtain ⟨t, ht⟩ := hpre
            have hlen := congrArg List.length ht
            have hpos := List.length_pos_iff.mpr hne
            rw [List.length_append] at hlen
            rw [← ht]
            exact hit t (ih t.length (by omega) t rfl)
          · exact miss c s hpre (ih s.length (by simp) s rfl)

theorem existsUnique (hne : old ≠ []) (s : List α) : ∃! us, Cuts old s us := by
  induction s using scan_induction hne with
  | nil => exact ⟨[[]], (nil_iff hne).mpr rfl, fun us h => (nil_iff hne).mp h⟩
  | hit s ih =>
      obtain ⟨us, hus, hunique⟩ := ih
      refine ⟨[] :: us, (hit_iff hne).mpr ⟨us, rfl, hus⟩, fun vs hvs => ?_⟩
      obtain ⟨us', rfl, hus'⟩ := (hit_iff hne).mp hvs
      rw [hunique us' hus']
  | miss c s hpre ih =>
      obtain ⟨us, hus, hunique⟩ := ih
      obtain ⟨u, us, rfl⟩ := List.exists_cons_of_ne_nil hus.ne_nil
      refine ⟨(c :: u) :: us, (miss_iff hpre).mpr ⟨u, us, rfl, hus⟩, fun vs hvs => ?_⟩
      obtain ⟨u', us', rfl, hus'⟩ := (miss_iff hpre).mp hvs
      obtain ⟨rfl, rfl⟩ := List.cons.inj (hunique _ hus')
      rfl

end Cuts
