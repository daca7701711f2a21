import Mathlib.Data.List.Nodup
import Mathlib.Data.List.Sort
import Mathlib.Logic.Function.Basic

/-!
# Priority arrays

A priority array keeps a list for each level and a bit for each list that
is not empty; the elements are linked through a node of their own, so that
taking one off needs no level. A search for the first bit that is set
finds the best level in use; one bit behind the levels is always set and
ends the search.

Read level by level the array is one list, `order`. The operations on a
level are insertions into that list behind the elements of the level or in
front of them (`order_addTail`, `order_addHead`), and the search finds its
head (`findFirst_eq`, `head?_findFirst`).
-/

/-- Lists and bits by level. -/
structure PrioArray (α : Type*) where
  queue : ℤ → List α
  bitmap : ℤ → Bool

namespace PrioArray

variable {α : Type*}

/-! ## Operations -/

section Operations

variable (A : PrioArray α) (i : ℤ) (x : α)

def setBit : PrioArray α := { A with bitmap := Function.update A.bitmap i true }

def clearBit : PrioArray α := { A with bitmap := Function.update A.bitmap i false }

/-- Link an element at the end of a list. -/
def addTail : PrioArray α := { A with queue := Function.update A.queue i (A.queue i ++ [x]) }

/-- Link an element at the front of a list. -/
def addHead : PrioArray α := { A with queue := Function.update A.queue i (x :: A.queue i) }

/-- Unlink an element from whichever list holds it. -/
def del [DecidableEq α] : PrioArray α := { A with queue := fun i => (A.queue i).erase x }

end Operations

/-- The first of the bits `0..n` that is set; `n + 1` if none is. -/
def findFirst (n : ℕ) (bitmap : ℤ → Bool) : ℤ :=
  ((List.range (n + 1)).find? fun i : ℕ => bitmap i).getD (n + 1)

/-- The elements of the levels below `n`, level by level. -/
def order (n : ℕ) (A : PrioArray α) : List α := (List.range n).flatMap fun i : ℕ => A.queue i

/-- The array holds the elements with `S`, each once and at its level; the
bits tell which levels are in use, and the one behind them is set. -/
structure Sound (n : ℕ) (prio : α → ℤ) (S : α → Prop) (A : PrioArray α) : Prop where
  mem : ∀ i x, x ∈ A.queue i ↔ S x ∧ prio x = i
  nodup : ∀ i, (A.queue i).Nodup
  range : ∀ x, S x → 0 ≤ prio x ∧ prio x < n
  bit : ∀ i : ℤ, 0 ≤ i → i < n → (A.bitmap i = true ↔ A.queue i ≠ [])
  delimiter : A.bitmap n = true

/-! ## The order -/

section Order

variable {n : ℕ} {prio : α → ℤ} {S : α → Prop} {A : PrioArray α} {x : α}

theorem Sound.level (h : Sound n prio S A) (hx : S x) : ∃ i < n, prio x = (i : ℕ) := by
  obtain ⟨hle, hlt⟩ := h.range x hx
  exact ⟨(prio x).toNat, by omega, by omega⟩

theorem Sound.mem_order (h : Sound n prio S A) : x ∈ order n A ↔ S x := by
  simp only [order, List.mem_flatMap, List.mem_range, h.mem]
  constructor
  · rintro ⟨i, -, hx, -⟩
    exact hx
  · intro hx
    obtain ⟨i, hi, hprio⟩ := h.level hx
    exact ⟨i, hi, hx, hprio⟩

/-- Better levels come first. -/
theorem Sound.sorted (h : Sound n prio S A) :
    (order n A).Pairwise fun x y => prio x ≤ prio y := by
  rw [order, List.pairwise_flatMap]
  refine ⟨fun i _ => ?_, List.pairwise_lt_range.imp fun {i j} hij => ?_⟩
  · refine (h.nodup i).imp_of_mem fun {x y} hx hy _ => ?_
    rw [((h.mem i x).mp hx).2, ((h.mem i y).mp hy).2]
  · intro x hx y hy
    rw [((h.mem i x).mp hx).2, ((h.mem j y).mp hy).2]
    omega

theorem Sound.nodup_order (h : Sound n prio S A) : (order n A).Nodup := by
  rw [order, List.nodup_flatMap]
  refine ⟨fun i _ => h.nodup i, List.pairwise_lt_range.imp fun {i j} hij => ?_⟩
  intro x hx hy
  have hi := ((h.mem i x).mp hx).2
  have hj := ((h.mem j x).mp hy).2
  omega

/-- What comes before a level and behind it. -/
theorem order_split (A : PrioArray α) {i : ℕ} (hi : i < n) :
    order n A = order i A ++ A.queue i ++
      (List.range' (i + 1) (n - (i + 1))).flatMap fun j : ℕ => A.queue j := by
  obtain ⟨k, rfl⟩ : ∃ k, n = i + 1 + k := ⟨n - (i + 1), by omega⟩
  have hrange : List.range (i + 1 + k) = List.range i ++ [i] ++ List.range' (i + 1) k := by
    have happend := List.range'_append_1 (s := 0) (m := i + 1) (n := k)
    rw [← List.range_succ, List.range_eq_range', List.range_eq_range', ← happend, Nat.zero_add]
  simp [order, hrange]

/-- Past elements that are not to come behind. -/
theorem orderedInsert_append {r : α → α → Prop} [DecidableRel r] {u : List α}
    (hu : ∀ y ∈ u, ¬ r x y) (v : List α) :
    (u ++ v).orderedInsert r x = u ++ v.orderedInsert r x := by
  induction u with
  | nil => rfl
  | cons y u ih =>
      rw [List.forall_mem_cons] at hu
      rw [List.cons_append, List.orderedInsert_of_not_le _ _ hu.1, ih hu.2, List.cons_append]

theorem orderedInsert_front {r : α → α → Prop} [DecidableRel r] {v : List α}
    (hv : ∀ y ∈ v, r x y) : v.orderedInsert r x = x :: v := by
  cases v with
  | nil => rfl
  | cons y v => exact List.orderedInsert_cons_of_le _ _ (hv y (List.mem_cons_self ..))

/-- The levels before `i` and behind it, as seen from an element there. -/
theorem Sound.mem_before (h : Sound n prio S A) {i : ℕ} {y : α} (hy : y ∈ order i A) :
    prio y < i := by
  rw [order, List.mem_flatMap] at hy
  obtain ⟨j, hj, hy⟩ := hy
  rw [((h.mem j y).mp hy).2]
  have hlt := List.mem_range.mp hj
  omega

theorem Sound.mem_behind (h : Sound n prio S A) {i k : ℕ} {y : α}
    (hy : y ∈ (List.range' (i + 1) k).flatMap fun j : ℕ => A.queue j) : (i : ℤ) < prio y := by
  rw [List.mem_flatMap] at hy
  obtain ⟨j, hj, hy⟩ := hy
  rw [((h.mem j y).mp hy).2]
  have hlt := (List.mem_range'_1.mp hj).1
  omega

/-- Writing one level. -/
theorem order_update (A : PrioArray α) {i : ℕ} (hi : i < n) (l : List α) (bits : ℤ → Bool) :
    order n ⟨Function.update A.queue i l, bits⟩ = order i A ++ l ++
      (List.range' (i + 1) (n - (i + 1))).flatMap fun j : ℕ => A.queue j := by
  rw [order_split _ hi]
  have hbefore : order i ⟨Function.update A.queue i l, bits⟩ = order i A := by
    refine List.flatMap_congr fun j hj => Function.update_of_ne ?_ _ _
    have hlt := List.mem_range.mp hj
    omega
  have hbehind : ((List.range' (i + 1) (n - (i + 1))).flatMap fun j : ℕ =>
      Function.update A.queue i l j) =
        (List.range' (i + 1) (n - (i + 1))).flatMap fun j : ℕ => A.queue j := by
    refine List.flatMap_congr fun j hj => Function.update_of_ne ?_ _ _
    have hlt := (List.mem_range'_1.mp hj).1
    omega
  rw [hbefore]
  simp only [Function.update_self, hbehind]

/-- The level of an element that comes to the end of its list. -/
theorem Sound.order_addTail (h : Sound n prio S A) (hx : 0 ≤ prio x ∧ prio x < n) :
    order n (A.addTail (prio x) x) = (order n A).orderedInsert (prio · < prio ·) x := by
  obtain ⟨i, hi⟩ : ∃ i : ℕ, prio x = i := ⟨(prio x).toNat, by omega⟩
  have hlt : i < n := by omega
  rw [order_split A hlt, orderedInsert_append (fun y hy => ?_), orderedInsert_front fun y hy => ?_]
  · rw [hi, addTail, order_update A hlt]
    simp
  · rw [hi]
    exact h.mem_behind hy
  · rw [hi, not_lt]
    rcases List.mem_append.mp hy with hy | hy
    · exact (h.mem_before hy).le
    · exact ((h.mem i y).mp hy).2.le

/-- The level of an element that comes to the front of its list. -/
theorem Sound.order_addHead (h : Sound n prio S A) (hx : 0 ≤ prio x ∧ prio x < n) :
    order n (A.addHead (prio x) x) = (order n A).orderedInsert (prio · ≤ prio ·) x := by
  obtain ⟨i, hi⟩ : ∃ i : ℕ, prio x = i := ⟨(prio x).toNat, by omega⟩
  have hlt : i < n := by omega
  rw [order_split A hlt, List.append_assoc, orderedInsert_append (fun y hy => ?_),
    orderedInsert_front fun y hy => ?_]
  · rw [hi, addHead, order_update A hlt]
    simp
  · rw [hi]
    rcases List.mem_append.mp hy with hy | hy
    · exact ((h.mem i y).mp hy).2.ge
    · exact (h.mem_behind hy).le
  · rw [hi, not_le]
    exact h.mem_before hy

theorem Sound.order_del [DecidableEq α] (h : Sound n prio S A) (x : α) :
    order n (A.del x) = (order n A).erase x := by
  by_cases hx : S x
  · obtain ⟨i, hi, hprio⟩ := h.level hx
    have hqueue : (fun j => (A.queue j).erase x) =
        Function.update A.queue i ((A.queue i).erase x) := by
      funext j
      by_cases hj : j = i
      · rw [hj, Function.update_self]
      · rw [Function.update_of_ne hj]
        refine List.erase_of_not_mem fun hmem => hj ?_
        rw [← ((h.mem j x).mp hmem).2, hprio]
    have hmem : x ∈ A.queue i := (h.mem i x).mpr ⟨hx, hprio⟩
    have hbefore : x ∉ order i A := fun hx => by
      have hlt := h.mem_before hx
      omega
    rw [del, hqueue, order_update A hi, order_split A hi, List.append_assoc, List.append_assoc,
      List.erase_append_right _ hbefore, List.erase_append_left _ hmem]
  · have hsame : A.del x = A := by
      have hqueue : (fun j => (A.queue j).erase x) = A.queue := by
        funext j
        exact List.erase_of_not_mem fun hmem => hx ((h.mem j x).mp hmem).1
      rw [del, hqueue]
    rw [hsame, List.erase_of_not_mem fun hmem => hx (h.mem_order.mp hmem)]

end Order

/-! ## The search -/

section Search

variable {n : ℕ} {prio : α → ℤ} {S : α → Prop} {A : PrioArray α}

theorem order_eq_nil_iff : order n A = [] ↔ ∀ i < n, A.queue (i : ℕ) = [] := by
  simp [order, List.flatMap_eq_nil_iff]

/-- The level that the search finds is that of the first element. -/
theorem Sound.find (h : Sound n prio S A) :
    (∃ x, (order n A).head? = some x ∧ findFirst n A.bitmap = prio x ∧
      (A.queue (prio x)).head? = some x) ∨
    order n A = [] ∧ findFirst n A.bitmap = n ∧ A.queue n = [] := by
  have hbit : ∀ {i : ℕ}, i < n → ((A.bitmap i) = true ↔ A.queue i ≠ []) := fun {i} hi =>
    h.bit i (by omega) (by omega)
  rcases hfind : (List.range n).find? fun i : ℕ => A.bitmap i with - | i
  · refine .inr ⟨order_eq_nil_iff.mpr fun i hi => ?_, ?_, ?_⟩
    · have hclear := List.find?_range_eq_none.mp hfind i hi
      by_contra hne
      simp [(hbit hi).mpr hne] at hclear
    · rw [findFirst, List.range_succ, List.find?_append, hfind]
      simp [h.delimiter]
    · refine List.eq_nil_iff_forall_not_mem.mpr fun x hx => ?_
      obtain ⟨hS, hprio⟩ := (h.mem n x).mp hx
      have hlt := (h.range x hS).2
      omega
  · obtain ⟨hset, hi, hclear⟩ := List.find?_range_eq_some.mp hfind
    have hi := List.mem_range.mp hi
    have hbefore : order i A = [] := by
      refine order_eq_nil_iff.mpr fun j hj => ?_
      by_contra hne
      simpa [(hbit (hj.trans hi)).mpr hne] using hclear j hj
    obtain ⟨x, l, hqueue⟩ := List.exists_cons_of_ne_nil ((hbit hi).mp hset)
    have hx : (A.queue i).head? = some x := by rw [hqueue, List.head?_cons]
    have hprio : prio x = i := ((h.mem i x).mp (List.mem_of_mem_head? hx)).2
    refine .inl ⟨x, ?_, ?_, by rwa [hprio]⟩
    · rw [order_split A hi, hbefore, List.nil_append, List.head?_append, hx]
      rfl
    · rw [findFirst, List.range_succ, List.find?_append, hfind, hprio]
      rfl

theorem Sound.findFirst_eq (h : Sound n prio S A) :
    findFirst n A.bitmap = ((order n A).head?.map prio).getD n := by
  rcases h.find with ⟨x, hx, hfirst, -⟩ | ⟨hnil, hfirst, -⟩
  · rw [hfirst, hx]
    rfl
  · rw [hfirst, hnil]
    rfl

theorem Sound.head?_findFirst (h : Sound n prio S A) :
    (A.queue (findFirst n A.bitmap)).head? = (order n A).head? := by
  rcases h.find with ⟨x, hx, hfirst, hqueue⟩ | ⟨hnil, hfirst, hqueue⟩
  · rw [hfirst, hx, hqueue]
  · rw [hfirst, hnil, hqueue]

theorem Sound.findFirst_le (h : Sound n prio S A) {x : α} (hx : S x) :
    findFirst n A.bitmap ≤ prio x := by
  rw [h.findFirst_eq]
  have hmem := h.mem_order.mpr hx
  obtain ⟨y, l, horder⟩ := List.exists_cons_of_ne_nil (List.ne_nil_of_mem hmem)
  have hsorted := h.sorted
  rw [horder, List.pairwise_cons] at hsorted
  rw [horder] at hmem ⊢
  rcases List.mem_cons.mp hmem with rfl | hmem
  · exact le_refl _
  · exact hsorted.1 x hmem

end Search

/-! ## The operations keep the array sound -/

section Keep

variable {n : ℕ} {prio : α → ℤ} {S : α → Prop} {A : PrioArray α} {x : α}

theorem Sound.congr {prio' : α → ℤ} {S' : α → Prop} (h : Sound n prio S A)
    (hS : ∀ x, S' x ↔ S x) (hprio : ∀ x, S x → prio' x = prio x) : Sound n prio' S' A where
  mem i x := by
    rw [h.mem, hS]
    exact and_congr_right fun hx => by rw [hprio x hx]
  nodup := h.nodup
  range x hx := by
    have hx := (hS x).mp hx
    rw [hprio x hx]
    exact h.range x hx
  bit := h.bit
  delimiter := h.delimiter

/-- Linking a new element, with its bit. `l` is its list with the element
somewhere in it. -/
theorem Sound.link (h : Sound n prio S A) (hx : ¬ S x) (hrange : 0 ≤ prio x ∧ prio x < n)
    {l : List α} (hl : l.Perm (x :: A.queue (prio x))) :
    Sound n prio (fun y => S y ∨ y = x)
      (setBit ⟨Function.update A.queue (prio x) l, A.bitmap⟩ (prio x)) where
  mem i y := by
    simp only [setBit]
    by_cases hi : i = prio x
    · subst hi
      rw [Function.update_self, hl.mem_iff, List.mem_cons, h.mem]
      constructor
      · rintro (rfl | ⟨hy, hprio⟩)
        · exact ⟨.inr rfl, rfl⟩
        · exact ⟨.inl hy, hprio⟩
      · rintro ⟨hy | rfl, hprio⟩
        · exact .inr ⟨hy, hprio⟩
        · exact .inl rfl
    · rw [Function.update_of_ne hi, h.mem]
      constructor
      · rintro ⟨hy, hprio⟩
        exact ⟨.inl hy, hprio⟩
      · rintro ⟨hy | rfl, hprio⟩
        · exact ⟨hy, hprio⟩
        · exact absurd hprio.symm hi
  nodup i := by
    simp only [setBit]
    by_cases hi : i = prio x
    · subst hi
      rw [Function.update_self, hl.nodup_iff, List.nodup_cons]
      exact ⟨fun hmem => hx ((h.mem _ _).mp hmem).1, h.nodup _⟩
    · rw [Function.update_of_ne hi]
      exact h.nodup i
  range y hy := by
    rcases hy with hy | rfl
    · exact h.range y hy
    · exact hrange
  bit i hle hlt := by
    simp only [setBit]
    by_cases hi : i = prio x
    · subst hi
      have hne : l ≠ [] := fun hnil => by
        rw [hnil] at hl
        exact List.cons_ne_nil _ _ hl.nil_eq.symm
      simp [hne]
    · rw [Function.update_of_ne hi, Function.update_of_ne hi]
      exact h.bit i hle hlt
  delimiter := by
    have hne : (n : ℤ) ≠ prio x := hrange.2.ne'
    simp [setBit, Function.update_of_ne hne, h.delimiter]

theorem Sound.addTail (h : Sound n prio S A) (hx : ¬ S x) (hrange : 0 ≤ prio x ∧ prio x < n) :
    Sound n prio (fun y => S y ∨ y = x) ((A.addTail (prio x) x).setBit (prio x)) :=
  h.link hx hrange (List.perm_append_singleton x _)

theorem Sound.addHead (h : Sound n prio S A) (hx : ¬ S x) (hrange : 0 ≤ prio x ∧ prio x < n) :
    Sound n prio (fun y => S y ∨ y = x) ((A.addHead (prio x) x).setBit (prio x)) :=
  h.link hx hrange (List.Perm.refl _)

/-- Unlinking an element, with its bit if its list is empty then. -/
theorem Sound.del [DecidableEq α] (h : Sound n prio S A) (hx : S x) :
    Sound n prio (fun y => S y ∧ y ≠ x)
      (if (A.del x).queue (prio x) = [] then (A.del x).clearBit (prio x) else A.del x) where
  mem i y := by
    have hqueue : (if (A.del x).queue (prio x) = [] then (A.del x).clearBit (prio x)
        else A.del x).queue i = (A.queue i).erase x := by
      split <;> rfl
    rw [hqueue, (h.nodup i).mem_erase_iff, h.mem]
    tauto
  nodup i := by
    split <;> exact (h.nodup i).erase x
  range y hy := h.range y hy.1
  bit i hle hlt := by
    by_cases hi : i = prio x
    · subst hi
      split
      · next hnil => simp [clearBit, hnil]
      · next hne =>
          have hset : A.bitmap (prio x) = true :=
            (h.bit _ hle hlt).mpr (List.ne_nil_of_mem ((h.mem _ x).mpr ⟨hx, rfl⟩))
          exact iff_of_true hset hne
    · have hout : x ∉ A.queue i := fun hmem => hi ((h.mem i x).mp hmem).2.symm
      have hkeep : (A.queue i).erase x = A.queue i := List.erase_of_not_mem hout
      split
      · simpa [clearBit, PrioArray.del, Function.update_of_ne hi, hkeep] using h.bit i hle hlt
      · simpa [PrioArray.del, hkeep] using h.bit i hle hlt
  delimiter := by
    have hne : (n : ℤ) ≠ prio x := (h.range x hx).2.ne'
    split
    · simp [clearBit, PrioArray.del, Function.update_of_ne hne, h.delimiter]
    · exact h.delimiter

/-- Moving an element within its list. `l` is its list after the move. -/
theorem Sound.move [DecidableEq α] (h : Sound n prio S A) {l : List α}
    (hl : l.Perm (A.queue (prio x))) :
    Sound n prio S ⟨Function.update (A.del x).queue (prio x) l, A.bitmap⟩ := by
  have hqueue : Function.update (A.del x).queue (prio x) l =
      Function.update A.queue (prio x) l := by
    funext i
    by_cases hi : i = prio x
    · rw [hi, Function.update_self, Function.update_self]
    · rw [Function.update_of_ne hi, Function.update_of_ne hi]
      exact List.erase_of_not_mem fun hmem => hi ((h.mem i x).mp hmem).2.symm
  rw [hqueue]
  have hnil : l = [] ↔ A.queue (prio x) = [] := ⟨fun hl' => (hl' ▸ hl).nil_eq.symm,
    fun hl' => (hl' ▸ hl).eq_nil⟩
  refine ⟨fun i y => ?_, fun i => ?_, h.range, fun i hle hlt => ?_, h.delimiter⟩
  all_goals by_cases hi : i = prio x
  all_goals dsimp only
  · subst hi
    rw [Function.update_self, hl.mem_iff, h.mem]
  · rw [Function.update_of_ne hi, h.mem]
  · subst hi
    rw [Function.update_self, hl.nodup_iff]
    exact h.nodup _
  · rw [Function.update_of_ne hi]
    exact h.nodup i
  · subst hi
    rw [Function.update_self, h.bit _ hle hlt, ne_eq, ne_eq, hnil]
  · rw [Function.update_of_ne hi]
    exact h.bit i hle hlt

theorem Sound.moveTail [DecidableEq α] (h : Sound n prio S A) (hx : S x) :
    Sound n prio S ((A.del x).addTail (prio x) x) :=
  h.move ((List.perm_append_singleton x _).trans
    (List.perm_cons_erase ((h.mem _ x).mpr ⟨hx, rfl⟩)).symm)

theorem Sound.moveHead [DecidableEq α] (h : Sound n prio S A) (hx : S x) :
    Sound n prio S ((A.del x).addHead (prio x) x) :=
  h.move (List.perm_cons_erase ((h.mem _ x).mpr ⟨hx, rfl⟩)).symm

theorem Sound.order_moveTail [DecidableEq α] (h : Sound n prio S A) (hx : S x) :
    order n ((A.del x).addTail (prio x) x) =
      ((order n A).erase x).orderedInsert (prio · < prio ·) x := by
  have horder := (h.del hx).order_addTail (h.range x hx)
  rw [← h.order_del x]
  split at horder <;> exact horder

theorem Sound.order_moveHead [DecidableEq α] (h : Sound n prio S A) (hx : S x) :
    order n ((A.del x).addHead (prio x) x) =
      ((order n A).erase x).orderedInsert (prio · ≤ prio ·) x := by
  have horder := (h.del hx).order_addHead (h.range x hx)
  rw [← h.order_del x]
  split at horder <;> exact horder

/-- To go behind the others makes no difference where there are none. -/
theorem Sound.order_alone [DecidableEq α] (h : Sound n prio S A) (hx : S x)
    (halone : (A.queue (prio x)).length ≤ 1) :
    ((order n A).erase x).orderedInsert (prio · < prio ·) x = order n A := by
  have hmem : x ∈ A.queue (prio x) := (h.mem _ x).mpr ⟨hx, rfl⟩
  have hlist : A.queue (prio x) = [x] := by
    obtain ⟨y, hy⟩ := List.length_eq_one_iff.mp
      (le_antisymm halone (List.length_pos_of_mem hmem))
    rw [hy] at hmem
    rw [hy, List.mem_singleton.mp hmem]
  have hqueue : ((A.del x).addTail (prio x) x).queue = A.queue := by
    funext i
    by_cases hi : i = prio x
    · subst hi
      simp [PrioArray.addTail, PrioArray.del, hlist]
    · refine (Function.update_of_ne hi _ _).trans ?_
      exact List.erase_of_not_mem fun hin => hi ((h.mem i x).mp hin).2.symm
  rw [← h.order_moveTail hx, order, hqueue, order]

/-- The first level with one element more. -/
theorem Sound.findFirst_link {A' : PrioArray α} (h : Sound n prio S A)
    (h' : Sound n prio (fun y => S y ∨ y = x) A') :
    findFirst n A'.bitmap = min (prio x) (findFirst n A.bitmap) := by
  refine le_antisymm (le_min (h'.findFirst_le (.inr rfl)) ?_) ?_
  · rcases h.find with ⟨y, hy, hfirst, -⟩ | ⟨-, hfirst, -⟩
    · rw [hfirst]
      exact h'.findFirst_le (.inl (h.mem_order.mp (List.mem_of_mem_head? hy)))
    · rw [hfirst]
      exact (h'.findFirst_le (.inr rfl)).trans (h'.range x (.inr rfl)).2.le
  · rcases h'.find with ⟨y, hy, hfirst, -⟩ | ⟨hnil, -, -⟩
    · rw [hfirst]
      rcases h'.mem_order.mp (List.mem_of_mem_head? hy) with hy | rfl
      · exact (min_le_right _ _).trans (h.findFirst_le hy)
      · exact min_le_left _ _
    · have hmem := h'.mem_order.mpr (.inr rfl : S x ∨ x = x)
      rw [hnil] at hmem
      exact absurd hmem List.not_mem_nil

/-- The first level with one element less, unless that was its level. -/
theorem Sound.findFirst_unlink {A' : PrioArray α} (h : Sound n prio S A)
    (h' : Sound n prio (fun y => S y ∧ y ≠ x) A') (hx : S x)
    (hne : prio x ≠ findFirst n A.bitmap) :
    findFirst n A'.bitmap = findFirst n A.bitmap := by
  refine le_antisymm ?_ ?_
  · rcases h.find with ⟨y, hy, hfirst, -⟩ | ⟨hnil, -, -⟩
    · rw [hfirst] at hne ⊢
      have hy := h.mem_order.mp (List.mem_of_mem_head? hy)
      exact h'.findFirst_le ⟨hy, fun heq => hne (by rw [heq])⟩
    · have hmem := h.mem_order.mpr hx
      rw [hnil] at hmem
      exact absurd hmem List.not_mem_nil
  · rcases h'.find with ⟨y, hy, hfirst, -⟩ | ⟨-, hfirst, -⟩
    · rw [hfirst]
      exact h.findFirst_le (h'.mem_order.mp (List.mem_of_mem_head? hy)).1
    · rw [hfirst]
      exact (h.findFirst_le hx).trans (h.range x hx).2.le

end Keep

end PrioArray
