import Mathlib.Data.List.Basic
import Mathlib.Data.List.Nodup
import Mathlib.Logic.Function.Basic

/-!
# Tables of linked lists

A table `Q : κ → List α` of doubly linked lists whose nodes are embedded
in the elements, so that an element is on at most one list. `addTail`
links an element at the end of a list; `unlink` takes it off whichever
list of a region holds it, which is what removing an embedded node does.

`Linked Q loc` says where everything is: `loc x` is the list that holds
`x` (`none`: not linked), and no list holds anything twice. The two
operations move `loc` accordingly (`Linked.addTail`, `Linked.unlink`).

`Stamped S Q stamp` says every list of the region `S` is in stamp order.
Appending an element with a stamp newer than all others keeps it,
removing keeps it, and in a table in stamp order the head of a list is
the element with the least stamp there (`Stamped.head_lt`).
-/

namespace ListTable

variable {κ α : Type*}

/-- Link `x` at the tail of list `i`. -/
def addTail [DecidableEq κ] (Q : κ → List α) (i : κ) (x : α) : κ → List α :=
  Function.update Q i (Q i ++ [x])

/-- Unlink `x` from the lists of the region `S`. -/
def unlink [DecidableEq α] (S : κ → Bool) (Q : κ → List α) (x : α) : κ → List α :=
  fun i => if S i then (Q i).erase x else Q i

/-- The table holds exactly the elements `loc` places, each of them once
and in the list `loc` names. -/
structure Linked (Q : κ → List α) (loc : α → Option κ) : Prop where
  mem : ∀ i x, x ∈ Q i ↔ loc x = some i
  nodup : ∀ i, (Q i).Nodup

/-- Every list of the region is in the order of the stamps. -/
def Stamped (S : κ → Bool) (Q : κ → List α) (stamp : α → ℕ) : Prop :=
  ∀ i, S i = true → (Q i).Pairwise fun x y => stamp x < stamp y

/-! ## Where the elements are -/

theorem Linked.congr {Q : κ → List α} {loc loc' : α → Option κ}
    (h : Linked Q loc) (heq : ∀ x, loc' x = loc x) : Linked Q loc' :=
  ⟨fun i x => by rw [h.mem i x, heq x], h.nodup⟩

theorem Linked.addTail [DecidableEq κ] [DecidableEq α] {Q : κ → List α} {loc : α → Option κ}
    (h : Linked Q loc) {x : α} (hx : loc x = none) (i : κ) :
    Linked (addTail Q i x) (Function.update loc x (some i)) := by
  have hout : ∀ j, x ∉ Q j := fun j hj => by
    rw [h.mem j x, hx] at hj
    cases hj
  refine ⟨fun j y => ?_, fun j => ?_⟩
  · by_cases hyx : y = x
    · subst hyx
      by_cases hji : j = i
      · subst hji; simp [ListTable.addTail]
      · have hij : i ≠ j := fun e => hji e.symm
        simp [ListTable.addTail, hji, hij, hout j]
    · rw [Function.update_of_ne hyx, ← h.mem j y]
      by_cases hji : j = i
      · subst hji; simp [ListTable.addTail, hyx]
      · simp [ListTable.addTail, hji]
  · by_cases hji : j = i
    · subst hji
      simpa [ListTable.addTail, List.nodup_append] using
        ⟨h.nodup j, fun y hy hyx => hout j (hyx ▸ hy)⟩
    · simpa [ListTable.addTail, hji] using h.nodup j

theorem Linked.unlink [DecidableEq α] {Q : κ → List α} {loc : α → Option κ}
    (h : Linked Q loc) {S : κ → Bool} {x : α}
    (hS : ∀ i, loc x = some i → S i = true) :
    Linked (unlink S Q x) (Function.update loc x none) := by
  refine ⟨fun j y => ?_, fun j => ?_⟩
  · by_cases hyx : y = x
    · subst hyx
      simp only [Function.update_self, reduceCtorEq, iff_false]
      simp only [ListTable.unlink]
      split
      · exact (h.nodup j).not_mem_erase
      · rename_i hSj
        exact fun hy => hSj (hS j ((h.mem j y).mp hy))
    · rw [Function.update_of_ne hyx, ← h.mem j y]
      simp only [ListTable.unlink]
      split
      · exact List.mem_erase_of_ne hyx
      · exact Iff.rfl
  · simp only [ListTable.unlink]
    split
    · exact (h.nodup j).erase x
    · exact h.nodup j

/-- Unlinking an element and linking it again at the tail of its list
changes nothing just when it was there already. -/
theorem Linked.relink_eq_iff [DecidableEq κ] [DecidableEq α] {Q : κ → List α}
    {loc : α → Option κ} (h : Linked Q loc) {S : κ → Bool} {i : κ} (hS : S i = true) (x : α) :
    ListTable.addTail (ListTable.unlink S Q x) i x i = Q i ↔ (Q i).getLast? = some x := by
  simp only [ListTable.addTail, Function.update_self, ListTable.unlink, hS, if_true]
  constructor
  · intro heq
    rw [← heq, List.getLast?_concat]
  · intro hlast
    obtain ⟨l, hl⟩ := List.getLast?_eq_some_iff.mp hlast
    have hnodup := h.nodup i
    rw [hl, List.nodup_append] at hnodup
    have hout : x ∉ l := fun hmem => hnodup.2.2 x hmem x (List.mem_singleton_self x) rfl
    rw [hl, List.erase_append_right _ hout]
    simp

/-- The other lists stay as they were. -/
theorem Linked.relink_of_ne [DecidableEq κ] [DecidableEq α] {Q : κ → List α}
    {loc : α → Option κ} (h : Linked Q loc) (S : κ → Bool) {x : α} {i j : κ}
    (hx : loc x = some i) (hij : j ≠ i) :
    ListTable.addTail (ListTable.unlink S Q x) i x j = Q j := by
  have hout : x ∉ Q j := by
    intro hmem
    rw [h.mem, hx] at hmem
    exact hij (Option.some.inj hmem).symm
  rw [ListTable.addTail, Function.update_of_ne hij, ListTable.unlink]
  split
  · exact List.erase_of_not_mem hout
  · rfl

/-! ## In which order -/

theorem Stamped.unlink [DecidableEq α] {S : κ → Bool} {Q : κ → List α} {stamp : α → ℕ}
    (h : Stamped S Q stamp) (T : κ → Bool) (x : α) : Stamped S (unlink T Q x) stamp := by
  intro i hi
  simp only [ListTable.unlink]
  split
  · exact (h i hi).sublist List.erase_sublist
  · exact h i hi

/-- Appending an element with a stamp newer than everything linked. The
stamps of the others are as before. -/
theorem Stamped.addTail [DecidableEq κ] {S : κ → Bool} {Q : κ → List α}
    {stamp stamp' : α → ℕ} (h : Stamped S Q stamp) {x : α} (hx : ∀ i, x ∉ Q i)
    (hsame : ∀ y, y ≠ x → stamp' y = stamp y)
    (hnew : ∀ y, y ≠ x → stamp y < stamp' x) (i : κ) :
    Stamped S (addTail Q i x) stamp' := by
  have hold : ∀ j, S j = true → (Q j).Pairwise fun y z => stamp' y < stamp' z := fun j hj =>
    (h j hj).imp_of_mem fun {y z} hy hz hlt => by
      rw [hsame y fun e => hx j (e ▸ hy), hsame z fun e => hx j (e ▸ hz)]
      exact hlt
  intro j hj
  by_cases hji : j = i
  · subst hji
    simp only [ListTable.addTail, Function.update_self]
    refine List.pairwise_append.mpr ⟨hold j hj, List.pairwise_singleton _ _, ?_⟩
    intro y hy z hz
    obtain rfl := List.mem_singleton.mp hz
    have hyz : y ≠ z := fun e => hx j (e ▸ hy)
    rw [hsame y hyz]
    exact hnew y hyz
  · simp only [ListTable.addTail, Function.update_of_ne hji]
    exact hold j hj

/-- Appending outside the region. -/
theorem Stamped.addTail_outside [DecidableEq κ] {S : κ → Bool} {Q : κ → List α}
    {stamp : α → ℕ} (h : Stamped S Q stamp) {i : κ} (hi : S i = false) (x : α) :
    Stamped S (ListTable.addTail Q i x) stamp := by
  intro j hj
  have hji : j ≠ i := by
    rintro rfl
    rw [hi] at hj
    cases hj
  simp only [ListTable.addTail, Function.update_of_ne hji]
  exact h j hj

theorem Stamped.head_lt {S : κ → Bool} {Q : κ → List α} {stamp : α → ℕ}
    (h : Stamped S Q stamp) {i : κ} (hi : S i = true) {x : α} {l : List α}
    (hQ : Q i = x :: l) {y : α} (hy : y ∈ Q i) : y = x ∨ stamp x < stamp y := by
  have hpair := h i hi
  rw [hQ] at hpair hy
  rcases List.mem_cons.mp hy with rfl | hyl
  · exact Or.inl rfl
  · exact Or.inr ((List.pairwise_cons.mp hpair).1 y hyl)

/-- Stamps say which of two elements of a list comes first. -/
theorem Stamped.pair_sublist_iff {S : κ → Bool} {Q : κ → List α} {stamp : α → ℕ}
    (h : Stamped S Q stamp) {i : κ} (hi : S i = true) {x y : α} :
    [x, y].Sublist (Q i) ↔ x ∈ Q i ∧ y ∈ Q i ∧ stamp x < stamp y := by
  have hpair := h i hi
  constructor
  · intro hsub
    refine ⟨hsub.subset (by simp), hsub.subset (by simp), ?_⟩
    have hxy : [x, y].Pairwise fun a b => stamp a < stamp b := hpair.sublist hsub
    exact (List.pairwise_cons.mp hxy).1 y (List.mem_singleton_self y)
  · rintro ⟨hx, hy, hlt⟩
    generalize Q i = l at hpair hx hy
    induction hpair with
    | nil => cases hx
    | @cons z l hz _ ih =>
        rcases List.mem_cons.mp hx with rfl | hxl
        · rcases List.mem_cons.mp hy with rfl | hyl
          · exact absurd hlt (Nat.lt_irrefl _)
          · exact (List.singleton_sublist.mpr hyl).cons_cons _
        · rcases List.mem_cons.mp hy with rfl | hyl
          · exact absurd (hz x hxl) (Nat.lt_asymm hlt)
          · exact (ih hxl hyl).cons _

end ListTable
