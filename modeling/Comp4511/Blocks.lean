import Mathlib.Data.List.Nodup
import Mathlib.Data.List.Perm.Subperm
import Mathlib.Logic.Function.Basic
import Comp4511.Loops

/-!
# Blocks of memory

What `malloc` and `free` do, for blocks that hold values of a type: an
access to a block that is not live has no result, so that an operation
that comes to one says that there is no double `free` and no use of a
block after it was freed. An address is given out once only.

`Owns` says which blocks are live, with what they hold; each operation has
a rule for it. A program that ends with `Owns h []` has freed all that it
allocated. `chain` is what it owns for a linked list, each cell of which
holds the address of the next; its rules are for the walk to the last
cell, for a cell put behind it, and for freeing all of them.
-/

namespace Blocks

variable {β : Type*}

/-- The blocks that are live, and the next address. -/
structure Heap (β : Type*) where
  get : ℕ → Option β
  next : ℕ

def Heap.empty : Heap β := ⟨fun _ => none, 0⟩

/-- `malloc`, where the block is filled. -/
def Heap.alloc (h : Heap β) (b : β) : ℕ × Heap β :=
  (h.next, ⟨Function.update h.get h.next (some b), h.next + 1⟩)

def Heap.free (h : Heap β) (p : ℕ) : Option (Heap β) :=
  (h.get p).map fun _ => { h with get := Function.update h.get p none }

/-- A block is written over. -/
def Heap.store (h : Heap β) (p : ℕ) (b : β) : Option (Heap β) :=
  (h.get p).map fun _ => { h with get := Function.update h.get p (some b) }

/-- One block after the other is freed. -/
def Heap.freeAll (h : Heap β) : List ℕ → Option (Heap β)
  | [] => some h
  | p :: ps => (h.free p).bind (·.freeAll ps)

/-- The live blocks are these. -/
structure Owns (h : Heap β) (own : List (ℕ × β)) : Prop where
  nodup : (own.map Prod.fst).Nodup
  get : ∀ p b, h.get p = some b ↔ (p, b) ∈ own
  fresh : ∀ x ∈ own, x.1 < h.next

section Rules

variable {h : Heap β} {own own' : List (ℕ × β)} {p : ℕ} {b : β}

theorem owns_empty : Owns (.empty : Heap β) [] :=
  ⟨List.nodup_nil, fun p b => by simp [Heap.empty], fun x hx => absurd hx List.not_mem_nil⟩

theorem Owns.perm (hown : Owns h own) (hperm : own.Perm own') : Owns h own' where
  nodup := (hperm.map Prod.fst).nodup_iff.mp hown.nodup
  get p b := (hown.get p b).trans hperm.mem_iff
  fresh x hx := hown.fresh x (hperm.mem_iff.mpr hx)

theorem Owns.get_none (hown : Owns h []) (p : ℕ) : h.get p = none := by
  cases hget : h.get p with
  | none => rfl
  | some b => exact absurd ((hown.get p b).mp hget) List.not_mem_nil

theorem Owns.get_head (hown : Owns h ((p, b) :: own)) : h.get p = some b :=
  (hown.get p b).mpr (List.mem_cons_self ..)

theorem Owns.alloc (hown : Owns h own) (b : β) :
    Owns (h.alloc b).2 (((h.alloc b).1, b) :: own) where
  nodup := by
    refine List.nodup_cons.mpr ⟨fun hmem => ?_, hown.nodup⟩
    obtain ⟨x, hx, heq⟩ := List.mem_map.mp hmem
    exact absurd (heq ▸ hown.fresh x hx) (Nat.lt_irrefl _)
  get p c := by
    by_cases hp : p = h.next
    · subst hp
      have hnot : (h.next, c) ∉ own := fun hmem => absurd (hown.fresh _ hmem) (Nat.lt_irrefl _)
      simp [Heap.alloc, hnot, eq_comm]
    · simp [Heap.alloc, hp, hown.get]
  fresh x hx := by
    rcases List.mem_cons.mp hx with rfl | hx
    · exact Nat.lt_succ_self _
    · exact Nat.lt_succ_of_lt (hown.fresh x hx)

theorem Owns.free (hown : Owns h ((p, b) :: own)) : ∃ h', h.free p = some h' ∧ Owns h' own := by
  have hnodup : p ∉ own.map Prod.fst ∧ (own.map Prod.fst).Nodup := List.nodup_cons.mp hown.nodup
  refine ⟨{ h with get := Function.update h.get p none }, by rw [Heap.free, hown.get_head]; rfl,
    hnodup.2, fun q c => ?_, fun x hx => hown.fresh x (List.mem_cons_of_mem _ hx)⟩
  by_cases hq : q = p
  · subst hq
    have hnot : (q, c) ∉ own := fun hmem => hnodup.1 (List.mem_map_of_mem hmem)
    simp [hnot]
  · simp [hq, hown.get]

theorem Owns.store (hown : Owns h ((p, b) :: own)) (c : β) :
    ∃ h', h.store p c = some h' ∧ Owns h' ((p, c) :: own) := by
  have hnodup : p ∉ own.map Prod.fst ∧ (own.map Prod.fst).Nodup := List.nodup_cons.mp hown.nodup
  refine ⟨{ h with get := Function.update h.get p (some c) },
    by rw [Heap.store, hown.get_head]; rfl, hown.nodup, fun q d => ?_, fun x hx => ?_⟩
  · by_cases hq : q = p
    · subst hq
      have hnot : (q, d) ∉ own := fun hmem => hnodup.1 (List.mem_map_of_mem hmem)
      simp [hnot, eq_comm]
    · simp [hq, hown.get]
  · rcases List.mem_cons.mp hx with rfl | hx
    · exact hown.fresh (p, b) (List.mem_cons_self ..)
    · exact hown.fresh x (List.mem_cons_of_mem _ hx)

theorem Owns.freeAll {cells : List (ℕ × β)} (hown : Owns h (cells ++ own)) :
    ∃ h', h.freeAll (cells.map Prod.fst) = some h' ∧ Owns h' own := by
  induction cells generalizing h with
  | nil => exact ⟨h, rfl, hown⟩
  | cons x cells ih =>
      obtain ⟨h₁, hfree, hown₁⟩ := hown.free
      obtain ⟨h₂, hrest, hown₂⟩ := ih hown₁
      exact ⟨h₂, by rw [List.map_cons, Heap.freeAll, hfree]; exact hrest, hown₂⟩

theorem Owns.length_le (hown : Owns h own) : own.length ≤ h.next := by
  have hsub : own.map Prod.fst ⊆ List.range h.next := by
    intro p hp
    obtain ⟨x, hx, rfl⟩ := List.mem_map.mp hp
    exact List.mem_range.mpr (hown.fresh x hx)
  have hle := (hown.nodup.subperm hsub).length_le
  rwa [List.length_map, List.length_range] at hle

end Rules

/-! ## Linked lists -/

/-- The address of the first cell. -/
def first (cells : List (ℕ × β)) (stop : Option ℕ) : Option ℕ :=
  (cells.head?.map Prod.fst).or stop

/-- Cells that hold the address of the next, and the last that of `stop`. -/
def chain (stop : Option ℕ) : List (ℕ × β) → List (ℕ × (β × Option ℕ))
  | [] => []
  | (p, b) :: cells => (p, (b, first cells stop)) :: chain stop cells

/-- One step to the last cell; `none` is an access to a block that is not
live. -/
def walkTurn (h : Heap (β × Option ℕ)) (p : ℕ) : Loop.Turn ℕ (Option ℕ) :=
  match h.get p with
  | none => .done none
  | some (_, none) => .done (some p)
  | some (_, some q) => .again q

/-- One turn of a loop that frees the cell at `ptr`, and has the address of
the next before it does. -/
def clearTurn (s : Heap (β × Option ℕ) × Option ℕ × Option ℕ) :
    Loop.Turn (Heap (β × Option ℕ) × Option ℕ × Option ℕ) (Option (Heap (β × Option ℕ))) :=
  match s with
  | (h, none, _) => .done (some h)
  | (h, some p, next) =>
      match h.free p with
      | none => .done none
      | some h =>
          match next with
          | none => .again (h, none, none)
          | some q =>
              match h.get q with
              | none => .done none
              | some (_, next') => .again (h, some q, next')

section Chain

variable {h : Heap (β × Option ℕ)} {own : List (ℕ × (β × Option ℕ))} {p : ℕ} {b : β}
  {cells : List (ℕ × β)}

theorem map_fst_chain (stop : Option ℕ) (cells : List (ℕ × β)) :
    (chain stop cells).map Prod.fst = cells.map Prod.fst := by
  induction cells with
  | nil => rfl
  | cons x cells ih => rw [chain, List.map_cons, List.map_cons, ih]

theorem length_chain (stop : Option ℕ) (cells : List (ℕ × β)) :
    (chain stop cells).length = cells.length := by
  have hlen := congrArg List.length (map_fst_chain stop cells)
  rwa [List.length_map, List.length_map] at hlen

theorem chain_append (stop : Option ℕ) (u v : List (ℕ × β)) :
    chain stop (u ++ v) = chain (first v stop) u ++ chain stop v := by
  induction u with
  | nil => rfl
  | cons x u ih =>
      have hfirst : first (u ++ v) stop = first u (first v stop) := by
        cases u <;> rfl
      rw [List.cons_append, chain, ih, hfirst]
      rfl

/-- The walk comes to the last cell. -/
theorem run_walkTurn {u : List (ℕ × β)} (hget : ∀ x ∈ chain none (u ++ [(p, b)]), h.get x.1 = some x.2)
    {n : ℕ} (hn : u.length < n) :
    Loop.run (walkTurn h) n ((u.head?.map Prod.fst).getD p) = some (some p) := by
  induction u generalizing n with
  | nil =>
      obtain ⟨n, rfl⟩ : ∃ m, n = m + 1 := ⟨n - 1, by omega⟩
      have hlast : h.get p = some (b, none) := hget (p, (b, none)) (List.mem_singleton_self _)
      refine Loop.run_done ?_
      show walkTurn h p = _
      rw [walkTurn, hlast]
  | cons x u ih =>
      obtain ⟨n, rfl⟩ : ∃ m, n = m + 1 := ⟨n - 1, by omega⟩
      obtain ⟨q, c⟩ := x
      rw [List.cons_append, chain, List.forall_mem_cons] at hget
      have hnext : first (u ++ [(p, b)]) none = some ((u.head?.map Prod.fst).getD p) := by
        cases u <;> rfl
      have hturn : walkTurn h q = .again ((u.head?.map Prod.fst).getD p) := by
        rw [walkTurn, hget.1, hnext]
      show Loop.run (walkTurn h) (n + 1) q = _
      rw [Loop.run_again hturn]
      exact ih hget.2 (by rw [List.length_cons] at hn; omega)

/-- A cell is put behind the last. -/
theorem Owns.link {u : List (ℕ × β)} {q : ℕ} {c : β}
    (hown : Owns h (chain none (u ++ [(p, b)]) ++ (q, (c, none)) :: own)) :
    ∃ h', h.store p (b, some q) = some h' ∧
      Owns h' (chain none (u ++ [(p, b), (q, c)]) ++ own) := by
  have hsplit : chain none (u ++ [(p, b)]) = chain (some p) u ++ [(p, (b, none))] :=
    chain_append none u [(p, b)]
  have hjoined : chain none (u ++ [(p, b), (q, c)]) =
      chain (some p) u ++ [(p, (b, some q)), (q, (c, none))] :=
    chain_append none u [(p, b), (q, c)]
  rw [hsplit, List.append_assoc] at hown
  obtain ⟨h', hstore, hown'⟩ := (hown.perm List.perm_middle).store (b, some q)
  refine ⟨h', hstore, ?_⟩
  rw [hjoined, List.append_assoc]
  exact hown'.perm List.perm_middle.symm

/-- The last cell is written over. -/
theorem Owns.storeLast {u : List (ℕ × β)} (hown : Owns h (chain none (u ++ [(p, b)]) ++ own))
    (c : β) :
    ∃ h', h.store p (c, none) = some h' ∧ Owns h' (chain none (u ++ [(p, c)]) ++ own) := by
  have hsplit : ∀ a, chain none (u ++ [(p, a)]) = chain (some p) u ++ [(p, (a, none))] :=
    fun a => chain_append none u [(p, a)]
  rw [hsplit, List.append_assoc] at hown
  obtain ⟨h', hstore, hown'⟩ := (hown.perm List.perm_middle).store (c, none)
  refine ⟨h', hstore, ?_⟩
  rw [hsplit, List.append_assoc]
  exact hown'.perm List.perm_middle.symm

/-- All cells are freed, in a turn each and one more. -/
theorem run_clearTurn (hown : Owns h (chain none cells ++ own)) {n : ℕ} (hn : cells.length < n) :
    ∃ h', Loop.run clearTurn n (h, first cells none, first cells.tail none) = some (some h') ∧
      Owns h' own := by
  induction cells generalizing h n with
  | nil =>
      obtain ⟨n, rfl⟩ : ∃ m, n = m + 1 := ⟨n - 1, by omega⟩
      exact ⟨h, rfl, hown⟩
  | cons x cells ih =>
      obtain ⟨n, rfl⟩ : ∃ m, n = m + 1 := ⟨n - 1, by omega⟩
      obtain ⟨p, b⟩ := x
      obtain ⟨h₁, hfree, hown₁⟩ := hown.free
      obtain ⟨h₂, hrun, hown₂⟩ := ih hown₁ (by rw [List.length_cons] at hn; omega : cells.length < n)
      refine ⟨h₂, ?_, hown₂⟩
      rw [← hrun]
      refine Loop.run_again ?_
      show clearTurn (h, some p, first cells none) = _
      cases cells with
      | nil => simp only [clearTurn, hfree]; rfl
      | cons y cells =>
          have hget : h₁.get y.1 = some (y.2, first cells none) := hown₁.get_head
          show clearTurn (h, some p, some y.1) = _
          simp only [clearTurn, hfree, hget]
          rfl

end Chain

end Blocks
