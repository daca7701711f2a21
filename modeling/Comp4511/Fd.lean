import Mathlib.Data.List.Basic
import Comp4511.Runs

/-!
# Descriptor tables

The open files of a process: a table from descriptor numbers to open file
descriptions of any type `α`. A descriptor is the index of an entry; the
table is a list so that it can be computed with, and what it means is
`get`.

`alloc` takes the lowest free number, as `open` and `pipe` do; `close`
frees one; `dup2` makes one refer to what another does. Each is a `put`,
so that `get_put` says what any of them does to every number.

The second half is about a process that opens and closes descriptors over
a long run. What it has not opened itself stays open (`Kept`), and a
descriptor it forgets to close is there for good: `Leaky.sameOpen_iff`
says when the open descriptors are those of the start.
-/

namespace Fd

variable {α : Type*}

/-- The open files of a process, by descriptor number. -/
abbrev Table (α : Type*) := List (Option α)

/-- What a descriptor refers to. -/
def get : Table α → ℕ → Option α
  | [], _ => none
  | v :: _, 0 => v
  | _ :: t, n + 1 => get t n

/-- Make a descriptor refer to `v`, or to nothing. -/
def put : Table α → ℕ → Option α → Table α
  | [], 0, v => [v]
  | [], n + 1, v => none :: put [] n v
  | _ :: t, 0, v => v :: t
  | x :: t, n + 1, v => x :: put t n v

/-- The lowest free number. -/
def lowest : Table α → ℕ
  | [] => 0
  | none :: _ => 0
  | some _ :: t => lowest t + 1

/-- Open `a` at the lowest free number. -/
def alloc (t : Table α) (a : α) : ℕ × Table α :=
  (lowest t, put t (lowest t) (some a))

def close (t : Table α) (n : ℕ) : Table α :=
  put t n none

/-- `dup2`: `new` is closed if it is open, and refers to what `old` does.
Nothing happens when `old` is not open. -/
def dup2 (t : Table α) (old new : ℕ) : Table α :=
  match get t old with
  | some a => put t new (some a)
  | none => t

/-- What the descriptors of a process with pipes refer to. Pipes are
numbered in the order they are made; whatever else is open is a file. -/
inductive End where
  | file (n : ℕ)
  | readEnd (pipe : ℕ)
  | writeEnd (pipe : ℕ)
deriving Repr, DecidableEq

/-- Standard input, output and error. -/
def standard : Table End := [some (.file 0), some (.file 1), some (.file 2)]

/-- `pipe`: the read end takes the lowest free number, the write end the
next. -/
def pipe (t : Table α) (r w : α) : (ℕ × ℕ) × Table α :=
  let (fd₀, t) := alloc t r
  let (fd₁, t) := alloc t w
  ((fd₀, fd₁), t)

@[simp] theorem get_nil (n : ℕ) : get ([] : Table α) n = none := by
  cases n <;> rfl

theorem get_put (t : Table α) (n : ℕ) (v : Option α) (m : ℕ) :
    get (put t n v) m = if m = n then v else get t m := by
  induction t generalizing n m with
  | nil =>
      induction n generalizing m with
      | zero => cases m <;> simp [put, get]
      | succ n ih => cases m <;> simp [put, get, ih]
  | cons x t ih =>
      cases n with
      | zero => cases m <;> simp [put, get]
      | succ n => cases m <;> simp [put, get, ih]

@[simp] theorem get_put_self (t : Table α) (n : ℕ) (v : Option α) : get (put t n v) n = v := by
  rw [get_put, if_pos rfl]

theorem get_put_of_ne (t : Table α) {n m : ℕ} (h : m ≠ n) (v : Option α) :
    get (put t n v) m = get t m := by
  rw [get_put, if_neg h]

@[simp] theorem get_close_self (t : Table α) (n : ℕ) : get (close t n) n = none :=
  get_put_self ..

theorem get_close (t : Table α) (n m : ℕ) :
    get (close t n) m = if m = n then none else get t m := get_put ..

theorem get_close_of_ne (t : Table α) {n m : ℕ} (h : m ≠ n) : get (close t n) m = get t m :=
  get_put_of_ne t h none

@[simp] theorem get_lowest (t : Table α) : get t (lowest t) = none := by
  induction t with
  | nil => rfl
  | cons x t ih =>
      cases x with
      | none => rfl
      | some a => exact ih

/-- A pipe takes two free numbers and leaves the others alone. -/
theorem pipe_spec {t t' : Table α} {r w : α} {fd₀ fd₁ : ℕ} (h : pipe t r w = ((fd₀, fd₁), t')) :
    get t fd₀ = none ∧ get t fd₁ = none ∧ fd₀ ≠ fd₁ ∧ get t' fd₀ = some r ∧
      get t' fd₁ = some w ∧ ∀ d, d ≠ fd₀ → d ≠ fd₁ → get t' d = get t d := by
  obtain ⟨hfds, rfl⟩ := Prod.mk.inj h
  obtain ⟨rfl, rfl⟩ := Prod.mk.inj hfds
  have hfree := get_lowest (put t (lowest t) (some r))
  have hne : lowest (put t (lowest t) (some r)) ≠ lowest t := by
    intro heq
    rw [heq, get_put_self] at hfree
    exact nomatch hfree
  rw [get_put_of_ne _ hne] at hfree
  refine ⟨get_lowest t, hfree, hne.symm, ?_, get_put_self .., ?_⟩
  · rw [get_put_of_ne _ hne.symm, get_put_self]
  · intro d hd₀ hd₁
    rw [get_put_of_ne _ hd₁, get_put_of_ne _ hd₀]

theorem get_dup2 {t : Table α} {old : ℕ} {a : α} (h : get t old = some a) (new n : ℕ) :
    get (dup2 t old new) n = if n = new then some a else get t n := by
  unfold dup2
  rw [h]
  exact get_put ..

/-- Neither `dup2` nor `close` makes a reference to something new. -/
theorem exists_get_of_dup2 {t : Table α} {old new d : ℕ} {v : α}
    (h : get (dup2 t old new) d = some v) : ∃ d', get t d' = some v := by
  unfold dup2 at h
  split at h
  · next a hold =>
      rw [get_put] at h
      split at h
      · exact ⟨old, hold.trans h⟩
      · exact ⟨d, h⟩
  · exact ⟨d, h⟩

theorem get_of_close {t : Table α} {n d : ℕ} {v : α} (h : get (close t n) d = some v) :
    get t d = some v := by
  rw [get_close] at h
  split at h
  · exact nomatch h
  · exact h

/-! ## What stays open

A process that closes only descriptors it has opened itself leaves the
others alone: `own` are the numbers it may still close. -/

/-- `d` refers to `v` and will not be closed. -/
def Kept (own : List ℕ) (d : ℕ) (v : α) (t : Table α) : Prop :=
  get t d = some v ∧ d ∉ own

section Kept

variable {own own' : List ℕ} {d n : ℕ} {v : α} {t : Table α}

theorem Kept.close (h : Kept own d v t) (hn : n ∈ own) (hsub : ∀ m ∈ own', m ∈ own) :
    Kept own' d v (close t n) := by
  have hne : d ≠ n := by
    rintro rfl
    exact h.2 hn
  refine ⟨?_, fun hmem => h.2 (hsub d hmem)⟩
  rw [get_close_of_ne t hne]
  exact h.1

/-- What is open is not what a new pipe takes. -/
theorem Kept.pipe {t' : Table α} {r w : α} {fd₀ fd₁ : ℕ} (h : Kept own d v t)
    (hpipe : pipe t r w = ((fd₀, fd₁), t'))
    (hsub : ∀ m ∈ own', m ∈ own ∨ m = fd₀ ∨ m = fd₁) : Kept own' d v t' := by
  obtain ⟨hfree₀, hfree₁, -, -, -, hother⟩ := pipe_spec hpipe
  have hne₀ : d ≠ fd₀ := by
    rintro rfl
    rw [h.1] at hfree₀
    exact nomatch hfree₀
  have hne₁ : d ≠ fd₁ := by
    rintro rfl
    rw [h.1] at hfree₁
    exact nomatch hfree₁
  refine ⟨?_, fun hmem => ?_⟩
  · rw [hother d hne₀ hne₁]
    exact h.1
  · rcases hsub d hmem with hown | heq | heq
    · exact h.2 hown
    · exact hne₀ heq
    · exact hne₁ heq

/-- Who closes only the write end of a pipe keeps the read end. -/
theorem kept_readEnd {t' : Table α} {r w : α} {fd₀ fd₁ : ℕ}
    (hpipe : pipe t r w = ((fd₀, fd₁), t')) : Kept [fd₁] fd₀ r t' := by
  obtain ⟨-, -, hne, hread, -, -⟩ := pipe_spec hpipe
  exact ⟨hread, fun hmem => hne (List.mem_singleton.mp hmem)⟩

end Kept

/-- The same descriptors are open. -/
def SameOpen (t t' : Table α) : Prop := ∀ d, (get t d).isSome = (get t' d).isSome

/-! ## Leaks

A transition system with a descriptor table, in which some steps `leaks`
make a descriptor `due` that is opened soon and never closed. -/

section Leaks

variable {σ ι : Type*} {step : σ → ι → Option σ} {inv : σ → Prop} {table : σ → Table α}
  {own : σ → List ℕ} {leaks : ι → Prop} {due calm : σ → Prop}

/-- Nothing that is kept is ever closed; outside of leaks the table does
not change; a leak makes a descriptor due; what is due is opened and
kept. `inv` is an invariant of the system. -/
structure Leaky (step : σ → ι → Option σ) (inv : σ → Prop) (table : σ → Table α)
    (own : σ → List ℕ) (leaks : ι → Prop) (due calm : σ → Prop) : Prop where
  holds : ∀ s a t, inv s → step s a = some t → inv t
  kept : ∀ s a t d v, inv s → step s a = some t → Kept (own s) d v (table s) →
    Kept (own t) d v (table t)
  still : ∀ s a t, calm s → ¬ leaks a → step s a = some t → calm t ∧ table t = table s
  leak : ∀ s a t, leaks a → step s a = some t → due t
  opened : ∀ s a t, due s → step s a = some t →
    due t ∨ ∃ d v, get (table s) d = none ∧ Kept (own t) d v (table t)

/-- What holds along a run from the table `t₀`. -/
structure LeakInv (inv : σ → Prop) (table : σ → Table α) (own : σ → List ℕ) (leaks : ι → Prop)
    (due calm : σ → Prop) (t₀ : Table α) (h : List (σ × ι)) (s : σ) : Prop where
  holds : inv s
  kept : ∀ d v, get t₀ d = some v → Kept (own s) d v (table s)
  still : (∀ x ∈ h, ¬ leaks x.2) → calm s ∧ table s = t₀
  leaked : (∃ x ∈ h, leaks x.2) →
    due s ∨ ∃ d v, get t₀ d = none ∧ Kept (own s) d v (table s)

theorem LeakInv.next {t₀ : Table α} {h : List (σ × ι)} {s t : σ} {a : ι}
    (hl : Leaky step inv table own leaks due calm)
    (hs : LeakInv inv table own leaks due calm t₀ h s) (hstep : step s a = some t) :
    LeakInv inv table own leaks due calm t₀ (h ++ [(s, a)]) t := by
  refine ⟨hl.holds s a t hs.holds hstep, ?_, ?_, ?_⟩
  · intro d v hd
    exact hl.kept s a t d v hs.holds hstep (hs.kept d v hd)
  · intro hno
    obtain ⟨hcalm, htable⟩ := hs.still fun x hx => hno x (List.mem_append_left _ hx)
    have ha := hno (s, a) (List.mem_append_right _ (List.mem_singleton_self _))
    obtain ⟨hcalm', htable'⟩ := hl.still s a t hcalm ha hstep
    exact ⟨hcalm', htable'.trans htable⟩
  · rintro ⟨x, hx, hleak⟩
    rcases List.mem_append.mp hx with hx | hx
    · rcases hs.leaked ⟨x, hx, hleak⟩ with hdue | ⟨d, v, hd, hkept⟩
      · rcases hl.opened s a t hdue hstep with hdue | ⟨d, v, hd, hkept⟩
        · exact .inl hdue
        · refine .inr ⟨d, v, ?_, hkept⟩
          -- it was free, so it was free at the start
          rw [Option.eq_none_iff_forall_ne_some]
          intro v' hv'
          rw [(hs.kept d v' hv').1] at hd
          exact nomatch hd
      · exact .inr ⟨d, v, hd, hl.kept s a t d v hs.holds hstep hkept⟩
    · obtain rfl := List.mem_singleton.mp hx
      exact .inl (hl.leak s a t hleak hstep)

/-- In every state in which nothing is due, the descriptors of the start
are open, and no others, exactly when no step so far leaked. -/
theorem Leaky.sameOpen_iff (hl : Leaky step inv table own leaks due calm) {s₀ s : σ}
    {h : List (σ × ι)} (hrun : Lts.Run step s₀ h s) (hinv : inv s₀) (hcalm : calm s₀)
    (hown : own s₀ = []) (hdue : ¬ due s) :
    SameOpen (table s) (table s₀) ↔ ∀ x ∈ h, ¬ leaks x.2 := by
  have hs : LeakInv inv table own leaks due calm (table s₀) h s := by
    refine hrun.inv_history (I := LeakInv inv table own leaks due calm (table s₀)) ?_ ?_
    · intro h s a t hs hstep
      exact hs.next hl hstep
    · refine ⟨hinv, ?_, fun _ => ⟨hcalm, rfl⟩, ?_⟩
      · intro d v hd
        rw [hown]
        exact ⟨hd, List.not_mem_nil⟩
      · rintro ⟨x, hx, -⟩
        exact nomatch hx
  constructor
  · intro hsame x hx hleak
    rcases hs.leaked ⟨x, hx, hleak⟩ with hdue' | ⟨d, v, hd, hkept⟩
    · exact hdue hdue'
    · have hopen := hsame d
      rw [hd, hkept.1] at hopen
      exact nomatch hopen
  · intro hno d
    rw [(hs.still hno).2]

end Leaks

end Fd
