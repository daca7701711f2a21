import Mathlib.Data.List.Forall2
import Mathlib.Logic.Relation
import Mathlib.Data.Nat.Notation

/-!
# Loops with fuel

A loop of the source whose number of turns is not known beforehand:
`body` makes one turn from a loop state and either goes round `again` or
is `done` with a result. `run` makes at most `n` turns; `none` says that
they did not suffice.

Fuel is only a bound: more of it gives the same result (`run_mono`). The
rule for total correctness is `run_total`: an invariant that every turn
keeps, and a measure that every turn that goes round lowers, give a
result within as many turns, and the invariant in the state the last turn
started from. `run_eq_none` is the rule for loops that do not end, and
`run_sim` the one for two loops that go turn by turn together.
-/

namespace Loop

variable {σ ρ : Type*}

/-- The outcome of one turn. -/
inductive Turn (σ ρ : Type*)
  | again (s : σ)
  | done (r : ρ)

/-- At most `n` turns from `s`. -/
def run (body : σ → Turn σ ρ) : ℕ → σ → Option ρ
  | 0, _ => none
  | n + 1, s =>
      match body s with
      | .again s' => run body n s'
      | .done r => some r

variable {body : σ → Turn σ ρ}

theorem run_again {n : ℕ} {s s' : σ} (h : body s = .again s') :
    run body (n + 1) s = run body n s' := by
  rw [run, h]

theorem run_done {n : ℕ} {s : σ} {r : ρ} (h : body s = .done r) :
    run body (n + 1) s = some r := by
  rw [run, h]

/-- A turn from `s` goes round to `t`. -/
def Again (body : σ → Turn σ ρ) (s t : σ) : Prop := body s = .again t

/-- A loop returns once it has gone round to a turn that does. -/
theorem exists_run {s t : σ} {r : ρ} (h : Relation.ReflTransGen (Again body) s t)
    (hdone : body t = .done r) : ∃ n, run body n s = some r := by
  induction h using Relation.ReflTransGen.head_induction_on with
  | refl => exact ⟨1, run_done hdone⟩
  | head hagain _ ih =>
      obtain ⟨n, hrun⟩ := ih
      exact ⟨n + 1, (run_again hagain).trans hrun⟩

/-- The states from which the first `n` turns start. -/
def visited (body : σ → Turn σ ρ) : ℕ → σ → List σ
  | 0, _ => []
  | n + 1, s =>
      s :: match body s with
        | .again s' => visited body n s'
        | .done _ => []

theorem visited_again {n : ℕ} {s s' : σ} (h : body s = .again s') :
    visited body (n + 1) s = s :: visited body n s' := by
  rw [visited, h]

theorem visited_done {n : ℕ} {s : σ} {r : ρ} (h : body s = .done r) :
    visited body (n + 1) s = [s] := by
  rw [visited, h]

theorem run_mono {n m : ℕ} {s : σ} {r : ρ} (h : run body n s = some r) (hnm : n ≤ m) :
    run body m s = some r := by
  induction n generalizing m s with
  | zero => cases h
  | succ n ih =>
      obtain ⟨m, rfl⟩ : ∃ m', m = m' + 1 := ⟨m - 1, by omega⟩
      cases hb : body s with
      | again s' =>
          rw [run_again hb] at h ⊢
          exact ih h (by omega)
      | done r' =>
          rw [run_done hb] at h ⊢
          exact h

/-- Every loop with a decreasing measure returns, from a state in which
the invariant holds. -/
theorem run_total {I : σ → Prop} {μ : σ → ℕ}
    (hkeep : ∀ s s', I s → body s = .again s' → I s' ∧ μ s' < μ s)
    {n : ℕ} {s : σ} (hs : I s) (hn : μ s < n) :
    ∃ t r, I t ∧ body t = .done r ∧ run body n s = some r := by
  induction n generalizing s with
  | zero => exact absurd hn (Nat.not_lt_zero _)
  | succ n ih =>
      cases hb : body s with
      | again s' =>
          obtain ⟨hs', hlt⟩ := hkeep s s' hs hb
          rw [run_again hb]
          exact ih hs' (by omega)
      | done r => exact ⟨s, r, hs, hb, run_done hb⟩

/-- The rule for partial correctness: the last turn starts from a state in
which the invariant holds. -/
theorem exists_done {I : σ → Prop} (hkeep : ∀ s s', I s → body s = .again s' → I s')
    {n : ℕ} {s : σ} {r : ρ} (hs : I s) (h : run body n s = some r) :
    ∃ t, I t ∧ body t = .done r := by
  induction n generalizing s with
  | zero => cases h
  | succ n ih =>
      cases hb : body s with
      | again s' =>
          rw [run_again hb] at h
          exact ih (hkeep s s' hs hb) h
      | done r' =>
          rw [run_done hb] at h
          exact ⟨s, hs, hb.trans (congrArg Turn.done (Option.some.inj h))⟩

/-- A loop whose turns all go round never returns. -/
theorem run_eq_none {I : σ → Prop} (hkeep : ∀ s, I s → ∃ s', body s = .again s' ∧ I s')
    {s : σ} (hs : I s) (n : ℕ) : run body n s = none := by
  induction n generalizing s with
  | zero => rfl
  | succ n ih =>
      obtain ⟨s', hb, hs'⟩ := hkeep s hs
      rw [run_again hb]
      exact ih hs'

/-- Loops whose turns correspond come to results that correspond, in the
same number of turns. -/
theorem run_sim {σ' ρ' : Type*} {body' : σ' → Turn σ' ρ'} {R : σ → σ' → Prop} {Q : ρ → ρ' → Prop}
    (hturn : ∀ s t, R s t →
      (∃ s' t', body s = .again s' ∧ body' t = .again t' ∧ R s' t') ∨
        ∃ r r', body s = .done r ∧ body' t = .done r' ∧ Q r r')
    {s : σ} {t : σ'} (h : R s t) (n : ℕ) :
    (run body n s = none ∧ run body' n t = none) ∨
      ∃ r r', run body n s = some r ∧ run body' n t = some r' ∧ Q r r' := by
  induction n generalizing s t with
  | zero => exact .inl ⟨rfl, rfl⟩
  | succ n ih =>
      rcases hturn s t h with ⟨s', t', hs, ht, h'⟩ | ⟨r, r', hs, ht, hq⟩
      · rw [run_again hs, run_again ht]
        exact ih h'
      · exact .inr ⟨r, r', run_done hs, run_done ht, hq⟩

/-- Their turns start from states that correspond. -/
theorem visited_sim {σ' ρ' : Type*} {body' : σ' → Turn σ' ρ'} {R : σ → σ' → Prop}
    {Q : ρ → ρ' → Prop}
    (hturn : ∀ s t, R s t →
      (∃ s' t', body s = .again s' ∧ body' t = .again t' ∧ R s' t') ∨
        ∃ r r', body s = .done r ∧ body' t = .done r' ∧ Q r r')
    {s : σ} {t : σ'} (h : R s t) (n : ℕ) :
    List.Forall₂ R (visited body n s) (visited body' n t) := by
  induction n generalizing s t with
  | zero => exact .nil
  | succ n ih =>
      rcases hturn s t h with ⟨s', t', hs, ht, h'⟩ | ⟨r, r', hs, ht, -⟩
      · rw [visited_again hs, visited_again ht]
        exact .cons h (ih h')
      · rw [visited_done hs, visited_done ht]
        exact .cons h .nil

end Loop
