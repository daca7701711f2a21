import Comp4511.CStr

/-!
# `strtok`

`strtok` cuts a string in its buffer: a call skips the delimiters at the
place it starts from, returns the place of the token behind them and, where
a delimiter ends the token, writes a `nul` over it and leaves the place
behind it for the next call. A token is a place in the buffer, and its
string is what stands there after all calls.

`strtok_none` and `strtok_some` are the two outcomes of a call on a string
in a buffer. What stands before the string and behind its `nul` stays, so
tokens that were cut before keep their strings.
-/

namespace CStr

/-- `strspn`: how far a string has delimiters only. -/
def strspn (delim s : List Char) : ℕ := ((text s).takeWhile (· ∈ delim)).length

/-- `strcspn`: how far a string has no delimiter. -/
def strcspn (delim s : List Char) : ℕ := ((text s).takeWhile (· ∉ delim)).length

/-- A call: the token, the buffer after it, and the place from which the
next call goes on. -/
structure Cut where
  token : Option ℕ
  buf : List Char
  save : ℕ
deriving Repr, DecidableEq

/-- `strtok` from place `s` of a buffer. -/
def strtok (delim buf : List Char) (s : ℕ) : Cut :=
  let s := s + strspn delim (buf.drop s)
  if text (buf.drop s) = [] then ⟨none, buf, s⟩
  else
    let stop := s + strcspn delim (buf.drop s)
    if text (buf.drop stop) = [] then ⟨some s, buf, stop⟩
    else ⟨some s, buf.set stop nul, stop + 1⟩

/-- The string at a place of a buffer. -/
def stringAt (buf : List Char) (s : ℕ) : List Char := text (buf.drop s)

/-- Places between `first` and `last`, one behind the other, at which a
buffer has the strings `ws`. -/
structure Placed (buf : List Char) (first last : ℕ) (toks : List ℕ) (ws : List (List Char)) :
    Prop where
  strings : toks.map (stringAt buf) = ws
  bounds : ∀ p ∈ toks, first ≤ p ∧ p ≤ last
  apart : toks.Pairwise fun p q => p + (stringAt buf p).length < q

/-- What stands around the string at a place. -/
theorem exists_around {buf : List Char} {p : ℕ} (h : nul ∈ buf.drop p) :
    ∃ before rest, buf = before ++ stringAt buf p ++ nul :: rest ∧ before.length = p := by
  have hsplit := List.takeWhile_append_dropWhile (p := (· ≠ nul)) (l := buf.drop p)
  have hne : (buf.drop p).dropWhile (· ≠ nul) ≠ [] := by
    intro hnil
    rw [List.dropWhile_eq_nil_iff] at hnil
    simpa using hnil nul h
  obtain ⟨c, rest, hrest⟩ := List.exists_cons_of_ne_nil hne
  have hc : c = nul := by
    have hhead := List.head?_dropWhile_not (· ≠ nul) (buf.drop p)
    rw [hrest] at hhead
    simpa using hhead
  have hlen : p ≤ buf.length := by
    by_contra hlt
    rw [List.drop_eq_nil_of_le (by omega)] at h
    exact nomatch h
  rw [hc] at hrest
  refine ⟨buf.take p, rest, ?_, List.length_take_of_le hlen⟩
  rw [stringAt, text, List.append_assoc, ← hrest, hsplit, List.take_append_drop]

section Words

variable {α : Type*} {p : α → Bool}

theorem words_eq_nil_iff {l : List α} : words p l = [] ↔ ∀ c ∈ l, p c = true := by
  refine ⟨fun h => ?_, words_of_forall⟩
  by_contra hno
  simp only [not_forall, Bool.not_eq_true] at hno
  obtain ⟨c, hc, hp⟩ := hno
  exact words_ne_nil ⟨c, hc, hp⟩ h

theorem words_word_append {w v : List α} (hne : w ≠ []) (hw : ∀ c ∈ w, p c = false)
    (hv : ∀ c ∈ v.head?, p c = true) : words p (w ++ v) = w :: words p v.tail := by
  cases v with
  | nil =>
      rw [List.append_nil, words_word hne hw]
      rfl
  | cons c v =>
      rw [words_append_cons (hv c rfl), words_word hne hw]
      rfl

/-- The first word of a list, with what stands before it and behind it. -/
theorem exists_first_word {l w : List α} {ws : List (List α)} (h : words p l = w :: ws) :
    ∃ u v, l = u ++ (w ++ v) ∧ (∀ c ∈ u, p c = true) ∧ w ≠ [] ∧ (∀ c ∈ w, p c = false) ∧
      (∀ c ∈ v.head?, p c = true) ∧ words p v.tail = ws := by
  have hex : ∃ c ∈ l, p c = false := by
    by_contra hno
    simp only [not_exists, not_and, Bool.not_eq_false] at hno
    rw [words_of_forall hno] at h
    exact nomatch h
  obtain ⟨u, c, l, rfl, hu, hc⟩ := exists_run hex
  have hplain : ∀ x ∈ c :: l.takeWhile (fun x => !p x), p x = false := by
    rw [List.forall_mem_cons]
    exact ⟨hc, fun x hx => by simpa using List.mem_takeWhile_imp hx⟩
  have hend : ∀ x ∈ (l.dropWhile fun x => !p x).head?, p x = true := by
    intro x hx
    have hstop := List.head?_dropWhile_not (fun x => !p x) l
    rw [hx] at hstop
    simpa using hstop
  have hwords := words_word_append (List.cons_ne_nil _ _) hplain hend
  rw [List.cons_append, List.takeWhile_append_dropWhile, ← words_run_append hu, h] at hwords
  obtain ⟨rfl, rfl⟩ := List.cons.inj hwords
  refine ⟨u, l.dropWhile fun x => !p x, ?_, hu, List.cons_ne_nil _ _, hplain, hend, rfl⟩
  rw [List.cons_append, List.takeWhile_append_dropWhile]

/-- Words need a place each, and one between any two. -/
theorem length_words_le (l : List α) : 2 * (words p l).length ≤ l.length + 1 := by
  generalize hws : words p l = ws
  induction ws generalizing l with
  | nil => simp
  | cons w ws ih =>
      obtain ⟨u, v, rfl, -, hne, -, -, hws'⟩ := exists_first_word hws
      have hrest := ih _ hws'
      have hw := List.length_pos_of_ne_nil hne
      rw [List.length_tail] at hrest
      simp only [List.length_append, List.length_cons]
      omega

end Words

section Cut

variable {delim u w v : List Char}

theorem stringAt_append {line : List Char} (h : nul ∉ line) (before rest : List Char) :
    stringAt (before ++ line ++ nul :: rest) before.length = line := by
  rw [stringAt, List.append_assoc, List.drop_left, text_append_nul h]

/-- A run of `p` ends where `p` fails. -/
theorem takeWhile_run {p : Char → Bool} (hu : ∀ c ∈ u, p c = true)
    (hv : ∀ c ∈ v.head?, p c = false) : (u ++ v).takeWhile p = u := by
  rw [List.takeWhile_append_of_pos hu]
  cases v with
  | nil => simp
  | cons c v => simp [hv c rfl]

theorem strspn_run (hu : ∀ c ∈ u, c ∈ delim) (hv : ∀ c ∈ v.head?, c ∉ delim)
    (hnul : nul ∉ u ++ v) (rest : List Char) :
    strspn delim (u ++ v ++ nul :: rest) = u.length := by
  rw [strspn, text_append_nul hnul, takeWhile_run (by simpa using hu) (by simpa using hv)]

theorem strcspn_run (hw : ∀ c ∈ w, c ∉ delim) (hv : ∀ c ∈ v.head?, c ∈ delim)
    (hnul : nul ∉ w ++ v) (rest : List Char) :
    strcspn delim (w ++ v ++ nul :: rest) = w.length := by
  rw [strcspn, text_append_nul hnul, takeWhile_run (by simpa using hw) (by simpa using hv)]

/-- Delimiters only: there is no token, and the buffer stays. -/
theorem strtok_none (hu : ∀ c ∈ u, c ∈ delim) (hnul : nul ∉ u) (before rest : List Char) :
    strtok delim (before ++ u ++ nul :: rest) before.length
      = ⟨none, before ++ u ++ nul :: rest, (before ++ u).length⟩ := by
  have hskip : strspn delim (u ++ nul :: rest) = u.length := by
    have hrun := strspn_run (v := []) hu nofun (by simpa using hnul) rest
    rwa [List.append_nil] at hrun
  have hstop : text ((before ++ u ++ nul :: rest).drop (before ++ u).length) = [] := by
    rw [List.drop_left]
    simp [text]
  rw [strtok]
  simp only [List.append_assoc, List.drop_left, hskip]
  simp only [← List.append_assoc, ← List.length_append, hstop, if_true]

/-- A token that a delimiter ends, or the end of the string. -/
theorem strtok_some (hu : ∀ c ∈ u, c ∈ delim) (hw : ∀ c ∈ w, c ∉ delim) (hne : w ≠ [])
    (hv : ∀ c ∈ v.head?, c ∈ delim) (hnul : nul ∉ u ++ (w ++ v)) (before rest : List Char) :
    strtok delim (before ++ (u ++ (w ++ v)) ++ nul :: rest) before.length
      = match v with
        | [] => ⟨some (before ++ u).length, before ++ u ++ w ++ nul :: rest,
            (before ++ u ++ w).length⟩
        | _ :: v => ⟨some (before ++ u).length, before ++ u ++ w ++ nul :: (v ++ nul :: rest),
            (before ++ u ++ w ++ [nul]).length⟩ := by
  have hskip : strspn delim (u ++ (w ++ v) ++ nul :: rest) = u.length := by
    refine strspn_run hu (fun c hc => ?_) hnul rest
    rw [List.head?_append_of_ne_nil w hne] at hc
    exact hw c (List.mem_of_mem_head? hc)
  have hright : nul ∉ w ++ v := fun hmem => hnul (List.mem_append_right _ hmem)
  have hspan : strcspn delim (w ++ v ++ nul :: rest) = w.length := strcspn_run hw hv hright rest
  have hstart : text (w ++ v ++ nul :: rest) ≠ [] := by
    rw [text_append_nul hright]
    simp [hne]
  rw [strtok]
  have hdrop₁ : (before ++ (u ++ (w ++ v)) ++ nul :: rest).drop before.length
      = u ++ (w ++ v) ++ nul :: rest := by
    rw [List.append_assoc, List.drop_left]
  have hdrop₂ : (before ++ (u ++ (w ++ v)) ++ nul :: rest).drop (before ++ u).length
      = w ++ v ++ nul :: rest := by
    rw [← List.append_assoc before u, List.append_assoc, List.drop_left]
  have hdrop₃ : (before ++ (u ++ (w ++ v)) ++ nul :: rest).drop (before ++ u ++ w).length
      = v ++ nul :: rest := by
    rw [show before ++ (u ++ (w ++ v)) ++ nul :: rest = (before ++ u ++ w) ++ (v ++ nul :: rest) by
      simp, List.drop_left]
  simp only [hdrop₁, hskip, ← List.length_append, hdrop₂, hspan, hdrop₃, if_neg hstart]
  have hset := text_append_nul (fun hmem => hright (List.mem_append_right _ hmem) : nul ∉ v) rest
  cases v with
  | nil =>
      rw [hset, if_pos rfl]
      simp
  | cons c v =>
      rw [hset, if_neg nofun]
      simp [Nat.add_assoc]

/-- A call on a line that has a word: the word keeps its string whatever
is written over the rest of the line. -/
theorem strtok_word {line : List Char} {ws : List (List Char)}
    (hwords : words (· ∈ delim) line = w :: ws) (hnul : nul ∉ line) (before rest : List Char) :
    ∃ p done line', strtok delim (before ++ line ++ nul :: rest) before.length
        = ⟨some p, before ++ done ++ line' ++ nul :: rest, (before ++ done).length⟩ ∧
      words (· ∈ delim) line' = ws ∧ nul ∉ line' ∧ done.length + line'.length = line.length ∧
      before.length ≤ p ∧ p + w.length ≤ (before ++ done).length ∧
      (ws ≠ [] → p + w.length < (before ++ done).length) ∧
      ∀ l, l.length = line'.length → stringAt (before ++ done ++ l ++ nul :: rest) p = w := by
  obtain ⟨u, v, rfl, hu, hne, hw, hv, rfl⟩ := exists_first_word hwords
  simp only [decide_eq_true_eq, decide_eq_false_iff_not] at hu hw hv
  have hcut := strtok_some hu hw hne hv hnul before rest
  simp only [List.mem_append, not_or] at hnul
  cases v with
  | nil =>
      refine ⟨(before ++ u).length, u ++ w, [], ?_, rfl, nofun, by simp, by simp, ?_,
        fun hmore => absurd rfl hmore, fun l hl => ?_⟩
      · simpa using hcut
      · simp only [List.length_append]
        omega
      · obtain rfl := List.length_eq_zero_iff.mp hl
        have hstring := stringAt_append hnul.2.1 (before ++ u) rest
        simpa using hstring
  | cons c v =>
      have hlt : (before ++ u).length + w.length < (before ++ (u ++ w ++ [nul])).length := by
        simp only [List.length_append, List.length_singleton]
        omega
      refine ⟨(before ++ u).length, u ++ w ++ [nul], v, ?_, rfl, ?_, ?_, by simp, hlt.le,
        fun _ => hlt, fun l _ => ?_⟩
      · simpa using hcut
      · exact fun hmem => hnul.2.2 (List.mem_cons_of_mem _ hmem)
      · simp only [List.length_append, List.length_cons, List.length_nil]
        omega
      · have hstring := stringAt_append hnul.2.1 (before ++ u) (l ++ nul :: rest)
        simpa using hstring

theorem placed_nil (buf : List Char) (first last : ℕ) : Placed buf first last [] [] :=
  ⟨rfl, nofun, .nil⟩

/-- One more place in front. -/
theorem Placed.cons {buf : List Char} {first mid last p : ℕ} {toks : List ℕ}
    {ws : List (List Char)} (h : Placed buf mid last toks ws) (hp : stringAt buf p = w)
    (hfirst : first ≤ p) (hmid : p + w.length ≤ mid) (hmore : ws ≠ [] → p + w.length < mid)
    (hlast : mid ≤ last) : Placed buf first last (p :: toks) (w :: ws) := by
  refine ⟨by rw [List.map_cons, hp, h.strings], ?_, List.pairwise_cons.mpr ⟨fun q hq => ?_, ?_⟩⟩
  · rw [List.forall_mem_cons]
    refine ⟨⟨hfirst, by omega⟩, fun q hq => ?_⟩
    have hbounds := h.bounds q hq
    omega
  · have hws : ws ≠ [] := by
      rw [← h.strings]
      exact List.ne_nil_of_mem (List.mem_map_of_mem hq)
    rw [hp]
    exact (hmore hws).trans_le (h.bounds q hq).1
  · exact h.apart

end Cut

end CStr
