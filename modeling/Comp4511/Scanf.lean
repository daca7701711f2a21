import Comp4511.CStr

/-!
# `sscanf`

A format is a list of directives: a blank matches any number of blanks,
`%d` a number, `%s` a word, and a `*` keeps what was matched from being
stored. `scan` matches directives one after the other and gives what was
stored before the first that does not match; the variables behind it keep
their values (`intAt`, `wordAt`).

A directive need not read a word of the input to its end. `Reads` says
when it does, and `scan_spaced` that a format of directives with blanks
between them then reads the words one by one.
-/

namespace Scanf

open CStr

/-- A part of a format. -/
inductive Directive where
  | blank
  | int (store : Bool)
  | word (store : Bool)
  | char (c : Char)
deriving Repr, DecidableEq

/-- What a directive stores. -/
inductive Value where
  | int (n : Int32)
  | word (s : List Char)
deriving Repr, DecidableEq

/-- The directives of a format; of the conversions there are `%d` and
`%s`. -/
def directives : List Char → List Directive
  | [] => []
  | '%' :: 'd' :: f => .int true :: directives f
  | '%' :: 's' :: f => .word true :: directives f
  | '%' :: '*' :: 'd' :: f => .int false :: directives f
  | '%' :: '*' :: 's' :: f => .word false :: directives f
  | c :: f => (if isSpace c then .blank else .char c) :: directives f

/-- `%d`: the number, of which an `int` keeps the low 32 bits, and the rest
of the input. -/
def scanInt (s : List Char) : Option (Int32 × List Char) :=
  let t := s.dropWhile isSpace
  let digits := if t.head? = some '-' ∨ t.head? = some '+' then t.tail else t
  if digits.takeWhile Char.isDigit = [] then none
  else some (Int32.ofInt (strtol s), digits.dropWhile Char.isDigit)

/-- `%s`: the word and the rest of the input. -/
def scanWord (s : List Char) : Option (List Char × List Char) :=
  let t := s.dropWhile isSpace
  let w := t.takeWhile fun c => !isSpace c
  if w = [] then none else some (w, t.dropWhile fun c => !isSpace c)

/-- What is stored. -/
def scan : List Directive → List Char → List Value
  | [], _ => []
  | .blank :: ds, s => scan ds (s.dropWhile isSpace)
  | .int store :: ds, s =>
      match scanInt s with
      | none => []
      | some (n, s) => (if store then [.int n] else []) ++ scan ds s
  | .word store :: ds, s =>
      match scanWord s with
      | none => []
      | some (w, s) => (if store then [.word w] else []) ++ scan ds s
  | .char c :: ds, s => if s.head? = some c then scan ds s.tail else []

def sscanf (buffer : List Char) (format : String) : List Value :=
  scan (directives format.toList) (text buffer)

/-- The `int` that the conversion number `i` stores to. -/
def intAt (vs : List Value) (i : ℕ) (old : Int32) : Int32 :=
  match vs[i]? with
  | some (.int n) => n
  | _ => old

/-- The characters that the conversion number `i` stores to. -/
def wordAt (vs : List Value) (i : ℕ) (old : List Char) : List Char :=
  match vs[i]? with
  | some (.word w) => w ++ nul :: old.drop (w.length + 1)
  | _ => old

/-! ## Numbers and words that are read to their end -/

/-- `printf` with `%d`, for any integer type. -/
def signed (n : ℤ) : List Char :=
  if n < 0 then '-' :: decimal n.natAbs else decimal n.natAbs

theorem signed_natCast (n : ℕ) : signed n = decimal n := by
  rw [signed, if_neg (by omega), Int.natAbs_natCast]

/-- The value of a number as `strtol` has it. -/
def clamp (n : ℤ) : ℤ := max (min n (2 ^ 63 - 1)) (-2 ^ 63)

theorem ofInt_clamp {n : ℕ} (h : n < 2 ^ 63) : Int32.ofInt (clamp n) = Int32.ofNat n := by
  have hclamp : clamp n = n := by
    unfold clamp
    omega
  rw [hclamp, Int32.ofInt_eq_ofNat]

section Signed

variable {tail : List Char}

theorem takeWhile_digits {l : List Char} (hl : ∀ c ∈ l, c.isDigit = true)
    (h : ∀ c ∈ tail.head?, c.isDigit = false) : (l ++ tail).takeWhile Char.isDigit = l := by
  rw [List.takeWhile_append_of_pos hl, takeWhile_eq_nil h, List.append_nil]

theorem dropWhile_digits {l : List Char} (hl : ∀ c ∈ l, c.isDigit = true)
    (h : ∀ c ∈ tail.head?, c.isDigit = false) : (l ++ tail).dropWhile Char.isDigit = tail := by
  rw [List.dropWhile_append_of_pos hl, dropWhile_eq_self h]

/-- `%d` on digits, with or without leading zeros. -/
theorem scanInt_digits {l : List Char} (hne : l ≠ []) (hl : ∀ c ∈ l, c.isDigit = true)
    (h : ∀ c ∈ tail.head?, c.isDigit = false) :
    scanInt (l ++ tail) = some (Int32.ofInt (clamp (Nat.ofDigitChars 10 l 0)), tail) := by
  obtain ⟨c, l', rfl⟩ := List.exists_cons_of_ne_nil hne
  have hc := hl c (List.mem_cons_self ..)
  have hhead : (c :: l' ++ tail).head? = some c := rfl
  have hskip : (c :: l' ++ tail).dropWhile isSpace = c :: l' ++ tail :=
    List.dropWhile_cons_of_neg (by simp [isSpace_of_isDigit hc])
  have hminus : some c ≠ some '-' := by
    intro heq
    obtain rfl := Option.some.inj heq
    exact absurd hc (by decide)
  have hplus : some c ≠ some '+' := by
    intro heq
    obtain rfl := Option.some.inj heq
    exact absurd hc (by decide)
  have hclamp : strtol (c :: l' ++ tail) = clamp (Nat.ofDigitChars 10 (c :: l') 0) := by
    simp only [strtol, hskip, hhead, hminus, hplus, or_self, if_false, takeWhile_digits hl h, clamp]
    omega
  simp only [scanInt, hclamp, hskip, hhead, hminus, hplus, or_self, if_false,
    takeWhile_digits hl h, dropWhile_digits hl h, if_neg hne]

/-- A number begins with a sign or a digit. -/
theorem signed_cases (n : ℤ) :
    (n < 0 ∧ signed n = '-' :: decimal n.natAbs) ∨
      0 ≤ n ∧ signed n = decimal n.natAbs ∧ ∃ c l, decimal n.natAbs = c :: l ∧ c.isDigit = true := by
  by_cases hn : n < 0
  · exact .inl ⟨hn, if_pos hn⟩
  · obtain ⟨c, l, hl⟩ := List.exists_cons_of_ne_nil
      (Nat.toDigits_ne_nil (n := n.natAbs) (b := 10))
    have hdecimal : decimal n.natAbs = c :: l := hl
    have hc : c.isDigit = true := decimal_digits n.natAbs c (hdecimal ▸ List.mem_cons_self ..)
    exact .inr ⟨by omega, if_neg hn, c, l, hdecimal, hc⟩

/-- The characters of a number are no blanks. -/
theorem signed_notSpace (n : ℤ) : ∀ c ∈ signed n, isSpace c = false := by
  intro c hc
  rcases signed_cases n with ⟨-, hsigned⟩ | ⟨-, hsigned, -⟩ <;> rw [hsigned] at hc
  · rcases List.mem_cons.mp hc with rfl | hc
    · rfl
    · exact isSpace_of_isDigit (decimal_digits _ c hc)
  · exact isSpace_of_isDigit (decimal_digits _ c hc)

theorem signed_ne_nil (n : ℤ) : signed n ≠ [] := by
  rcases signed_cases n with ⟨-, hsigned⟩ | ⟨-, hsigned, c, l, hdecimal, -⟩
  · rw [hsigned]
    exact List.cons_ne_nil _ _
  · rw [hsigned, hdecimal]
    exact List.cons_ne_nil _ _

/-- `%d` reads back what was printed, as far as it fits. -/
theorem scanInt_signed (n : ℤ) (h : ∀ c ∈ tail.head?, c.isDigit = false) :
    scanInt (signed n ++ tail) = some (Int32.ofInt (clamp n), tail) := by
  have hall := decimal_digits n.natAbs
  have hdigits : decimal n.natAbs ≠ [] := Nat.toDigits_ne_nil
  have hvalue : Nat.ofDigitChars 10 (decimal n.natAbs) 0 = n.natAbs := Nat.ofDigitChars_ten_toDigits
  rcases signed_cases n with ⟨hn, hsigned⟩ | ⟨hn, hsigned, -⟩
  · have hskip : (signed n ++ tail).dropWhile isSpace = '-' :: (decimal n.natAbs ++ tail) := by
      rw [hsigned]
      rfl
    have hclamp : strtol (signed n ++ tail) = clamp n := by
      simp only [strtol, hskip, List.head?_cons, true_or, if_true, List.tail_cons,
        takeWhile_digits hall h, hvalue, clamp]
      omega
    simp only [scanInt, hclamp, hskip, List.head?_cons, true_or, if_true, List.tail_cons,
      takeWhile_digits hall h, dropWhile_digits hall h, if_neg hdigits]
  · rw [hsigned, scanInt_digits hdigits hall h, hvalue, Int.natAbs_of_nonneg hn]

end Signed

theorem scanWord_append {w tail : List Char} (hne : w ≠ []) (hw : ∀ c ∈ w, isSpace c = false)
    (h : ∀ c ∈ tail.head?, isSpace c = true) : scanWord (w ++ tail) = some (w, tail) := by
  have hall : ∀ c ∈ w, (!isSpace c) = true := fun c hc => by rw [hw c hc]; rfl
  have hstop : ∀ c ∈ tail.head?, (!isSpace c) = false := fun c hc => by rw [h c hc]; rfl
  have hskip : (w ++ tail).dropWhile isSpace = w ++ tail := by
    obtain ⟨c, l, rfl⟩ := List.exists_cons_of_ne_nil hne
    exact List.dropWhile_cons_of_neg (by simp [hw c (List.mem_cons_self ..)])
  have htake : (w ++ tail).takeWhile (fun c => !isSpace c) = w := by
    rw [List.takeWhile_append_of_pos hall, takeWhile_eq_nil hstop, List.append_nil]
  have hdrop : (w ++ tail).dropWhile (fun c => !isSpace c) = tail := by
    rw [List.dropWhile_append_of_pos hall, dropWhile_eq_self hstop]
  simp only [scanWord, hskip, htake, hdrop, if_neg hne]

/-! ## Formats of words -/

/-- The directive reads the word to its end, and stores `vs`. -/
inductive Reads : Directive → List Char → List Value → Prop
  | int (n : ℤ) : Reads (.int true) (signed n) [.int (Int32.ofInt (clamp n))]
  | word {w : List Char} : w ≠ [] → (∀ c ∈ w, isSpace c = false) →
      Reads (.word true) w [.word w]
  | skip {w : List Char} : w ≠ [] → (∀ c ∈ w, isSpace c = false) → Reads (.word false) w []

theorem Reads.notSpace {d : Directive} {w : List Char} {vs : List Value} (h : Reads d w vs) :
    w ≠ [] ∧ ∀ c ∈ w, isSpace c = false := by
  cases h with
  | int n => exact ⟨signed_ne_nil n, signed_notSpace n⟩
  | word hne hw => exact ⟨hne, hw⟩
  | skip hne hw => exact ⟨hne, hw⟩

theorem Reads.scan {d : Directive} {w tail : List Char} {vs : List Value} (h : Reads d w vs)
    (htail : ∀ c ∈ tail.head?, isSpace c = true) (ds : List Directive) :
    scan (d :: ds) (w ++ tail) = vs ++ scan ds tail := by
  cases h with
  | int n =>
      have hdigit : ∀ c ∈ tail.head?, c.isDigit = false := by
        intro c hc
        rw [← Bool.not_eq_true]
        intro hdigit
        exact Bool.noConfusion ((isSpace_of_isDigit hdigit).symm.trans (htail c hc))
      simp only [Scanf.scan, scanInt_signed n hdigit, if_true]
  | word hne hw => simp only [Scanf.scan, scanWord_append hne hw htail, if_true]
  | skip hne hw =>
      simp only [Scanf.scan, scanWord_append hne hw htail, Bool.false_eq_true, if_false]

/-- A blank in the format passes a blank of the input. -/
theorem scan_blank {b : Char} (hblank : isSpace b = true) {s : List Char}
    (hs : ∀ c ∈ s.head?, isSpace c = false) (ds : List Directive) :
    scan (.blank :: ds) (b :: s) = scan ds s := by
  rw [scan, List.dropWhile_cons_of_pos hblank, dropWhile_eq_self hs]

/-- Directives with blanks between them. -/
def spaced (ds : List Directive) : List Directive := ds.intersperse .blank

/-- Words with blanks between them. -/
def joined (ws : List (List Char)) : List Char := [' '].intercalate ws

theorem joined_cons_cons (w w' : List Char) (ws : List (List Char)) :
    joined (w :: w' :: ws) = w ++ ' ' :: joined (w' :: ws) := by
  simp [joined, List.intercalate]

theorem joined_cons (w : List Char) (ws : List (List Char)) :
    joined (w :: ws) = w ++ ws.flatMap (' ' :: ·) := by
  induction ws generalizing w with
  | nil => simp [joined, List.intercalate]
  | cons w' ws ih => rw [joined_cons_cons, ih, List.flatMap_cons, List.cons_append]

theorem joined_append {ws : List (List Char)} (hne : ws ≠ []) (ws' : List (List Char)) :
    joined (ws ++ ws') = joined ws ++ ws'.flatMap (' ' :: ·) := by
  obtain ⟨w, ws, rfl⟩ := List.exists_cons_of_ne_nil hne
  rw [List.cons_append, joined_cons, joined_cons, List.flatMap_append, List.append_assoc]

theorem mem_joined {ws : List (List Char)} {c : Char} (h : c ∈ joined ws) :
    c = ' ' ∨ ∃ w ∈ ws, c ∈ w := by
  cases ws with
  | nil => simp [joined, List.intercalate] at h
  | cons w ws =>
      rw [joined_cons, List.mem_append, List.mem_flatMap] at h
      rcases h with h | ⟨w', hw', h⟩
      · exact .inr ⟨w, List.mem_cons_self .., h⟩
      · rcases List.mem_cons.mp h with h | h
        · exact .inl h
        · exact .inr ⟨w', List.mem_cons_of_mem _ hw', h⟩

theorem length_joined_le {ws : List (List Char)} {n : ℕ} (h : ∀ w ∈ ws, w.length ≤ n) :
    (joined ws).length ≤ ws.length * (n + 1) := by
  have hrest : ∀ ws : List (List Char), (∀ w ∈ ws, w.length ≤ n) →
      (ws.flatMap (' ' :: ·)).length ≤ ws.length * (n + 1) := by
    intro ws hws
    induction ws with
    | nil => exact Nat.zero_le _
    | cons w ws ih =>
        have hw := hws w (List.mem_cons_self ..)
        have hlater := ih fun w' hw' => hws w' (List.mem_cons_of_mem _ hw')
        rw [List.flatMap_cons, List.length_append, List.length_cons, List.length_cons, Nat.succ_mul]
        omega
  cases ws with
  | nil => exact Nat.zero_le _
  | cons w ws =>
      have hw := h w (List.mem_cons_self ..)
      have hlater := hrest ws fun w' hw' => h w' (List.mem_cons_of_mem _ hw')
      rw [joined_cons, List.length_append, List.length_cons, Nat.succ_mul]
      omega

theorem head?_joined {w : List Char} (hne : w ≠ []) (ws : List (List Char)) (tail : List Char) :
    (joined (w :: ws) ++ tail).head? = w.head? := by
  obtain ⟨c, l, rfl⟩ := List.exists_cons_of_ne_nil hne
  rw [joined_cons]
  rfl

/-- One word after the other is read. -/
theorem scan_spaced {l : List (Directive × List Char × List Value)}
    (h : ∀ t ∈ l, Reads t.1 t.2.1 t.2.2) {tail : List Char}
    (htail : ∀ c ∈ tail.head?, isSpace c = true) :
    scan (spaced (l.map (·.1))) (joined (l.map (·.2.1)) ++ tail) = l.flatMap (·.2.2) := by
  induction l with
  | nil => rfl
  | cons t l ih =>
      have ht := h t (List.mem_cons_self ..)
      have hl : ∀ t ∈ l, Reads t.1 t.2.1 t.2.2 := fun t ht => h t (List.mem_cons_of_mem _ ht)
      cases l with
      | nil =>
          have hlast := ht.scan htail []
          rw [scan, List.append_nil] at hlast
          simpa [spaced, joined, List.intercalate] using hlast
      | cons u l =>
          have hu := (hl u (List.mem_cons_self ..)).notSpace
          have hhead : ∀ c ∈ (joined ((u :: l).map (·.2.1)) ++ tail).head?, isSpace c = false := by
            intro c hc
            rw [List.map_cons, head?_joined hu.1] at hc
            exact hu.2 c (List.mem_of_mem_head? hc)
          have hspaced : spaced ((t :: u :: l).map (·.1))
              = t.1 :: .blank :: spaced ((u :: l).map (·.1)) := rfl
          have hjoined : joined ((t :: u :: l).map (·.2.1)) ++ tail
              = t.2.1 ++ ' ' :: (joined ((u :: l).map (·.2.1)) ++ tail) := by
            rw [List.map_cons, List.map_cons, joined_cons_cons, List.append_assoc]
            rfl
          rw [hspaced, hjoined, ht.scan (by simp [isSpace]), scan_blank (by decide) hhead, ih hl]
          rfl

end Scanf
