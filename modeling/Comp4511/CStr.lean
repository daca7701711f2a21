import Mathlib.Algebra.GroupWithZero.Nat
import Mathlib.Algebra.Ring.Int.Defs
import Mathlib.Data.List.DropRight
import Mathlib.Data.List.Infix

/-!
# Strings in buffers

A buffer is the list of its characters; a string in it ends before the
first `nul`. The two scans are the loops `while (p(buf[i])) i++` and
`while (p(buf[i])) i--`: they stop at the first index at which `p` fails,
and are `none` where they would read outside the buffer. `fgets` takes a
line or, where it is too long, as much as the buffer holds.

`scanUp_append` and `scanDown_take` say where the scans stop, and
`drop_rdropWhile` that the two together trim a string.
-/

namespace CStr

/-- The character that ends a string. -/
def nul : Char := Char.ofNat 0

/-- The string in a buffer. -/
def text (buf : List Char) : List Char := buf.takeWhile (· ≠ nul)

def strlen (buf : List Char) : ℕ := (text buf).length

theorem nul_notMem_text (buf : List Char) : nul ∉ text buf := by
  intro hmem
  have hne := List.mem_takeWhile_imp hmem
  simp at hne

theorem text_append {u : List Char} (h : nul ∉ u) (v : List Char) :
    text (u ++ v) = u ++ text v := by
  refine List.takeWhile_append_of_pos fun c hc => ?_
  simp only [ne_eq, decide_eq_true_eq]
  rintro rfl
  exact h hc

theorem text_eq_self {buf : List Char} (h : nul ∉ buf) : text buf = buf := by
  have htext := text_append h []
  rwa [List.append_nil, show text [] = [] from rfl, List.append_nil] at htext

theorem text_append_nul {l : List Char} (h : nul ∉ l) (rest : List Char) :
    text (l ++ nul :: rest) = l := by
  have hnil : text (nul :: rest) = [] := by simp [text]
  rw [text_append h, hnil, List.append_nil]

theorem head?_text {v : List Char} (h : v.head? ≠ some nul) : (text v).head? = v.head? := by
  cases v with
  | nil => rfl
  | cons c v =>
      have hc : c ≠ nul := fun heq => h (congrArg some heq)
      simp [text, hc]

/-- To decide a property of the characters of a string, these are tried and
not all characters. -/
instance decidableForallMem (p : Char → Prop) [DecidablePred p] (l : List Char) :
    Decidable (∀ c ∈ l, p c) :=
  List.decidableBAll p l

/-- The string and what stands after it. -/
theorem exists_text_append (l : List Char) : ∃ rest, l ++ [nul] = text l ++ nul :: rest := by
  induction l with
  | nil => exact ⟨[], rfl⟩
  | cons c l ih =>
      by_cases hc : c = nul
      · exact ⟨l ++ [nul], by simp [text, hc]⟩
      · obtain ⟨rest, hrest⟩ := ih
        exact ⟨rest, by simp [text, hc, hrest]⟩

section Memory

/-- `strstr`, as the place of the first occurrence. -/
def strstr (s old : List Char) : Option ℕ :=
  (List.range (s.length + 1)).find? fun i => old <+: s.drop i

theorem strstr_eq_zero_iff {s old : List Char} : strstr s old = some 0 ↔ old <+: s := by
  rw [strstr, List.range_succ_eq_map, List.find?_cons]
  by_cases hpre : old <+: s
  · simp [hpre]
  · simp only [List.drop_zero, hpre, decide_false, iff_false]
    intro hfind
    obtain ⟨i, -, hi⟩ := List.mem_map.mp (List.mem_of_find?_eq_some hfind)
    exact nomatch hi

theorem strstr_ne_none_iff {s old : List Char} : strstr s old ≠ none ↔ old <:+: s := by
  rw [strstr, ← Option.isSome_iff_ne_none, List.find?_isSome]
  simp only [List.mem_range, decide_eq_true_eq]
  constructor
  · rintro ⟨i, -, hpre⟩
    exact hpre.isInfix.trans (List.drop_suffix i s).isInfix
  · rintro ⟨u, v, rfl⟩
    refine ⟨u.length, by simp only [List.length_append]; omega, ?_⟩
    rw [List.append_assoc, List.drop_left]
    exact List.prefix_append old v

/-- `s[i]` in the memory of a string: its characters and the `nul`. -/
def charAt (s : List Char) (i : ℤ) : Option Char :=
  if 0 ≤ i then (s ++ [nul])[i.toNat]? else none

theorem charAt_length_append (u : List Char) (c : Char) (v : List Char) :
    charAt (u ++ c :: v) u.length = some c := by
  simp [charAt]

theorem charAt_length (s : List Char) : charAt s s.length = some nul := by
  simp [charAt]

/-- Only the end of a string is `nul`. -/
theorem charAt_eq_nul {s : List Char} (hs : nul ∉ s) {i : ℤ} (h : charAt s i = some nul) :
    i = s.length := by
  unfold charAt at h
  split at h
  · next hi =>
      rcases Nat.lt_trichotomy i.toNat s.length with hlt | heq | hgt
      · rw [List.getElem?_append_left hlt] at h
        exact absurd (List.mem_of_getElem? h) hs
      · omega
      · rw [List.getElem?_eq_none (by rw [List.length_append, List.length_singleton]; omega)] at h
        exact nomatch h
  · exact nomatch h

/-- Bytes stored in a block from the index `i` on; `none` if some of them
would be outside. -/
def store (block : List Char) (i : ℤ) (bytes : List Char) : Option (List Char) :=
  if 0 ≤ i ∧ i.toNat + bytes.length ≤ block.length then
    some (block.take i.toNat ++ bytes ++ block.drop (i.toNat + bytes.length))
  else none

theorem store_append {out rest bytes : List Char} (h : bytes.length ≤ rest.length) :
    store (out ++ rest) out.length bytes = some (out ++ bytes ++ rest.drop bytes.length) := by
  have hroom : 0 ≤ (out.length : ℤ) ∧
      (out.length : ℤ).toNat + bytes.length ≤ (out ++ rest).length := by
    rw [List.length_append, Int.toNat_natCast]
    omega
  rw [store, if_pos hroom, Int.toNat_natCast, List.take_left, List.drop_length_add_append]

end Memory

section Decimal

/-- `sprintf` with `%d`. -/
def decimal (n : ℕ) : List Char := Nat.toDigits 10 n

theorem decimal_digits (n : ℕ) : ∀ c ∈ decimal n, c.isDigit = true :=
  fun _ hc => Nat.isDigit_of_mem_toDigits (by decide) (by decide) hc

theorem notMem_decimal (n : ℕ) {c : Char} (hc : c.isDigit = false) : c ∉ decimal n := by
  intro hmem
  rw [decimal_digits n c hmem] at hc
  exact nomatch hc

theorem length_decimal_le {n k : ℕ} (h : n < 10 ^ (k + 1)) : (decimal n).length ≤ k + 1 :=
  (Nat.length_toDigits_le_iff (by decide) k.succ_pos).mpr h

theorem exists_mem_decimal (n : ℕ) : ∃ c ∈ decimal n, c.isDigit = true := by
  obtain ⟨c, l, hl⟩ := List.exists_cons_of_ne_nil (Nat.toDigits_ne_nil (n := n) (b := 10))
  have hc : c ∈ decimal n := by
    rw [decimal, hl]
    exact List.mem_cons_self ..
  exact ⟨c, hc, decimal_digits n c hc⟩

/-- `isspace`. -/
def isSpace (c : Char) : Bool := c = ' ' ∨ 9 ≤ c.toNat ∧ c.toNat ≤ 13

/-- `strtol` in base 10, where `long` has 64 bits: blanks, a sign, digits;
a number that does not fit gives the nearest that does. -/
def strtol (s : List Char) : ℤ :=
  let s := s.dropWhile isSpace
  let digits := if s.head? = some '-' ∨ s.head? = some '+' then s.tail else s
  let n : ℤ := Nat.ofDigitChars 10 (digits.takeWhile Char.isDigit) 0
  if s.head? = some '-' then max (-n) (-2 ^ 63) else min n (2 ^ 63 - 1)

def isOctal (c : Char) : Bool := '0' ≤ c ∧ c ≤ '7'

/-- `strtol` in base 8. -/
def strtolOctal (s : List Char) : ℤ :=
  let s := s.dropWhile isSpace
  let digits := if s.head? = some '-' ∨ s.head? = some '+' then s.tail else s
  let n : ℤ := Nat.ofDigitChars 8 (digits.takeWhile isOctal) 0
  if s.head? = some '-' then max (-n) (-2 ^ 63) else min n (2 ^ 63 - 1)

/-- `atoi`: the low 32 bits of `strtol`. -/
def atoi (s : List Char) : ℤ := (strtol s).bmod (2 ^ 32)

theorem isSpace_of_isDigit {c : Char} (h : c.isDigit = true) : isSpace c = false := by
  have hge : 48 ≤ c.toNat := by
    simp only [Char.isDigit, Bool.and_eq_true, decide_eq_true_eq, ge_iff_le,
      UInt32.le_iff_toNat_le] at h
    exact h.1
  have hspace : c ≠ ' ' := by
    rintro rfl
    exact absurd h (by decide)
  simp only [isSpace, hspace, false_or, decide_eq_false_iff_not]
  omega

theorem isDigit_of_isOctal {c : Char} (h : isOctal c = true) : c.isDigit = true := by
  simp only [isOctal, decide_eq_true_eq] at h
  simp only [Char.isDigit, Bool.and_eq_true, decide_eq_true_eq]
  exact ⟨h.1, Nat.le_trans h.2 (by decide)⟩

theorem strtolOctal_digits {l : List Char} (hne : l ≠ []) (h : ∀ c ∈ l, isOctal c = true) :
    strtolOctal l = min (Nat.ofDigitChars 8 l 0 : ℤ) (2 ^ 63 - 1) := by
  obtain ⟨c, l, rfl⟩ := List.exists_cons_of_ne_nil hne
  have hc := isDigit_of_isOctal (h c (List.mem_cons_self ..))
  have hskip : (c :: l).dropWhile isSpace = c :: l :=
    List.dropWhile_cons_of_neg (by simp [isSpace_of_isDigit hc])
  have hminus : c ≠ '-' := by
    rintro rfl
    exact absurd hc (by decide)
  have hplus : c ≠ '+' := by
    rintro rfl
    exact absurd hc (by decide)
  have hall : (c :: l).takeWhile isOctal = c :: l := List.takeWhile_eq_self_iff.mpr h
  simp only [strtolOctal, hskip, List.head?_cons, Option.some.injEq, hminus, hplus, or_self,
    if_false, hall]

theorem strtol_decimal (n : ℕ) : strtol (decimal n) = min (n : ℤ) (2 ^ 63 - 1) := by
  obtain ⟨c, l, hl⟩ := List.exists_cons_of_ne_nil (Nat.toDigits_ne_nil (n := n) (b := 10))
  have hdecimal : decimal n = c :: l := hl
  have hc : c.isDigit = true := decimal_digits n c (hdecimal ▸ List.mem_cons_self ..)
  have hskip : (decimal n).dropWhile isSpace = decimal n := by
    rw [hdecimal, List.dropWhile_cons_of_neg (by simp [isSpace_of_isDigit hc])]
  have hall : (decimal n).takeWhile Char.isDigit = decimal n :=
    List.takeWhile_eq_self_iff.mpr (decimal_digits n)
  have hhead : ∀ d : Char, d.isDigit = false → (decimal n).head? ≠ some d := by
    intro d hd heq
    rw [hdecimal] at heq
    rw [← Option.some.inj heq, hc] at hd
    exact nomatch hd
  have hminus := hhead '-' (by decide)
  have hplus := hhead '+' (by decide)
  simp only [strtol, hskip, hminus, hplus, or_self, if_false, hall]
  rw [decimal, Nat.ofDigitChars_ten_toDigits]

/-- Numbers of 31 bits are read back; longer ones lose bits or end at
`-1`. -/
theorem atoi_decimal (n : ℕ) :
    (n < 2 ^ 31 → atoi (decimal n) = n) ∧
    (n < 2 ^ 63 → atoi (decimal n) = (n : ℤ).bmod (2 ^ 32)) ∧
    (2 ^ 63 ≤ n → atoi (decimal n) = -1) := by
  rw [atoi, strtol_decimal]
  refine ⟨fun h => ?_, fun h => ?_, fun h => ?_⟩
  · rw [Int.min_eq_left (by omega)]
    exact Int.bmod_eq_of_le (by omega) (by omega)
  · rw [Int.min_eq_left (by omega)]
  · rw [Int.min_eq_right (by omega)]
    decide

end Decimal

section Scan

variable {α : Type*} {p : α → Bool}

theorem takeWhile_eq_nil {l : List α} (h : ∀ c ∈ l.head?, p c = false) : l.takeWhile p = [] := by
  cases l with
  | nil => rfl
  | cons c l => rw [List.takeWhile_cons_of_neg (by simp [h c rfl])]

theorem dropWhile_eq_self {l : List α} (h : ∀ c ∈ l.head?, p c = false) : l.dropWhile p = l := by
  cases l with
  | nil => rfl
  | cons c l => rw [List.dropWhile_cons_of_neg (by simp [h c rfl])]

/-- The character behind a part of a buffer. -/
theorem getElem?_length_append (u v : List α) : (u ++ v)[u.length]? = v.head? := by
  rw [List.getElem?_append_right (Nat.le_refl _), Nat.sub_self, List.head?_eq_getElem?]

/-- `while (p(buf[i])) i++` from `0`. -/
def scanUp (p : α → Bool) : List α → Option ℕ
  | [] => none
  | c :: buf => if p c then (scanUp p buf).map (· + 1) else some 0

/-- `while (p(buf[i])) i--` from `i`. -/
def scanDown (p : α → Bool) (buf : List α) : ℕ → Option ℕ
  | 0 => buf.head?.bind fun c => if p c then none else some 0
  | i + 1 => buf[i + 1]?.bind fun c => if p c then scanDown p buf i else some (i + 1)

/-- The scan stops behind the part at which `p` holds. -/
theorem scanUp_append {l rest : List α} (h : ∃ c ∈ l, p c = false) :
    scanUp p (l ++ rest) = some (l.takeWhile p).length := by
  induction l with
  | nil => simp at h
  | cons x l ih =>
      cases hx : p x with
      | false => simp [scanUp, hx]
      | true =>
          have hrest := ih (by simpa [hx] using h)
          simp [scanUp, hx, hrest]

/-- The part that a scan goes over. -/
theorem exists_run {l : List α} (h : ∃ c ∈ l, p c = false) :
    ∃ u c v, l = u ++ c :: v ∧ (∀ x ∈ u, p x = true) ∧ p c = false := by
  induction l with
  | nil => simp at h
  | cons x l ih =>
      cases hx : p x with
      | false => exact ⟨[], x, l, rfl, nofun, hx⟩
      | true =>
          obtain ⟨u, c, v, rfl, hu, hc⟩ := ih (by simpa [hx] using h)
          exact ⟨x :: u, c, v, rfl, List.forall_mem_cons.mpr ⟨hx, hu⟩, hc⟩

/-- The scan stops at the last index up to `i` at which `p` fails. -/
theorem scanDown_take {buf : List α} {i : ℕ} (hi : i < buf.length) :
    (scanDown p buf i).elim [] (fun m => buf.take (m + 1)) = (buf.take (i + 1)).rdropWhile p := by
  induction i with
  | zero =>
      obtain ⟨c, rest, rfl⟩ := List.exists_cons_of_length_pos hi
      by_cases hp : p c
      · simp [scanDown, hp, List.rdropWhile_singleton]
      · simp [scanDown, hp, List.rdropWhile_singleton]
  | succ i ih =>
      rw [List.take_succ_eq_append_getElem hi, scanDown, List.getElem?_eq_getElem hi,
        Option.bind_some]
      by_cases hp : p buf[i + 1]
      · rw [if_pos hp, List.rdropWhile_concat_pos _ _ _ hp]
        exact ih (by omega)
      · rw [if_neg hp, List.rdropWhile_concat_neg _ _ _ hp, Option.elim_some,
          List.take_succ_eq_append_getElem hi]

/-- Where `p` holds everywhere, the scan leaves the buffer. -/
theorem scanDown_eq_none_iff {buf : List α} {i : ℕ} (hi : i < buf.length) :
    scanDown p buf i = none ↔ ∀ c ∈ buf.take (i + 1), p c = true := by
  rw [← List.rdropWhile_eq_nil_iff, ← scanDown_take hi]
  cases hscan : scanDown p buf i with
  | none => simp
  | some m =>
      have hbuf : buf ≠ [] := List.ne_nil_of_length_pos (by omega)
      simp [hbuf]

/-- Dropping from the right stops in the second part if `p` fails there. -/
theorem rdropWhile_append {u v : List α} (hv : ∃ c ∈ v, p c = false) :
    (u ++ v).rdropWhile p = u ++ v.rdropWhile p := by
  obtain ⟨c, hc, hp⟩ := hv
  have hne : (v.reverse.dropWhile p).isEmpty = false := by
    rw [Bool.eq_false_iff]
    simp only [List.isEmpty_iff, ne_eq, List.dropWhile_eq_nil_iff, List.mem_reverse]
    intro hall
    simp [hall c hc] at hp
  simp [List.rdropWhile, List.dropWhile_append, hne]

theorem length_takeWhile_eq_iff {l : List α} :
    (l.takeWhile p).length = l.length ↔ ∀ c ∈ l, p c = true := by
  rw [← List.takeWhile_eq_self_iff]
  exact ⟨(List.takeWhile_sublist p).eq_of_length, congrArg List.length⟩

theorem rdropWhile_congr {q : α → Bool} {l : List α} (h : ∀ c ∈ l, p c = q c) :
    l.rdropWhile p = l.rdropWhile q := by
  induction l using List.reverseRecOn with
  | nil => simp
  | append_singleton l x ih =>
      rw [List.rdropWhile_concat, List.rdropWhile_concat, h x (by simp),
        ih fun c hc => h c (by simp [hc])]

end Scan

section Trim

variable {α : Type*} {p : α → Bool}

/-- What is left without the `p` at both ends. -/
def trim (p : α → Bool) (l : List α) : List α := (l.dropWhile p).rdropWhile p

theorem trim_eq_nil {l : List α} (h : ∀ c ∈ l, p c = true) : trim p l = [] := by
  have hnil : l.dropWhile p = [] := List.dropWhile_eq_nil_iff.mpr h
  simp [trim, hnil]

theorem trim_concat_of_pos {l : List α} {c : α} (hc : p c = true) :
    trim p (l ++ [c]) = trim p l := by
  unfold trim
  rw [List.dropWhile_append]
  split
  · next hnil =>
      rw [List.isEmpty_iff] at hnil
      simp [hnil, hc]
  · rw [List.rdropWhile_concat_pos _ _ _ hc]

theorem trim_concat_of_neg {l : List α} {c : α} (hc : p c = false) :
    trim p (l ++ [c]) = l.dropWhile p ++ [c] := by
  have hdrop : (l ++ [c]).dropWhile p = l.dropWhile p ++ [c] := by
    rw [List.dropWhile_append]
    split
    · next hnil =>
        rw [List.isEmpty_iff] at hnil
        simp [hnil, hc]
    · rfl
  rw [trim, hdrop, List.rdropWhile_concat_neg _ _ _ (by simp [hc])]

theorem rdropWhile_sublist (l : List α) : (l.rdropWhile p).Sublist l := by
  have hright := List.rdropWhile_prefix p l
  exact hright.sublist

theorem trim_sublist (l : List α) : (trim p l).Sublist l :=
  (rdropWhile_sublist _).trans (List.dropWhile_sublist p)

theorem mem_trim {l : List α} {c : α} (hc : c ∈ l) (hp : p c = false) : c ∈ trim p l := by
  have hdrop : c ∈ l.dropWhile p := by
    rw [← List.takeWhile_append_dropWhile (p := p) (l := l)] at hc
    refine (List.mem_append.mp hc).resolve_left fun htake => ?_
    simp [List.mem_takeWhile_imp htake] at hp
  rw [← List.rdropWhile_append_rtakeWhile (p := p) (l := l.dropWhile p)] at hdrop
  refine (List.mem_append.mp hdrop).resolve_right fun htake => ?_
  simp [List.mem_rtakeWhile_imp htake] at hp

/-- Neither end of what is left is a `p`. -/
theorem trim_ends {l : List α} (h : ∃ c ∈ l, p c = false) :
    (∃ c ∈ (trim p l).head?, p c = false) ∧ ∃ c ∈ (trim p l).getLast?, p c = false := by
  obtain ⟨c, hc, hp⟩ := h
  have hne : trim p l ≠ [] := List.ne_nil_of_mem (mem_trim hc hp)
  constructor
  · have hdrop : l.dropWhile p ≠ [] := by
      intro hnil
      exact hne (by simp [trim, hnil])
    have hpre : trim p l <+: l.dropWhile p := List.rdropWhile_prefix p _
    refine ⟨(trim p l).head hne, List.head?_eq_some_head hne, ?_⟩
    rw [hpre.head hne]
    exact List.head_dropWhile_not p hdrop
  · refine ⟨(trim p l).getLast hne, List.getLast?_eq_some_getLast hne, ?_⟩
    exact Bool.eq_false_iff.mpr (List.rdropWhile_last_not p (l.dropWhile p) hne)

/-- A longer list keeps at least as much. -/
theorem length_trim_append_le (u v : List α) :
    (trim p u).length ≤ (trim p (u ++ v)).length := by
  induction v using List.reverseRecOn with
  | nil => simp
  | append_singleton v x ih =>
      rw [← List.append_assoc]
      cases hx : p x with
      | true =>
          rw [trim_concat_of_pos hx]
          exact ih
      | false =>
          have hright := (rdropWhile_sublist (p := p) ((u ++ v).dropWhile p)).length_le
          rw [trim_concat_of_neg hx, List.length_append]
          exact ih.trans (hright.trans (Nat.le_add_right _ _))

/-- Around a list without `p` at its ends they are all taken off. -/
theorem trim_append {u l v : List α} (hu : ∀ c ∈ u, p c = true) (hv : ∀ c ∈ v, p c = true)
    (hhead : ∃ c ∈ l.head?, p c = false) (hlast : ∃ c ∈ l.getLast?, p c = false) :
    trim p (u ++ l ++ v) = l := by
  obtain ⟨c, hc, hp⟩ := hhead
  obtain ⟨l', rfl⟩ := List.head?_eq_some_iff.mp hc
  obtain ⟨d, hd, hq⟩ := hlast
  rw [trim, List.append_assoc, List.dropWhile_append_of_pos hu, List.cons_append,
    List.dropWhile_cons_of_neg (by simp [hp]), ← List.cons_append]
  rw [List.rdropWhile, List.reverse_append, List.dropWhile_append_of_pos (by simpa using hv)]
  have hrev : (c :: l').reverse.head? = some d := by rwa [List.head?_reverse]
  rw [dropWhile_eq_self (by rw [hrev]; simpa using hq), List.reverse_reverse]

/-- The two scans of a string that is not all `p`. -/
theorem drop_rdropWhile (l : List α) (h : ∃ c ∈ l, p c = false) :
    (l.rdropWhile p).drop (l.takeWhile p).length = trim p l := by
  obtain ⟨c, hc, hp⟩ := h
  have hex : ∃ c ∈ l.dropWhile p, p c = false :=
    ⟨c, (rdropWhile_sublist (l.dropWhile p)).subset (mem_trim hc hp), hp⟩
  have hsplit : l.rdropWhile p = l.takeWhile p ++ trim p l := by
    conv_lhs => rw [← List.takeWhile_append_dropWhile (p := p) (l := l)]
    exact rdropWhile_append hex
  rw [hsplit, List.drop_left]

end Trim

section Words

variable {α : Type*} {p : α → Bool}

/-- The maximal parts without `p`. -/
def words (p : α → Bool) (l : List α) : List (List α) := (l.splitOnP p).filter (· ≠ [])

theorem nil_notMem_words (l : List α) : [] ∉ words p l := by
  simp [words]

/-- Words end at a `p`. -/
theorem words_append_cons {u v : List α} {c : α} (hc : p c = true) :
    words p (u ++ c :: v) = words p u ++ words p v := by
  rw [words, List.splitOnP_append_cons u v hc, List.filter_append]
  rfl

theorem words_run_append {u v : List α} (h : ∀ c ∈ u, p c = true) :
    words p (u ++ v) = words p v := by
  induction u with
  | nil => rfl
  | cons c u ih =>
      have hcons := words_append_cons (u := []) (v := u ++ v) (h c (List.mem_cons_self ..))
      rw [ih fun x hx => h x (List.mem_cons_of_mem _ hx)] at hcons
      simpa [words] using hcons

theorem words_of_forall {l : List α} (h : ∀ c ∈ l, p c = true) : words p l = [] := by
  have hrun := words_run_append (v := []) h
  rw [List.append_nil] at hrun
  rw [hrun]
  simp [words]

theorem words_word {l : List α} (hne : l ≠ []) (h : ∀ c ∈ l, p c = false) : words p l = [l] := by
  rw [words, List.splitOnP_eq_singleton h]
  simp [hne]

theorem words_map {β : Type*} (f : β → α) (l : List β) :
    words p (l.map f) = (words (fun x => p (f x)) l).map (·.map f) := by
  have hsplit : (l.map f).splitOnP p = (l.splitOnP fun x => p (f x)).map (·.map f) := by
    induction l with
    | nil => rfl
    | cons x l ih =>
        obtain ⟨w, ws, hw⟩ := List.exists_cons_of_ne_nil (List.splitOnP_ne_nil (fun x => p (f x)) l)
        rw [List.map_cons, List.splitOnP_cons_eq_if_modifyHead, List.splitOnP_cons_eq_if_modifyHead,
          ih, hw]
        split <;> simp
  rw [words, hsplit, List.filter_map]
  simp [words, Function.comp_def]

theorem words_congr {q : α → Bool} {l : List α} (h : ∀ c ∈ l, p c = q c) :
    words p l = words q l := by
  have hsplit : l.splitOnP p = l.splitOnP q := by
    induction l with
    | nil => rfl
    | cons x l ih =>
        rw [List.splitOnP_cons_eq_if_modifyHead, List.splitOnP_cons_eq_if_modifyHead,
          h x (List.mem_cons_self ..), ih fun c hc => h c (List.mem_cons_of_mem _ hc)]
  rw [words, hsplit, words]

theorem mem_of_mem_words {l w : List α} (hw : w ∈ words p l) {c : α} (hc : c ∈ w) : c ∈ l := by
  have hsplit : ∀ {w}, w ∈ l.splitOnP p → ∀ c ∈ w, c ∈ l := by
    clear hw hc
    induction l with
    | nil => simp [List.splitOnP_nil]
    | cons x l ih =>
        intro w hw c hc
        obtain ⟨v, vs, hv⟩ := List.exists_cons_of_ne_nil (List.splitOnP_ne_nil p l)
        have hin : ∀ u ∈ v :: vs, ∀ c ∈ u, c ∈ x :: l :=
          fun u hu c hc => List.mem_cons_of_mem _ (ih (hv ▸ hu) c hc)
        rw [List.forall_mem_cons] at hin
        rw [List.splitOnP_cons_eq_if_modifyHead, hv] at hw
        split at hw
        · simp only [List.mem_cons] at hw
          rcases hw with rfl | rfl | hw
          · exact nomatch hc
          · exact hin.1 c hc
          · exact hin.2 w hw c hc
        · simp only [List.modifyHead_cons, List.mem_cons] at hw
          rcases hw with rfl | hw
          · rcases List.mem_cons.mp hc with rfl | hc
            · exact List.mem_cons_self ..
            · exact hin.1 c hc
          · exact hin.2 w hw c hc
  exact hsplit (List.mem_of_mem_filter hw) c hc

theorem words_ne_nil {l : List α} (h : ∃ c ∈ l, p c = false) : words p l ≠ [] := by
  induction l with
  | nil => simp at h
  | cons x l ih =>
      cases hx : p x with
      | true =>
          have hcons := words_append_cons (u := []) (v := l) hx
          rw [List.nil_append] at hcons
          rw [hcons]
          have hrest := ih (by simpa [hx] using h)
          simp [hrest]
      | false =>
          obtain ⟨w, ws, hw⟩ := List.exists_cons_of_ne_nil (List.splitOnP_ne_nil p l)
          rw [words, List.splitOnP_cons_eq_if_modifyHead, hx, hw]
          simp

end Words

section Fgets

/-- The characters up to a newline, at most `n` of them. -/
def takeLine : ℕ → List Char → List Char
  | 0, _ => []
  | _ + 1, [] => []
  | n + 1, c :: cs => if c = '\n' then [c] else c :: takeLine n cs

/-- `fgets` into a buffer of `size` characters: the characters read and the
rest of the stream, or `none` at its end. -/
def fgets (size : ℕ) (stream : List Char) : Option (List Char × List Char) :=
  if stream = [] then none
  else
    let line := takeLine (size - 1) stream
    some (line, stream.drop line.length)

theorem takeLine_isPrefix (n : ℕ) (stream : List Char) : takeLine n stream <+: stream := by
  induction n, stream using takeLine.induct with
  | case1 => simp [takeLine]
  | case2 => simp [takeLine]
  | case3 n cs => simp [takeLine]
  | case4 n c cs hc ih => simpa [takeLine, hc] using ih

theorem length_takeLine_le (n : ℕ) (stream : List Char) : (takeLine n stream).length ≤ n := by
  induction n, stream using takeLine.induct with
  | case1 => simp [takeLine]
  | case2 => simp [takeLine]
  | case3 n cs => simp [takeLine]
  | case4 n c cs hc ih => simpa [takeLine, hc] using ih

/-- A newline is the last character of a line. -/
theorem takeLine_cases {n : ℕ} {stream : List Char} (hn : 0 < n) (hs : stream ≠ []) :
    ∃ body last, takeLine n stream = body ++ [last] ∧ '\n' ∉ body := by
  induction n, stream using takeLine.induct with
  | case1 => exact absurd hn (Nat.lt_irrefl 0)
  | case2 => exact absurd rfl hs
  | case3 n cs => exact ⟨[], '\n', by simp [takeLine], by simp⟩
  | case4 n c cs hc ih =>
      by_cases hend : 0 < n ∧ cs ≠ []
      · obtain ⟨body, last, heq, hbody⟩ := ih hend.1 hend.2
        refine ⟨c :: body, last, by simp [takeLine, hc, heq], ?_⟩
        simp [hbody, Ne.symm hc]
      · refine ⟨[], c, ?_, by simp⟩
        have hnil : takeLine n cs = [] := by
          cases n with
          | zero => rfl
          | succ n =>
              obtain rfl : cs = [] := by simpa using hend
              rfl
        simp [takeLine, hc, hnil]

/-- What stands before the first newline is read, as far as there is
room. -/
theorem takeLine_append {n : ℕ} {u : List Char} (hu : '\n' ∉ u) (hn : u.length ≤ n)
    (v : List Char) : takeLine n (u ++ v) = u ++ takeLine (n - u.length) v := by
  induction u generalizing n with
  | nil => rfl
  | cons c u ih =>
      obtain ⟨m, rfl⟩ : ∃ m, n = m + 1 := ⟨n - 1, by rw [List.length_cons] at hn; omega⟩
      simp only [List.mem_cons, not_or] at hu
      rw [List.length_cons] at hn
      have hrest := ih hu.2 (n := m) (by omega)
      simp [takeLine, Ne.symm hu.1, hrest]

/-- The first character is always read. -/
theorem head?_takeLine {n : ℕ} (hn : 0 < n) (stream : List Char) :
    (takeLine n stream).head? = stream.head? := by
  obtain ⟨m, rfl⟩ : ∃ m, n = m + 1 := ⟨n - 1, by omega⟩
  cases stream with
  | nil => rfl
  | cons c cs =>
      unfold takeLine
      split <;> rfl

/-- A line that fits is read whole. -/
theorem takeLine_line {n : ℕ} {body rest : List Char} (hbody : '\n' ∉ body)
    (hn : body.length < n) : takeLine n (body ++ '\n' :: rest) = body ++ ['\n'] := by
  induction body generalizing n with
  | nil =>
      obtain ⟨m, rfl⟩ : ∃ m, n = m + 1 := ⟨n - 1, by omega⟩
      simp [takeLine]
  | cons c body ih =>
      obtain ⟨m, rfl⟩ : ∃ m, n = m + 1 := ⟨n - 1, by omega⟩
      simp only [List.mem_cons, not_or] at hbody
      rw [List.length_cons] at hn
      have hrest := ih hbody.2 (n := m) (by omega)
      simp [takeLine, Ne.symm hbody.1, hrest]

theorem fgets_line {size : ℕ} {body rest : List Char} (hbody : '\n' ∉ body)
    (hsize : body.length + 2 ≤ size) :
    fgets size (body ++ '\n' :: rest) = some (body ++ ['\n'], rest) := by
  have hline : takeLine (size - 1) (body ++ '\n' :: rest) = body ++ ['\n'] :=
    takeLine_line hbody (by omega)
  simp [fgets, hline]

/-- What `fgets` reads of a stream: something, with a newline at most in
the last place. -/
theorem exists_fgets {size : ℕ} {stream : List Char} (hsize : 2 ≤ size) (hne : stream ≠ []) :
    ∃ body last rest, fgets size stream = some (body ++ [last], rest) ∧ '\n' ∉ body ∧
      body ++ [last] ++ rest = stream := by
  obtain ⟨body, last, hline, hbody⟩ := takeLine_cases (n := size - 1) (by omega) hne
  have happ := List.prefix_iff_eq_append.mp (takeLine_isPrefix (size - 1) stream)
  rw [hline] at happ
  refine ⟨body, last, stream.drop (body ++ [last]).length, ?_, hbody, happ⟩
  simp [fgets, hne, hline]

/-- `fgets` on a buffer: what was read, an end, and what stood there before.
At the end of the stream the buffer is left as it was. -/
def fgetsInto (size : ℕ) (buffer stream : List Char) : List Char × List Char :=
  match fgets size stream with
  | none => (buffer, stream)
  | some (chunk, rest) => (chunk ++ nul :: buffer.drop (chunk.length + 1), rest)

theorem fgetsInto_of_ne_nil (size : ℕ) (buffer : List Char) {stream : List Char}
    (h : stream ≠ []) : fgetsInto size buffer stream
      = (takeLine (size - 1) stream ++ nul :: buffer.drop ((takeLine (size - 1) stream).length + 1),
        stream.drop (takeLine (size - 1) stream).length) := by
  simp only [fgetsInto, fgets, if_neg h]

/-- What was read begins as the stream does. -/
theorem head?_buffer {n : ℕ} (hn : 0 < n) {stream : List Char} {d : Char}
    (hd : stream.head? = some d) (hnul : d ≠ nul) (rest : List Char) :
    (text (takeLine n stream ++ rest)).head? = some d := by
  have hline : (takeLine n stream ++ rest).head? = some d := by
    rw [List.head?_append, head?_takeLine hn, hd]
    rfl
  rw [head?_text (by rw [hline]; exact fun heq => hnul (Option.some.inj heq)), hline]

/-- A part of the stream without an end or a newline is in the buffer, and
what follows it begins as in the stream. -/
theorem text_fgetsInto (size : ℕ) {u v : List Char} {d : Char} (hu : nul ∉ u) (hline : '\n' ∉ u)
    (hlen : u.length < size - 1) (hd : v.head? = some d) (hnul : d ≠ nul) (buffer : List Char) :
    ∃ tail, text (fgetsInto size buffer (u ++ v)).1 = u ++ tail ∧ tail.head? = some d := by
  have hne : u ++ v ≠ [] := by
    intro hnil
    rw [(List.append_eq_nil_iff.mp hnil).2] at hd
    exact nomatch hd
  rw [fgetsInto_of_ne_nil _ _ hne, takeLine_append hline hlen.le, List.append_assoc,
    text_append hu]
  exact ⟨_, rfl, head?_buffer (by omega) hd hnul _⟩

/-- The part of a stream that is read by call number `k` of `fgets`. -/
def piece (size : ℕ) : ℕ → List Char → List Char
  | 0, stream => takeLine (size - 1) stream
  | k + 1, stream => piece size k (stream.drop (takeLine (size - 1) stream).length)

theorem piece_nil (size k : ℕ) : piece size k [] = [] := by
  have hnil : takeLine (size - 1) [] = [] := by cases size - 1 <;> rfl
  induction k with
  | zero => exact hnil
  | succ k ih => rw [piece, hnil, List.drop_nil, ih]

theorem length_of_fgets {size : ℕ} {stream chunk rest : List Char}
    (h : fgets size stream = some (chunk, rest)) : chunk.length ≤ size - 1 := by
  unfold fgets at h
  split at h
  · exact nomatch h
  · rw [← (Prod.mk.inj (Option.some.inj h)).1]
    exact length_takeLine_le _ _

end Fgets

end CStr
