import Comp4511.Cuts
import Comp4511.Sh2Special

/-!
# The buffer of `replace`

`replace` of the second shell in memory: it goes over the string once to
count the occurrences, allocates a block for the result, and goes over the
string again to fill it. `Sh2.replace` is the string that comes out.

Both loops are scans of the string, so both find the parts of
`Cuts` (`count_run`, `write_run`), and the block has just the size of what is
written into it. But lengths, counts and the size are `int`s: `Fits` is when
these hold them, and `replace_sized_iff` says that the block is sized right
just then. What `special` passes is short enough, and there the block holds
the string of `Sh2.replace` (`expand_refines`).
-/

namespace Comp4511

open CStr

namespace Sh2

namespace Heap

/-! ## The function -/

/-- `newlen` and `oldlen`. A `strlen` that an `int` cannot hold wraps, and so
does all arithmetic below. -/
def len (s : List Char) : Int32 := Int32.ofNat (strlen s)

/-- The variables of the first loop. -/
structure Count where
  i : Int32
  cnt : Int32

/-- The first loop; `none` for a read outside of the string. The `i++` of
the `for` comes after the step over an occurrence. -/
def countTurn (s old : List Char) (v : Count) : Loop.Turn Count (Option Count) :=
  match charAt s v.i.toInt with
  | none => .done none
  | some c =>
      if c = nul then .done (some v)
      else if strstr (s.drop v.i.toInt.toNat) old = some 0 then
        .again ⟨v.i + (len old - 1) + 1, v.cnt + 1⟩
      else .again ⟨v.i + 1, v.cnt⟩

/-- The argument of `malloc`. -/
def size (old new : List Char) (v : Count) : Int32 := v.i + v.cnt * (len new - len old) + 1

/-- The block of `malloc`, which holds anything. The argument becomes a
`size_t`, so one that is negative is too large. -/
def malloc (junk : ℕ → Char) (size : Int32) : Option (List Char) :=
  if size.toInt % 2 ^ 64 < 2 ^ 63 then
    some ((List.range (size.toInt % 2 ^ 64).toNat).map junk)
  else none

/-- The variables of the second loop. The pointer `s` is the index it has
come to. -/
structure Write where
  s : ℤ
  i : Int32
  result : List Char

/-- The second loop and the `nul` behind it; `none` for an access outside
of the string or of the block. -/
def writeTurn (s old new : List Char) (v : Write) : Loop.Turn Write (Option (List Char)) :=
  match charAt s v.s with
  | none => .done none
  | some c =>
      if c = nul then .done (store v.result v.i.toInt [nul])
      else if strstr (s.drop v.s.toNat) old = some 0 then
        match store v.result v.i.toInt (new ++ [nul]) with
        | none => .done none
        | some result => .again ⟨v.s + (len old).toInt, v.i + len new, result⟩
      else
        match store v.result v.i.toInt [c] with
        | none => .done none
        | some result => .again ⟨v.s + 1, v.i + 1, result⟩

inductive Outcome where
  /-- The pointer `s` is returned. -/
  | same
  /-- A block is returned, with the size that was asked for. -/
  | built (size : Int32) (block : List Char)
  /-- An access outside of the string or of the block, or through `NULL`. -/
  | fault

/-- `none` if the turns of a loop do not suffice. -/
def replace (junk : ℕ → Char) (fuel : ℕ) (s old new : List Char) : Option Outcome :=
  if strstr s [singleQuote] = none ∧ strstr s old ≠ none then
    match Loop.run (countTurn s old) fuel ⟨0, 0⟩ with
    | none => none
    | some none => some .fault
    | some (some v) =>
        match malloc junk (size old new v) with
        | none => some .fault
        | some result =>
            match Loop.run (writeTurn s old new) fuel ⟨0, 0, result⟩ with
            | none => none
            | some none => some .fault
            | some (some block) => some (.built (size old new v) block)
  else some .same

/-! ## What it should do -/

/-- There is something to replace. -/
def Applies (s old : List Char) : Prop := singleQuote ∉ s ∧ old <:+: s

/-- The occurrences are replaced, in a block of just the size of the
result and without an access outside of it. -/
def Builds (junk : ℕ → Char) (s old new : List Char) (us : List (List Char)) : Prop :=
  ∃ fuel size block, replace junk fuel s old new = some (.built size block) ∧
    text block = new.intercalate us ∧ size.toInt = (text block).length + 1

/-- What `replace` should do; `us` are the parts between the occurrences. -/
structure Meets (junk : ℕ → Char) (s old new : List Char) (us : List (List Char)) : Prop where
  builds : Applies s old → Builds junk s old new us
  same : ¬ Applies s old → ∃ fuel, replace junk fuel s old new = some .same

/-- The string and the size of the result fit an `int`; `us` are the parts
between the occurrences. -/
def Fits (s old new : List Char) (us : List (List Char)) : Prop :=
  s.length < 2 ^ 31 ∧
    s.length + (us.length - 1) * new.length + 1 < 2 ^ 31 + (us.length - 1) * old.length

/-! ## The loops -/

section Loops

variable {s old new : List Char} {us : List (List Char)}

theorem len_eq (h : nul ∉ s) : len s = Int32.ofNat s.length := by
  rw [len, strlen, text_eq_self h]

theorem toInt_length (hlen : s.length < 2 ^ 31) {pre post : List Char} (hsplit : s = pre ++ post) :
    (Int32.ofNat pre.length).toInt = pre.length := by
  rw [hsplit, List.length_append] at hlen
  exact Int32.toInt_ofNat_of_lt (by omega)

/-- What the two loops see at an occurrence. -/
theorem at_hit (hs : nul ∉ s) (hne : old ≠ []) {pre post : List Char}
    (hsplit : s = pre ++ (old ++ post)) :
    ∃ c, charAt s pre.length = some c ∧ c ≠ nul ∧ strstr (s.drop pre.length) old = some 0 := by
  obtain ⟨c, old', rfl⟩ := List.exists_cons_of_ne_nil hne
  refine ⟨c, ?_, ?_, ?_⟩
  · rw [hsplit, List.cons_append, charAt_length_append]
  · rintro rfl
    exact hs (by simp [hsplit])
  · rw [hsplit, List.drop_left, strstr_eq_zero_iff]
    exact List.prefix_append _ post

/-- What they see at a place that is none. -/
theorem at_miss (hs : nul ∉ s) {pre post : List Char} {c : Char} (hpre : ¬ old <+: c :: post)
    (hsplit : s = pre ++ c :: post) :
    charAt s pre.length = some c ∧ c ≠ nul ∧ strstr (s.drop pre.length) old ≠ some 0 := by
  refine ⟨?_, ?_, ?_⟩
  · rw [hsplit, charAt_length_append]
  · rintro rfl
    exact hs (by simp [hsplit])
  · rw [hsplit, List.drop_left, ne_eq, strstr_eq_zero_iff]
    exact hpre

theorem countTurn_hit (hs : nul ∉ s) (hold : nul ∉ old) (hne : old ≠ []) (hlen : s.length < 2 ^ 31)
    {pre post : List Char} (hsplit : s = pre ++ (old ++ post)) (cnt : Int32) :
    countTurn s old ⟨Int32.ofNat pre.length, cnt⟩
      = .again ⟨Int32.ofNat (pre ++ old).length, cnt + 1⟩ := by
  obtain ⟨c, hc, hnul, hstr⟩ := at_hit hs hne hsplit
  have hnext : Int32.ofNat pre.length + (len old - 1) + 1 = Int32.ofNat (pre ++ old).length := by
    rw [Int32.add_assoc, Int32.sub_add_cancel, len_eq hold, List.length_append, Int32.ofNat_add]
  simp only [countTurn, toInt_length hlen hsplit, Int.toNat_natCast, hc, if_neg hnul, if_pos hstr,
    hnext]

theorem countTurn_miss (hs : nul ∉ s) (hlen : s.length < 2 ^ 31) {pre post : List Char} {c : Char}
    (hpre : ¬ old <+: c :: post) (hsplit : s = pre ++ c :: post) (cnt : Int32) :
    countTurn s old ⟨Int32.ofNat pre.length, cnt⟩
      = .again ⟨Int32.ofNat (pre ++ [c]).length, cnt⟩ := by
  obtain ⟨hc, hnul, hstr⟩ := at_miss hs hpre hsplit
  have hnext : Int32.ofNat pre.length + 1 = Int32.ofNat (pre ++ [c]).length := by
    rw [List.length_append, Int32.ofNat_add]
    rfl
  simp only [countTurn, toInt_length hlen hsplit, Int.toNat_natCast, hc, if_neg hnul, if_neg hstr,
    hnext]

/-- The first loop finds the occurrences and the end of the string. -/
theorem count_run (hs : nul ∉ s) (hold : nul ∉ old) (hne : old ≠ []) (hlen : s.length < 2 ^ 31)
    {pre post : List Char} (hsplit : s = pre ++ post) (hus : Cuts old post us) (cnt : Int32) :
    ∃ n, Loop.run (countTurn s old) n ⟨Int32.ofNat pre.length, cnt⟩
      = some (some ⟨Int32.ofNat s.length, cnt + Int32.ofNat (us.length - 1)⟩) := by
  induction post using Cuts.scan_induction hne generalizing pre us cnt with
  | nil =>
      rw [List.append_nil] at hsplit
      subst hsplit
      obtain rfl := (Cuts.nil_iff hne).mp hus
      refine ⟨1, Loop.run_done ?_⟩
      simp [countTurn, Int32.toInt_ofNat_of_lt hlen, charAt_length]
  | hit post ih =>
      obtain ⟨us, rfl, hparts⟩ := (Cuts.hit_iff hne).mp hus
      have hsplit' : s = (pre ++ old) ++ post := by rw [hsplit, List.append_assoc]
      obtain ⟨n, hrun⟩ := ih hsplit' hparts (cnt + 1)
      have hcnt : cnt + 1 + Int32.ofNat (us.length - 1) = cnt + Int32.ofNat us.length := by
        have hpos := List.length_pos_iff.mpr hparts.ne_nil
        have hone : us.length = 1 + (us.length - 1) := by omega
        rw [Int32.add_assoc]
        nth_rewrite 2 [hone]
        rw [Int32.ofNat_add]
        rfl
      rw [hcnt] at hrun
      exact ⟨n + 1, (Loop.run_again (countTurn_hit hs hold hne hlen hsplit cnt)).trans hrun⟩
  | miss c post hpre ih =>
      obtain ⟨u, us, rfl, hparts⟩ := (Cuts.miss_iff hpre).mp hus
      have hsplit' : s = (pre ++ [c]) ++ post := by simp [hsplit]
      obtain ⟨n, hrun⟩ := ih hsplit' hparts cnt
      exact ⟨n + 1, (Loop.run_again (countTurn_miss hs hlen hpre hsplit cnt)).trans hrun⟩

theorem count_total (hs : nul ∉ s) (hold : nul ∉ old) (hne : old ≠ []) (hlen : s.length < 2 ^ 31)
    (hus : Cuts old s us) :
    ∃ n, Loop.run (countTurn s old) n ⟨0, 0⟩
      = some (some ⟨Int32.ofNat s.length, Int32.ofNat (us.length - 1)⟩) := by
  obtain ⟨n, hrun⟩ := count_run hs hold hne hlen (List.nil_append s).symm hus 0
  rw [Int32.zero_add] at hrun
  exact ⟨n, hrun⟩

/-- However the first loop comes to its end, it is the end of the string. -/
theorem count_done (hs : nul ∉ s) {n : ℕ} {v v' : Count}
    (h : Loop.run (countTurn s old) n v = some (some v')) : v'.i.toInt = s.length := by
  obtain ⟨t, -, hturn⟩ := Loop.exists_done (I := fun _ => True) (fun _ _ _ _ => trivial) trivial h
  unfold countTurn at hturn
  split at hturn
  · exact nomatch hturn
  · next c hc =>
      split at hturn
      · next hnul =>
          obtain rfl := Option.some.inj (Loop.Turn.done.inj hturn)
          exact charAt_eq_nul hs (hnul ▸ hc)
      · split at hturn <;> exact nomatch hturn

/-- Bytes that the block has room for are stored behind those that stand
there. -/
theorem store_next {out rest bytes : List Char} (hblock : (out ++ rest).length < 2 ^ 31)
    (h : bytes.length ≤ rest.length) :
    store (out ++ rest) (Int32.ofNat out.length).toInt bytes
      = some (out ++ bytes ++ rest.drop bytes.length) := by
  rw [toInt_length hblock rfl, store_append h]

/-- The `nul` of `strcpy` is the first byte of what is left of the block. -/
theorem writeTurn_hit (hs : nul ∉ s) (hold : nul ∉ old) (hnew : nul ∉ new) (hne : old ≠ [])
    (hlen : s.length < 2 ^ 31) {pre post out rest : List Char}
    (hsplit : s = pre ++ (old ++ post)) (hroom : new.length + 1 ≤ rest.length)
    (hblock : (out ++ rest).length < 2 ^ 31) :
    writeTurn s old new ⟨pre.length, Int32.ofNat out.length, out ++ rest⟩
      = .again ⟨(pre ++ old).length, Int32.ofNat (out ++ new).length,
          out ++ new ++ nul :: rest.drop (new.length + 1)⟩ := by
  obtain ⟨c, hc, hnul, hstr⟩ := at_hit hs hne hsplit
  have holdlen : (len old).toInt = old.length := by
    rw [len_eq hold]
    refine Int32.toInt_ofNat_of_lt (Nat.lt_of_le_of_lt ?_ hlen)
    rw [hsplit, List.length_append, List.length_append]
    omega
  have hi : Int32.ofNat out.length + len new = Int32.ofNat (out ++ new).length := by
    rw [len_eq hnew, List.length_append, Int32.ofNat_add]
  have hbytes : (new ++ [nul]).length = new.length + 1 := List.length_append
  have hstore := store_next hblock (hbytes.trans_le hroom)
  rw [hbytes, ← List.append_assoc, List.append_assoc _ [nul], List.singleton_append] at hstore
  simp only [writeTurn, hc, if_neg hnul, Int.toNat_natCast, if_pos hstr, hstore, holdlen, hi,
    List.length_append, Int.natCast_add]

theorem writeTurn_miss (new : List Char) (hs : nul ∉ s) {pre post out rest : List Char} {c : Char}
    (hpre : ¬ old <+: c :: post) (hsplit : s = pre ++ c :: post) (hroom : 1 ≤ rest.length)
    (hblock : (out ++ rest).length < 2 ^ 31) :
    writeTurn s old new ⟨pre.length, Int32.ofNat out.length, out ++ rest⟩
      = .again ⟨(pre ++ [c]).length, Int32.ofNat (out ++ [c]).length,
          out ++ [c] ++ rest.drop 1⟩ := by
  obtain ⟨hc, hnul, hstr⟩ := at_miss hs hpre hsplit
  have hi : Int32.ofNat out.length + 1 = Int32.ofNat (out ++ [c]).length := by
    rw [List.length_append, Int32.ofNat_add]
    rfl
  have hstore := store_next hblock (show [c].length ≤ rest.length from hroom)
  rw [List.length_singleton] at hstore
  simp only [writeTurn, hc, if_neg hnul, Int.toNat_natCast, if_neg hstr, hstore, hi,
    List.length_append, List.length_singleton, Int.natCast_add, Int.natCast_one]

/-- The second loop puts `new` between the parts, in a block that has room
for just that. -/
theorem write_run (hs : nul ∉ s) (hold : nul ∉ old) (hnew : nul ∉ new) (hne : old ≠ [])
    (hlen : s.length < 2 ^ 31) {pre post out rest : List Char} (hsplit : s = pre ++ post)
    (hus : Cuts old post us) (hroom : rest.length = (new.intercalate us).length + 1)
    (hblock : (out ++ rest).length < 2 ^ 31) :
    ∃ n, Loop.run (writeTurn s old new) n ⟨pre.length, Int32.ofNat out.length, out ++ rest⟩
      = some (some (out ++ new.intercalate us ++ [nul])) := by
  induction post using Cuts.scan_induction hne generalizing pre us out rest with
  | nil =>
      rw [List.append_nil] at hsplit
      subst hsplit
      obtain rfl := (Cuts.nil_iff hne).mp hus
      have hone : rest.length = [nul].length := by simpa using hroom
      have hstore := store_next hblock hone.ge
      rw [List.drop_eq_nil_of_le hone.le] at hstore
      refine ⟨1, Loop.run_done ?_⟩
      simp only [writeTurn, charAt_length, if_true, hstore, List.append_nil,
        List.intercalate_singleton]
  | hit post ih =>
      obtain ⟨us, rfl, hparts⟩ := (Cuts.hit_iff hne).mp hus
      rw [List.intercalate_cons_of_ne_nil hparts.ne_nil, List.nil_append] at hroom ⊢
      rw [List.length_append] at hroom
      have hturn := writeTurn_hit hs hold hnew hne hlen hsplit (by omega) hblock
      have hsplit' : s = (pre ++ old) ++ post := by rw [hsplit, List.append_assoc]
      have hroom' : (nul :: rest.drop (new.length + 1)).length
          = (new.intercalate us).length + 1 := by
        rw [List.length_cons, List.length_drop]
        omega
      have hblock' : (out ++ new ++ nul :: rest.drop (new.length + 1)).length < 2 ^ 31 := by
        rw [List.length_append, List.length_append, hroom']
        rw [List.length_append] at hblock
        omega
      obtain ⟨n, hrun⟩ := ih hsplit' hparts hroom' hblock'
      refine ⟨n + 1, (Loop.run_again hturn).trans ?_⟩
      rw [hrun, ← List.append_assoc out]
  | miss c post hpre ih =>
      obtain ⟨u, us, rfl, hparts⟩ := (Cuts.miss_iff hpre).mp hus
      rw [List.intercalate_cons_cons_left] at hroom ⊢
      rw [List.length_cons] at hroom
      have hturn := writeTurn_miss new hs hpre hsplit (by omega) hblock
      have hsplit' : s = (pre ++ [c]) ++ post := by simp [hsplit]
      have hroom' : (rest.drop 1).length = (new.intercalate (u :: us)).length + 1 := by
        rw [List.length_drop, hroom, Nat.add_sub_cancel]
      have hblock' : (out ++ [c] ++ rest.drop 1).length < 2 ^ 31 := by
        rw [List.length_append, List.length_append, hroom', List.length_singleton]
        rw [List.length_append] at hblock
        omega
      obtain ⟨n, hrun⟩ := ih hsplit' hparts hroom' hblock'
      refine ⟨n + 1, (Loop.run_again hturn).trans ?_⟩
      rw [hrun, List.append_assoc out]
      rfl

theorem write_total (hs : nul ∉ s) (hold : nul ∉ old) (hnew : nul ∉ new) (hne : old ≠ [])
    (hlen : s.length < 2 ^ 31) (hus : Cuts old s us) {result : List Char}
    (hresult : result.length = (new.intercalate us).length + 1) (hblock : result.length < 2 ^ 31) :
    ∃ n, Loop.run (writeTurn s old new) n ⟨0, 0, result⟩
      = some (some (new.intercalate us ++ [nul])) := by
  have hnil : ([] ++ result).length < 2 ^ 31 := hblock
  exact write_run hs hold hnew hne hlen (List.nil_append s).symm hus hresult hnil

end Loops

/-! ## The string -/

section String

variable {s old : List Char} {us : List (List Char)}

theorem written_skip (old new u v : List Char) :
    written old new u.length (u ++ v) = written old new 0 v := by
  induction u with
  | nil => rfl
  | cons c u ih => exact ih

theorem written_hit (hne : old ≠ []) (new s : List Char) :
    written old new 0 (old ++ s) = new ++ written old new 0 s := by
  obtain ⟨c, old, rfl⟩ := List.exists_cons_of_ne_nil hne
  have hpre : c :: old <+: c :: (old ++ s) := List.prefix_append (c :: old) s
  rw [List.cons_append, written, if_pos hpre, List.length_cons, Nat.add_sub_cancel, written_skip]

/-- `Sh2.replace` puts `new` between the parts. -/
theorem written_eq_intercalate (hne : old ≠ []) (hus : Cuts old s us) (new : List Char) :
    written old new 0 s = new.intercalate us := by
  induction s using Cuts.scan_induction hne generalizing us with
  | nil =>
      obtain rfl := (Cuts.nil_iff hne).mp hus
      rfl
  | hit s ih =>
      obtain ⟨us, rfl, hparts⟩ := (Cuts.hit_iff hne).mp hus
      rw [written_hit hne, ih hparts, List.intercalate_cons_of_ne_nil hparts.ne_nil]
      rfl
  | miss c s hpre ih =>
      obtain ⟨u, us, rfl, hparts⟩ := (Cuts.miss_iff hpre).mp hus
      rw [written, if_neg hpre, ih hparts, List.intercalate_cons_cons_left]

end String

/-! ## The size -/

section Size

variable {s old new : List Char} {us : List (List Char)}

theorem applies_iff :
    strstr s [singleQuote] = none ∧ strstr s old ≠ none ↔ Applies s old := by
  have hquote : strstr s [singleQuote] = none ↔ singleQuote ∉ s := by
    rw [← not_iff_not, not_not, ← ne_eq, strstr_ne_none_iff, List.singleton_infix_iff]
  rw [hquote, strstr_ne_none_iff]
  rfl

theorem fits_iff (hus : Cuts old s us) :
    Fits s old new us ↔ s.length < 2 ^ 31 ∧ (new.intercalate us).length + 1 < 2 ^ 31 := by
  have hlength := hus.length_add new
  unfold Fits
  omega

/-- What is asked for is the size of the result, in an `int`. -/
theorem size_eq (hold : nul ∉ old) (hnew : nul ∉ new) (hus : Cuts old s us) :
    size old new ⟨Int32.ofNat s.length, Int32.ofNat (us.length - 1)⟩
      = Int32.ofNat ((new.intercalate us).length + 1) := by
  have hlength : ((new.intercalate us).length : ℤ)
      = s.length + (us.length - 1 : ℕ) * (new.length - old.length) := by
    have hadd := congrArg (Nat.cast : ℕ → ℤ) (hus.length_add new)
    rw [Int.natCast_add, Int.natCast_add, Int.natCast_mul, Int.natCast_mul] at hadd
    rw [Int.mul_sub]
    omega
  have hint : Int32.ofNat (new.intercalate us).length = Int32.ofNat s.length
      + Int32.ofNat (us.length - 1) * (Int32.ofNat new.length - Int32.ofNat old.length) := by
    rw [← Int32.ofInt_eq_ofNat, hlength, Int32.ofInt_add, Int32.ofInt_mul, Int32.ofInt_sub]
    simp only [Int32.ofInt_eq_ofNat]
  rw [size, len_eq hold, len_eq hnew, Int32.ofNat_add, hint]
  rfl

theorem length_malloc (junk : ℕ → Char) {n : ℕ} (hn : n < 2 ^ 31) :
    ∃ result, malloc junk (Int32.ofNat n) = some result ∧ result.length = n := by
  have hmod : ((n : ℤ) % 2 ^ 64) = n := Int.emod_eq_of_lt (by omega) (by omega)
  refine ⟨(List.range n).map junk, ?_, by simp⟩
  rw [malloc, Int32.toInt_ofNat_of_lt hn, hmod, if_pos (by omega), Int.toNat_natCast]

/-- A string that fits is built. -/
theorem builds_of_fits (junk : ℕ → Char) (hs : nul ∉ s) (hold : nul ∉ old) (hnew : nul ∉ new)
    (hne : old ≠ []) (hus : Cuts old s us) (happlies : Applies s old)
    (hfits : Fits s old new us) : Builds junk s old new us := by
  obtain ⟨hlen, hsize⟩ := (fits_iff hus).mp hfits
  obtain ⟨n, hcount⟩ := count_total hs hold hne hlen hus
  obtain ⟨result, hmalloc, hresult⟩ := length_malloc junk hsize
  obtain ⟨m, hwrite⟩ := write_total hs hold hnew hne hlen hus hresult (hresult.trans_lt hsize)
  have htext : text (new.intercalate us ++ [nul]) = new.intercalate us := by
    have hnul : nul ∉ new.intercalate us := by
      rw [← written_eq_intercalate hne hus]
      exact fun hmem => (mem_written hmem).elim hnew hs
    exact text_append_nul hnul []
  refine ⟨max n m, Int32.ofNat ((new.intercalate us).length + 1), new.intercalate us ++ [nul],
    ?_, htext, ?_⟩
  · rw [replace, if_pos (applies_iff.mpr happlies)]
    simp only [Loop.run_mono hcount (Nat.le_max_left n m), size_eq hold hnew hus, hmalloc,
      Loop.run_mono hwrite (Nat.le_max_right n m)]
  · rw [htext, Int32.toInt_ofNat_of_lt hsize, Int.natCast_add, Int.natCast_one]

/-- Only such a string is. -/
theorem fits_of_builds {junk : ℕ → Char} (hs : nul ∉ s) (hus : Cuts old s us)
    (h : Builds junk s old new us) : Fits s old new us := by
  obtain ⟨fuel, size, block, hreplace, htext, hsize⟩ := h
  rw [fits_iff hus, ← htext]
  have hlt := size.toInt_lt
  refine ⟨?_, by omega⟩
  unfold replace at hreplace
  split at hreplace
  · split at hreplace
    · exact nomatch hreplace
    · exact nomatch hreplace
    · next v hcount =>
        have hi := count_done hs hcount
        have hv := v.i.toInt_lt
        omega
  · exact nomatch hreplace

/-- Every occurrence takes a character at least. -/
theorem gaps_le (hne : old ≠ []) (hus : Cuts old s us) : us.length - 1 ≤ s.length := by
  have hlength := hus.length_add []
  rw [List.length_nil, Nat.mul_zero] at hlength
  have hpos := Nat.le_mul_of_pos_right (us.length - 1) (List.length_pos_iff.mpr hne)
  omega

theorem length_intercalate_lt (hne : old ≠ []) (hus : Cuts old s us) (new : List Char) :
    (new.intercalate us).length < (s.length + 1) * (new.length + 1) := by
  have hlength := hus.length_add new
  have hmul := Nat.mul_le_mul_right new.length (gaps_le hne hus)
  rw [Nat.add_mul, Nat.mul_add, Nat.mul_one, Nat.one_mul]
  omega

/-- Nothing is done where nothing applies. -/
theorem replace_same (junk : ℕ → Char) (fuel : ℕ) (new : List Char) (h : ¬ Applies s old) :
    replace junk fuel s old new = some .same :=
  if_neg (applies_iff.not.mpr h)

/-- The buffer is sized right, and the occurrences are replaced in it, just
when the lengths fit an `int`. -/
theorem replace_sized_iff (junk : ℕ → Char) (hs : nul ∉ s) (hold : nul ∉ old) (hnew : nul ∉ new)
    (hne : old ≠ []) :
    ∃ us, (∀ vs, Cuts old s vs ↔ vs = us) ∧
      (Meets junk s old new us ↔ (Applies s old → Fits s old new us)) := by
  obtain ⟨us, hus, hunique⟩ := Cuts.existsUnique hne s
  refine ⟨us, fun vs => ⟨hunique vs, fun heq => heq ▸ hus⟩, ?_, ?_⟩
  · intro hmeets happlies
    exact fits_of_builds hs hus (hmeets.builds happlies)
  · intro hfits
    refine ⟨fun happlies => ?_, fun hnot => ⟨0, replace_same junk 0 new hnot⟩⟩
    exact builds_of_fits junk hs hold hnew hne hus happlies (hfits happlies)

/-- Odd runs: the third `$` is left over. -/
theorem replace_sized_iff_dollars : ∃ fuel size block,
    replace (fun _ => nul) fuel "a$$$b".toList "$$".toList "12".toList = some (.built size block) ∧
      text block = "a12$b".toList ∧ size.toInt = 6 := by
  have hne : "$$".toList ≠ [] := by decide
  have hs : nul ∉ "a$$$b".toList := by decide
  have hnew : nul ∉ "12".toList := by decide
  obtain ⟨us, hcuts, hmeets⟩ := replace_sized_iff (fun _ => nul) hs (by decide) hnew hne
  have hus := (hcuts us).mpr rfl
  have hfits : Fits "a$$$b".toList "$$".toList "12".toList us := by
    have hlt := length_intercalate_lt hne hus "12".toList
    exact (fits_iff hus).mpr ⟨by decide, Nat.lt_of_le_of_lt hlt (by decide)⟩
  obtain ⟨fuel, size, block, hreplace, htext, hsize⟩ :=
    (hmeets.mpr fun _ => hfits).builds ⟨by decide, by decide⟩
  have hstring : text block = "a12$b".toList := by
    rw [htext, ← written_eq_intercalate hne hus]
    decide
  rw [hstring] at hsize
  exact ⟨fuel, size, block, hreplace, hstring, hsize⟩

/-! ## A block that is too small -/

theorem dollars_succ (n : ℕ) :
    List.replicate (2 * (n + 1)) '$' = "$$".toList ++ List.replicate (2 * n) '$' := rfl

/-- A run of dollars is cut into nothing. -/
theorem cuts_dollars (n : ℕ) :
    Cuts "$$".toList (List.replicate (2 * n) '$') (List.replicate (n + 1) []) := by
  have hne : "$$".toList ≠ [] := by decide
  induction n with
  | zero => exact (Cuts.nil_iff hne).mpr rfl
  | succ n ih =>
      rw [dollars_succ, Cuts.hit_iff hne]
      exact ⟨List.replicate (n + 1) [], rfl, ih⟩

/-- A first occurrence that the block has no room for. -/
theorem replace_fault {junk : ℕ → Char} (hs : nul ∉ s) (hne : old ≠ []) (happlies : Applies s old)
    {post : List Char} (hsplit : s = old ++ post) {fuel : ℕ} {v : Count} {result : List Char}
    (hcount : Loop.run (countTurn s old) fuel ⟨0, 0⟩ = some (some v))
    (hmalloc : malloc junk (size old new v) = some result) (hsmall : result.length ≤ new.length) :
    replace junk (fuel + 1) s old new = some .fault := by
  obtain ⟨c, hc, hnul, hstr⟩ := at_hit hs hne (hsplit.trans (List.nil_append _).symm)
  have hstore : store result (0 : Int32).toInt (new ++ [nul]) = none := by
    refine if_neg fun hroom => ?_
    rw [List.length_append, List.length_singleton] at hroom
    omega
  have hturn : writeTurn s old new ⟨0, 0, result⟩ = .done none := by
    have hc' : charAt s 0 = some c := hc
    have hstr' : strstr (s.drop (0 : ℤ).toNat) old = some 0 := hstr
    simp only [writeTurn, hc', if_neg hnul, if_pos hstr', hstore]
  rw [replace, if_pos (applies_iff.mpr happlies)]
  simp only [Loop.run_mono hcount (Nat.le_succ fuel), hmalloc, Loop.run_done hturn]

/-- `2 ^ 16` occurrences are replaced by `2 ^ 16` characters each: the block
has one byte, and the first `strcpy` is outside of it. -/
theorem block_of_one_byte :
    (∀ us, Cuts "$$".toList (List.replicate (2 * 65536) '$') us →
      ¬ Meets (fun _ => nul) (List.replicate (2 * 65536) '$') "$$".toList
        (List.replicate 65536 '7') us) ∧
    (∃ fuel v, Loop.run (countTurn (List.replicate (2 * 65536) '$') "$$".toList) fuel ⟨0, 0⟩
      = some (some v) ∧ size "$$".toList (List.replicate 65536 '7') v = 1) ∧
    ∃ fuel, replace (fun _ => nul) fuel (List.replicate (2 * 65536) '$') "$$".toList
      (List.replicate 65536 '7') = some .fault := by
  have hne : "$$".toList ≠ [] := by decide
  have hold : nul ∉ "$$".toList := by decide
  have hus := cuts_dollars 65536
  have hgaps : (List.replicate (65536 + 1) ([] : List Char)).length - 1 = 65536 := by
    rw [List.length_replicate]
  have hlen : (List.replicate (2 * 65536) '$').length = 2 * 65536 := List.length_replicate
  have hcopy : (List.replicate 65536 '7').length = 65536 := List.length_replicate
  have hsplit : List.replicate (2 * 65536) '$' = "$$".toList ++ List.replicate (2 * 65535) '$' :=
    dollars_succ 65535
  have hdollar : ∀ {c}, c ∈ List.replicate (2 * 65536) '$' → c = '$' := List.eq_of_mem_replicate
  have hseven : ∀ {c}, c ∈ List.replicate 65536 '7' → c = '7' := List.eq_of_mem_replicate
  generalize List.replicate (2 * 65536) '$' = s at *
  generalize List.replicate 65536 '7' = new at *
  generalize List.replicate (65536 + 1) ([] : List Char) = us at *
  have hs : nul ∉ s := fun hmem => absurd (hdollar hmem) (by decide)
  have hnew : nul ∉ new := fun hmem => absurd (hseven hmem) (by decide)
  have happlies : Applies s "$$".toList :=
    ⟨fun hmem => absurd (hdollar hmem) (by decide), hsplit ▸ (List.prefix_append _ _).isInfix⟩
  have hlength : (new.intercalate us).length = 2 ^ 32 := by
    have hadd := hus.length_add new
    have htwo : "$$".toList.length = 2 := rfl
    rw [hgaps, hlen, hcopy, htwo] at hadd
    omega
  have hsize := size_eq hold hnew hus
  rw [hlength] at hsize
  obtain ⟨fuel, hcount⟩ := count_total hs hold hne (by omega) hus
  refine ⟨fun vs hvs hmeets => ?_, ⟨fuel, _, hcount, hsize⟩, fuel + 1, ?_⟩
  · obtain rfl := (Cuts.existsUnique hne s).unique hus hvs
    have hfits := (fits_iff hus).mp (fits_of_builds hs hus (hmeets.builds happlies))
    omega
  · have hmalloc : malloc (fun _ => nul) (size "$$".toList new ⟨Int32.ofNat s.length,
        Int32.ofNat (us.length - 1)⟩) = some [nul] := by
      rw [hsize]
      rfl
    exact replace_fault hs hne happlies hsplit hcount hmalloc (by rw [hcopy]; decide)

end Size

/-! ## In `special` -/

section Special

variable {s old new : List Char}

/-- The string that is returned. -/
def Outcome.string (s : List Char) : Outcome → Option (List Char)
  | .same => some s
  | .built _ block => some (text block)
  | .fault => none

/-- Where the lengths are small, `replace` returns the string of
`Sh2.replace`. -/
theorem replace_refines (junk : ℕ → Char) (hs : nul ∉ s) (hold : nul ∉ old) (hnew : nul ∉ new)
    (hne : old ≠ []) (hsmall : (s.length + 1) * (new.length + 1) < 2 ^ 31) :
    ∃ fuel, (replace junk fuel s old new).bind (Outcome.string s)
      = some (Sh2.replace s old new) := by
  by_cases happlies : Applies s old
  · obtain ⟨us, hus, -⟩ := Cuts.existsUnique hne s
    have hlt := length_intercalate_lt hne hus new
    have hle : s.length + 1 ≤ (s.length + 1) * (new.length + 1) :=
      Nat.le_mul_of_pos_right (s.length + 1) new.length.succ_pos
    have hfits : Fits s old new us := (fits_iff hus).mpr ⟨by omega, by omega⟩
    obtain ⟨fuel, size, block, hreplace, htext, -⟩ :=
      builds_of_fits junk hs hold hnew hne hus happlies hfits
    have hstring : Sh2.replace s old new = text block := by
      rw [Sh2.replace_eq_written happlies.1, written_eq_intercalate hne hus, htext]
    refine ⟨fuel, ?_⟩
    rw [hreplace, hstring]
    rfl
  · have hstring : Sh2.replace s old new = s := if_neg happlies
    refine ⟨0, ?_⟩
    rw [replace_same junk 0 new happlies, hstring]
    rfl

theorem length_replace_lt (hne : old ≠ []) (s new : List Char) :
    (Sh2.replace s old new).length < (s.length + 1) * (new.length + 1) := by
  unfold Sh2.replace
  split
  · obtain ⟨us, hus, -⟩ := Cuts.existsUnique hne s
    rw [written_eq_intercalate hne hus]
    exact length_intercalate_lt hne hus new
  · exact Nat.le_mul_of_pos_right (s.length + 1) new.length.succ_pos

/-- Both calls of `special`, on a token of a line and two numbers that
`char[10]` holds, return the string that `expand` goes on with. -/
theorem expand_refines (junk : ℕ → Char) {pid stat token : List Char} (htoken : nul ∉ token)
    (hlen : token.length < 1024) (hpid : nul ∉ pid) (hpidlen : pid.length < 10)
    (hstat : nul ∉ stat) (hstatlen : stat.length < 10) :
    (∃ fuel, (replace junk fuel token "$$".toList pid).bind (Outcome.string token)
      = some (Sh2.replace token "$$".toList pid)) ∧
    ∃ fuel, (replace junk fuel (Sh2.replace token "$$".toList pid) "$?".toList stat).bind
        (Outcome.string (Sh2.replace token "$$".toList pid))
      = some (Sh2.replace (Sh2.replace token "$$".toList pid) "$?".toList stat) := by
  have hne : "$$".toList ≠ [] := by decide
  have hfirst : (token.length + 1) * (pid.length + 1) ≤ 1024 * 10 :=
    Nat.mul_le_mul hlen hpidlen
  have hlt := length_replace_lt hne token pid
  have hsecond : ((Sh2.replace token "$$".toList pid).length + 1) * (stat.length + 1)
      ≤ (1024 * 10) * 10 := Nat.mul_le_mul (by omega) hstatlen
  have hnul : nul ∉ Sh2.replace token "$$".toList pid := by
    unfold Sh2.replace
    split
    · exact fun hmem => (mem_written hmem).elim hpid htoken
    · exact htoken
  exact ⟨replace_refines junk htoken (by decide) hpid hne (by omega),
    replace_refines junk hnul (by decide) hstat (by decide) (by omega)⟩

end Special

end Heap

end Sh2

end Comp4511
