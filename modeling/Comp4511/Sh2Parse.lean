import Comp4511.Loops
import Comp4511.ShellLine

/-!
# The tokens of a line

`parse` of the second shell cuts a line into tokens at the blanks that are
not quoted, with one toggle for both kinds of quotes. It is one loop over
the line; the pair of its indices is the index `i` and the characters that
are in `token` so far.

`segments` is what the tokens should be, by the number of quotes before
each position. The invariant of the loop (`Cut`) says that the tokens so far
are the segments of an initial part of the line, and that the token in work
is the beginning of the next; `parse_eq` is assembled from it.
-/

namespace Comp4511

open CStr

namespace Sh2

def singleQuote : Char := Char.ofNat 39

def doubleQuote : Char := Char.ofNat 34

def isQuote (c : Char) : Bool := c = singleQuote ∨ c = doubleQuote

/-! ## The loop -/

/-- The variables of the loop; `j` is the length of `token`, `argc` that of
`argv`. -/
structure Scan where
  i : ℕ
  token : List Char
  quote : ℤ
  argv : List (List Char)

/-- One turn of the loop of `parse`. `none` is an access outside the
string. -/
def parseTurn (cmdline : List Char) (s : Scan) :
    Loop.Turn Scan (Option (List (List Char))) :=
  if s.i < maxCmdlineLen then
    match cmdline[s.i]? with
    | none => .done none
    | some c =>
        let quote := if isQuote c then s.quote * -1 else s.quote
        if blank c ∧ quote = 1 then
          -- the blanks are skipped, and the next turn starts a token
          match scanUp blank (cmdline.drop s.i) with
          | none => .done none
          | some k => .again ⟨s.i + k, [], quote, s.argv ++ [s.token]⟩
        else if c = nul then .done (some (s.argv ++ [s.token]))
        else .again ⟨s.i + 1, s.token ++ [c], quote, s.argv⟩
  else .done (some s.argv)

/-- What `parse` leaves: the entries of `argv` it has written, from `0` on,
and its value. -/
structure Parsed where
  argv : List (Option (List Char))
  background : ℕ
deriving Repr, DecidableEq

/-- The end of `parse`, after the loop. -/
def finish (argv : List (List Char)) : Option Parsed :=
  match argv.getLast? with
  | none => none
  | some token =>
      if token = "&".toList then some ⟨argv.dropLast.map some ++ [none], 1⟩
      else some ⟨argv.map some ++ [none], 0⟩

/-- `parse`; `none` is an access outside the line, or `argv[-1]`. -/
def parse (cmdline : List Char) : Option Parsed :=
  match Loop.run (parseTurn (cmdline ++ [nul])) (maxCmdlineLen + 1) ⟨0, [], 1, []⟩ with
  | some (some argv) => finish argv
  | _ => none

/-! ## The segments of a line -/

/-- An odd number of quotes. -/
def odd (l : List Char) : Bool := l.countP isQuote % 2 = 1

/-- There is an odd number of quotes at or before position `i`. -/
def quoted (line : List Char) (i : ℕ) : Bool := odd (line.take (i + 1))

/-- A blank that is not quoted, with its position. -/
def separates (line : List Char) (x : Char × ℕ) : Bool := blank x.1 && !quoted line x.2

/-- The maximal parts of a line between blanks that are not quoted. -/
def segments (line : List Char) : List (List Char) :=
  (words (separates line) line.zipIdx).map (·.map Prod.fst)

section Positions

variable {line : List Char} {A B : List (Char × ℕ)} {x : Char × ℕ}

theorem map_fst_zipIdx (l : List Char) : l.zipIdx.map Prod.fst = l := by
  simp

theorem take_of_zipIdx (h : line.zipIdx = A ++ x :: B) :
    line.take (x.2 + 1) = A.map Prod.fst ++ [x.1] := by
  have hline : line = A.map Prod.fst ++ x.1 :: B.map Prod.fst := by
    have hmap := congrArg (List.map Prod.fst) h
    rwa [map_fst_zipIdx, List.map_append, List.map_cons] at hmap
  have hpos : x.2 = A.length := by
    have hget : line.zipIdx[A.length]? = some x := by rw [h]; simp
    rw [List.getElem?_zipIdx, Option.map_eq_some_iff] at hget
    obtain ⟨c, -, rfl⟩ := hget
    simp
  rw [hpos, hline, ← List.length_map Prod.fst, List.take_length_add_append]
  rfl

/-- The quotes that count for a position. -/
theorem separates_eq (h : line.zipIdx = A ++ x :: B) :
    separates line x = (blank x.1 && !odd (A.map Prod.fst ++ [x.1])) := by
  rw [separates, quoted, take_of_zipIdx h]

theorem odd_append_blanks {l bs : List Char} (h : ∀ c ∈ bs, blank c = true) :
    odd (l ++ bs) = odd l := by
  have hnone : bs.countP isQuote = 0 := by
    rw [List.countP_eq_zero]
    intro c hc
    rcases blank_iff.mp (h c hc) with rfl | rfl <;> decide
  rw [odd, odd, List.countP_append, hnone, Nat.add_zero]

theorem odd_concat (l : List Char) (c : Char) :
    odd (l ++ [c]) = if isQuote c then !odd l else odd l := by
  unfold odd
  by_cases hc : isQuote c = true
  · simp only [List.countP_append, List.countP_singleton, hc, if_true]
    by_cases h : l.countP isQuote % 2 = 1
    · simp [h]
      omega
    · simp [h]
      omega
  · simp [List.countP_append, hc]

end Positions

/-! ## Lines put together -/

theorem odd_append {u v : List Char} (hu : odd u = false) : odd (u ++ v) = odd v := by
  unfold odd at hu ⊢
  rw [List.countP_append, decide_eq_decide]
  rw [decide_eq_false_iff_not] at hu
  omega

section Block

variable {u v w sep rest : List Char}

/-- Quotes before a part of the line count for the positions in it. -/
theorem separates_append {A B : List (Char × ℕ)} {x : Char × ℕ} (h : v.zipIdx = A ++ x :: B) :
    separates (u ++ v) (x.1, u.length + x.2) =
      (blank x.1 && !odd (u ++ (A.map Prod.fst ++ [x.1]))) := by
  rw [separates, quoted, Nat.add_assoc, List.take_length_add_append, take_of_zipIdx h]

theorem separates_left {x : Char × ℕ} (hx : x ∈ u.zipIdx) :
    separates (u ++ v) x = separates u x := by
  have hlt : x.2 < u.length := by
    have hsnd := List.snd_lt_of_mem_zipIdx hx
    simpa using hsnd
  rw [separates, separates, quoted, quoted, List.take_append_of_le_length hlt]

/-- Behind an even number of quotes the line is cut as if it began there. -/
theorem words_right (hu : odd u = false) :
    (words (separates (u ++ v)) (v.zipIdx u.length)).map (·.map Prod.fst) = segments v := by
  have hcongr : words (fun x => separates (u ++ v) (x.1, u.length + x.2)) v.zipIdx
      = words (separates v) v.zipIdx := by
    refine words_congr fun x hx => ?_
    obtain ⟨A, B, hAB⟩ := List.append_of_mem hx
    rw [separates_append hAB, separates_eq hAB, odd_append hu]
  rw [List.zipIdx_eq_map_add, words_map]
  dsimp only
  rw [hcongr, segments, List.map_map]
  refine List.map_congr_left fun x _ => ?_
  simp

/-- A part of the line with no separator and an even number of quotes is a
segment, if blanks follow. -/
theorem segments_block (hw : w ≠ []) (hplain : ∀ x ∈ w.zipIdx, separates w x = false)
    (heven : odd w = false) (hsep : sep ≠ []) (hblank : ∀ c ∈ sep, blank c = true) :
    segments (w ++ sep ++ rest) = w :: segments rest := by
  have hzip : (w ++ sep ++ rest).zipIdx
      = w.zipIdx ++ sep.zipIdx w.length ++ rest.zipIdx (w ++ sep).length := by
    rw [List.zipIdx_append, List.zipIdx_append, Nat.zero_add, Nat.zero_add]
  have hfirst : ∀ x ∈ w.zipIdx, separates (w ++ sep ++ rest) x = false := by
    intro x hx
    rw [List.append_assoc, separates_left hx]
    exact hplain x hx
  have hrun : ∀ x ∈ sep.zipIdx w.length, separates (w ++ sep ++ rest) x = true := by
    rw [List.zipIdx_eq_map_add, List.forall_mem_map]
    intro x hx
    obtain ⟨A, B, hAB⟩ := List.append_of_mem hx
    have hmap := congrArg (List.map Prod.fst) hAB
    rw [map_fst_zipIdx, List.map_append, List.map_cons] at hmap
    have hblanks : ∀ c ∈ A.map Prod.fst ++ [x.1], blank c = true := by
      intro c hc
      refine hblank c (hmap ▸ ?_)
      rw [← List.singleton_append, ← List.append_assoc]
      exact List.mem_append_left _ hc
    have hpos : (sep ++ rest).zipIdx = A ++ x :: (B ++ rest.zipIdx sep.length) := by
      rw [List.zipIdx_append, hAB]
      simp
    have hsepar := separates_append (u := w) hpos
    rw [odd_append_blanks hblanks, heven, hblanks x.1 (by simp)] at hsepar
    rw [List.append_assoc]
    exact hsepar
  have hcut : words (separates (w ++ sep ++ rest)) (w ++ sep ++ rest).zipIdx
      = w.zipIdx :: words (separates (w ++ sep ++ rest)) (rest.zipIdx (w ++ sep).length) := by
    obtain ⟨b, bs, hbs⟩ := List.exists_cons_of_ne_nil
      (l := sep.zipIdx w.length) (by simpa using hsep)
    rw [hbs, List.forall_mem_cons] at hrun
    have hline : (w ++ sep ++ rest).zipIdx
        = w.zipIdx ++ b :: (bs ++ rest.zipIdx (w ++ sep).length) := by
      rw [hzip, hbs]
      simp
    rw [hline, words_append_cons hrun.1, words_run_append hrun.2,
      words_word (by simpa using hw) hfirst]
    rfl
  have hright : odd (w ++ sep) = false := by rw [odd_append_blanks hblank, heven]
  rw [segments, hcut, List.map_cons, words_right hright, map_fst_zipIdx]

/-- A line that is one such part. -/
theorem segments_word (hw : w ≠ []) (hplain : ∀ x ∈ w.zipIdx, separates w x = false) :
    segments w = [w] := by
  rw [segments, words_word (by simpa using hw) hplain, List.map_singleton, map_fst_zipIdx]

end Block

/-- The toggle as `parse` keeps it. -/
def sign (l : List Char) : ℤ := if odd l then -1 else 1

theorem sign_concat (l : List Char) (c : Char) :
    sign (l ++ [c]) = if isQuote c then sign l * -1 else sign l := by
  rw [sign, odd_concat, sign]
  cases odd l <;> by_cases hc : isQuote c <;> simp [hc]

theorem sign_eq_one {l : List Char} : sign l = 1 ↔ odd l = false := by
  unfold sign
  cases odd l <;> simp

/-! ## The invariant of the loop -/

/-- The line is cut into a part that is done, the token in work, and the
rest. -/
structure Cut (line : List Char) (s : Scan) (done token rest : List (Char × ℕ)) : Prop where
  line_eq : line.zipIdx = done ++ token ++ rest
  index : s.i = (done ++ token).length
  token_eq : s.token = token.map Prod.fst
  quote : s.quote = sign ((done ++ token).map Prod.fst)
  argv : s.argv = (words (separates line) done).map (·.map Prod.fst)
  ended : done = [] ∨ ∃ d x, done = d ++ [x] ∧ separates line x = true
  inside : ∀ x ∈ token, separates line x = false
  begins : token = [] → ∃ x r, rest = x :: r ∧ blank x.1 = false

section Cut

variable {line : List Char} {s : Scan} {done token rest : List (Char × ℕ)}

theorem cut_start {c : Char} (hhead : line.head? = some c) (hblank : blank c = false) :
    Cut line ⟨0, [], 1, []⟩ [] [] line.zipIdx where
  line_eq := rfl
  index := rfl
  token_eq := rfl
  quote := rfl
  argv := by simp [words]
  ended := .inl rfl
  inside := nofun
  begins _ := by
    obtain ⟨l, rfl⟩ := List.head?_eq_some_iff.mp hhead
    exact ⟨(c, 0), l.zipIdx 1, by simp, hblank⟩

/-- The words up to the end of the token. -/
theorem Cut.words_append (h : Cut line s done token rest) (l : List (Char × ℕ)) :
    words (separates line) (done ++ l) =
      words (separates line) done ++ words (separates line) l := by
  rcases h.ended with rfl | ⟨d, x, rfl, hx⟩
  · simp [words]
  · have hend := words_append_cons (u := d) (v := []) hx
    rw [List.append_assoc, List.singleton_append, words_append_cons hx, hend]
    simp [words]

/-- A character that is not a separator goes to the token. -/
theorem Cut.push {x : Char × ℕ} (h : Cut line s done token (x :: rest))
    (hx : separates line x = false) :
    Cut line ⟨s.i + 1, s.token ++ [x.1], if isQuote x.1 then s.quote * -1 else s.quote, s.argv⟩
      done (token ++ [x]) rest where
  line_eq := by simpa using h.line_eq
  index := by simp [h.index, Nat.add_assoc]
  token_eq := by simp [h.token_eq]
  quote := by
    rw [← List.append_assoc, List.map_append, List.map_singleton, sign_concat, ← h.quote]
  argv := h.argv
  ended := h.ended
  inside y hy := by
    rcases List.mem_append.mp hy with hy | hy
    · exact h.inside y hy
    · rwa [List.mem_singleton.mp hy]
  begins hnil := by simp at hnil

/-- With a blank that is not quoted, all blanks that follow are not. -/
theorem Cut.separates_run {x : Char × ℕ} {bs r : List (Char × ℕ)}
    (h : Cut line s done token (x :: bs ++ r)) (hx : separates line x = true)
    (hbs : ∀ b ∈ bs, blank b.1 = true) : ∀ b ∈ x :: bs, separates line b = true := by
  have hline : line.zipIdx = (done ++ token) ++ x :: (bs ++ r) := by simpa using h.line_eq
  have hparts := hx
  rw [separates_eq hline, Bool.and_eq_true] at hparts
  obtain ⟨hblank, hodd⟩ := hparts
  have hnone : ∀ b ∈ x :: bs, blank b.1 = true := List.forall_mem_cons.mpr ⟨hblank, hbs⟩
  rw [odd_append_blanks (by simpa using hblank)] at hodd
  intro b hb
  obtain ⟨u, v, huv⟩ := List.append_of_mem hb
  have hpos : line.zipIdx = (done ++ token ++ u) ++ b :: (v ++ r) := by
    rw [h.line_eq, huv]
    simp
  have hu : ∀ c ∈ u.map Prod.fst ++ [b.1], blank c = true := by
    simp only [List.mem_append, List.mem_map, List.mem_singleton]
    rintro c (⟨y, hy, rfl⟩ | rfl)
    · exact hnone y (huv ▸ List.mem_append_left _ hy)
    · exact hnone b hb
  rw [separates_eq hpos, List.map_append, List.append_assoc, odd_append_blanks hu, hodd,
    hnone b hb]
  rfl

/-- A run of separators ends the token. -/
theorem Cut.cut {x y : Char × ℕ} {bs r : List (Char × ℕ)}
    (h : Cut line s done token (x :: bs ++ y :: r)) (hx : separates line x = true)
    (hbs : ∀ b ∈ bs, blank b.1 = true) (hy : blank y.1 = false) :
    Cut line ⟨s.i + (x :: bs).length, [], s.quote, s.argv ++ [s.token]⟩
      (done ++ token ++ x :: bs) [] (y :: r) := by
  have hrun := h.separates_run hx hbs
  have hblank : ∀ b ∈ x :: bs, blank b.1 = true := by
    refine List.forall_mem_cons.mpr ⟨?_, hbs⟩
    rw [separates, Bool.and_eq_true] at hx
    exact hx.1
  have htoken : token ≠ [] := by
    intro hnil
    obtain ⟨z, r', heq, hz⟩ := h.begins hnil
    obtain rfl := (List.cons.inj heq).1
    exact absurd (hblank _ (List.mem_cons_self ..)) (by simp [hz])
  refine ⟨?_, ?_, rfl, ?_, ?_, ?_, nofun, fun _ => ⟨y, r, rfl, hy⟩⟩
  · simpa using h.line_eq
  · simp [h.index]
    omega
  · have hmap : (done ++ token ++ x :: bs ++ []).map Prod.fst =
        (done ++ token).map Prod.fst ++ (x :: bs).map Prod.fst := by simp
    rw [h.quote, hmap, sign, sign, odd_append_blanks (by simpa using hblank)]
  · rw [List.append_assoc, h.words_append, words_append_cons hx, words_word htoken h.inside,
      words_of_forall fun b hb => hrun b (List.mem_cons_of_mem _ hb), h.argv, h.token_eq]
    simp
  · rcases List.eq_nil_or_concat (x :: bs) with hnil | ⟨d, z, heq⟩
    · exact nomatch hnil
    · refine .inr ⟨done ++ token ++ d, z, ?_, hrun z ?_⟩
      · rw [heq]
        simp
      · rw [heq]
        simp

theorem Cut.cmdline_eq (h : Cut line s done token rest) :
    line ++ [nul] = (done ++ token).map Prod.fst ++ (rest.map Prod.fst ++ [nul]) := by
  have hmap := congrArg (List.map Prod.fst) h.line_eq
  rw [map_fst_zipIdx] at hmap
  rw [hmap]
  simp

theorem Cut.getElem?_cmdline (h : Cut line s done token rest) :
    (line ++ [nul])[s.i]? = (rest.map Prod.fst ++ [nul]).head? := by
  rw [h.cmdline_eq, h.index, ← List.length_map Prod.fst, getElem?_length_append]

theorem Cut.drop_cmdline (h : Cut line s done token rest) :
    (line ++ [nul]).drop s.i = rest.map Prod.fst ++ [nul] := by
  rw [h.cmdline_eq, h.index, ← List.length_map Prod.fst, List.drop_left]

theorem Cut.le_length (h : Cut line s done token rest) : s.i ≤ line.length := by
  have hlen := congrArg List.length h.line_eq
  rw [List.length_zipIdx, List.length_append, ← h.index] at hlen
  omega

/-- At the end of the line the token is the last segment. -/
theorem Cut.segments_eq (h : Cut line s done token []) : segments line = s.argv ++ [s.token] := by
  have htoken : token ≠ [] := by
    intro hnil
    obtain ⟨y, r, heq, -⟩ := h.begins hnil
    exact nomatch heq
  rw [segments, h.line_eq, List.append_nil, h.words_append, words_word htoken h.inside, h.argv,
    h.token_eq]
  simp

theorem parseTurn_end (h : Cut line s done token []) (hlen : line.length < maxCmdlineLen) :
    parseTurn (line ++ [nul]) s = .done (some (s.argv ++ [s.token])) := by
  have hi : s.i < maxCmdlineLen := h.le_length.trans_lt hlen
  have hget : (line ++ [nul])[s.i]? = some nul := by simpa using h.getElem?_cmdline
  simp [parseTurn, hi, hget, blank_nul]

theorem parseTurn_again {x : Char × ℕ} (h : Cut line s done token (x :: rest))
    (hlen : line.length < maxCmdlineLen) (hnul : nul ∉ line)
    (hlast : ∃ c ∈ line.getLast?, blank c = false) :
    ∃ s' done' token' rest', parseTurn (line ++ [nul]) s = .again s' ∧ s.i < s'.i ∧
      Cut line s' done' token' rest' := by
  have hi : s.i < maxCmdlineLen := h.le_length.trans_lt hlen
  have hget : (line ++ [nul])[s.i]? = some x.1 := by simpa using h.getElem?_cmdline
  have hline : line = (done ++ token).map Prod.fst ++ (x :: rest).map Prod.fst := by
    have hmap := congrArg (List.map Prod.fst) h.line_eq
    rwa [map_fst_zipIdx, List.map_append] at hmap
  have hx : x.1 ≠ nul := by
    intro heq
    refine hnul (heq ▸ ?_)
    rw [hline]
    simp
  have hone : (if isQuote x.1 then s.quote * -1 else s.quote) = 1 ↔
      odd ((done ++ token).map Prod.fst ++ [x.1]) = false := by
    rw [h.quote, ← sign_concat, sign_eq_one]
  have hsep : separates line x = true ↔ blank x.1 = true ∧
      (if isQuote x.1 then s.quote * -1 else s.quote) = 1 := by
    rw [hone, separates_eq h.line_eq]
    simp
  by_cases hcut : separates line x = true
  · obtain ⟨hblank, hquote⟩ := hsep.mp hcut
    have hplain : isQuote x.1 = false := by
      rcases blank_iff.mp hblank with heq | heq <;> rw [heq] <;> decide
    -- the line does not end with a blank, so the run ends before it
    have hmore : ∃ z ∈ x :: rest, (fun z : Char × ℕ => blank z.1) z = false := by
      obtain ⟨c, hc, hnot⟩ := hlast
      rw [hline, List.getLast?_append, List.getLast?_eq_some_getLast (by simp), Option.some_or] at hc
      have hmem := List.getLast_mem (l := (x :: rest).map Prod.fst) (by simp)
      rw [Option.mem_some.mp hc] at hmem
      obtain ⟨z, hz, rfl⟩ := List.mem_map.mp hmem
      exact ⟨z, hz, hnot⟩
    obtain ⟨u, y, r, hrun, hu, hy⟩ := exists_run hmore
    cases u with
    | nil =>
        obtain rfl := (List.cons.inj hrun).1
        exact absurd hblank (by simp [hy])
    | cons x' bs =>
        rw [List.cons_append, List.cons.injEq] at hrun
        obtain ⟨rfl, rfl⟩ := hrun
        have hscan : scanUp blank ((line ++ [nul]).drop s.i) = some (x :: bs).length := by
          have hall : ∀ c ∈ (x :: bs).map Prod.fst, blank c = true := by simpa using hu
          rw [h.drop_cmdline, scanUp_append ⟨y.1, by simp, hy⟩, ← List.cons_append,
            List.map_append, List.takeWhile_append_of_pos hall]
          simp [show blank y.1 = false from hy]
        refine ⟨_, _, _, _, ?_, ?_, h.cut hcut (fun b hb => hu b (List.mem_cons_of_mem _ hb)) hy⟩
        · have hquote : s.quote = 1 := by simpa [hplain] using hquote
          simp only [parseTurn, hi, if_true, hget, hplain, Bool.false_eq_true, if_false, hblank,
            true_and, hscan, hquote]
        · simp
  · refine ⟨_, _, _, _, ?_, ?_, h.push (Bool.eq_false_iff.mpr hcut)⟩
    · simp only [parseTurn, hi, if_true, hget, if_neg (hsep.not.mp hcut), if_neg hx]
    · exact Nat.lt_succ_self _

end Cut

/-! ## The tokens are the segments -/

section Parse

variable {line : List Char}

/-- The loop ends with the segments of the line. -/
theorem run_parseTurn (h : Trimmed line) (hlen : line.length < maxCmdlineLen) (hnul : nul ∉ line) :
    Loop.run (parseTurn (line ++ [nul])) (maxCmdlineLen + 1) ⟨0, [], 1, []⟩ =
      some (some (segments line)) := by
  obtain ⟨c, hc, hblank⟩ := h.head
  have hkeep : ∀ s s', (∃ done token rest, Cut line s done token rest) →
      parseTurn (line ++ [nul]) s = .again s' →
      (∃ done token rest, Cut line s' done token rest) ∧
        line.length - s'.i < line.length - s.i := by
    rintro s s' ⟨done, token, rest, hcut⟩ hturn
    cases rest with
    | nil => exact nomatch (parseTurn_end hcut hlen).symm.trans hturn
    | cons x rest =>
        obtain ⟨t, done', token', rest', hagain, hlt, hcut'⟩ :=
          parseTurn_again hcut hlen hnul h.last
        obtain rfl := Loop.Turn.again.inj (hagain.symm.trans hturn)
        have hle := hcut'.le_length
        exact ⟨⟨done', token', rest', hcut'⟩, by omega⟩
  obtain ⟨s, r, ⟨done, token, rest, hcut⟩, hturn, hrun⟩ := Loop.run_total hkeep
    (n := maxCmdlineLen + 1) ⟨[], [], _, cut_start hc hblank⟩ (by simpa using by omega)
  cases rest with
  | nil =>
      obtain rfl := Loop.Turn.done.inj ((parseTurn_end hcut hlen).symm.trans hturn)
      rw [hrun, hcut.segments_eq]
  | cons x rest =>
      obtain ⟨t, _, _, _, hagain, -, -⟩ := parseTurn_again hcut hlen hnul h.last
      exact nomatch hagain.symm.trans hturn

theorem parse_eq (h : Trimmed line) (hlen : line.length < maxCmdlineLen) (hnul : nul ∉ line) :
    parse line = finish (segments line) := by
  rw [parse, run_parseTurn h hlen hnul]

theorem segments_ne_nil (h : Trimmed line) : segments line ≠ [] := by
  obtain ⟨c, hc, hblank⟩ := h.head
  obtain ⟨l, rfl⟩ := List.head?_eq_some_iff.mp hc
  have hwords : words (separates (c :: l)) (c :: l).zipIdx ≠ [] :=
    words_ne_nil ⟨(c, 0), by simp, by simp [separates, hblank]⟩
  simpa [segments] using hwords

theorem nil_notMem_segments : [] ∉ segments line := by
  intro hmem
  obtain ⟨w, hw, hnil⟩ := List.mem_map.mp hmem
  rw [List.map_eq_nil_iff] at hnil
  exact nil_notMem_words _ (hnil ▸ hw)

theorem mem_of_mem_segments {t : List Char} (ht : t ∈ segments line) {c : Char} (hc : c ∈ t) :
    c ∈ line := by
  obtain ⟨w, hw, rfl⟩ := List.mem_map.mp ht
  obtain ⟨x, hx, rfl⟩ := List.mem_map.mp hc
  have hzip := List.mem_map_of_mem (f := Prod.fst) (mem_of_mem_words hw hx)
  rwa [map_fst_zipIdx] at hzip

/-- `&` at the end is taken off, and the vector ends with `NULL`. -/
theorem finish_eq {argv : List (List Char)} (h : argv ≠ []) :
    finish argv = some (if argv.getLast? = some "&".toList then
      ⟨argv.dropLast.map some ++ [none], 1⟩ else ⟨argv.map some ++ [none], 0⟩) := by
  rw [finish, List.getLast?_eq_some_getLast h]
  dsimp only
  by_cases hlast : argv.getLast h = "&".toList
  · rw [if_pos hlast, if_pos (congrArg some hlast)]
  · rw [if_neg hlast, if_neg fun heq => hlast (Option.some.inj heq)]

/-- The size of `argv` in `main`. -/
def argvLen : ℕ := 128

/-- `parse` stores the segments of a line and tells whether there was an
`&` at its end. -/
theorem parse_segments (htrim : Trimmed line) (hnul : nul ∉ line) (hlen : line.length ≤ 1022)
    (hfew : (segments line).length < 128) :
    [] ∉ segments line ∧
    ((segments line).getLast? = some "&".toList →
      parse line = some ⟨(segments line).dropLast.map some ++ [none], 1⟩) ∧
    ((segments line).getLast? ≠ some "&".toList →
      parse line = some ⟨(segments line).map some ++ [none], 0⟩) ∧
    ∀ p, parse line = some p → p.argv.length ≤ argvLen := by
  have hparse := (parse_eq htrim (by unfold maxCmdlineLen; omega) hnul).trans
    (finish_eq (segments_ne_nil htrim))
  refine ⟨nil_notMem_segments, fun hlast => ?_, fun hlast => ?_, fun p hp => ?_⟩
  · rw [hparse, if_pos hlast]
  · rw [hparse, if_neg hlast]
  · rw [hparse] at hp
    obtain rfl := Option.some.inj hp
    split <;> simp [argvLen] <;> omega

theorem parse_segments_quoted : parse "echo 'a b'\t&".toList =
    some ⟨[some "echo".toList, some "'a b'".toList, none], 1⟩ := by
  have hsegments : segments "echo 'a b'\t&".toList
      = ["echo".toList, "'a b'".toList, "&".toList] := by
    decide
  have htrim : Trimmed "echo 'a b'\t&".toList := ⟨⟨'e', rfl, rfl⟩, '&', rfl, rfl⟩
  have hparse := (parse_segments htrim (by decide) (by decide) (by rw [hsegments]; decide)).2.1
  rw [hsegments] at hparse
  exact hparse rfl

/-- Lines that `get_cmd_line` delivers fit into `argv` of `main` just when
they have few enough segments. -/
theorem argv_within_iff {stdin rest line : List Char}
    (h : getCmdLine stdin = (.line line, rest)) :
    (∃ p, parse line = some p ∧ p.argv.length ≤ argvLen) ↔
      (segments line).length ≤ 127 ∨
        (segments line).length = 128 ∧ (segments line).getLast? = some "&".toList := by
  obtain ⟨htrim, hnul, hlen⟩ := trimmed_of_getCmdLine h
  have hne := segments_ne_nil htrim
  have hpos := List.length_pos_of_ne_nil hne
  rw [parse_eq htrim (by omega) hnul, finish_eq hne]
  by_cases hlast : (segments line).getLast? = some "&".toList
  · rw [if_pos hlast]
    simp only [Option.some.injEq, exists_eq_left', List.length_append, List.length_map,
      List.length_dropLast, List.length_singleton, argvLen, hlast, and_true]
    omega
  · rw [if_neg hlast]
    simp only [Option.some.injEq, exists_eq_left', List.length_append, List.length_map,
      List.length_singleton, argvLen, hlast, and_false, or_false]
    omega

theorem argv_within_iff_ls : ∃ p, parse "ls -l".toList = some p ∧ p.argv.length ≤ argvLen := by
  have hget : getCmdLine " ls -l\n".toList = (.line "ls -l".toList, []) := by decide
  refine (argv_within_iff hget).mpr (.inl ?_)
  decide

/-- A line of 128 words. -/
def manyWords : List Char := (List.replicate 127 "a ".toList).flatten ++ "a".toList

theorem segments_replicate (n : ℕ) :
    segments ((List.replicate n "a ".toList).flatten ++ "a".toList)
      = List.replicate (n + 1) "a".toList := by
  have hplain : ∀ x ∈ "a".toList.zipIdx, separates "a".toList x = false := by decide
  induction n with
  | zero => exact segments_word (by decide) hplain
  | succ n ih =>
      have hblock : segments ("a".toList ++ " ".toList ++
          ((List.replicate n "a ".toList).flatten ++ "a".toList)) = _ :=
        segments_block (by decide) hplain (by decide) (by decide) (by simp [blank])
      rw [ih] at hblock
      exact hblock

theorem argv_overrun : getCmdLine (manyWords ++ "\n".toList) = (.line manyWords, []) ∧
    ¬ ∃ p, parse manyWords = some p ∧ p.argv.length ≤ argvLen := by
  have hget : getCmdLine (manyWords ++ "\n".toList) = (.line manyWords, []) := by
    decide +kernel
  refine ⟨hget, ?_⟩
  rintro ⟨p, hp, hle⟩
  obtain ⟨htrim, hnul, hlen⟩ := trimmed_of_getCmdLine hget
  rw [parse_eq htrim (by omega) hnul, manyWords, segments_replicate] at hp
  have hlast : (List.replicate 128 "a".toList).getLast? ≠ some "&".toList := by
    rw [List.getLast?_replicate]
    decide
  rw [finish_eq (by simp), if_neg hlast] at hp
  rw [← Option.some.inj hp] at hle
  simp [argvLen] at hle

end Parse

end Sh2

end Comp4511
