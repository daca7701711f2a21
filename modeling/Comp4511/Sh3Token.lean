import Comp4511.Loops
import Comp4511.ShellLine
import Comp4511.Strtok

/-!
# The tokens of the third shell

`tokenize` of `ASS3/myshell.c` and its first use, the stages of a pipeline
in `process_cmd`. `tokenize` stores the first token before its loop and
counts it whether there is one or not; the loop stores the others and the
`NULL` behind them. The tokens are places in the buffer, as `strtok` gives
them; the vector is what has been stored, from `argv[0]` on.

`tokenize_words` and `tokenize_delimiters` are all that callers use: the
words of the line, or two `NULL`s with the value `1` where it has none. The
characters around the line stay as they are.
-/

namespace Comp4511

open CStr

namespace Sh3

def maxArg : ℕ := 256

def maxPipe : ℕ := 127

/-- The loop of `tokenize`: the entries of `argv` below `argc`, and where
`strtok` is. -/
structure Scan where
  argv : List (Option ℕ)
  buf : List Char
  save : ℕ
deriving Repr, DecidableEq

/-- What `tokenize` leaves: the entries of `argv` it has written, its value
and the buffer. -/
structure Tokens where
  argv : List (Option ℕ)
  argc : ℕ
  buf : List Char
deriving Repr, DecidableEq

/-- One turn of the loop of `tokenize`. -/
def tokenizeTurn (delimiter : List Char) (s : Scan) : Loop.Turn Scan Tokens :=
  if s.argv.length < maxArg then
    let r := strtok delimiter s.buf s.save
    match r.token with
    | none => .done ⟨s.argv ++ [none], s.argv.length, r.buf⟩
    | some p =>
        -- after `argc--` and `argc++` the next token takes the same entry
        if strlen (r.buf.drop p) = 0 then .again ⟨s.argv, r.buf, r.save⟩
        else .again ⟨s.argv ++ [some p], r.buf, r.save⟩
  else .done ⟨s.argv, s.argv.length, s.buf⟩

/-- `tokenize` of the string at place `line` of a buffer. -/
def tokenize (delimiter buf : List Char) (line : ℕ) : Option Tokens :=
  let r := strtok delimiter buf line
  Loop.run (tokenizeTurn delimiter) (buf.length + 1) ⟨[r.token], r.buf, r.save⟩

/-- The strings of the entries; `none` is `NULL`. -/
def Tokens.strings (r : Tokens) : List (Option (List Char)) :=
  r.argv.map (·.map (stringAt r.buf))

/-! ## The loop -/

section Tokenize

variable {delimiter line w : List Char} {ws : List (List Char)}

/-- A turn that stores a token. -/
theorem tokenizeTurn_some {argv : List (Option ℕ)} {buf buf' : List Char} {save save' p : ℕ}
    (hlt : argv.length < maxArg) (hcut : strtok delimiter buf save = ⟨some p, buf', save'⟩)
    (hne : stringAt buf' p ≠ []) :
    tokenizeTurn delimiter ⟨argv, buf, save⟩ = .again ⟨argv ++ [some p], buf', save'⟩ := by
  have hlen : strlen (buf'.drop p) ≠ 0 := fun hzero => hne (List.length_eq_zero_iff.mp hzero)
  rw [tokenizeTurn, if_pos hlt, hcut]
  exact if_neg hlen

theorem ne_nil_of_words (hwords : words (· ∈ delimiter) line = w :: ws) : w ≠ [] := by
  rintro rfl
  exact nil_notMem_words line (hwords ▸ List.mem_cons_self ..)

/-- The loop stores the words of what is left of the line. -/
theorem run_tokenizeTurn (hwords : words (· ∈ delimiter) line = ws) (hnul : nul ∉ line)
    (before rest : List Char) (argv : List (Option ℕ)) {n : ℕ} (hn : ws.length < n)
    (hfew : argv.length + ws.length < maxArg) :
    ∃ (toks : List ℕ) (line' : List Char), Loop.run (tokenizeTurn delimiter) n
        ⟨argv, before ++ line ++ nul :: rest, before.length⟩
        = some ⟨argv ++ toks.map some ++ [none], argv.length + ws.length,
            before ++ line' ++ nul :: rest⟩ ∧
      line'.length = line.length ∧
      Placed (before ++ line' ++ nul :: rest) before.length (before ++ line).length toks ws := by
  induction ws generalizing line before argv n with
  | nil =>
      obtain ⟨n, rfl⟩ : ∃ m, n = m + 1 := ⟨n - 1, by omega⟩
      have hdelim : ∀ c ∈ line, c ∈ delimiter := by simpa using words_eq_nil_iff.mp hwords
      have hturn : tokenizeTurn delimiter ⟨argv, before ++ line ++ nul :: rest, before.length⟩
          = .done ⟨argv ++ [none], argv.length, before ++ line ++ nul :: rest⟩ := by
        rw [tokenizeTurn, if_pos (by simpa using hfew), strtok_none hdelim hnul]
      exact ⟨[], line, by rw [Loop.run_done hturn]; simp, rfl, placed_nil ..⟩
  | cons w ws ih =>
      obtain ⟨n, rfl⟩ : ∃ m, n = m + 1 := ⟨n - 1, by omega⟩
      rw [List.length_cons] at hn hfew
      obtain ⟨p, done, line₁, hcut, hwords₁, hnul₁, hlen, hp, hle, hlt, hkeep⟩ :=
        strtok_word hwords hnul before rest
      have hturn := tokenizeTurn_some (show argv.length < maxArg by omega) hcut
        (by rw [hkeep line₁ rfl]; exact ne_nil_of_words hwords)
      obtain ⟨toks, line₂, hrun, hlen₂, hplaced⟩ := ih hwords₁ hnul₁ (before ++ done)
        (argv ++ [some p]) (show ws.length < n by omega) (by
          rw [List.length_append, List.length_singleton]
          omega)
      refine ⟨p :: toks, done ++ line₂, ?_, by simp [hlen₂, ← hlen], ?_⟩
      · rw [Loop.run_again hturn, hrun]
        simp [Nat.add_comm, Nat.add_left_comm]
      · have hend : (before ++ done ++ line₁).length = (before ++ line).length := by
          simp only [List.length_append]
          omega
        rw [hend] at hplaced
        rw [← List.append_assoc before done]
        exact hplaced.cons (hkeep line₂ hlen₂) hp hle hlt (by simp [← hlen])

theorem Tokens.strings_of_placed {toks : List ℕ} {buf : List Char} {first last argc : ℕ}
    (h : Placed buf first last toks ws) :
    Tokens.strings ⟨toks.map some ++ [none], argc, buf⟩ = ws.map some ++ [none] := by
  rw [← h.strings]
  simp [Tokens.strings]

/-- `tokenize` of a line that has a word. -/
theorem tokenize_words (hwords : words (· ∈ delimiter) line = w :: ws) (hnul : nul ∉ line)
    (hfew : (w :: ws).length < maxArg) (before rest : List Char) :
    ∃ (toks : List ℕ) (line' : List Char),
      tokenize delimiter (before ++ line ++ nul :: rest) before.length
        = some ⟨toks.map some ++ [none], (w :: ws).length, before ++ line' ++ nul :: rest⟩ ∧
      line'.length = line.length ∧
      Placed (before ++ line' ++ nul :: rest) before.length (before ++ line).length toks
        (w :: ws) := by
  obtain ⟨p, done, line₁, hcut, -, -, -, -, -, -, hkeep⟩ := strtok_word hwords hnul before rest
  -- the call before the loop is a turn with an empty `argv`
  have hturn := tokenizeTurn_some (show ([] : List (Option ℕ)).length < maxArg by decide) hcut
    (by rw [hkeep line₁ rfl]; exact ne_nil_of_words hwords)
  have hfuel : (w :: ws).length < (before ++ line ++ nul :: rest).length + 1 + 1 := by
    have hplaces := length_words_le (p := (· ∈ delimiter)) line
    rw [hwords] at hplaces
    simp only [List.length_append]
    omega
  obtain ⟨toks, line', hrun, hlen, hplaced⟩ := run_tokenizeTurn hwords hnul before rest [] hfuel
    (by rwa [List.length_nil, Nat.zero_add])
  refine ⟨toks, line', ?_, hlen, hplaced⟩
  rw [Loop.run_again hturn, List.nil_append, List.nil_append, List.length_nil, Nat.zero_add] at hrun
  rw [tokenize, hcut]
  exact hrun

/-- `tokenize` of a line without one: the first token is `NULL`, and counts. -/
theorem tokenize_delimiters (hdelim : ∀ c ∈ line, c ∈ delimiter) (hnul : nul ∉ line)
    (before rest : List Char) :
    tokenize delimiter (before ++ line ++ nul :: rest) before.length
      = some ⟨[none, none], 1, before ++ line ++ nul :: rest⟩ := by
  have hcut := strtok_none hdelim hnul before rest
  have hnext : strtok delimiter (before ++ line ++ nul :: rest) (before ++ line).length
      = ⟨none, before ++ line ++ nul :: rest, (before ++ line).length⟩ := by
    have hempty : strtok delimiter (before ++ line ++ [] ++ nul :: rest) (before ++ line).length
        = _ := strtok_none (by simp) (by simp) (before ++ line) rest
    simpa using hempty
  have hturn : tokenizeTurn delimiter
      ⟨[none], before ++ line ++ nul :: rest, (before ++ line).length⟩
      = .done ⟨[none, none], 1, before ++ line ++ nul :: rest⟩ := by
    have hlt : 1 < maxArg := by decide
    simp only [tokenizeTurn, List.length_singleton, if_pos hlt, hnext]
    rfl
  rw [tokenize, hcut, Loop.run_done hturn]

/-- The value is the number of the words, the entries are the words, and
`NULL` stands behind them. -/
def Splits (delimiter line : List Char) (r : Tokens) : Prop :=
  r.argc = (words (· ∈ delimiter) line).length ∧
    r.strings = (words (· ∈ delimiter) line).map some ++ [none]

/-- `tokenize` of a line with few enough words splits it just when it has
one. -/
theorem tokenize_splits_iff (delimiter line : List Char) (hnul : nul ∉ line)
    (hfew : (words (· ∈ delimiter) line).length < maxArg) (before rest : List Char) :
    (∃ r, tokenize delimiter (before ++ line ++ nul :: rest) before.length = some r ∧
        Splits delimiter line r) ↔
      ∃ c ∈ line, c ∉ delimiter := by
  rcases hwords : words (· ∈ delimiter) line with - | ⟨w, ws⟩
  · have hdelim : ∀ c ∈ line, c ∈ delimiter := by simpa using words_eq_nil_iff.mp hwords
    rw [tokenize_delimiters hdelim hnul]
    refine iff_of_false ?_ (by simpa using hdelim)
    rintro ⟨r, hr, hargc, -⟩
    rw [← Option.some.inj hr, hwords] at hargc
    exact nomatch hargc
  · obtain ⟨toks, line', htokens, -, hplaced⟩ :=
      tokenize_words hwords hnul (hwords ▸ hfew) before rest
    refine iff_of_true ⟨_, htokens, ?_, ?_⟩ ?_
    · rw [hwords]
    · rw [hwords]
      exact Tokens.strings_of_placed hplaced
    · by_contra hno
      have hdelim : ∀ c ∈ line, decide (c ∈ delimiter) = true := by simpa using hno
      rw [words_of_forall hdelim] at hwords
      exact nomatch hwords

theorem tokenize_splits_iff_ls : ∃ r,
    tokenize " \t".toList (" ls\t-l".toList ++ [nul]) 0 = some r ∧
      Splits " \t".toList " ls\t-l".toList r := by
  have hiff := tokenize_splits_iff " \t".toList " ls\t-l".toList (by decide) (by decide) [] []
  exact hiff.mpr ⟨'l', by simp, by decide⟩

/-- The line that is left of a lone `&`, and a stage that is a blank. -/
theorem no_token_counts :
    (tokenize ['|'] [nul] 0 = some ⟨[none, none], 1, [nul]⟩ ∧
      ¬ ∃ r, tokenize ['|'] [nul] 0 = some r ∧ Splits ['|'] [] r) ∧
    (tokenize " \t".toList [' ', nul] 0 = some ⟨[none, none], 1, [' ', nul]⟩ ∧
      ¬ ∃ r, tokenize " \t".toList [' ', nul] 0 = some r ∧ Splits " \t".toList " ".toList r) := by
  have hempty : tokenize ['|'] [nul] 0 = some ⟨[none, none], 1, [nul]⟩ := by decide
  have hblank : tokenize " \t".toList [' ', nul] 0 = some ⟨[none, none], 1, [' ', nul]⟩ := by
    decide
  refine ⟨⟨hempty, ?_⟩, hblank, ?_⟩
  · rintro ⟨r, hr, hargc, -⟩
    rw [← Option.some.inj (hempty.symm.trans hr)] at hargc
    exact absurd hargc (by decide)
  · rintro ⟨r, hr, hargc, -⟩
    rw [← Option.some.inj (hblank.symm.trans hr)] at hargc
    exact absurd hargc (by decide)

end Tokenize

/-! ## The stages of a pipeline -/

/-- `process_cmd` up to its call of `tokenize`, on the buffer `cmdline`: a
`&` at the end makes a background command and is taken off. -/
def pipeCommand (cmdline : List Char) : Option (Bool × Tokens) :=
  let last := strlen cmdline - 1
  if cmdline[last]? = some '&' then
    (tokenize ['|'] (cmdline.set last nul) 0).map (true, ·)
  else (tokenize ['|'] cmdline 0).map (false, ·)

/-- A line without the `&` at its end. -/
def foreground (line : List Char) : List Char :=
  if line.getLast? = some '&' then line.dropLast else line

/-- What stands between the bars of a line. -/
def stages (line : List Char) : List (List Char) := words (· ∈ ['|']) (foreground line)

section Stages

variable {line : List Char}

theorem foreground_sublist (line : List Char) : (foreground line).Sublist line := by
  unfold foreground
  split
  · exact List.dropLast_sublist line
  · exact .refl line

/-- The string that is cut into stages. -/
theorem pipeCommand_eq (hne : line ≠ []) (hnul : nul ∉ line) (rest : List Char) :
    ∃ rest', pipeCommand (line ++ nul :: rest)
      = (tokenize ['|'] (foreground line ++ nul :: rest') 0).map
          (decide (line.getLast? = some '&'), ·) := by
  obtain ⟨l, c, rfl⟩ := (List.eq_nil_or_concat' line).resolve_left hne
  have hlen : strlen (l ++ [c] ++ nul :: rest) - 1 = l.length := by
    rw [strlen, text_append_nul hnul]
    simp
  have hlast : (l ++ [c] ++ nul :: rest)[l.length]? = some c := by simp
  rw [pipeCommand]
  simp only [hlen, hlast, Option.some.injEq, foreground, List.getLast?_concat]
  by_cases hc : c = '&'
  · refine ⟨nul :: rest, ?_⟩
    simp [hc]
  · exact ⟨rest, by simp [hc]⟩

/-- The entries that are written for a line: its stages and a `NULL`, or
two `NULL`s. -/
theorem length_pipeCommand (hne : line ≠ []) (hnul : nul ∉ line)
    (hfew : (stages line).length < maxArg) (rest : List Char) :
    ∃ bg r, pipeCommand (line ++ nul :: rest) = some (bg, r) ∧
      r.argv.length = max (stages line).length 1 + 1 := by
  obtain ⟨rest', hpipe⟩ := pipeCommand_eq hne hnul rest
  have hnul' : nul ∉ foreground line := fun hmem => hnul ((foreground_sublist line).subset hmem)
  rw [hpipe]
  rcases hwords : stages line with - | ⟨w, ws⟩
  · have hdelim : ∀ c ∈ foreground line, c ∈ ['|'] := by
      simpa using words_eq_nil_iff.mp hwords
    have htokens := tokenize_delimiters hdelim hnul' [] rest'
    rw [List.nil_append] at htokens
    exact ⟨_, _, by rw [List.length_nil] at htokens; rw [htokens]; rfl, rfl⟩
  · rw [hwords] at hfew
    obtain ⟨toks, line', htokens, -, hplaced⟩ := tokenize_words hwords hnul' hfew [] rest'
    rw [List.nil_append, List.length_nil] at htokens
    refine ⟨_, _, by rw [htokens]; rfl, ?_⟩
    have hlen := congrArg List.length hplaced.strings
    simp only [List.length_map, List.length_cons] at hlen
    simp [hlen]

theorem length_of_getCmdLine {stdin rest : List Char}
    (h : getCmdLine stdin = (.line line, rest)) (old : List Char) :
    ∃ bg r, pipeCommand (line ++ nul :: old) = some (bg, r) ∧
      r.argv.length = max (stages line).length 1 + 1 := by
  obtain ⟨htrim, hnul, hlen⟩ := trimmed_of_getCmdLine h
  have hplaces := length_words_le (p := (· ∈ ['|'])) (foreground line)
  have hle := (foreground_sublist line).length_le
  refine length_pipeCommand htrim.ne_nil hnul ?_ old
  unfold stages maxArg
  unfold maxCmdlineLen at hlen
  omega

/-- The stages of a line that `get_cmd_line` delivers fit into
`pipe_command`, with the `NULL` behind them, just when they are fewer than
its entries. -/
theorem pipe_command_within_iff {stdin rest line : List Char}
    (h : getCmdLine stdin = (.line line, rest)) (old : List Char) :
    (∃ bg r, pipeCommand (line ++ nul :: old) = some (bg, r) ∧ r.argv.length ≤ maxPipe) ↔
      (stages line).length < maxPipe := by
  obtain ⟨bg, r, hpipe, hr⟩ := length_of_getCmdLine h old
  constructor
  · rintro ⟨bg', r', hpipe', hfit⟩
    rw [← (Prod.mk.inj (Option.some.inj (hpipe.symm.trans hpipe'))).2, hr] at hfit
    omega
  · intro hstages
    refine ⟨bg, r, hpipe, ?_⟩
    unfold maxPipe at hstages ⊢
    omega

theorem pipe_command_within_iff_ls : ∃ bg r,
    pipeCommand ("ls|wc &".toList ++ [nul]) = some (bg, r) ∧ r.argv.length ≤ maxPipe := by
  have hget : getCmdLine " ls|wc &\n".toList = (.line "ls|wc &".toList, []) := by decide
  exact (pipe_command_within_iff hget []).mpr (by decide)

/-- A line of 127 stages. -/
def manyStages : List Char := (List.replicate 126 "a|".toList).flatten ++ "a".toList

theorem words_replicate (n : ℕ) :
    words (· ∈ ['|']) ((List.replicate n "a|".toList).flatten ++ "a".toList)
      = List.replicate (n + 1) "a".toList := by
  induction n with
  | zero => exact words_word (by decide) (by simp)
  | succ n ih =>
      have hcons : words (· ∈ ['|']) ("a".toList ++ '|' ::
          ((List.replicate n "a|".toList).flatten ++ "a".toList)) = _ :=
        words_word_append (by decide) (by simp) (by simp)
      rw [List.tail_cons, ih] at hcons
      exact hcons

theorem stages_overrun : getCmdLine (manyStages ++ "\n".toList) = (.line manyStages, []) ∧
    ¬ ∃ bg r, pipeCommand (manyStages ++ [nul]) = some (bg, r) ∧ r.argv.length ≤ maxPipe := by
  have hget : getCmdLine (manyStages ++ "\n".toList) = (.line manyStages, []) := by
    decide +kernel
  have hlast : manyStages.getLast? ≠ some '&' := by
    rw [manyStages, List.getLast?_append]
    decide
  have hstages : stages manyStages = List.replicate 127 "a".toList := by
    rw [stages, foreground, if_neg hlast, manyStages, words_replicate]
  refine ⟨hget, ?_⟩
  rintro ⟨bg, r, hpipe, hfit⟩
  obtain ⟨bg', r', hpipe', hr⟩ := length_of_getCmdLine hget []
  rw [← (Prod.mk.inj (Option.some.inj (hpipe'.symm.trans hpipe))).2, hr, hstages,
    List.length_replicate] at hfit
  exact absurd hfit (by decide)

end Stages

end Sh3

end Comp4511
