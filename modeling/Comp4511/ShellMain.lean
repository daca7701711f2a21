import Comp4511.Sh2Special
import Comp4511.Sh2Step

/-!
# The prompt loops

`main` of both shells as a loop over standard input: one turn reads a
chunk, and what stands in it decides whether the shell goes on, leaves or
is in undefined behaviour. Commands come back, so the turn of a line that
is run ends at the prompt again.

At the end of its input `get_cmd_line` returns `-1`, the answer for an
empty line, and `main` goes round once more. So a loop ends just when a
chunk makes the shell leave (`Follows.exit_iff`), and on other input it
never does (`Follows.forever`).
-/

namespace Comp4511

open CStr

/-- How a shell is over. -/
inductive Over where
  | exit (code : ℕ)
  | fault
deriving Repr, DecidableEq

/-- What becomes of a shell that reads a chunk. -/
inductive Fate where
  | goesOn
  | leaves
  | faults
deriving Repr, DecidableEq

namespace Sh2

/-- The input, `child_status`, and the number of lines run so far. -/
structure Prompt where
  stdin : List Char
  childStatus : ℕ
  lines : ℕ

/-- The strings in `argv` up to the `NULL`. -/
def strings (argv : List (Option (List Char))) : List String :=
  (argv.takeWhile Option.isSome).filterMap fun t => t.map String.ofList

/-- What `main` has when it comes to the chain of comparisons, unless it is
over before. -/
inductive Entered where
  | line (l : Line)
  | over (o : Over)

/-- `get_cmd_line`, `parse` and `special`. -/
def enter (pid childStatus : ℕ) (stdin : List Char) : Entered × List Char :=
  match getCmdLine stdin with
  | (.fault, rest) => (.over .fault, rest)
  | (.exit _, rest) => (.over (.exit 1), rest)
  | (.empty, rest) => (.line .blank, rest)
  | (.line cmdline, rest) =>
      match parse cmdline with
      | none => (.over .fault, rest)
      | some p =>
          if argvLen < p.argv.length then (.over .fault, rest)
          else
            let argv := special (decimal pid) (decimal (wexitstatus childStatus)) p.argv
            (.line (.words (strings argv) (p.background = 1)), rest)

/-- One turn of the loop of `main`. Where it waits for the command on line
`k`, `answer k` is in `child_status` afterwards. -/
def mainTurn (pid : ℕ) (answer : ℕ → ℕ) (s : Prompt) : Loop.Turn Prompt Over :=
  match enter pid s.childStatus s.stdin with
  | (.over o, _) => .done o
  | (.line .blank, rest) => .again { s with stdin := rest }
  | (.line (.words argv background), rest) =>
      match dispatch argv background with
      | .exited => .done (.exit 0)
      | .prompt => .again { s with stdin := rest }
      | .fork false => .again ⟨rest, answer s.lines, s.lines + 1⟩
      | _ => .again ⟨rest, 0, s.lines + 1⟩

/-- A line that does not fit into `argv` faults, and one with `exit` as its
first word, in quotes or not, ends the shell. -/
def fate (chunk : List Char) : Fate :=
  match scanLine chunk with
  | .fault => .faults
  | .line cmdline =>
      if (segments cmdline).length ≤ 127 ∨ (segments cmdline).length = 128 ∧
          (segments cmdline).getLast? = some "&".toList then
        if (segments cmdline).head?.map (·.filter fun c => !isQuote c) = some "exit".toList then
          .leaves
        else .goesOn
      else .faults
  | _ => .goesOn

end Sh2

namespace Sh3

/-- One turn of the loop of `main` as far as its input goes: `ps`, `jobs` and
`process_cmd` are taken to come back. -/
def mainTurn (stdin : List Char) : Loop.Turn (List Char) Over :=
  match getCmdLine stdin with
  | (.fault, _) => .done .fault
  | (.exit _, _) => .done (.exit 1)
  | (.empty, rest) => .again rest
  | (.line _, rest) => .again rest

/-- The line `exit` ends the shell. -/
def fate (chunk : List Char) : Fate :=
  match scanLine chunk with
  | .fault => .faults
  | .line cmdline => if cmdline = "exit".toList then .leaves else .goesOn
  | _ => .goesOn

end Sh3

/-! ## Loops over the input -/

/-- A loop that takes one chunk of its input in each turn and does what is
the fate of the chunk. At the end of the input it goes round. -/
structure Follows {σ : Type*} (size : ℕ) (fate : List Char → Fate) (input : σ → List Char)
    (body : σ → Loop.Turn σ Over) : Prop where
  eof : ∀ s, input s = [] → ∃ s', body s = .again s' ∧ input s' = []
  turn : ∀ s chunk rest, fgets size (input s) = some (chunk, rest) →
    match fate chunk with
    | .goesOn => ∃ s', body s = .again s' ∧ input s' = rest
    | .leaves => ∃ code, body s = .done (.exit code)
    | .faults => body s = .done .fault

/-- All chunks of a stream. -/
def allChunks (size : ℕ) (stdin : List Char) : List (List Char) :=
  chunks size (fun _ => false) stdin.length stdin

/-- The first chunk with which a shell does not go on makes it leave. -/
def Ends (fate : List Char → Fate) (ks : List (List Char)) : Prop :=
  ∃ u chunk v, ks = u ++ chunk :: v ∧ (∀ c ∈ u, fate c = .goesOn) ∧ fate chunk = .leaves

section Follows

variable {σ : Type*} {size : ℕ} {fate : List Char → Fate} {input : σ → List Char}
  {body : σ → Loop.Turn σ Over} {s : σ}

/-- A chunk and the chunks of the rest. -/
theorem exists_chunk (hsize : 2 ≤ size) {stdin : List Char} (hne : stdin ≠ []) :
    ∃ chunk rest, fgets size stdin = some (chunk, rest) ∧ rest.length < stdin.length ∧
      ∀ n, chunks size (fun _ => false) (n + 1) stdin
        = chunk :: chunks size (fun _ => false) n rest := by
  obtain ⟨body, last, rest, hread, -, rfl⟩ := exists_fgets hsize hne
  refine ⟨_, rest, hread, ?_, fun n => by rw [chunks, hread]; rfl⟩
  simp only [List.length_append, List.length_singleton]
  omega

theorem ends_cons {chunk : List Char} {ks : List (List Char)} (h : fate chunk = .goesOn) :
    Ends fate (chunk :: ks) ↔ Ends fate ks := by
  constructor
  · rintro ⟨u, c, v, heq, hu, hc⟩
    cases u with
    | nil =>
        obtain ⟨rfl, -⟩ := List.cons.inj heq
        exact nomatch h.symm.trans hc
    | cons x u =>
        obtain ⟨-, rfl⟩ := List.cons.inj heq
        exact ⟨u, c, v, rfl, fun y hy => hu y (List.mem_cons_of_mem _ hy), hc⟩
  · rintro ⟨u, c, v, rfl, hu, hc⟩
    exact ⟨chunk :: u, c, v, rfl, List.forall_mem_cons.mpr ⟨h, hu⟩, hc⟩

theorem not_ends_cons {chunk : List Char} {ks : List (List Char)} (h : fate chunk = .faults) :
    ¬ Ends fate (chunk :: ks) := by
  rintro ⟨u, c, v, heq, hu, hc⟩
  cases u with
  | nil =>
      obtain ⟨rfl, -⟩ := List.cons.inj heq
      exact nomatch h.symm.trans hc
  | cons x u =>
      obtain ⟨rfl, -⟩ := List.cons.inj heq
      exact nomatch h.symm.trans (hu _ (List.mem_cons_self ..))

theorem Follows.exit_of_ends (h : Follows size fate input body) (hsize : 2 ≤ size) {n : ℕ}
    (hends : Ends fate (chunks size (fun _ => false) n (input s))) :
    ∃ m code, Loop.run body m s = some (.exit code) := by
  induction n generalizing s with
  | zero =>
      obtain ⟨u, c, v, heq, -⟩ := hends
      cases u <;> exact nomatch heq
  | succ n ih =>
      by_cases hne : input s = []
      · rw [hne, chunks_nil] at hends
        obtain ⟨u, c, v, heq, -⟩ := hends
        cases u <;> exact nomatch heq
      · obtain ⟨chunk, rest, hread, -, hchunks⟩ := exists_chunk hsize hne
        have hturn := h.turn s chunk rest hread
        rw [hchunks] at hends
        cases hfate : fate chunk with
        | goesOn =>
            rw [hfate] at hturn
            obtain ⟨s', hagain, hrest⟩ := hturn
            obtain ⟨m, code, hrun⟩ := ih (s := s') (hrest ▸ (ends_cons hfate).mp hends)
            exact ⟨m + 1, code, (Loop.run_again hagain).trans hrun⟩
        | leaves =>
            rw [hfate] at hturn
            obtain ⟨code, hdone⟩ := hturn
            exact ⟨1, code, Loop.run_done hdone⟩
        | faults => exact absurd hends (not_ends_cons hfate)

theorem Follows.ends_of_exit (h : Follows size fate input body) (hsize : 2 ≤ size) {m code : ℕ}
    (hrun : Loop.run body m s = some (.exit code)) {n : ℕ} (hn : (input s).length ≤ n) :
    Ends fate (chunks size (fun _ => false) n (input s)) := by
  induction m generalizing s n with
  | zero => exact nomatch hrun
  | succ m ih =>
      by_cases hne : input s = []
      · obtain ⟨s', hagain, hnil⟩ := h.eof s hne
        rw [Loop.run_again hagain] at hrun
        have hends := ih hrun (n := n) (by simp [hnil])
        rwa [hnil, ← hne] at hends
      · obtain ⟨chunk, rest, hread, hlt, hchunks⟩ := exists_chunk hsize hne
        have hturn := h.turn s chunk rest hread
        obtain ⟨k, rfl⟩ : ∃ k, n = k + 1 := ⟨n - 1, by omega⟩
        rw [hchunks]
        cases hfate : fate chunk with
        | goesOn =>
            rw [hfate] at hturn
            obtain ⟨s', hagain, rfl⟩ := hturn
            rw [Loop.run_again hagain] at hrun
            exact (ends_cons hfate).mpr (ih hrun (by omega))
        | leaves => exact ⟨[], chunk, _, rfl, nofun, hfate⟩
        | faults =>
            rw [hfate] at hturn
            rw [Loop.run_done hturn] at hrun
            exact nomatch hrun

theorem Follows.exit_iff (h : Follows size fate input body) (hsize : 2 ≤ size) (s : σ) :
    (∃ m code, Loop.run body m s = some (.exit code)) ↔
      Ends fate (allChunks size (input s)) := by
  constructor
  · rintro ⟨m, code, hrun⟩
    exact h.ends_of_exit hsize hrun (Nat.le_refl _)
  · exact h.exit_of_ends hsize

/-- A loop that goes on with every chunk goes on for ever. -/
theorem Follows.forever (h : Follows size fate input body) (hsize : 2 ≤ size)
    (hall : ∀ c ∈ allChunks size (input s), fate c = .goesOn) (m : ℕ) :
    Loop.run body m s = none := by
  refine Loop.run_eq_none (I := fun s => ∃ n, (input s).length ≤ n ∧
    ∀ c ∈ chunks size (fun _ => false) n (input s), fate c = .goesOn) ?_
    ⟨_, Nat.le_refl _, hall⟩ m
  rintro s ⟨n, hn, hgo⟩
  by_cases hne : input s = []
  · obtain ⟨s', hagain, hnil⟩ := h.eof s hne
    exact ⟨s', hagain, 0, by simp [hnil], by simp [chunks]⟩
  · obtain ⟨chunk, rest, hread, hlt, hchunks⟩ := exists_chunk hsize hne
    have hturn := h.turn s chunk rest hread
    obtain ⟨k, rfl⟩ : ∃ k, n = k + 1 := ⟨n - 1, by omega⟩
    rw [hchunks, List.forall_mem_cons] at hgo
    rw [hgo.1] at hturn
    obtain ⟨s', hagain, rfl⟩ := hturn
    exact ⟨s', hagain, k, by omega, hgo.2⟩

end Follows

/-! ## The two shells -/

namespace Sh3

theorem follows : Follows maxCmdlineLen fate id mainTurn where
  eof s hs := ⟨[], by simp [mainTurn, getCmdLine, getLine, fgets, show s = [] from hs], rfl⟩
  turn s chunk rest hread := by
    have hget : getCmdLine s = (leave (scanLine chunk), rest) := by
      rw [getCmdLine, getLine, show fgets maxCmdlineLen s = _ from hread]
    unfold fate mainTurn
    rw [hget]
    cases hline : scanLine chunk with
    | fault => rfl
    | empty => exact ⟨rest, rfl, rfl⟩
    | exit cmdline => exact absurd hline (scanLine_ne_exit chunk cmdline)
    | line cmdline =>
        by_cases hexit : cmdline = "exit".toList
        · simp only [leave, if_pos hexit]
          exact ⟨1, rfl⟩
        · simp only [leave, if_neg hexit]
          exact ⟨rest, rfl, rfl⟩

end Sh3

namespace Sh2

section Exit

variable {pid stat token : List Char}

theorem scan_of_notMem (h : '$' ∉ token) : scan pid stat token = token := by
  induction token with
  | nil => rfl
  | cons c token ih =>
      simp only [List.mem_cons, not_or] at h
      rw [scan, ih h.2]
      · rintro _ rfl
        exact absurd rfl h.1
      · rintro _ rfl
        exact absurd rfl h.1

/-- What is put in place of a `$` is a digit, if anything is. -/
theorem exists_mem_scan (hpid : ∃ c ∈ pid, c.isDigit = true) (hstat : ∃ c ∈ stat, c.isDigit = true)
    (h : '$' ∈ token) : ∃ c ∈ scan pid stat token, c = '$' ∨ c.isDigit = true := by
  induction token using scan.induct with
  | case1 => cases h
  | case2 s ih =>
      obtain ⟨c, hc, hdigit⟩ := hpid
      exact ⟨c, by simp [scan, hc], .inr hdigit⟩
  | case3 s ih =>
      obtain ⟨c, hc, hdigit⟩ := hstat
      exact ⟨c, by simp [scan, hc], .inr hdigit⟩
  | case4 c s hdollar hquestion ih =>
      have hscan : scan pid stat (c :: s) = c :: scan pid stat s := by
        rw [scan]
        · exact hdollar
        · exact hquestion
      rw [hscan]
      rcases List.mem_cons.mp h with rfl | h
      · exact ⟨_, List.mem_cons_self .., .inl rfl⟩
      · obtain ⟨d, hd, hkind⟩ := ih h
        exact ⟨d, List.mem_cons_of_mem _ hd, hkind⟩

/-- Neither expansion makes an `exit` of a token. -/
theorem expand_eq_exit_iff (n m : ℕ) (hnul : nul ∉ token) :
    expand (decimal n) (decimal m) token = "exit".toList ↔
      token.filter (fun c => !isQuote c) = "exit".toList := by
  by_cases hquote : singleQuote ∈ token
  · rw [expand_of_mem hnul hquote]
  rw [expand_of_notMem hnul (decimal_digits n) (decimal_digits m) hquote]
  by_cases hdollar : '$' ∈ token
  · refine iff_of_false (fun heq => ?_) (fun heq => ?_)
    · obtain ⟨c, hc, hkind⟩ :=
        exists_mem_scan (exists_mem_decimal n) (exists_mem_decimal m) hdollar
      have hne : c ≠ doubleQuote := by
        rintro rfl
        exact absurd hkind (by decide)
      have hmem : c ∈ (scan (decimal n) (decimal m) token).filter (· ≠ doubleQuote) :=
        List.mem_filter.mpr ⟨hc, decide_eq_true hne⟩
      rw [heq] at hmem
      have hletters : ∀ c ∈ "exit".toList, ¬ (c = '$' ∨ c.isDigit = true) := by
        simp
      exact hletters c hmem hkind
    · have hmem : '$' ∈ token.filter fun c => !isQuote c :=
        List.mem_filter.mpr ⟨hdollar, by decide⟩
      rw [heq] at hmem
      exact absurd hmem (by decide)
  · rw [scan_of_notMem hdollar]
    have hsame : token.filter (· ≠ doubleQuote) = token.filter fun c => !isQuote c := by
      refine List.filter_congr fun c hc => ?_
      have hc : c ≠ singleQuote := fun heq => hquote (heq ▸ hc)
      simp [isQuote, hc]
    rw [hsame]

/-- Where `main` goes with the tokens of a line. -/
theorem strings_special (tokens : List (List Char)) :
    strings (special pid stat (tokens.map some ++ [none])) =
      tokens.map fun t => String.ofList (expand pid stat t) := by
  rw [special_append, strings]
  induction tokens with
  | nil => rfl
  | cons t tokens ih => simp

theorem dispatch_eq_exited_iff {argv : List String} {background : Bool} :
    dispatch argv background = .exited ↔ argv.head? = some "exit" := by
  unfold dispatch
  split
  · simp
  · next cmd _ =>
      split_ifs <;> simp_all

end Exit

/-- The tokens that stay in `argv`. -/
def tokens (line : List Char) : List (List Char) :=
  if (segments line).getLast? = some "&".toList then (segments line).dropLast else segments line

section Turn

variable {line rest : List Char} {s : Prompt}

theorem parse_tokens (htrim : Trimmed line) (hlen : line.length < maxCmdlineLen)
    (hnul : nul ∉ line) :
    ∃ background, parse line = some ⟨(tokens line).map some ++ [none], background⟩ := by
  rw [parse_eq htrim hlen hnul, finish_eq (segments_ne_nil htrim), tokens]
  split
  · exact ⟨1, rfl⟩
  · exact ⟨0, rfl⟩

/-- An `&` that is taken off is not the first word of a line that is run. -/
theorem head?_tokens (n m : ℕ) (hnul : nul ∉ line) :
    ((tokens line).map fun t => String.ofList (expand (decimal n) (decimal m) t)).head? =
        some "exit" ↔
      (segments line).head?.map (·.filter fun c => !isQuote c) = some "exit".toList := by
  have hword : ∀ t ∈ segments line,
      (String.ofList (expand (decimal n) (decimal m) t) = "exit" ↔
        t.filter (fun c => !isQuote c) = "exit".toList) := by
    intro t ht
    rw [← expand_eq_exit_iff n m fun hmem => hnul (mem_of_mem_segments ht hmem)]
    constructor
    · intro heq
      rw [← heq, String.toList_ofList]
    · intro heq
      rw [heq]
      rfl
  unfold tokens
  cases hseg : segments line with
  | nil => simp
  | cons t ts =>
      rw [hseg] at hword
      have ht := hword t (List.mem_cons_self ..)
      split
      · next hlast =>
          cases ts with
          | nil =>
              obtain rfl : t = "&".toList := by simpa using hlast
              simp
              decide
          | cons u us => simpa using ht
      · simpa using ht

theorem length_tokens (htrim : Trimmed line) :
    ((tokens line).map some ++ [none]).length ≤ argvLen ↔
      (segments line).length ≤ 127 ∨ (segments line).length = 128 ∧
        (segments line).getLast? = some "&".toList := by
  have hpos := List.length_pos_of_ne_nil (segments_ne_nil htrim)
  rw [List.length_append, List.length_map, List.length_singleton, tokens, argvLen]
  split
  · next hlast =>
      simp only [hlast, and_true, List.length_dropLast]
      omega
  · next hlast =>
      simp only [hlast, and_false, or_false]
      omega

/-- The turn of a line that `get_cmd_line` delivers. -/
theorem mainTurn_line (pid : ℕ) (answer : ℕ → ℕ) (hget : getCmdLine s.stdin = (.line line, rest)) :
    if (segments line).length ≤ 127 ∨ (segments line).length = 128 ∧
        (segments line).getLast? = some "&".toList then
      if (segments line).head?.map (·.filter fun c => !isQuote c) = some "exit".toList then
        mainTurn pid answer s = .done (.exit 0)
      else ∃ s', mainTurn pid answer s = .again s' ∧ s'.stdin = rest
    else mainTurn pid answer s = .done .fault := by
  obtain ⟨htrim, hnul, hlen⟩ := trimmed_of_getCmdLine hget
  obtain ⟨background, hparse⟩ := parse_tokens htrim (by omega) hnul
  obtain ⟨argv, hargv⟩ : ∃ argv, argv = special (decimal pid)
      (decimal (wexitstatus s.childStatus)) ((tokens line).map some ++ [none]) := ⟨_, rfl⟩
  have hexit : dispatch (strings argv) (background = 1) = .exited ↔
      (segments line).head?.map (·.filter fun c => !isQuote c) = some "exit".toList := by
    rw [dispatch_eq_exited_iff, hargv, strings_special, head?_tokens _ _ hnul]
  have hfits := length_tokens htrim
  split_ifs with hfit hleave
  · have hin := Nat.not_lt.mpr (hfits.mpr hfit)
    simp only [mainTurn, enter, hget, hparse, if_neg hin, ← hargv, hexit.mpr hleave]
  · have hin := Nat.not_lt.mpr (hfits.mpr hfit)
    simp only [mainTurn, enter, hget, hparse, if_neg hin, ← hargv]
    split
    · next hexited => exact absurd (hexit.mp hexited) hleave
    · exact ⟨_, rfl, rfl⟩
    · exact ⟨_, rfl, rfl⟩
    · exact ⟨_, rfl, rfl⟩
  · have hout := Nat.lt_of_not_le (hfits.not.mpr hfit)
    simp only [mainTurn, enter, hget, hparse, if_pos hout]

end Turn

theorem follows (pid : ℕ) (answer : ℕ → ℕ) :
    Follows maxCmdlineLen fate Prompt.stdin (mainTurn pid answer) where
  eof s hs := by
    refine ⟨s, ?_, hs⟩
    obtain ⟨stdin, childStatus, lines⟩ := s
    obtain rfl : stdin = [] := hs
    rfl
  turn s chunk rest hread := by
    have hget : getCmdLine s.stdin = (scanLine chunk, rest) := by
      rw [getCmdLine, getLine, hread]
    cases hline : scanLine chunk with
    | fault =>
        rw [hline] at hget
        simp only [fate, hline, mainTurn, enter, hget]
    | empty =>
        rw [hline] at hget
        simp only [fate, hline, mainTurn, enter, hget]
        exact ⟨_, rfl, rfl⟩
    | exit cmdline => exact absurd hline (scanLine_ne_exit chunk cmdline)
    | line cmdline =>
        rw [hline] at hget
        have hturn := mainTurn_line pid answer hget
        simp only [fate, hline]
        split_ifs at hturn ⊢ with hfit hleave
        · exact ⟨0, hturn⟩
        · exact hturn
        · exact hturn

end Sh2

/-- The loop of `main` of either shell ends with its input just when a
chunk makes it leave, with none before it on which it faults; and with
input on which it always goes on it does not end. -/
theorem main_ends_iff (stdin : List Char) (pid : ℕ) (answer : ℕ → ℕ) :
    (((∃ n code, Loop.run (Sh2.mainTurn pid answer) n ⟨stdin, 0, 0⟩ = some (.exit code)) ↔
        Ends Sh2.fate (allChunks Sh2.maxCmdlineLen stdin)) ∧
      ((∀ c ∈ allChunks Sh2.maxCmdlineLen stdin, Sh2.fate c = .goesOn) →
        ∀ n, Loop.run (Sh2.mainTurn pid answer) n ⟨stdin, 0, 0⟩ = none)) ∧
    ((∃ n code, Loop.run Sh3.mainTurn n stdin = some (.exit code)) ↔
        Ends Sh3.fate (allChunks Sh3.maxCmdlineLen stdin)) ∧
      ((∀ c ∈ allChunks Sh3.maxCmdlineLen stdin, Sh3.fate c = .goesOn) →
        ∀ n, Loop.run Sh3.mainTurn n stdin = none) := by
  have hsh2 := Sh2.follows pid answer
  refine ⟨⟨hsh2.exit_iff (by decide) _, fun hall => ?_⟩,
    Sh3.follows.exit_iff (by decide) stdin, fun hall => ?_⟩
  · exact hsh2.forever (by decide) hall
  · exact Sh3.follows.forever (by decide) hall

/-- The end of the input does not end either shell. -/
theorem end_of_input_ignored :
    (¬ ∃ n o, Loop.run (Sh2.mainTurn 42 fun _ => 0) n ⟨"ls\n".toList, 0, 0⟩ = some o) ∧
      ¬ ∃ n o, Loop.run Sh3.mainTurn n "ls\n".toList = some o := by
  have hsh2 : ∀ c ∈ allChunks Sh2.maxCmdlineLen "ls\n".toList, Sh2.fate c = .goesOn := by decide
  have hsh3 : ∀ c ∈ allChunks Sh3.maxCmdlineLen "ls\n".toList, Sh3.fate c = .goesOn := by decide
  constructor
  · rintro ⟨n, o, hrun⟩
    have hnone := (Sh2.follows 42 fun _ => 0).forever (s := ⟨"ls\n".toList, 0, 0⟩) (by decide) hsh2 n
    exact nomatch hnone.symm.trans hrun
  · rintro ⟨n, o, hrun⟩
    have hnone := Sh3.follows.forever (by decide) hsh3 n
    exact nomatch hnone.symm.trans hrun

end Comp4511
