import Comp4511.Blocks
import Comp4511.ShellMain

/-!
# The strings of the second shell

`main` of the second shell with its memory. `parse` allocates a block for
each token, `replace` allocates one for a token in which it puts
something and frees the old one, `parse` itself frees an `&` that it
takes off, and `free_all` frees what `argv` has at the end of a turn. The
blocks hold strings; that the block of `replace` has room for its string
is `Heap.expand_refines`.

`mainTurn_refines` says that a turn goes as it does on strings, with no
block left at the prompt, and `blocks_freed` that it is so in every run.
-/

namespace Comp4511

open CStr Blocks

namespace Sh2

namespace Mem

abbrev Memory : Type := Blocks.Heap (List Char)

/-! ## The functions -/

/-- The variables of the loop of `parse`, where `argv` has addresses. -/
structure Scan where
  heap : Memory
  i : ℕ
  token : List Char
  quote : ℤ
  argv : List ℕ

/-- `malloc` and `strcpy` of the token, and the entry in `argv`. -/
def Scan.push (s : Scan) : Memory × List ℕ :=
  ((s.heap.alloc s.token).2, s.argv ++ [(s.heap.alloc s.token).1])

def parseTurn (cmdline : List Char) (s : Scan) : Loop.Turn Scan (Option (Memory × List ℕ)) :=
  if s.i < maxCmdlineLen then
    match cmdline[s.i]? with
    | none => .done none
    | some c =>
        let quote := if isQuote c then s.quote * -1 else s.quote
        if blank c ∧ quote = 1 then
          match scanUp blank (cmdline.drop s.i) with
          | none => .done none
          | some k => .again ⟨s.push.1, s.i + k, [], quote, s.push.2⟩
        else if c = nul then .done (some s.push)
        else .again ⟨s.heap, s.i + 1, s.token ++ [c], quote, s.argv⟩
  else .done (some (s.heap, s.argv))

/-- What `parse` leaves: the addresses in `argv` before the `NULL`, and its
value. -/
structure Parsed where
  heap : Memory
  argv : List ℕ
  background : ℕ

/-- The end of `parse`. -/
def finish (heap : Memory) (argv : List ℕ) : Option Parsed :=
  match argv.getLast? with
  | none => none
  | some p =>
      match heap.get p with
      | none => none
      | some token =>
          if token = "&".toList then (heap.free p).map fun heap => ⟨heap, argv.dropLast, 1⟩
          else some ⟨heap, argv, 0⟩

def parse (heap : Memory) (cmdline : List Char) : Option Parsed :=
  match Loop.run (parseTurn (cmdline ++ [nul])) (maxCmdlineLen + 1) ⟨heap, 0, [], 1, []⟩ with
  | some (some (heap, argv)) => finish heap argv
  | _ => none

/-- `replace` of the string at `s`: the address that it returns. -/
def replace (heap : Memory) (s : ℕ) (old new : List Char) : Option (ℕ × Memory) :=
  match heap.get s with
  | none => none
  | some text =>
      if singleQuote ∉ text ∧ old <:+: text then
        let r := heap.alloc (written old new 0 text)
        (r.2.free s).map fun heap => (r.1, heap)
      else some (s, heap)

/-- `remove_char` of the string at `s`. -/
def removeChar (heap : Memory) (s : ℕ) (w : Char) : Option Memory :=
  (heap.get s).bind fun text => heap.store s (Sh2.removeChar text w)

/-- The loop of `special`. -/
def special (pid stat : List Char) (heap : Memory) : List ℕ → Option (Memory × List ℕ)
  | [] => some (heap, [])
  | p :: argv => do
      let (p, heap) ← replace heap p "$$".toList pid
      let (p, heap) ← replace heap p "$?".toList stat
      let heap ← removeChar heap p singleQuote
      let heap ← removeChar heap p doubleQuote
      let (heap, argv) ← special pid stat heap argv
      some (heap, p :: argv)

/-- The strings in `argv`. -/
def strings (heap : Memory) (argv : List ℕ) : Option (List String) :=
  argv.mapM fun p => (heap.get p).map String.ofList

/-- The loop of `main`: its variables and the memory. -/
structure Prompt where
  shell : Sh2.Prompt
  heap : Memory

/-- One turn of the loop of `main`. After an `&` alone it goes on without
`free_all`. -/
def mainTurn (pid : ℕ) (answer : ℕ → ℕ) (s : Prompt) : Loop.Turn Prompt (Over × Memory) :=
  match getCmdLine s.shell.stdin with
  | (.fault, _) => .done (.fault, s.heap)
  | (.exit _, _) => .done (.exit 1, s.heap)
  | (.empty, rest) => .again ⟨{ s.shell with stdin := rest }, s.heap⟩
  | (.line cmdline, rest) =>
      match parse s.heap cmdline with
      | none => .done (.fault, s.heap)
      | some p =>
          if argvLen < p.argv.length + 1 then .done (.fault, p.heap)
          else
            match special (decimal pid) (decimal (wexitstatus s.shell.childStatus)) p.heap p.argv
              with
            | none => .done (.fault, p.heap)
            | some (heap, argv) =>
                match strings heap argv, heap.freeAll argv with
                | some words, some freed =>
                    match dispatch words (p.background = 1) with
                    | .exited => .done (.exit 0, freed)
                    | .prompt => .again ⟨{ s.shell with stdin := rest }, heap⟩
                    | .fork false =>
                        .again ⟨⟨rest, answer s.shell.lines, s.shell.lines + 1⟩, freed⟩
                    | _ => .again ⟨⟨rest, 0, s.shell.lines + 1⟩, freed⟩
                | _, _ => .done (.fault, heap)

/-! ## The memory of a turn -/

/-- The live blocks are those in `argv`, one for each entry, with these
strings. -/
def Held (heap : Memory) (argv : List ℕ) (tokens : List (List Char)) : Prop :=
  ∃ cells : List (ℕ × List Char),
    Owns heap cells ∧ cells.map Prod.fst = argv ∧ cells.map Prod.snd = tokens

section Parse

variable {heap : Memory} {argv : List ℕ} {tokens : List (List Char)} {cmdline : List Char}

theorem Held.push (h : Held heap argv tokens) (token : List Char) :
    Held (heap.alloc token).2 (argv ++ [(heap.alloc token).1]) (tokens ++ [token]) := by
  obtain ⟨cells, hown, rfl, rfl⟩ := h
  exact ⟨cells ++ [((heap.alloc token).1, token)],
    (hown.alloc token).perm (List.perm_append_singleton _ cells).symm, by simp, by simp⟩

/-- The loops of `parse` with and without memory. -/
structure Same (s : Scan) (t : Sh2.Scan) : Prop where
  i : s.i = t.i
  token : s.token = t.token
  quote : s.quote = t.quote
  held : Held s.heap s.argv t.argv

theorem parseTurn_refines {s : Scan} {t : Sh2.Scan} (h : Same s t) :
    (∃ s' t', parseTurn cmdline s = .again s' ∧ Sh2.parseTurn cmdline t = .again t' ∧ Same s' t') ∨
      ∃ r r', parseTurn cmdline s = .done r ∧ Sh2.parseTurn cmdline t = .done r' ∧
        Option.Rel (fun x tokens => Held x.1 x.2 tokens) r r' := by
  obtain ⟨heap, i, token, quote, argv⟩ := s
  obtain ⟨i', token', quote', tokens⟩ := t
  obtain ⟨rfl, rfl, rfl, hheld⟩ := h
  have hpush := hheld.push token
  unfold parseTurn Sh2.parseTurn
  dsimp only
  by_cases hi : i < maxCmdlineLen
  · simp only [if_pos hi]
    cases hc : cmdline[i]? with
    | none => exact .inr ⟨none, none, rfl, rfl, .none⟩
    | some c =>
        dsimp only
        by_cases hcut : blank c ∧ (if isQuote c then quote * -1 else quote) = 1
        · simp only [if_pos hcut]
          cases hscan : scanUp blank (cmdline.drop i) with
          | none => exact .inr ⟨none, none, rfl, rfl, .none⟩
          | some k => exact .inl ⟨_, _, rfl, rfl, rfl, rfl, rfl, hpush⟩
        · simp only [if_neg hcut]
          by_cases hend : c = nul
          · simp only [if_pos hend]
            exact .inr ⟨_, _, rfl, rfl, .some hpush⟩
          · simp only [if_neg hend]
            exact .inl ⟨_, _, rfl, rfl, rfl, rfl, rfl, hheld⟩
  · simp only [if_neg hi]
    exact .inr ⟨_, _, rfl, rfl, .some hheld⟩

/-- What `parse` leaves with and without memory. -/
def SameParsed (p : Parsed) (q : Sh2.Parsed) : Prop :=
  p.background = q.background ∧
    ∃ tokens, Held p.heap p.argv tokens ∧ q.argv = tokens.map some ++ [none]

theorem finish_refines (h : Held heap argv tokens) :
    Option.Rel SameParsed (finish heap argv) (Sh2.finish tokens) := by
  obtain ⟨cells, hown, rfl, rfl⟩ := h
  rcases List.eq_nil_or_concat cells with rfl | ⟨cells, ⟨p, token⟩, rfl⟩
  · exact .none
  · rw [List.concat_eq_append] at hown ⊢
    have hlast : Owns heap ((p, token) :: cells) :=
      hown.perm (List.perm_append_singleton _ cells)
    rw [finish, Sh2.finish]
    simp only [List.map_append, List.map_cons, List.map_nil, List.getLast?_concat,
      hlast.get_head, List.dropLast_concat]
    by_cases hamp : token = "&".toList
    · obtain ⟨heap', hfree, hown'⟩ := hlast.free
      simp only [if_pos hamp, hfree]
      exact .some ⟨rfl, _, ⟨cells, hown', rfl, rfl⟩, rfl⟩
    · simp only [if_neg hamp]
      exact .some ⟨rfl, _, ⟨cells ++ [(p, token)], hown, by simp, rfl⟩, by simp⟩

theorem parse_refines (h : Owns heap []) (cmdline : List Char) :
    Option.Rel SameParsed (parse heap cmdline) (Sh2.parse cmdline) := by
  have hstart : Same ⟨heap, 0, [], 1, []⟩ ⟨0, [], 1, []⟩ := ⟨rfl, rfl, rfl, [], h, rfl, rfl⟩
  rw [parse, Sh2.parse]
  rcases Loop.run_sim (fun s t hst => @parseTurn_refines (cmdline ++ [nul]) _ _ hst) hstart
    (maxCmdlineLen + 1) with ⟨hs, ht⟩ | ⟨r, r', hs, ht, hrel⟩
  · rw [hs, ht]
    exact .none
  · rw [hs, ht]
    cases hrel with
    | none => exact .none
    | some hheld => exact finish_refines hheld

end Parse

section Special

variable {heap : Memory} {p : ℕ} {token : List Char} {own : List (ℕ × List Char)}

theorem replace_refines (h : Owns heap ((p, token) :: own)) (old new : List Char) :
    ∃ q heap', replace heap p old new = some (q, heap') ∧
      Owns heap' ((q, Sh2.replace token old new) :: own) := by
  rw [replace, h.get_head, Sh2.replace]
  dsimp only
  by_cases happlies : singleQuote ∉ token ∧ old <:+: token
  · simp only [if_pos happlies]
    have halloc := (h.alloc (written old new 0 token)).perm (List.Perm.swap ..)
    obtain ⟨heap', hfree, hown⟩ := halloc.free
    exact ⟨_, heap', by rw [hfree]; rfl, hown⟩
  · simp only [if_neg happlies]
    exact ⟨p, heap, rfl, h⟩

theorem removeChar_refines (h : Owns heap ((p, token) :: own)) (w : Char) :
    ∃ heap', removeChar heap p w = some heap' ∧
      Owns heap' ((p, Sh2.removeChar token w) :: own) := by
  rw [removeChar, h.get_head]
  exact h.store _

theorem special_refines (pid stat : List Char) {cells : List (ℕ × List Char)}
    (h : Owns heap (cells ++ own)) :
    ∃ heap' cells', special pid stat heap (cells.map Prod.fst) =
        some (heap', cells'.map Prod.fst) ∧ Owns heap' (cells' ++ own) ∧
      cells'.map Prod.snd = (cells.map Prod.snd).map (expand pid stat) := by
  induction cells generalizing heap own with
  | nil => exact ⟨heap, [], rfl, h, rfl⟩
  | cons x cells ih =>
      obtain ⟨p₁, heap₁, hfirst, hown₁⟩ := replace_refines h "$$".toList pid
      obtain ⟨p₂, heap₂, hsecond, hown₂⟩ := replace_refines hown₁ "$?".toList stat
      obtain ⟨heap₃, hsingle, hown₃⟩ := removeChar_refines hown₂ singleQuote
      obtain ⟨heap₄, hdouble, hown₄⟩ := removeChar_refines hown₃ doubleQuote
      -- the token that is done is set aside
      obtain ⟨heap₅, cells', hrest, hown₅, hstrings⟩ := ih (hown₄.perm List.perm_middle.symm)
      refine ⟨heap₅, (p₂, expand pid stat x.2) :: cells', ?_, hown₅.perm List.perm_middle, ?_⟩
      · simp only [List.map_cons, special, hfirst, hsecond, hsingle, hdouble, hrest,
          Option.bind_eq_bind, Option.bind_some]
      · rw [List.map_cons, List.map_cons, List.map_cons, hstrings]

theorem strings_refines {cells : List (ℕ × List Char)} (h : Owns heap cells) :
    strings heap (cells.map Prod.fst) = some ((cells.map Prod.snd).map String.ofList) := by
  have hget : ∀ x ∈ cells, heap.get x.1 = some x.2 := fun x hx => (h.get x.1 x.2).mpr hx
  clear h
  rw [strings]
  induction cells with
  | nil => rfl
  | cons x cells ih =>
      rw [List.forall_mem_cons] at hget
      have hrest := ih hget.2
      simp only [List.map_cons, List.mapM_cons, hget.1, hrest]
      rfl

end Special

/-! ## Runs -/

theorem dispatch_eq_prompt_iff {argv : List String} {background : Bool} :
    dispatch argv background = .prompt ↔ argv = [] := by
  unfold dispatch
  cases argv with
  | nil => simp
  | cons cmd argv =>
      dsimp only
      split_ifs <;> simp

/-- The end of a run with and without memory: nothing is left at an
`exit`. -/
def SameEnd (r : Over × Memory) (o : Over) : Prop :=
  r.1 = o ∧ (o ≠ .fault → Owns r.2 [])

/-- A turn goes as it does on strings, and frees all that it allocated. -/
theorem mainTurn_refines (pid : ℕ) (answer : ℕ → ℕ) {s : Prompt} {t : Sh2.Prompt}
    (h : s.shell = t ∧ Owns s.heap []) :
    (∃ s' t', mainTurn pid answer s = .again s' ∧ Sh2.mainTurn pid answer t = .again t' ∧
        s'.shell = t' ∧ Owns s'.heap []) ∨
      ∃ r r', mainTurn pid answer s = .done r ∧ Sh2.mainTurn pid answer t = .done r' ∧
        SameEnd r r' := by
  obtain ⟨shell, heap⟩ := s
  obtain ⟨rfl, hown⟩ := h
  dsimp only at hown ⊢
  unfold mainTurn Sh2.mainTurn enter
  dsimp only
  rcases getCmdLine shell.stdin with ⟨input, rest⟩
  cases input with
  | fault => exact .inr ⟨_, _, rfl, rfl, rfl, fun hne => absurd rfl hne⟩
  | exit cmdline => exact .inr ⟨_, _, rfl, rfl, rfl, fun _ => hown⟩
  | empty => exact .inl ⟨_, _, rfl, rfl, rfl, hown⟩
  | line cmdline =>
      dsimp only
      have hparse := parse_refines hown cmdline
      generalize parse heap cmdline = r at hparse
      generalize Sh2.parse cmdline = r' at hparse
      cases hparse with
      | none => exact .inr ⟨_, _, rfl, rfl, rfl, fun hne => absurd rfl hne⟩
      | @some p q hsame =>
          obtain ⟨heap₁, argv, background⟩ := p
          obtain ⟨argv', background'⟩ := q
          obtain ⟨rfl, tokens, ⟨cells, hown₁, rfl, rfl⟩, rfl⟩ := hsame
          dsimp only at hown₁ ⊢
          have hlen : ((cells.map Prod.snd).map some ++ [none]).length =
              (cells.map Prod.fst).length + 1 := by simp
          rw [hlen]
          by_cases hover : argvLen < (cells.map Prod.fst).length + 1
          · simp only [if_pos hover]
            exact .inr ⟨_, _, rfl, rfl, rfl, fun hne => absurd rfl hne⟩
          · simp only [if_neg hover]
            rw [← List.append_nil cells] at hown₁
            obtain ⟨heap₂, cells', hspecial, hown₂, hstrings⟩ := special_refines
              (decimal pid) (decimal (wexitstatus shell.childStatus)) hown₁
            obtain ⟨heap₃, hfree, hown₃⟩ := hown₂.freeAll
            rw [List.append_nil] at hown₂
            have hwords : Sh2.strings (Sh2.special (decimal pid)
                (decimal (wexitstatus shell.childStatus))
                ((cells.map Prod.snd).map some ++ [none])) =
                  (cells'.map Prod.snd).map String.ofList := by
              rw [strings_special, hstrings]
              simp
            simp only [hspecial, strings_refines hown₂, hfree, hwords]
            cases hgoes : dispatch ((cells'.map Prod.snd).map String.ofList) (background = 1) with
            | exited => exact .inr ⟨_, _, rfl, rfl, rfl, fun _ => hown₃⟩
            | prompt =>
                obtain rfl : cells' = [] := by
                  simpa [dispatch_eq_prompt_iff] using hgoes
                exact .inl ⟨_, _, rfl, rfl, rfl, hown₂⟩
            | fork b => cases b <;> exact .inl ⟨_, _, rfl, rfl, rfl, hown₃⟩
            | _ => exact .inl ⟨_, _, rfl, rfl, rfl, hown₃⟩

/-- Whatever the shell reads, the turns go as they do on strings, no block
is live at any prompt, and none after `exit`; so none is freed twice and
none is used after it was freed. -/
theorem blocks_freed (stdin : List Char) (pid : ℕ) (answer : ℕ → ℕ) (n : ℕ) :
    (Loop.visited (mainTurn pid answer) n ⟨⟨stdin, 0, 0⟩, .empty⟩).map Prompt.shell =
        Loop.visited (Sh2.mainTurn pid answer) n ⟨stdin, 0, 0⟩ ∧
      (∀ s ∈ Loop.visited (mainTurn pid answer) n ⟨⟨stdin, 0, 0⟩, .empty⟩,
        ∀ p, s.heap.get p = none) ∧
      (Loop.run (mainTurn pid answer) n ⟨⟨stdin, 0, 0⟩, .empty⟩).map Prod.fst =
        Loop.run (Sh2.mainTurn pid answer) n ⟨stdin, 0, 0⟩ ∧
      ∀ code heap, Loop.run (mainTurn pid answer) n ⟨⟨stdin, 0, 0⟩, .empty⟩ =
        some (.exit code, heap) → ∀ p, heap.get p = none := by
  have hstart : (⟨⟨stdin, 0, 0⟩, .empty⟩ : Prompt).shell = ⟨stdin, 0, 0⟩ ∧
      Owns (⟨⟨stdin, 0, 0⟩, .empty⟩ : Prompt).heap [] := ⟨rfl, owns_empty⟩
  have hturn := fun s t => mainTurn_refines pid answer (s := s) (t := t)
  have hvisited := (Loop.visited_sim hturn hstart n).imp fun s t hst => And.symm hst
  obtain ⟨howns, hshell⟩ := List.forall₂_and_left _ _ |>.mp hvisited
  have hrun := Loop.run_sim hturn hstart n
  generalize Loop.run (mainTurn pid answer) n ⟨⟨stdin, 0, 0⟩, .empty⟩ = r at hrun ⊢
  refine ⟨?_, fun s hs => (howns s hs).get_none, ?_, ?_⟩
  · rw [← List.forall₂_eq_eq_eq, List.forall₂_map_left_iff]
    exact hshell
  · rcases hrun with ⟨rfl, ht⟩ | ⟨r, r', rfl, ht, hsame⟩
    · exact ht.symm
    · rw [ht, Option.map_some, hsame.1]
  · rintro code heap rfl
    rcases hrun with ⟨hs, -⟩ | ⟨r, r', hs, -, hsame⟩
    · cases hs
    · obtain rfl := Option.some.inj hs
      exact (hsame.2 (hsame.1 ▸ by simp)).get_none

end Mem

end Sh2

end Comp4511
