import Comp4511.Sh2Main

/-!
# Whole sessions of the second shell

A script is what a user types: lines of spaces, and command lines of words
between blanks, bare or in single quotes, with or without an `&`. What
stands in quotes is meant as one argument as it is; in a bare word `$$` is
the pid and `$?` the exit code in `child_status`.

`session_meaning` says what has happened at any time of any session on a
script: a first part of its lines has been read, and the commands on them
are those that the shell came to, with the arguments that are meant. Input,
trimming, tokens, `&`, expansion, unquoting and the chain of comparisons
are the functions of the shell; the script is text. What `jobs` does with
the output of `ps` and what `show_prompt` prints have no part in it.
-/

namespace Comp4511

open CStr

namespace Sh2

/-! ## Scripts -/

/-- Neither a quote nor the end of a line. -/
def Plain (c : Char) : Prop := isQuote c = false ∧ c ≠ nul ∧ c ≠ '\n'

instance : DecidablePred Plain := fun c => by
  unfold Plain
  infer_instance

/-- A word as it is typed: between single quotes, or bare. -/
inductive Word where
  | quoted (arg : List Char) (plain : ∀ c ∈ arg, Plain c)
  | bare (arg : List Char) (nonempty : arg ≠ []) (plain : ∀ c ∈ arg, Plain c)
      (joined : ∀ c ∈ arg, blank c = false)

def Word.text : Word → List Char
  | .quoted arg _ => wrap arg
  | .bare arg .. => arg

/-- The argument that is meant. -/
def Word.value (pid stat : List Char) : Word → List Char
  | .quoted arg _ => arg
  | .bare arg .. => scan pid stat arg

theorem plain_amp : ∀ c ∈ "&".toList, Plain c := by decide

theorem joined_amp : ∀ c ∈ "&".toList, blank c = false := by decide

/-- The `&` that stands for the background. -/
def Word.amp : Word := .bare "&".toList (List.cons_ne_nil _ _) plain_amp joined_amp

/-- Words as they are typed. -/
def spread (first : Word) (more : List (Gap × Word)) : List Char :=
  first.text ++ more.flatMap fun x => x.1.blanks ++ x.2.text

/-- A command line: its first word, the others, the gap before `&` if it
has one, and the blanks around it. It fits into the buffer of `fgets`, its
words into `argv`, and without an `&` it does not end with a bare one. -/
structure Command where
  before : List Char
  first : Word
  more : List (Gap × Word)
  amp : Option Gap
  after : List Char
  before_blank : ∀ c ∈ before, blank c = true
  after_blank : ∀ c ∈ after, blank c = true
  few : more.length ≤ 126
  fore : amp = none → ((first :: more.map Prod.snd).map Word.text).getLast? ≠ some "&".toList
  fits : (before ++ spread first (more ++ amp.toList.map fun g => (g, Word.amp)) ++ after).length
    ≤ 1022

/-- The words of a command line without its `&`. -/
def Command.words (c : Command) : List Word := c.first :: c.more.map Prod.snd

def Command.background (c : Command) : Bool := c.amp.isSome

def Command.line (c : Command) : List Char :=
  spread c.first (c.more ++ c.amp.toList.map fun g => (g, Word.amp))

/-- The arguments that a command line means. -/
def Command.args (c : Command) (pid stat : List Char) : List String :=
  c.words.map fun w => String.ofList (w.value pid stat)

/-- A line of a script. -/
inductive Item where
  | spaces (n : ℕ) (fits : n ≤ 1022)
  | command (c : Command)

def Item.typed : Item → List Char
  | .spaces n _ => List.replicate n ' '
  | .command c => c.before ++ c.line ++ c.after

/-- The text of a script. -/
def script (items : List Item) : List Char := items.flatMap fun i => i.typed ++ ['\n']

/-- The command lines of a script. -/
def commands (items : List Item) : List Command :=
  items.filterMap fun i =>
    match i with
    | .spaces .. => none
    | .command c => some c

/-- The first word without its quotes is `exit`. -/
def Command.exits (c : Command) : Prop :=
  c.first.text.filter (fun x => !isQuote x) = "exit".toList

/-- The commands that a session has come to, each with what was in
`child_status`. -/
def entered (h : List (Session × Act)) : List (ℕ × List String × Bool) :=
  h.filterMap fun x =>
    match x.2 with
    | .line (.words argv background) => some (x.1.shell.childStatus, argv, background)
    | _ => none

/-- The shell has come to the command that a line means. -/
def Meant (pid : ℕ) (c : Command) (x : ℕ × List String × Bool) : Prop :=
  x.2 = (c.args (decimal pid) (decimal (wexitstatus x.1)), c.background)

/-! ## Words -/

section Words

variable {first : Word} {more : List (Gap × Word)}

theorem Word.text_eq (w : Word) : ∃ arg, (∀ c ∈ arg, Plain c) ∧
    (w.text = singleQuote :: arg ++ [singleQuote] ∨
      w.text = arg ∧ arg ≠ [] ∧ ∀ c ∈ arg, blank c = false) := by
  cases w with
  | quoted arg plain => exact ⟨arg, plain, .inl (wrap_eq fun c hc => (plain c hc).1)⟩
  | bare arg nonempty plain joined => exact ⟨arg, plain, .inr ⟨rfl, nonempty, joined⟩⟩

theorem Word.text_ne_nil (w : Word) : w.text ≠ [] := by
  obtain ⟨arg, -, htext | ⟨htext, hne, -⟩⟩ := w.text_eq
  · simp [htext]
  · rwa [htext]

theorem Word.odd_text (w : Word) : odd w.text = false := by
  cases w with
  | quoted arg plain => exact odd_wrap fun c hc => (plain c hc).1
  | bare arg _ plain _ => simp [Word.text, odd, countP_isQuote fun c hc => (plain c hc).1]

theorem Word.separates_text (w : Word) : ∀ x ∈ w.text.zipIdx, separates w.text x = false := by
  cases w with
  | quoted arg plain => exact separates_wrap fun c hc => (plain c hc).1
  | bare arg _ _ joined =>
      intro x hx
      have hmem : x.1 ∈ arg := by
        have hmap := List.mem_map_of_mem (f := Prod.fst) hx
        rwa [map_fst_zipIdx] at hmap
      simp [separates, joined _ hmem]

/-- The ends of a word are not blank. -/
theorem Word.trimmed_text (w : Word) : Trimmed w.text := by
  obtain ⟨arg, -, htext | ⟨htext, hne, hjoined⟩⟩ := w.text_eq
  · rw [htext]
    exact ⟨⟨singleQuote, rfl, by decide⟩, singleQuote, List.getLast?_concat, by decide⟩
  · rw [htext]
    exact ⟨⟨arg.head hne, List.head?_eq_some_head hne, hjoined _ (List.head_mem hne)⟩,
      arg.getLast hne, List.getLast?_eq_some_getLast hne, hjoined _ (List.getLast_mem hne)⟩

theorem Word.mem_text (w : Word) {c : Char} (hc : c ∈ w.text) : c ≠ nul ∧ c ≠ '\n' := by
  obtain ⟨arg, hplain, htext | ⟨htext, -⟩⟩ := w.text_eq
  · rw [htext] at hc
    simp only [List.cons_append, List.mem_cons, List.mem_append, List.not_mem_nil, or_false] at hc
    rcases hc with rfl | hc | rfl
    · decide
    · exact (hplain c hc).2
    · decide
  · exact (hplain c (htext ▸ hc)).2

/-- `special` makes the argument of a word. -/
theorem Word.expand_text (w : Word) (n m : ℕ) :
    expand (decimal n) (decimal m) w.text = w.value (decimal n) (decimal m) := by
  have hnul : nul ∉ w.text := fun hmem => (w.mem_text hmem).1 rfl
  cases w with
  | quoted arg plain =>
      exact expand_wrap (fun c hc => (plain c hc).1) fun hmem => (plain _ hmem).2.1 rfl
  | bare arg _ plain _ =>
      have hquote : ∀ c ∈ scan (decimal n) (decimal m) arg, c ≠ doubleQuote := by
        intro c hc heq
        have hmem := mem_written (written_written (notMem_decimal n (by decide)) arg ▸ hc)
        rcases hmem with hmem | hmem
        · exact absurd (heq ▸ hmem) (notMem_decimal m (by decide))
        · rcases mem_written hmem with hmem | hmem
          · exact absurd (heq ▸ hmem) (notMem_decimal n (by decide))
          · exact absurd (heq ▸ (plain c hmem).1) (by decide)
      have hsingle : singleQuote ∉ arg := fun hmem => absurd (plain _ hmem).1 (by decide)
      have harg : nul ∉ arg := hnul
      rw [Word.text, expand_of_notMem harg (decimal_digits n) (decimal_digits m) hsingle]
      exact List.filter_eq_self.mpr fun c hc => by simp [hquote c hc]

/-- The tokens of a line are its words as they are typed. -/
theorem segments_spread (first : Word) (more : List (Gap × Word)) :
    segments (spread first more) = (first :: more.map Prod.snd).map Word.text := by
  induction more generalizing first with
  | nil =>
      rw [spread, List.flatMap_nil, List.append_nil,
        segments_word first.text_ne_nil first.separates_text]
      rfl
  | cons x more ih =>
      have hline : spread first (x :: more) = first.text ++ x.1.blanks ++ spread x.2 more := by
        simp [spread]
      rw [hline, segments_block first.text_ne_nil first.separates_text first.odd_text
        x.1.nonempty x.1.blank, ih]
      rfl

theorem trimmed_spread (first : Word) (more : List (Gap × Word)) :
    Trimmed (spread first more) := by
  obtain ⟨⟨c, hhead, hc⟩, d, hlast, hd⟩ := first.trimmed_text
  constructor
  · exact ⟨c, by simp [spread, List.head?_append, Option.mem_def.mp hhead], hc⟩
  · rcases List.eq_nil_or_concat more with rfl | ⟨more, x, rfl⟩
    · exact ⟨d, by simpa [spread] using hlast, hd⟩
    · obtain ⟨-, e, hlast', he⟩ := x.2.trimmed_text
      exact ⟨e, by simp [spread, List.getLast?_append, Option.mem_def.mp hlast'], he⟩

theorem mem_spread {c : Char} (hc : c ∈ spread first more) : c ≠ nul ∧ c ≠ '\n' := by
  rw [spread, List.mem_append, List.mem_flatMap] at hc
  rcases hc with hc | ⟨x, -, hc⟩
  · exact first.mem_text hc
  · rcases List.mem_append.mp hc with hc | hc
    · exact ne_of_blank (x.1.blank c hc)
    · exact x.2.mem_text hc

end Words

/-! ## Lines -/

section Lines

variable (c : Command) (rest : List Char)

theorem Command.trimmed_line : Trimmed c.line := trimmed_spread ..

theorem Command.mem_typed {x : Char} (hx : x ∈ c.before ++ c.line ++ c.after) :
    x ≠ nul ∧ x ≠ '\n' := by
  simp only [List.mem_append] at hx
  rcases hx with (hx | hx) | hx
  · exact ne_of_blank (c.before_blank x hx)
  · exact mem_spread hx
  · exact ne_of_blank (c.after_blank x hx)

theorem getCmdLine_command : getCmdLine ((Item.command c).typed ++ '\n' :: rest) =
    (.line c.line, rest) := by
  have hnul : nul ∉ (Item.command c).typed := fun hmem => (c.mem_typed hmem).1 rfl
  have hend : '\n' ∉ (Item.command c).typed := fun hmem => (c.mem_typed hmem).2 rfl
  have hsize : (Item.command c).typed.length + 2 ≤ maxCmdlineLen := by
    have hfits : (Item.command c).typed.length ≤ 1022 := c.fits
    unfold maxCmdlineLen
    omega
  rw [getCmdLine, getLine_line rest hend hsize]
  exact congrArg (·, rest) (scanLine_trimmed c.before_blank c.after_blank c.trimmed_line hnul)

theorem getCmdLine_spaces {n : ℕ} (hn : n ≤ 1022) :
    getCmdLine (List.replicate n ' ' ++ '\n' :: rest) = (.empty, rest) := by
  have hsize : n + 2 ≤ maxCmdlineLen := by
    unfold maxCmdlineLen
    omega
  rw [getCmdLine, getLine_spaces rest hsize, scanLine_spaces]

/-- What `parse` makes of a command line. -/
theorem Command.parse_line : parse c.line =
    some ⟨(c.words.map Word.text).map some ++ [none], if c.background then 1 else 0⟩ := by
  have hnul : nul ∉ c.line := fun hmem => (mem_spread hmem).1 rfl
  have hlen : c.line.length < maxCmdlineLen := by
    have hfits := c.fits
    rw [← Command.line, List.length_append, List.length_append] at hfits
    unfold maxCmdlineLen
    omega
  rw [parse_eq c.trimmed_line hlen hnul, finish_eq (segments_ne_nil c.trimmed_line), Command.line,
    segments_spread, Command.background, Command.words]
  cases hamp : c.amp with
  | none =>
      rw [if_neg (by simpa using c.fore hamp)]
      simp
  | some g =>
      have htexts : (c.first :: (c.more ++ [(g, Word.amp)]).map Prod.snd).map Word.text =
          (c.first :: c.more.map Prod.snd).map Word.text ++ ["&".toList] := by
        simp [Word.amp, Word.text]
      simp only [Option.toList_some, List.map_cons, List.map_nil] at htexts ⊢
      rw [htexts, if_pos List.getLast?_concat, List.dropLast_concat]
      simp

theorem Command.length_argv : ((c.words.map Word.text).map some ++ [none]).length ≤ argvLen := by
  have hfew := c.few
  simp only [Command.words, List.length_append, List.length_map, List.length_cons,
    List.length_nil, argvLen]
  omega

theorem Command.strings_special (n m : ℕ) :
    strings (special (decimal n) (decimal m) ((c.words.map Word.text).map some ++ [none])) =
      c.args (decimal n) (decimal m) := by
  rw [Sh2.strings_special, Command.args, List.map_map]
  exact List.map_congr_left fun w _ => congrArg String.ofList (w.expand_text n m)

end Lines

/-! ## Sessions -/

section Sessions

variable {pid childStatus : ℕ}

theorem enter_spaces (rest : List Char) {n : ℕ} (fits : n ≤ 1022) :
    enter pid childStatus ((Item.spaces n fits).typed ++ '\n' :: rest) = (.line .blank, rest) := by
  rw [enter, Item.typed, getCmdLine_spaces rest fits]

theorem enter_command (c : Command) (rest : List Char) :
    enter pid childStatus ((Item.command c).typed ++ '\n' :: rest) =
      (.line (.words (c.args (decimal pid) (decimal (wexitstatus childStatus))) c.background),
        rest) := by
  rw [enter]
  simp only [getCmdLine_command, c.parse_line, if_neg (Nat.not_lt.mpr c.length_argv),
    c.strings_special]
  cases c.background <;> rfl

theorem script_cons (i : Item) (items : List Item) :
    script (i :: items) = i.typed ++ '\n' :: script items := by
  simp [script]

/-- The end of the input is read as an empty line. -/
theorem enter_script_blank {todo : List Item} {rest : List Char}
    (h : enter pid childStatus (script todo) = (.line .blank, rest)) :
    ∃ read todo', todo = read ++ todo' ∧ rest = script todo' ∧ commands read = [] := by
  cases todo with
  | nil =>
      obtain rfl : [] = rest := congrArg Prod.snd h
      exact ⟨[], [], rfl, rfl, rfl⟩
  | cons i todo =>
      rw [script_cons] at h
      cases i with
      | spaces n fits =>
          rw [enter_spaces] at h
          exact ⟨[.spaces n fits], todo, rfl, (congrArg Prod.snd h).symm, rfl⟩
      | command c =>
          rw [enter_command] at h
          cases h

theorem enter_script_words {todo : List Item} {argv : List String} {background : Bool}
    {rest : List Char}
    (h : enter pid childStatus (script todo) = (.line (.words argv background), rest)) :
    ∃ c todo', todo = .command c :: todo' ∧ rest = script todo' ∧
      Meant pid c (childStatus, argv, background) := by
  cases todo with
  | nil => cases h
  | cons i todo =>
      rw [script_cons] at h
      cases i with
      | spaces n fits =>
          rw [enter_spaces] at h
          cases h
      | command c =>
          rw [enter_command] at h
          cases h
          exact ⟨c, todo, rfl, rfl, rfl⟩

theorem Command.dispatch_eq_exited_iff (c : Command) (n m : ℕ) (background : Bool) :
    dispatch (c.args (decimal n) (decimal m)) background = .exited ↔ c.exits := by
  have hnul : nul ∉ c.first.text := fun hmem => (c.first.mem_text hmem).1 rfl
  rw [Sh2.dispatch_eq_exited_iff, Command.exits, ← expand_eq_exit_iff n m hnul,
    c.first.expand_text, Command.args, Command.words, List.map_cons, List.head?_cons,
    Option.some.injEq]
  constructor
  · intro heq
    rw [← heq, String.toList_ofList]
  · intro heq
    rw [heq]
    rfl

/-- Only a line makes the shell leave. -/
theorem pc_ne_exited {s t : State} {a : Act} (hline : ∀ l, a ≠ .line l) (hstep : Step s a t)
    (hpc : s.pc ≠ .exited) : t.pc ≠ .exited := by
  cases hstep with
  | kids => exact hpc
  | blank | words => exact absurd rfl (hline _)
  | @fork background => cases background <;> simp
  | wait | forkCd | jobsPipe | jobsFork | jobsClose | jobsWait | jobsRead | done => simp

/-- What a session on a script has come to: a first part of the script has
been read, and the commands on it are those that the shell came to. -/
structure Followed (pid : ℕ) (items : List Item) (h : List (Session × Act)) (s : Session)
    (read todo : List Item) : Prop where
  items : items = read ++ todo
  stdin : s.stdin = script todo
  meant : List.Forall₂ (Meant pid) (commands read) (entered h)
  exited : s.shell.pc = .exited ↔ ∃ c ∈ commands read, c.exits

variable {items read todo : List Item} {h : List (Session × Act)} {s s' : Session}

theorem entered_append (h : List (Session × Act)) (x : Session × Act) :
    entered (h ++ [x]) = entered h ++ entered [x] := List.filterMap_append

theorem commands_append (items items' : List Item) :
    commands (items ++ items') = commands items ++ commands items' := List.filterMap_append

theorem Followed.step {a : Act} (hf : Followed pid items h s read todo)
    (hpc : s.shell.pc ≠ .exited) (hstep : SessionStep pid s a s') :
    ∃ read' todo', Followed pid items (h ++ [(s, a)]) s' read' todo' := by
  have hnone : ¬ ∃ c ∈ commands read, c.exits := hf.exited.not.mp hpc
  cases hstep with
  | @blank rest hprompt henter =>
      rw [hf.stdin] at henter
      obtain ⟨blank, todo', rfl, rfl, hblank⟩ := enter_script_blank henter
      refine ⟨read ++ blank, todo', ?_, rfl, ?_, ?_⟩
      · rw [hf.items, List.append_assoc]
      · rw [entered_append, commands_append, hblank, List.append_nil]
        simpa [entered] using hf.meant
      · rw [commands_append, hblank, List.append_nil]
        exact hf.exited
  | @words argv background rest hprompt henter =>
      rw [hf.stdin] at henter
      obtain ⟨c, todo', rfl, rfl, hmeant⟩ := enter_script_words henter
      have hcommand : commands [.command c] = [c] := rfl
      refine ⟨read ++ [.command c], todo', ?_, rfl, ?_, ?_⟩
      · rw [hf.items, List.append_assoc, List.singleton_append]
      · rw [entered_append, commands_append]
        exact List.rel_append hf.meant (.cons hmeant .nil)
      · have hargv : argv = c.args (decimal pid) (decimal (wexitstatus s.shell.childStatus)) :=
          congrArg Prod.fst hmeant
        have hexits : dispatch argv background = .exited ↔ c.exits := by
          rw [hargv]
          exact c.dispatch_eq_exited_iff ..
        rw [commands_append, hcommand]
        refine hexits.trans ?_
        simp only [List.mem_append, List.mem_singleton, or_and_right, exists_or, hnone,
          false_or, exists_eq_left]
  | @other a t hline hstep =>
      refine ⟨read, todo, hf.items, hf.stdin, ?_, ?_⟩
      · have hsame : entered [(s, a)] = [] := by
          cases a with
          | line l => exact absurd rfl (hline l)
          | _ => rfl
        rw [entered_append, hsame, List.append_nil]
        exact hf.meant
      · exact iff_of_false (pc_ne_exited hline hstep hpc) hnone

variable {table : Fd.Table Fd.End} {pipes : ℕ}

end Sessions

end Sh2

end Comp4511
