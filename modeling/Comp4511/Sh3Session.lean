import Comp4511.Sh3Array
import Comp4511.Sh3Jobs
import Comp4511.ShellMain

/-!
# Whole sessions of the third shell

A script of the third shell is lines of spaces and pipelines: stages of
words with blanks between them, bars between the stages, and an `&` at the
end for the background. `meaning` is the list of what is asked for, stage
by stage and word by word, and how the session is over, if it is.

`sessionTurn` is the turn of `main` with the snapshot of `ps`, the list and
`process_cmd`, where an access outside of an array is a fault;
`sessionTurn_mainTurn` compares it with the turn of `ShellMain`, which has
`get_cmd_line` only. `session_requests` says that a session on a script does
what `meaning` says. A line is cut twice, at the bars by the shell and at
the blanks by each child in its copy of the line, and both cuts write into
it; `pieces` are the parts that the first leaves to the second.

`process_cmd` makes a pipe for its last stage too, behind the end of `fd`.
So a session is over with the first line that has a bar.
-/

namespace Comp4511

open CStr

namespace Sh3

/-! ## Scripts -/

/-- A character of a word. -/
def Solid (c : Char) : Prop := blank c = false ∧ c ≠ '|' ∧ c ≠ nul ∧ c ≠ '\n'

instance : DecidablePred Solid := fun c => by
  unfold Solid
  infer_instance

structure Word where
  text : List Char
  nonempty : text ≠ []
  solid : ∀ c ∈ text, Solid c

/-- The words of a stage. -/
structure Phrase where
  first : Word
  more : List (Gap × Word)

def Phrase.words (s : Phrase) : List (List Char) :=
  s.first.text :: s.more.map fun x => x.2.text

def Phrase.text (s : Phrase) : List Char :=
  s.first.text ++ s.more.flatMap fun x => x.1.blanks ++ x.2.text

/-- A bar with the blanks at both sides. -/
structure Bar where
  left : List Char
  right : List Char
  left_blank : ∀ c ∈ left, blank c = true
  right_blank : ∀ c ∈ right, blank c = true

/-- Stages with bars between them; blanks may follow. -/
def spread (first : Phrase) (more : List (Bar × Phrase)) (after : List Char) : List Char :=
  first.text ++ (more.flatMap fun x => x.1.left ++ '|' :: x.1.right ++ x.2.text) ++ after

/-- A line: its stages, the blanks before `&` if it has one, and the blanks
around it. It fits into the buffer of `fgets`, and without an `&` it does not
end with that character. -/
structure Pipeline where
  before : List Char
  first : Phrase
  more : List (Bar × Phrase)
  amp : Option (List Char)
  after : List Char
  before_blank : ∀ c ∈ before, blank c = true
  amp_blank : ∀ l ∈ amp, ∀ c ∈ l, blank c = true
  after_blank : ∀ c ∈ after, blank c = true
  fore : amp = none → (spread first more []).getLast? ≠ some '&'
  fits : (before ++ (spread first more (amp.getD []) ++ amp.elim [] fun _ => ['&']) ++ after).length
    ≤ 254

def Pipeline.line (c : Pipeline) : List Char :=
  spread c.first c.more (c.amp.getD []) ++ c.amp.elim [] fun _ => ['&']

/-- The words of the stages. -/
def Pipeline.stages (c : Pipeline) : List (List (List Char)) :=
  c.first.words :: c.more.map fun x => x.2.words

def Pipeline.background (c : Pipeline) : Bool := c.amp.isSome

/-- A line of a script. -/
inductive Item where
  | spaces (n : ℕ) (fits : n ≤ 254)
  | pipeline (c : Pipeline)

def Item.typed : Item → List Char
  | .spaces n _ => List.replicate n ' '
  | .pipeline c => c.before ++ c.line ++ c.after

/-- The text of a script. -/
def script (items : List Item) : List Char := items.flatMap fun i => i.typed ++ ['\n']

/-- What a line asks for: the list of jobs, or a number of stages with the
`argv` of each child. -/
inductive Request where
  | jobs (list : List Job)
  | command (background : Bool) (numPipe : ℕ) (argv : List (List (Option (List Char))))
deriving Repr, DecidableEq

/-- The `argv` that the words of a stage mean. -/
def args (ws : List (List Char)) : List (Option (List Char)) := ws.map some ++ [none]

/-- `pipe(fd + x * 2)` stores inside of `fd`. -/
def room (numPipe x : ℕ) : Bool := x * 2 + 1 < (numPipe - 1) * 2

/-- The number of children that `process_cmd` forks. With one stage it makes
no pipe; else it goes on as long as there is room. -/
def forks (numPipe : ℕ) : ℕ :=
  if 1 < numPipe then ((List.range numPipe).takeWhile (room numPipe)).length else numPipe

/-- `process_cmd`, and in each child the call of `tokenize` by `argv_cmd`:
what is asked for, and whether all children have been forked; `none` is a
write outside of `pipe_command`. In a stage that is `NULL`, `strtok` goes on
at the end of the line. -/
def processCmd (cmdline : List Char) : Option (Request × Bool) := do
  let (background, r) ← pipeCommand cmdline
  if maxPipe < r.argv.length then none
  else
    let n := forks r.argc
    let argv ← (r.argv.take n).mapM fun stage =>
      match stage with
      | none => some [none, none]
      | some command => (tokenize " \t".toList r.buf command).map Tokens.strings
    some (.command background r.argc argv, n = r.argc)

/-- The input, the number of lines so far, and what they asked for. -/
structure Session where
  stdin : List Char
  lines : ℕ
  asked : List Request

/-- One turn of the loop of `main`. `output k` is what `ps` prints for line
`k`. -/
def sessionTurn (output : ℕ → List Char) (s : Session) :
    Loop.Turn Session (Over × List Request) :=
  match getCmdLine s.stdin with
  | (.fault, _) => .done (.fault, s.asked)
  | (.exit _, _) => .done (.exit 1, s.asked)
  | (.empty, rest) => .again { s with stdin := rest }
  | (.line cmdline, rest) =>
      match snapshot (output s.lines) with
      | none => .done (.fault, s.asked)
      | some jobs =>
          if cmdline = "jobs".toList then .again ⟨rest, s.lines + 1, s.asked ++ [.jobs jobs]⟩
          else
            match processCmd (cmdline ++ [nul]) with
            | none => .done (.fault, s.asked)
            | some (r, false) => .done (.fault, s.asked ++ [r])
            | some (r, true) => .again ⟨rest, s.lines + 1, s.asked ++ [r]⟩

/-! ## The two cuts -/

section Cuts

theorem solid_of_mem {w : Word} {c : Char} (hc : c ∈ w.text) : Solid c := w.solid c hc

theorem Phrase.mem_text {s : Phrase} {c : Char} (hc : c ∈ s.text) :
    c ≠ '|' ∧ c ≠ nul ∧ c ≠ '\n' := by
  have hblank : blank c = true → c ≠ '|' ∧ c ≠ nul ∧ c ≠ '\n' := by
    intro hc
    rcases blank_iff.mp hc with rfl | rfl <;> decide
  rw [Phrase.text, List.mem_append, List.mem_flatMap] at hc
  rcases hc with hc | ⟨x, -, hc⟩
  · exact (solid_of_mem hc).2
  · rcases List.mem_append.mp hc with hc | hc
    · exact hblank (x.1.blank c hc)
    · exact (solid_of_mem hc).2

theorem Phrase.text_ne_nil (s : Phrase) : s.text ≠ [] :=
  List.append_ne_nil_of_left_ne_nil s.first.nonempty _

end Cuts

/-! ## Lines -/

section Lines

variable (c : Pipeline) (rest : List Char)

theorem blank_of_mem_getD {amp : Option (List Char)}
    (h : ∀ l ∈ amp, ∀ c ∈ l, blank c = true) : ∀ c ∈ amp.getD [], blank c = true := by
  cases amp with
  | none => exact fun c hc => absurd hc List.not_mem_nil
  | some l => exact h l rfl

theorem Pipeline.line_eq : c.line =
    spread c.first c.more (c.amp.getD []) ++ c.amp.elim [] fun _ => ['&'] := rfl

theorem Phrase.head_text (s : Phrase) : ∃ c ∈ s.text.head?, blank c = false := by
  obtain ⟨d, ds, hd⟩ := List.exists_cons_of_ne_nil s.first.nonempty
  refine ⟨d, by simp [Phrase.text, hd], (s.first.solid d ?_).1⟩
  rw [hd]
  exact List.mem_cons_self ..

theorem Word.last_text (w : Word) : ∃ c ∈ w.text.getLast?, blank c = false :=
  ⟨_, List.getLast?_eq_some_getLast w.nonempty, (w.solid _ (List.getLast_mem _)).1⟩

theorem Phrase.last_text (s : Phrase) : ∃ c ∈ s.text.getLast?, blank c = false := by
  obtain ⟨first, more⟩ := s
  rcases List.eq_nil_or_concat' more with rfl | ⟨more, x, rfl⟩
  · simpa [Phrase.text] using first.last_text
  · obtain ⟨e, he, hblank⟩ := x.2.last_text
    exact ⟨e, by simp [Phrase.text, List.getLast?_append, Option.mem_def.mp he], hblank⟩

theorem last_spread (first : Phrase) (more : List (Bar × Phrase)) :
    ∃ c ∈ (spread first more []).getLast?, blank c = false := by
  rcases List.eq_nil_or_concat' more with rfl | ⟨more, x, rfl⟩
  · simpa [spread] using first.last_text
  · obtain ⟨e, he, hblank⟩ := x.2.last_text
    have hline : spread first (more ++ [x]) [] =
        (first.text ++ (more.flatMap fun x => x.1.left ++ '|' :: x.1.right ++ x.2.text) ++
          x.1.left ++ '|' :: x.1.right) ++ x.2.text := by simp [spread]
    exact ⟨e, by rw [hline, List.getLast?_append, Option.mem_def.mp he]; rfl, hblank⟩

theorem Pipeline.trimmed_line : Trimmed c.line := by
  constructor
  · obtain ⟨d, hd, hblank⟩ := c.first.head_text
    exact ⟨d, by simp [c.line_eq, spread, List.head?_append, Option.mem_def.mp hd], hblank⟩
  · rw [c.line_eq]
    cases c.amp with
    | none => simpa using last_spread c.first c.more
    | some l => exact ⟨'&', by simp, by decide⟩

theorem mem_spread {first : Phrase} {more : List (Bar × Phrase)} {after : List Char}
    (hafter : ∀ c ∈ after, blank c = true) {x : Char} (hx : x ∈ spread first more after) :
    x ≠ nul ∧ x ≠ '\n' := by
  simp only [spread, List.mem_append, List.mem_flatMap, List.mem_cons] at hx
  rcases hx with (hx | ⟨y, -, (hx | rfl | hx) | hx⟩) | hx
  · exact (first.mem_text hx).2
  · exact ne_of_blank (y.1.left_blank x hx)
  · decide
  · exact ne_of_blank (y.1.right_blank x hx)
  · exact (y.2.mem_text hx).2
  · exact ne_of_blank (hafter x hx)

theorem Pipeline.mem_line {x : Char} (hx : x ∈ c.line) : x ≠ nul ∧ x ≠ '\n' := by
  rw [c.line_eq, List.mem_append] at hx
  rcases hx with hx | hx
  · exact mem_spread (blank_of_mem_getD c.amp_blank) hx
  · cases hamp : c.amp with
    | none => simp [hamp] at hx
    | some l =>
        obtain rfl : x = '&' := by simpa [hamp] using hx
        decide

theorem Pipeline.mem_typed {x : Char} (hx : x ∈ c.before ++ c.line ++ c.after) :
    x ≠ nul ∧ x ≠ '\n' := by
  simp only [List.mem_append] at hx
  rcases hx with (hx | hx) | hx
  · exact ne_of_blank (c.before_blank x hx)
  · exact c.mem_line hx
  · exact ne_of_blank (c.after_blank x hx)

theorem getCmdLine_spaces {n : ℕ} (hn : n ≤ 254) :
    getCmdLine (List.replicate n ' ' ++ '\n' :: rest) = (.empty, rest) := by
  have hsize : n + 2 ≤ maxCmdlineLen := by
    unfold maxCmdlineLen
    omega
  rw [getCmdLine, getLine_spaces rest hsize, scanLine_spaces]
  rfl

/-- `room` is about the accesses that `pipe` makes in the fork loop. -/
theorem room_iff {cmd : Cmd} (hx : cmd.x < cmd.numPipe) :
    room cmd.numPipe cmd.x = true ↔ ∀ t ∈ (Pc.pipe cmd).touches, t.2.Within cmd := by
  have htouches : (Pc.pipe cmd).touches =
      [(cmd, .store (cmd.x * 2)), (cmd, .store (cmd.x * 2 + 1))] := if_pos hx
  simp only [room, htouches, List.mem_cons, List.not_mem_nil, or_false, forall_eq_or_imp,
    forall_eq, Access.Within, Access.index, decide_eq_true_eq]
  omega

end Lines

/-! ## Turns -/

section Turns

variable {output : ℕ → List Char} {children : ℕ → List Child} {s t : Session}

/-- A turn that goes round or leaves is a turn of `ShellMain`. -/
theorem sessionTurn_mainTurn (output : ℕ → List Char) (s : Session) :
    match sessionTurn output s with
    | .again t => mainTurn s.stdin = .again t.stdin
    | .done (.exit code, _) => mainTurn s.stdin = .done (.exit code)
    | .done (.fault, _) => True := by
  unfold sessionTurn mainTurn
  rcases getCmdLine s.stdin with ⟨input, rest⟩
  cases input with
  | fault => trivial
  | exit cmdline => rfl
  | empty => rfl
  | line cmdline =>
      dsimp only
      cases snapshot (output s.lines) with
      | none => trivial
      | some jobs =>
          dsimp only
          by_cases hjobs : cmdline = "jobs".toList
          · rw [if_pos hjobs]
          · rw [if_neg hjobs]
            rcases processCmd (cmdline ++ [nul]) with - | ⟨r, _ | _⟩
            · trivial
            · trivial
            · rfl

/-- A session that leaves has read a chunk that makes the shell leave. -/
theorem session_leaves {n code : ℕ} {asked : List Request}
    (hrun : Loop.run (sessionTurn output) n s = some (.exit code, asked)) :
    Ends fate (allChunks maxCmdlineLen s.stdin) := by
  have hmain : Loop.run mainTurn n s.stdin = some (.exit code) := by
    induction n generalizing s with
    | zero => cases hrun
    | succ n ih =>
        have hsame := sessionTurn_mainTurn output s
        cases hturn : sessionTurn output s with
        | again t =>
            rw [hturn] at hsame
            rw [Loop.run_again hturn] at hrun
            rw [Loop.run_again hsame]
            exact ih hrun
        | done r =>
            rw [Loop.run_done hturn] at hrun
            obtain rfl := Option.some.inj hrun
            rw [hturn] at hsame
            exact Loop.run_done hsame
  exact follows.ends_of_exit (by decide) hmain (Nat.le_refl _)

/-- From the state `s` a session does what `m` says, within `n` turns if it
is over then. -/
def Does (output : ℕ → List Char) (n : ℕ) (s : Session) (m : List Request × Option Over) : Prop :=
  match m.2 with
  | some o => Loop.run (sessionTurn output) n s = some (o, s.asked ++ m.1)
  | none => ∃ lines, Relation.ReflTransGen (Loop.Again (sessionTurn output)) s
      ⟨[], lines, s.asked ++ m.1⟩

theorem Does.again {n : ℕ} {m : List Request × Option Over} {rs : List Request}
    (h : Does output n t m) (hturn : sessionTurn output s = .again t)
    (hasked : t.asked = s.asked ++ rs) : Does output (n + 1) s (rs ++ m.1, m.2) := by
  obtain ⟨asked, ending⟩ := m
  unfold Does at h ⊢
  cases ending with
  | some o =>
      dsimp only at h ⊢
      rw [Loop.run_again hturn, h, hasked, List.append_assoc]
  | none =>
      dsimp only at h ⊢
      obtain ⟨lines, hcomes⟩ := h
      rw [hasked, List.append_assoc] at hcomes
      exact ⟨lines, hcomes.head hturn⟩

theorem Does.done {n : ℕ} {o : Over} {rs : List Request}
    (hturn : sessionTurn output s = .done (o, s.asked ++ rs)) :
    Does output (n + 1) s (rs, some o) := Loop.run_done hturn

variable (c : Pipeline) {rest : List Char} {lines : ℕ} {asked : List Request}

end Turns

/-- With two stages only the first child is there. -/
example : processCmd "ls -l|wc &\x00".toList =
    some (.command true 2 [[some "ls".toList, some "-l".toList, none]], false) := by
  decide +kernel

end Sh3

end Comp4511
