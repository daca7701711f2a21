import Mathlib.Data.List.Forall2
import Comp4511.Sh3Redirect

/-!
# Jobs of the third shell

Before each command `main` of `ASS3/myshell.c` takes a snapshot of its
children: it cuts what `ps` has printed into lines, and `append` cuts each
line but the first and the last into columns and puts a job at the end of
the list. Both work in the same buffer with the same `strtok`. The builtin
`bg` looks a job up and continues its process group.

`append_eq` is one line, and `appendAll_eq` all of them: a line is cut only
inside itself, so the lines behind it are still there when their turn comes.
`find_numbered` is the search by number.
-/

namespace Comp4511

open CStr

namespace Sh3

/-- `struct job_list` without its link; the list is a list. -/
structure Job where
  cnt : ℤ
  stat : List Char
  pid : ℤ
  pgid : ℤ
  command : List Char
deriving Repr, DecidableEq

/-- The size of `stat`. -/
def statLen : ℕ := 10

/-- The loop of `append` that puts the words of a command together; `none`
is a write outside `command`, or `NULL`. -/
def catWords : List Char → List (Option (List Char)) → Option (List Char)
  | command, [] => some command
  | _, none :: _ => none
  | command, some w :: argv =>
      if (command ++ w ++ [' ']).length < maxArg then catWords (command ++ w ++ [' ']) argv
      else none

/-- The number of a job behind those in the list. -/
def nextCnt (jobs : List Job) : ℤ :=
  match jobs.getLast? with
  | none => 1
  | some last => last.cnt + 1

/-- `append` of the line at place `line` of a buffer: the buffer and the
list; `none` is an access through `NULL` or outside an array. -/
def append (jobs : List Job) (buf : List Char) (line : ℕ) : Option (List Char × List Job) := do
  let r ← tokenize " ".toList buf line
  let command ← catWords [] ((r.strings.take r.argc).drop 3)
  match r.strings with
  | some stat :: some pgid :: some pid :: _ =>
      if stat.length < statLen then
        some (r.buf, jobs ++ [⟨nextCnt jobs, stat, atoi pid, atoi pgid, command⟩])
      else none
  | _ => none

/-- The loop of `main` over the entries of `argv`. -/
def appendAll : List Job → List Char → List (Option ℕ) → Option (List Job)
  | jobs, _, [] => some jobs
  | _, _, none :: _ => none
  | jobs, buf, some line :: argv => do
      let (buf, jobs) ← append jobs buf line
      appendAll jobs buf argv

def bufferLen : ℕ := 4096

/-- `read` into a buffer that is all `nul`. -/
def readBuffer (output : List Char) : List Char :=
  output.take bufferLen ++ List.replicate (bufferLen - output.length) nul

/-- The list of jobs that `main` makes of the output of `ps`. -/
def snapshot (output : List Char) : Option (List Job) := do
  let r ← tokenize "\n\t".toList (readBuffer output) 0
  let stop ← r.argv.findIdx? Option.isNone
  appendAll [] r.buf ((r.argv.take (stop - 1)).drop 1)

/-! ## The builtin -/

/-- `bg` prints a message, or calls `kill(-pgid, SIGCONT)`. -/
inductive Reply where
  | report (message : String)
  | signal (pgid : ℤ)
deriving Repr, DecidableEq

/-- The two searches of `bg`, with `argv[1]`. -/
def bgTarget (jobs : List Job) : Option (List Char) → Option Job
  | none => jobs.foldl (fun target j => if j.stat = "T".toList then some j else target) none
  | some arg => jobs.find? fun j => j.stat = "T".toList ∧ j.cnt = atoi arg.tail

def bg (jobs : List Job) (arg : Option (List Char)) : Reply :=
  match bgTarget jobs arg with
  | none => .report "mysh: bg: job not found\n"
  | some target => .signal target.pgid

/-- A stage that is `bg`, with at most `n` turns of the loop for
redirections. -/
def bgStage (result : ℕ → Option ℕ) (n : ℕ) (jobs : List Job) (stage : List Char) :
    Option Reply := do
  let s ← (redirectLoop result n (stage ++ [nul]) 0).join
  match s.ending with
  | .bg arg => some (bg jobs arg)
  | _ => none

/-! ## What `ps` prints -/

/-- A child as `ps` shows it, with the words of its command. -/
structure Child where
  stat : List Char
  pgid : ℕ
  pid : ℕ
  command : List (List Char)
deriving Repr, DecidableEq

/-- The job of a child. -/
def Child.job (c : Child) (n : ℤ) : Job :=
  ⟨n, c.stat, c.pid, c.pgid, [' '].intercalate c.command ++ [' ']⟩

/-- The jobs of children, numbered from `n` on. -/
def numbered (n : ℤ) : List Child → List Job
  | [] => []
  | c :: cs => c.job n :: numbered (n + 1) cs

/-- A line without its newline. -/
structure PsLine (line : List Char) : Prop where
  ne_nil : line ≠ []
  newline_notMem : '\n' ∉ line
  tab_notMem : '\t' ∉ line
  nul_notMem : nul ∉ line

/-- The line of a child: four columns with spaces between them, where the
command is of one word or more. -/
structure Child.Shown (c : Child) (line : List Char) : Prop where
  psLine : PsLine line
  columns : words (· ∈ " ".toList) line
    = c.stat :: decimal c.pgid :: decimal c.pid :: c.command
  stat : c.stat.length < statLen
  pgid : c.pgid < 2 ^ 31
  pid : c.pid < 2 ^ 31
  command : c.command ≠ []
  short : ([' '].intercalate c.command).length ≤ 254

/-- The output for `children`: a header, a line for each of them, and that
of the helper. -/
structure PsOutput (children : List Child) (output : List Char) : Prop where
  lines : ∃ header lines helper, PsLine header ∧ PsLine helper ∧
    List.Forall₂ Child.Shown children lines ∧ (header :: lines ++ [helper]).length < 255 ∧
    output = ((header :: lines ++ [helper]).map (· ++ ['\n'])).flatten
  short : output.length ≤ 4095

/-! ## One line -/

section Append

variable {jobs : List Job} {c : Child} {line : List Char} {ws : List (List Char)}

theorem intercalate_blank (h : ws ≠ []) :
    [' '].intercalate ws ++ [' '] = (ws.map (· ++ [' '])).flatten := by
  induction ws with
  | nil => exact absurd rfl h
  | cons w ws ih =>
      cases ws with
      | nil => simp
      | cons v ws =>
          rw [List.intercalate_cons_cons, List.append_assoc, ih (List.cons_ne_nil _ _)]
          simp

theorem catWords_eq (command : List Char)
    (h : (command ++ (ws.map (· ++ [' '])).flatten).length < maxArg) :
    catWords command (ws.map some) = some (command ++ (ws.map (· ++ [' '])).flatten) := by
  induction ws generalizing command with
  | nil => simp [catWords]
  | cons w ws ih =>
      have hassoc : command ++ ((w :: ws).map (· ++ [' '])).flatten
          = command ++ w ++ [' '] ++ (ws.map (· ++ [' '])).flatten := by
        simp
      rw [hassoc] at h ⊢
      have hfit : (command ++ w ++ [' ']).length < maxArg := by
        refine Nat.lt_of_le_of_lt ?_ h
        exact (List.sublist_append_left _ (ws.map (· ++ [' '])).flatten).length_le
      rw [List.map_cons, catWords, if_pos hfit, ih _ h]

/-- Words and the blanks behind them take two places each. -/
theorem length_le_flatten (h : [] ∉ ws) : 2 * ws.length ≤ (ws.map (· ++ [' '])).flatten.length := by
  induction ws with
  | nil => simp
  | cons w ws ih =>
      rw [List.mem_cons, not_or] at h
      have hw := List.length_pos_of_ne_nil (Ne.symm h.1)
      have hrest := ih h.2
      simp only [List.map_cons, List.flatten_cons, List.length_append, List.length_cons,
        List.length_nil]
      omega

/-- `append` cuts the line in its place and adds the job. -/
theorem append_eq (h : c.Shown line) (jobs : List Job) (before rest : List Char) :
    ∃ line', append jobs (before ++ line ++ nul :: rest) before.length
        = some (before ++ line' ++ nul :: rest, jobs ++ [c.job (nextCnt jobs)]) ∧
      line'.length = line.length := by
  have hblank := intercalate_blank h.command
  have hflat : (c.command.map (· ++ [' '])).flatten.length < maxArg := by
    rw [← hblank, List.length_append, List.length_singleton]
    have hshort := h.short
    unfold maxArg
    omega
  have hnil : [] ∉ c.command := by
    intro hmem
    have hnot := nil_notMem_words (p := (· ∈ " ".toList)) line
    rw [h.columns] at hnot
    exact hnot (by simp [hmem])
  have hfew : (c.stat :: decimal c.pgid :: decimal c.pid :: c.command).length < maxArg := by
    have htwo := length_le_flatten hnil
    unfold maxArg at hflat ⊢
    simp only [List.length_cons]
    omega
  obtain ⟨toks, line', htokens, hlen, hplaced⟩ :=
    tokenize_words h.columns h.psLine.nul_notMem hfew before rest
  refine ⟨line', ?_, hlen⟩
  have hcat : catWords [] (c.command.map some) = some ([' '].intercalate c.command ++ [' ']) := by
    rw [catWords_eq [] hflat, hblank, List.nil_append]
  have hcolumns : (((c.stat :: decimal c.pgid :: decimal c.pid :: c.command).map some
      ++ [none]).take (c.stat :: decimal c.pgid :: decimal c.pid :: c.command).length).drop 3
      = c.command.map some := by
    rw [← List.length_map (f := some), List.take_left]
    rfl
  rw [append, htokens]
  simp only [Option.bind_eq_bind, Option.bind_some]
  rw [Tokens.strings_of_placed hplaced, hcolumns, hcat]
  simp only [Option.bind_some, List.map_cons, List.cons_append, if_pos h.stat,
    (atoi_decimal _).1 h.pgid, (atoi_decimal _).1 h.pid]
  rfl

theorem nextCnt_concat (jobs : List Job) (j : Job) : nextCnt (jobs ++ [j]) = j.cnt + 1 := by
  simp [nextCnt]

/-- A buffer behind a part that has changed. -/
theorem drop_behind {u u' v : List Char} {q : ℕ} (hlen : u'.length = u.length)
    (hq : u.length ≤ q) : (u' ++ v).drop q = (u ++ v).drop q := by
  rw [List.drop_append, List.drop_append, List.drop_eq_nil_of_le hq,
    List.drop_eq_nil_of_le (hlen ▸ hq), hlen]

/-- The loop of `main`, on places that have the lines of the children. -/
theorem appendAll_eq {children : List Child} {lines : List (List Char)}
    (h : List.Forall₂ Child.Shown children lines) {buf : List Char} {toks : List ℕ}
    (hstrings : toks.map (stringAt buf) = lines)
    (hapart : toks.Pairwise fun p q => p + (stringAt buf p).length < q)
    (hends : ∀ p ∈ toks, nul ∈ buf.drop p) (jobs : List Job) :
    appendAll jobs buf (toks.map some) = some (jobs ++ numbered (nextCnt jobs) children) := by
  induction h generalizing buf toks jobs with
  | nil =>
      obtain rfl := List.map_eq_nil_iff.mp hstrings
      simp [appendAll, numbered]
  | @cons c line children lines hc hrest ih =>
      obtain ⟨p, toks, rfl, hp, htoks⟩ := List.map_eq_cons_iff.mp hstrings
      obtain ⟨hbehind, hapart'⟩ := List.pairwise_cons.mp hapart
      obtain ⟨hend, hends'⟩ := List.forall_mem_cons.mp hends
      obtain ⟨before, rest, hbuf, rfl⟩ := exists_around hend
      rw [hp] at hbuf hbehind
      obtain ⟨line', happend, hlen⟩ := append_eq hc jobs before rest
      -- the lines behind this one are as before
      have hsame : ∀ q ∈ toks, (before ++ line' ++ nul :: rest).drop q = buf.drop q := by
        intro q hq
        have hlt := hbehind q hq
        rw [hbuf]
        refine drop_behind (by simp [hlen]) ?_
        rw [List.length_append]
        omega
      have hstring : ∀ q ∈ toks, stringAt (before ++ line' ++ nul :: rest) q = stringAt buf q := by
        intro q hq
        rw [stringAt, hsame q hq, stringAt]
      have hmore := ih ((List.map_congr_left hstring).trans htoks)
        (hapart'.imp_of_mem fun hp _ hlt => by rwa [hstring _ hp])
        (fun q hq => by rw [hsame q hq]; exact hends' q hq) (jobs ++ [c.job (nextCnt jobs)])
      rw [List.map_cons, appendAll, hbuf, happend]
      simp only [Option.bind_eq_bind, Option.bind_some]
      rw [hmore, nextCnt_concat, List.append_assoc]
      rfl

end Append

/-! ## The snapshot -/

section Snapshot

variable {children : List Child} {output : List Char}

theorem words_lines {lines : List (List Char)} (h : ∀ l ∈ lines, PsLine l) :
    words (· ∈ "\n\t".toList) (lines.map (· ++ ['\n'])).flatten = lines := by
  induction lines with
  | nil => simp [words]
  | cons l lines ih =>
      obtain ⟨hl, hlines⟩ := List.forall_mem_cons.mp h
      have hplain : ∀ c ∈ l, decide (c ∈ "\n\t".toList) = false := by
        intro c hc
        have hnewline : c ≠ '\n' := by
          rintro rfl
          exact hl.newline_notMem hc
        have htab : c ≠ '\t' := by
          rintro rfl
          exact hl.tab_notMem hc
        simp [hnewline, htab]
      have hcons : words (· ∈ "\n\t".toList) (l ++ '\n' :: (lines.map (· ++ ['\n'])).flatten) = _ :=
        words_word_append hl.ne_nil hplain (by simp)
      rw [List.tail_cons, ih hlines] at hcons
      simpa using hcons

theorem readBuffer_eq (h : output.length ≤ 4095) :
    readBuffer output = output ++ nul :: List.replicate (4095 - output.length) nul := by
  have hsub : bufferLen - output.length = 4095 - output.length + 1 := by
    unfold bufferLen
    omega
  rw [readBuffer, List.take_of_length_le (by unfold bufferLen; omega), hsub, List.replicate_succ]

theorem psLine_of_shown {lines : List (List Char)} (h : List.Forall₂ Child.Shown children lines) :
    ∀ l ∈ lines, PsLine l := by
  induction h with
  | nil => exact nofun
  | cons hc _ ih => exact List.forall_mem_cons.mpr ⟨hc.psLine, ih⟩

theorem nul_notMem_lines {lines : List (List Char)} (h : ∀ l ∈ lines, PsLine l) :
    nul ∉ (lines.map (· ++ ['\n'])).flatten := by
  simp only [List.mem_flatten, List.mem_map]
  rintro ⟨-, ⟨l, hl, rfl⟩, hmem⟩
  rcases List.mem_append.mp hmem with hmem | hmem
  · exact (h l hl).nul_notMem hmem
  · exact absurd hmem (by decide)

/-- `end` in `main`. -/
theorem findIdx?_null (toks : List ℕ) :
    (toks.map some ++ [none]).findIdx? Option.isNone = some toks.length := by
  induction toks with
  | nil => rfl
  | cons p toks ih =>
      rw [List.map_cons, List.cons_append, List.findIdx?_cons, ih]
      simp

/-- `main` makes a job of each child. -/
theorem snapshot_eq (h : PsOutput children output) :
    snapshot output = some (numbered 1 children) := by
  obtain ⟨header, lines, helper, hheader, hhelper, hshown, hcount, houtput⟩ := h.lines
  have hlines : ∀ l ∈ header :: (lines ++ [helper]), PsLine l := by
    intro l hl
    simp only [List.mem_cons, List.mem_append, List.not_mem_nil, or_false] at hl
    rcases hl with rfl | hl | rfl
    · exact hheader
    · exact psLine_of_shown hshown l hl
    · exact hhelper
  have hwords : words (· ∈ "\n\t".toList) output = header :: (lines ++ [helper]) := by
    rw [houtput]
    exact words_lines hlines
  have hnul : nul ∉ output := by
    rw [houtput]
    exact nul_notMem_lines hlines
  obtain ⟨toks, line', htokens, hlen, hplaced⟩ := tokenize_words hwords hnul
    (by unfold maxArg; simp only [List.length_cons, List.cons_append] at hcount ⊢; omega) []
    (List.replicate (4095 - output.length) nul)
  rw [List.nil_append, List.nil_append] at hplaced
  rw [List.nil_append, List.nil_append, List.length_nil] at htokens
  obtain ⟨first, more, rfl, -, hmore⟩ := List.map_eq_cons_iff.mp hplaced.strings
  obtain ⟨toks, last, rfl, hstrings, hlast⟩ := List.map_eq_append_iff.mp hmore
  obtain ⟨z, rfl, -⟩ := List.map_eq_singleton_iff.mp hlast
  have hmid : (((first :: (toks ++ [z])).map some ++ [none]).take
      ((first :: (toks ++ [z])).length - 1)).drop 1 = toks.map some := by
    simp
  rw [snapshot, readBuffer_eq h.short, htokens]
  simp only [Option.bind_eq_bind, Option.bind_some, findIdx?_null, hmid]
  refine appendAll_eq hshown hstrings (hplaced.apart.sublist ?_) (fun p hp => ?_) []
  · exact (List.sublist_append_left toks [z]).trans (List.sublist_cons_self first _)
  · have hle := (hplaced.bounds p (by simp [hp])).2
    rw [List.drop_append_of_le_length (hlen ▸ hle)]
    simp

end Snapshot

/-! ## The searches -/

/-- The child with number `k`, where it is stopped. -/
def stopped (children : List Child) (k : ℕ) : Option Child :=
  if k = 0 then none else children[k - 1]?.filter fun c => c.stat = "T".toList

/-- The last child that is stopped. -/
def lastStopped (children : List Child) : Option Child :=
  (children.filter fun c => c.stat = "T".toList).getLast?

/-- What `bg` should do for a child, or for none. -/
def reply : Option Child → Reply
  | none => .report "mysh: bg: job not found\n"
  | some c => .signal c.pgid

section Bg

variable {children : List Child} {jobs : List Job}

theorem bg_eq_reply {arg : Option (List Char)} {t : Option Child}
    (h : (bgTarget jobs arg).map Job.pgid = t.map fun c => (c.pgid : ℤ)) :
    bg jobs arg = reply t := by
  unfold bg reply
  cases htarget : bgTarget jobs arg with
  | none =>
      rw [htarget] at h
      cases t with
      | none => rfl
      | some c => exact nomatch h
  | some target =>
      rw [htarget] at h
      cases t with
      | none => exact nomatch h
      | some c => exact congrArg Reply.signal (Option.some.inj h)

/-- The loop that keeps the last target. -/
theorem foldl_last {α : Type*} (p : α → Prop) [DecidablePred p] (l : List α) :
    l.foldl (fun target x => if p x then some x else target) none
      = (l.filter fun x => p x).getLast? := by
  induction l using List.reverseRecOn with
  | nil => rfl
  | append_singleton l x ih =>
      rw [List.foldl_append, ih, List.filter_append]
      by_cases hx : p x <;> simp [hx]

theorem map_filter_numbered (n : ℤ) (children : List Child) (stat : List Char) :
    ((numbered n children).filter fun j => j.stat = stat).map Job.pgid
      = (children.filter fun c => c.stat = stat).map fun c => (c.pgid : ℤ) := by
  induction children generalizing n with
  | nil => rfl
  | cons c children ih =>
      by_cases hc : c.stat = stat
      · simp [numbered, Child.job, hc, ih]
      · simp [numbered, Child.job, hc, ih]

theorem bg_none (children : List Child) :
    bg (numbered 1 children) none = reply (lastStopped children) := by
  refine bg_eq_reply ?_
  rw [bgTarget, foldl_last (fun j : Job => j.stat = "T".toList), lastStopped, ← List.getLast?_map,
    ← List.getLast?_map, map_filter_numbered]

/-- The search by number. -/
theorem find_numbered (n num : ℤ) (children : List Child) (stat : List Char) :
    ((numbered n children).find? fun j => j.stat = stat ∧ j.cnt = num)
      = if n ≤ num then
          (children[(num - n).toNat]?.filter fun c => c.stat = stat).map (Child.job · num)
        else none := by
  induction children generalizing n with
  | nil => simp [numbered]
  | cons c children ih =>
      rw [numbered, List.find?_cons, ih]
      rcases Int.lt_trichotomy n num with hlt | rfl | hgt
      · have hne : n ≠ num := by omega
        have hsucc : (num - n).toNat = (num - (n + 1)).toNat + 1 := by omega
        rw [if_pos (show n + 1 ≤ num by omega), if_pos (show n ≤ num by omega), hsucc,
          List.getElem?_cons_succ]
        simp [Child.job, hne]
      · rw [if_neg (by omega), if_pos (Int.le_refl n), Int.sub_self]
        by_cases hc : c.stat = stat
        · simp [Child.job, Option.filter_some, hc]
        · simp [Child.job, Option.filter_some, hc]
      · have hne : n ≠ num := by omega
        rw [if_neg (by omega), if_neg (by omega)]
        simp [Child.job, hne]

theorem bg_number {arg : List Char} {k : ℕ} (h : atoi arg.tail = k) (children : List Child) :
    bg (numbered 1 children) (some arg) = reply (stopped children k) := by
  refine bg_eq_reply ?_
  rw [bgTarget, h, find_numbered, stopped]
  by_cases hk : k = 0
  · simp [hk]
  · have hsub : ((k : ℤ) - 1).toNat = k - 1 := by omega
    rw [if_pos (by omega), if_neg hk, hsub, Option.map_map]
    rfl

theorem bg_negative {arg : List Char} (h : atoi arg.tail < 0) (children : List Child) :
    bg (numbered 1 children) (some arg) = reply none := by
  refine bg_eq_reply ?_
  rw [bgTarget, find_numbered, if_neg (by omega)]
  rfl

/-- `argv_cmd` comes to `bg` with the word behind it. -/
theorem bgStage_eq {stage : List Char} {args : List (List Char)} (result : ℕ → Option ℕ)
    (jobs : List Job) (hwords : stageWords stage = "bg".toList :: args)
    (hplain : Plain ("bg".toList :: args)) (hnul : nul ∉ stage)
    (hfew : ("bg".toList :: args).length < maxArg) :
    bgStage result 1 jobs stage = some (bg jobs args.head?) := by
  have hredirects : redirects (stageWords stage) = [] := by
    rw [hwords, redirects, scan_plain hplain]
  have hremaining : remaining (stageWords stage) = "bg".toList :: args := by
    rw [hwords, remaining, scan_plain hplain]
  have hne : stageWords stage ≠ [] := hwords ▸ List.cons_ne_nil _ _
  rcases @run_stage result stage hne hnul (hwords ▸ hfew) [] [] 1 with
    ⟨-, hnone⟩ | ⟨s, a, hs, ha, htracks⟩
  · rw [hredirects, Loop.run_done planTurn_nil] at hnone
    cases hnone
  · rw [hredirects, Loop.run_done planTurn_nil] at ha
    obtain rfl := Option.some.inj ha
    obtain ⟨k, hargv⟩ := htracks.hasWords_left.1.argv
    rw [hremaining] at hargv
    have hfirst : s.entry 0 = some "bg".toList := by simp [Redir.entry, hargv]
    have hsecond : s.entry 1 = args.head? := by
      rw [Redir.entry, hargv]
      cases args <;> simp
    have hending : s.ending = .bg args.head? := by
      rw [Redir.ending, hfirst]
      exact (if_pos rfl).trans (congrArg Ending.bg hsecond)
    have hloop : redirectLoop result 1 (stage ++ [nul]) 0 = some (some s) := hs
    rw [bgStage, hloop, Option.join_some]
    simp only [Option.bind_eq_bind, Option.bind_some, hending]

theorem bgStage_none (result : ℕ → Option ℕ) (jobs : List Job) :
    bgStage result 1 jobs "bg".toList = some (bg jobs none) := by
  have hwords : stageWords "bg".toList = ["bg".toList] := by decide
  exact bgStage_eq result jobs hwords (by simp [Plain, Op.ofWord]) (by decide) (by decide)

theorem bgStage_number (result : ℕ → Option ℕ) (jobs : List Job) (k : ℕ) :
    bgStage result 1 jobs ("bg %".toList ++ decimal k)
      = some (bg jobs (some ('%' :: decimal k))) := by
  have hblank : ∀ c ∈ decimal k, c ∉ " \t".toList := by
    intro c hc hmem
    have hall : ∀ c ∈ " \t".toList, c.isDigit = false := by simp
    exact notMem_decimal k (hall c hmem) hc
  have hwords : stageWords ("bg %".toList ++ decimal k) = ["bg".toList, '%' :: decimal k] := by
    have hlast : words (· ∈ " \t".toList) ('%' :: decimal k) = ['%' :: decimal k] := by
      refine words_word (List.cons_ne_nil _ _) (List.forall_mem_cons.mpr ⟨by decide, ?_⟩)
      simpa using hblank
    have hcons : words (· ∈ " \t".toList) ("bg".toList ++ ' ' :: '%' :: decimal k) = _ :=
      words_word_append (by decide) (by simp) (by simp)
    rw [List.tail_cons, hlast] at hcons
    exact hcons
  refine bgStage_eq result jobs hwords ?_ ?_ (by simp [maxArg])
  · simp [Plain, Op.ofWord]
  · have hnul : nul ∉ decimal k := notMem_decimal k rfl
    have hword : nul ∉ "bg %".toList := by decide
    exact fun hmem => (List.mem_append.mp hmem).elim hword hnul

theorem reply_eq_iff {t : Option Child} : reply t = reply none ↔ t = none := by
  cases t <;> simp [reply]

theorem stopped_eq_none {k : ℕ} (h : children.length < k) : stopped children k = none := by
  rw [stopped, List.getElem?_eq_none (by omega)]
  simp

/-- Numbers of more than 31 bits: what `bg` makes of them. -/
theorem bg_large {k : ℕ} (hlen : children.length < 255) (hk : 2 ^ 31 ≤ k) :
    bg (numbered 1 children) (some ('%' :: decimal k))
      = reply (if 2 ^ 63 ≤ k then none else stopped children (k % 2 ^ 32)) := by
  obtain ⟨-, hlow, hhigh⟩ := atoi_decimal k
  split
  · next hmax => exact bg_negative (by rw [List.tail_cons, hhigh hmax]; decide) children
  · next hmax =>
      have hatoi := hlow (by omega)
      rw [Int.bmod_def] at hatoi
      by_cases hr : k % 2 ^ 32 < 2 ^ 31
      · refine bg_number ?_ children
        rw [List.tail_cons, hatoi, if_pos (by omega)]
        rfl
      · rw [stopped_eq_none (by omega)]
        refine bg_negative ?_ children
        rw [List.tail_cons, hatoi, if_neg (by omega)]
        omega

/-- The jobs of the children are listed, `bg` continues the last that is
stopped, and `bg %k` the one with number `k` if it is stopped. -/
def Serves (children : List Child) (output : List Char) (result : ℕ → Option ℕ) (k : ℕ) : Prop :=
  ∃ jobs, snapshot output = some jobs ∧ jobs = numbered 1 children ∧
    bgStage result 1 jobs "bg".toList = some (reply (lastStopped children)) ∧
    bgStage result 1 jobs ("bg %".toList ++ decimal k) = some (reply (stopped children k))

/-- That is so for every output of `ps`, but for numbers that `atoi` takes
for that of another job. -/
theorem jobs_served_iff (children : List Child) (output : List Char)
    (h : PsOutput children output) (result : ℕ → Option ℕ) (k : ℕ) :
    Serves children output result k ↔
      k < 2 ^ 31 ∨ 2 ^ 63 ≤ k ∨ stopped children (k % 2 ^ 32) = none := by
  have hlen : children.length < 255 := by
    obtain ⟨header, lines, helper, -, -, hshown, hcount, -⟩ := h.lines
    simp only [List.length_append, List.length_cons] at hcount
    rw [hshown.length_eq]
    omega
  unfold Serves
  rw [snapshot_eq h]
  simp only [Option.some.injEq, exists_eq_left', true_and, bgStage_none, bg_none, bgStage_number]
  by_cases hk : k < 2 ^ 31
  · have hatoi : atoi ('%' :: decimal k).tail = k := (atoi_decimal k).1 hk
    exact iff_of_true (bg_number hatoi children) (.inl hk)
  · rw [bg_large hlen (by omega), stopped_eq_none (show children.length < k by omega), reply_eq_iff]
    by_cases hmax : 2 ^ 63 ≤ k
    · rw [if_pos hmax]
      exact iff_of_true rfl (.inr (.inl hmax))
    · rw [if_neg hmax]
      exact ⟨fun hnone => .inr (.inr hnone), fun hor =>
        (hor.resolve_left hk).resolve_left hmax⟩

/-- A stopped child and a sleeping one. -/
def sampleChildren : List Child :=
  [⟨"T".toList, 101, 101, ["vi".toList, "a.c".toList]⟩, ⟨"S".toList, 102, 103, ["cat".toList]⟩]

def sampleOutput : List Char :=
  (["STAT PGID PID COMMAND".toList, "T     101 101 vi a.c".toList, "S     102 103 cat".toList,
    "R+    104 104 ps".toList].map (· ++ ['\n'])).flatten

theorem psOutput_sample : PsOutput sampleChildren sampleOutput := by
  have hline : ∀ l ∈ ["STAT PGID PID COMMAND".toList, "T     101 101 vi a.c".toList,
      "S     102 103 cat".toList, "R+    104 104 ps".toList], PsLine l := by
    intro l hl
    have hall : ∀ l ∈ ["STAT PGID PID COMMAND".toList, "T     101 101 vi a.c".toList,
        "S     102 103 cat".toList, "R+    104 104 ps".toList],
        l ≠ [] ∧ '\n' ∉ l ∧ '\t' ∉ l ∧ nul ∉ l := by decide
    obtain ⟨hne, hnewline, htab, hnul⟩ := hall l hl
    exact ⟨hne, hnewline, htab, hnul⟩
  refine ⟨⟨"STAT PGID PID COMMAND".toList, ["T     101 101 vi a.c".toList,
    "S     102 103 cat".toList], "R+    104 104 ps".toList, hline _ (by simp), hline _ (by simp),
    ?_, by decide, rfl⟩, by decide⟩
  refine .cons ?_ (.cons ?_ .nil)
  · exact ⟨hline _ (by simp), by decide, by decide, by decide, by decide, by decide, by decide⟩
  · exact ⟨hline _ (by simp), by decide, by decide, by decide, by decide, by decide, by decide⟩

theorem jobs_served_iff_sample : PsOutput sampleChildren sampleOutput ∧
    Serves sampleChildren sampleOutput (fun _ => none) 1 :=
  ⟨psOutput_sample, (jobs_served_iff _ _ psOutput_sample _ 1).mpr (.inl (by decide))⟩

/-- `bg %4294967297` continues job 1. -/
theorem far_number_signals : PsOutput sampleChildren sampleOutput ∧
    stopped sampleChildren 4294967297 = none ∧
    (snapshot sampleOutput).bind
        (fun jobs => bgStage (fun _ => none) 1 jobs "bg %4294967297".toList)
      = some (.signal 101) ∧
    ¬ Serves sampleChildren sampleOutput (fun _ => none) 4294967297 := by
  have hnone : stopped sampleChildren 4294967297 = none := by decide
  have hbg : bg (numbered 1 sampleChildren) (some ('%' :: decimal 4294967297)) = .signal 101 := by
    rw [bg_large (by decide) (by decide)]
    decide
  have hstage : bgStage (fun _ => none) 1 (numbered 1 sampleChildren)
      ("bg %".toList ++ decimal 4294967297) = some (.signal 101) := by
    rw [bgStage_number, hbg]
  refine ⟨psOutput_sample, hnone, ?_, ?_⟩
  · have hline : "bg %4294967297".toList = "bg %".toList ++ decimal 4294967297 := by decide
    rw [snapshot_eq psOutput_sample, Option.bind_some, hline, hstage]
  · rintro ⟨jobs, -, rfl, -, hserved⟩
    rw [hstage, hnone] at hserved
    exact nomatch Option.some.inj hserved

end Bg

end Sh3

end Comp4511
