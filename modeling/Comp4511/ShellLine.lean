import Comp4511.CStr

/-!
# Reading a command line

`get_cmd_line` of both shells. A line is read with `fgets`, its last
character is overwritten, and three scans over the buffer find out whether
there is anything but blanks and where it begins and ends.

`scanLine_eq` is what the three scans come to. The test for an empty line
knows spaces only, the trimming spaces and tabs; on a line of blanks with a
tab among them the last scan leaves the buffer at its beginning.
-/

namespace Comp4511

open CStr

def blank (c : Char) : Bool := c = ' ' ∨ c = '\t'

/-- What a call comes to: an access outside the line that was read, the
value `-1`, the value `0` with `cmdline`, or `exit` with `cmdline`. -/
inductive Input where
  | fault
  | empty
  | line (cmdline : List Char)
  | exit (cmdline : List Char)
deriving Repr, DecidableEq

/-- The scans of `get_cmd_line` over what `fgets` has read. -/
def scanLine (chunk : List Char) : Input :=
  let cmd := chunk ++ [nul]
  match strlen cmd with
  | 0 => .fault
  | last + 1 =>
      let cmd := cmd.set last nul
      let i := ((cmd.take last).takeWhile (· = ' ')).length
      if i = last then .empty
      else
        match scanUp blank cmd, scanDown (fun c => blank c || c = nul) cmd last with
        | some str, some last => .line ((cmd.take (last + 1)).drop str)
        | _, _ => .fault

/-- `get_cmd_line` with a buffer of `size` characters, where `reply` is
what it does with the characters read. -/
def getLine (size : ℕ) (reply : List Char → Input) (stdin : List Char) : Input × List Char :=
  match fgets size stdin with
  | none => (.empty, stdin)
  | some (chunk, rest) => (reply chunk, rest)

namespace Sh2

def maxCmdlineLen : ℕ := 1024

def getCmdLine : List Char → Input × List Char := getLine maxCmdlineLen scanLine

end Sh2

namespace Sh3

def maxCmdlineLen : ℕ := 256

/-- The test for `exit` at the end of `get_cmd_line`. -/
def leave : Input → Input
  | .line cmdline => if cmdline = "exit".toList then .exit cmdline else .line cmdline
  | i => i

def getCmdLine : List Char → Input × List Char :=
  getLine maxCmdlineLen fun chunk => leave (scanLine chunk)

end Sh3

/-! ## What the scans find -/

/-- Only blanks, and not only spaces. -/
def Tabbed (l : List Char) : Prop := (∀ c ∈ l, blank c = true) ∧ '\t' ∈ l

instance (l : List Char) : Decidable (Tabbed l) := by
  unfold Tabbed
  infer_instance

theorem blank_nul : blank nul = false := by decide

theorem blank_iff {c : Char} : blank c = true ↔ c = ' ' ∨ c = '\t' := by simp [blank]

/-- Blanks between words. -/
structure Gap where
  blanks : List Char
  nonempty : blanks ≠ []
  blank : ∀ c ∈ blanks, blank c = true

/-- Blanks without a tab are spaces. -/
theorem exists_of_not_tabbed {l : List Char} (hspaces : ¬ ∀ c ∈ l, c = ' ') (htab : ¬ Tabbed l) :
    ∃ c ∈ l, blank c = false := by
  by_contra hno
  have hblank : ∀ c ∈ l, blank c = true := by simpa using hno
  refine hspaces fun c hc => ?_
  rcases blank_iff.mp (hblank c hc) with hc' | rfl
  · exact hc'
  · exact absurd ⟨hblank, hc⟩ htab

theorem not_tabbed_of_spaces {l : List Char} (h : ∀ c ∈ l, c = ' ') : ¬ Tabbed l := by
  rintro ⟨-, htab⟩
  exact absurd (h _ htab) (by decide)

section Scan

variable {l : List Char}

/-- The scans of the string `l` in a buffer. -/
theorem scans_of_mem (hnul : nul ∉ l) (h : ∃ c ∈ l, blank c = false) (rest : List Char) :
    ∃ str last, scanUp blank (l ++ nul :: rest) = some str ∧
      scanDown (fun c => blank c || c = nul) (l ++ nul :: rest) l.length = some last ∧
      ((l ++ nul :: rest).take (last + 1)).drop str = trim blank l := by
  have hlen : l.length < (l ++ nul :: rest).length := by simp
  have htake : (l ++ nul :: rest).take (l.length + 1) = l ++ [nul] := by
    simp [List.take_length_add_append]
  have hsame : ∀ c ∈ l, (blank c || decide (c = nul)) = blank c := by
    intro c hc
    have hne : c ≠ nul := by
      rintro rfl
      exact hnul hc
    simp [hne]
  -- the right end is that of `l`, since `l` has no `nul`
  have hright : ((l ++ nul :: rest).take (l.length + 1)).rdropWhile (fun c => blank c || c = nul)
      = l.rdropWhile blank := by
    rw [htake, List.rdropWhile_concat_pos _ _ _ (by simp), rdropWhile_congr hsame]
  cases hdown : scanDown (fun c => blank c || c = nul) (l ++ nul :: rest) l.length with
  | none =>
      obtain ⟨c, hc, hp⟩ := h
      rw [scanDown_eq_none_iff hlen, htake] at hdown
      have hq := hdown c (by simp [hc])
      rw [hsame c hc] at hq
      exact absurd hq (by simp [hp])
  | some last =>
      refine ⟨_, last, scanUp_append h, rfl, ?_⟩
      have hscan := scanDown_take (p := fun c => blank c || c = nul) hlen
      rw [hdown, Option.elim_some, hright] at hscan
      rw [hscan, drop_rdropWhile l h]

theorem scanDown_of_forall (h : ∀ c ∈ l, blank c = true) (rest : List Char) :
    scanDown (fun c => blank c || c = nul) (l ++ nul :: rest) l.length = none := by
  rw [scanDown_eq_none_iff (by simp)]
  simp only [List.take_length_add_append, List.take_succ_cons, List.take_zero, List.mem_append,
    List.mem_singleton]
  rintro c (hc | rfl)
  · simp [h c hc]
  · simp

/-- The string that the scans go over: without its last character. -/
def seen (chunk : List Char) : List Char := (text chunk).dropLast

theorem nul_notMem_seen (chunk : List Char) : nul ∉ seen chunk :=
  fun hmem => nul_notMem_text chunk (List.dropLast_subset _ hmem)

theorem scanLine_eq (chunk : List Char) :
    scanLine chunk =
      if text chunk = [] then .fault
      else if ∀ c ∈ seen chunk, c = ' ' then .empty
      else if Tabbed (seen chunk) then .fault
      else .line (trim blank (seen chunk)) := by
  obtain ⟨rest, hrest⟩ := exists_text_append chunk
  have hnul := nul_notMem_text chunk
  unfold scanLine
  simp only [hrest, strlen, text_append_nul hnul]
  rcases List.eq_nil_or_concat (text chunk) with hnil | ⟨l, c, htext⟩
  · simp [hnil]
  · have hseen : seen chunk = l := by simp [seen, htext]
    have hl : nul ∉ l := hseen ▸ nul_notMem_seen chunk
    have hset : (l ++ [c] ++ nul :: rest).set l.length nul = l ++ nul :: nul :: rest := by
      simp
    have hspaces : (l.takeWhile (· = ' ')).length = l.length ↔ ∀ c ∈ l, c = ' ' := by
      simp [length_takeWhile_eq_iff]
    simp only [hseen, htext, List.concat_eq_append, List.append_eq_nil_iff, List.cons_ne_self,
      and_false, if_false, List.length_append, List.length_singleton, hset, List.take_left, hspaces]
    by_cases hall : ∀ c ∈ l, c = ' '
    · rw [if_pos hall, if_pos hall]
    rw [if_neg hall, if_neg hall]
    by_cases htab : Tabbed l
    · rw [if_pos htab, scanDown_of_forall htab.1]
      cases scanUp blank (l ++ nul :: nul :: rest) <;> rfl
    · obtain ⟨str, last, hup, hdown, hcopy⟩ :=
        scans_of_mem hl (exists_of_not_tabbed hall htab) (nul :: rest)
      rw [if_neg htab, hup, hdown, ← hcopy]

end Scan

/-! ## One line -/

/-- A line without blanks at its ends. -/
structure Trimmed (line : List Char) : Prop where
  head : ∃ c ∈ line.head?, blank c = false
  last : ∃ c ∈ line.getLast?, blank c = false

theorem Trimmed.ne_nil {line : List Char} (h : Trimmed line) : line ≠ [] := by
  obtain ⟨c, hc, -⟩ := h.head
  rintro rfl
  exact nomatch hc

/-- What a shell gets as a line. -/
theorem trimmed_of_scanLine {chunk line : List Char} (h : scanLine chunk = .line line) :
    Trimmed line ∧ nul ∉ line ∧ line.length < chunk.length := by
  rw [scanLine_eq] at h
  split_ifs at h with htext hspaces htab
  obtain rfl := Input.line.inj h
  obtain ⟨hhead, hlast⟩ := trim_ends (exists_of_not_tabbed hspaces htab)
  refine ⟨⟨hhead, hlast⟩, fun hmem => ?_, ?_⟩
  · exact nul_notMem_seen chunk ((trim_sublist _).subset hmem)
  · have hle := (trim_sublist (p := blank) (seen chunk)).length_le
    have htake := (List.takeWhile_sublist (l := chunk) (· ≠ nul)).length_le
    have hpos := List.length_pos_of_ne_nil htext
    rw [seen, List.length_dropLast] at hle
    unfold text at hle hpos
    unfold seen text
    omega

/-- A line comes from a chunk that fits into the buffer. -/
theorem trimmed_of_getLine {size : ℕ} {reply : List Char → Input} {stdin rest line : List Char}
    (hreply : ∀ chunk, reply chunk = .line line → scanLine chunk = .line line)
    (h : getLine size reply stdin = (.line line, rest)) :
    Trimmed line ∧ nul ∉ line ∧ line.length + 2 ≤ size := by
  unfold getLine at h
  split at h
  · exact nomatch congrArg Prod.fst h
  · next chunk rest' hread =>
      obtain ⟨htrim, hnul, hlen⟩ := trimmed_of_scanLine (hreply chunk (congrArg Prod.fst h))
      have hle := length_of_fgets hread
      exact ⟨htrim, hnul, by omega⟩

theorem Sh2.trimmed_of_getCmdLine {stdin rest line : List Char}
    (h : getCmdLine stdin = (.line line, rest)) :
    Trimmed line ∧ nul ∉ line ∧ line.length + 2 ≤ maxCmdlineLen :=
  trimmed_of_getLine (fun _ hchunk => hchunk) h

theorem Sh3.trimmed_of_getCmdLine {stdin rest line : List Char}
    (h : getCmdLine stdin = (.line line, rest)) :
    Trimmed line ∧ nul ∉ line ∧ line.length + 2 ≤ maxCmdlineLen := by
  refine trimmed_of_getLine (fun chunk hchunk => ?_) h
  unfold leave at hchunk
  split at hchunk
  · next hscan =>
      split at hchunk
      · exact nomatch hchunk
      · rw [hscan, hchunk]
  · exact hchunk

/-- The characters that a call delivers; `none` after a fault. -/
def Input.chars : Input → Option (List Char)
  | .fault => none
  | .empty => some []
  | .line cmdline | .exit cmdline => some cmdline

/-- The call returns `-1` for blanks and the trimmed line otherwise, and
stays in the line. -/
def Trims (body : List Char) (i : Input) : Prop :=
  (i = .empty ↔ ∀ c ∈ body, blank c = true) ∧
    ((∃ c ∈ body, blank c = false) → i.chars = some (trim blank body)) ∧ i ≠ .fault

namespace Sh3

@[simp] theorem chars_leave (i : Input) : (leave i).chars = i.chars := by
  unfold leave
  split
  · split <;> rfl
  · rfl

@[simp] theorem leave_eq_empty {i : Input} : leave i = .empty ↔ i = .empty := by
  unfold leave
  split
  · split <;> simp
  · rfl

@[simp] theorem leave_eq_fault {i : Input} : leave i = .fault ↔ i = .fault := by
  unfold leave
  split
  · split <;> simp
  · rfl

/-- The test for `exit` changes nothing about the line. -/
theorem trims_leave {body : List Char} {i : Input} : Trims body (leave i) ↔ Trims body i := by
  simp [Trims]

end Sh3

theorem scanLine_line {body : List Char} (hnul : nul ∉ body) :
    scanLine (body ++ ['\n']) =
      if ∀ c ∈ body, c = ' ' then .empty
      else if Tabbed body then .fault
      else .line (trim blank body) := by
  have htext : text (body ++ ['\n']) = body ++ ['\n'] := by
    refine text_eq_self ?_
    simpa [hnul] using by decide
  rw [scanLine_eq, seen, htext]
  simp

theorem ne_of_blank {c : Char} (h : blank c = true) : c ≠ nul ∧ c ≠ '\n' := by
  rcases blank_iff.mp h with rfl | rfl <;> decide

/-- A line with blanks around it. -/
theorem scanLine_trimmed {before line after : List Char} (hbefore : ∀ c ∈ before, blank c = true)
    (hafter : ∀ c ∈ after, blank c = true) (htrim : Trimmed line)
    (hnul : nul ∉ before ++ line ++ after) :
    scanLine (before ++ line ++ after ++ ['\n']) = .line line := by
  obtain ⟨x, hx, hblank⟩ := htrim.head
  have hmem : x ∈ before ++ line ++ after :=
    List.mem_append_left _ (List.mem_append_right _ (List.mem_of_mem_head? hx))
  have hspaces : ¬ ∀ y ∈ before ++ line ++ after, y = ' ' := by
    intro hall
    rw [hall x hmem] at hblank
    exact absurd hblank (by decide)
  have htab : ¬ Tabbed (before ++ line ++ after) := by
    rintro ⟨hall, -⟩
    rw [hall x hmem] at hblank
    exact absurd hblank (by decide)
  rw [scanLine_line hnul, if_neg hspaces, if_neg htab,
    trim_append hbefore hafter htrim.head htrim.last]

theorem scanLine_spaces (n : ℕ) : scanLine (List.replicate n ' ' ++ ['\n']) = .empty := by
  have hspaces : ∀ c ∈ List.replicate n ' ', c = ' ' := fun c hc => List.eq_of_mem_replicate hc
  have hnul : nul ∉ List.replicate n ' ' := fun hmem => absurd (hspaces _ hmem) (by decide)
  rw [scanLine_line hnul, if_pos hspaces]

theorem trims_scanLine_iff {body : List Char} (hnul : nul ∉ body) :
    Trims body (scanLine (body ++ ['\n'])) ↔
      (∀ c ∈ body, c = ' ') ∨ ∃ c ∈ body, blank c = false := by
  rw [scanLine_line hnul]
  by_cases hspaces : ∀ c ∈ body, c = ' '
  · have hblank : ∀ c ∈ body, blank c = true := fun c hc => by simp [hspaces c hc, blank]
    rw [if_pos hspaces]
    refine iff_of_true ⟨by simpa using hblank, ?_, nofun⟩ (.inl hspaces)
    rintro ⟨c, hc, hnot⟩
    exact absurd (hblank c hc) (by simp [hnot])
  rw [if_neg hspaces]
  by_cases htab : Tabbed body
  · rw [if_pos htab]
    refine iff_of_false (fun h => h.2.2 rfl) ?_
    rintro (h | ⟨c, hc, hnot⟩)
    · exact hspaces h
    · exact absurd (htab.1 c hc) (by simp [hnot])
  · obtain ⟨c, hc, hnot⟩ := exists_of_not_tabbed hspaces htab
    rw [if_neg htab]
    refine iff_of_true ⟨?_, fun _ => rfl, nofun⟩ (.inr ⟨c, hc, hnot⟩)
    refine iff_of_false nofun fun hblank => ?_
    exact absurd (hblank c hc) (by simp [hnot])

theorem getLine_line {size : ℕ} {reply : List Char → Input} {body : List Char} (rest : List Char)
    (hbody : '\n' ∉ body) (hsize : body.length + 2 ≤ size) :
    getLine size reply (body ++ '\n' :: rest) = (reply (body ++ ['\n']), rest) := by
  rw [getLine, fgets_line hbody hsize]

theorem getLine_spaces {size : ℕ} {reply : List Char → Input} {n : ℕ} (rest : List Char)
    (hsize : n + 2 ≤ size) : getLine size reply (List.replicate n ' ' ++ '\n' :: rest) =
      (reply (List.replicate n ' ' ++ ['\n']), rest) := by
  refine getLine_line rest (fun hmem => ?_) (by rwa [List.length_replicate])
  exact absurd (List.eq_of_mem_replicate hmem) (by decide)

/-- On a line that fits, `get_cmd_line` of either shell does its work just
when the line is all spaces or has something that is not a blank. -/
theorem line_trimmed_iff (body rest : List Char) (hnul : nul ∉ body) (hbody : '\n' ∉ body) :
    (body.length + 2 ≤ Sh2.maxCmdlineLen →
      (Trims body (Sh2.getCmdLine (body ++ '\n' :: rest)).1 ↔
        (∀ c ∈ body, c = ' ') ∨ ∃ c ∈ body, blank c = false)) ∧
    (body.length + 2 ≤ Sh3.maxCmdlineLen →
      (Trims body (Sh3.getCmdLine (body ++ '\n' :: rest)).1 ↔
        (∀ c ∈ body, c = ' ') ∨ ∃ c ∈ body, blank c = false)) := by
  constructor
  · intro hsize
    rw [Sh2.getCmdLine, getLine_line rest hbody hsize]
    exact trims_scanLine_iff hnul
  · intro hsize
    rw [Sh3.getCmdLine, getLine_line rest hbody hsize, Sh3.trims_leave]
    exact trims_scanLine_iff hnul

theorem line_trimmed_iff_ls : Trims "\tls ".toList (Sh2.getCmdLine "\tls \n".toList).1 ∧
    Trims "\tls ".toList (Sh3.getCmdLine "\tls \n".toList).1 := by
  obtain ⟨hsh2, hsh3⟩ := line_trimmed_iff "\tls ".toList [] (by decide) (by decide)
  have hmem : (∀ c ∈ "\tls ".toList, c = ' ') ∨ ∃ c ∈ "\tls ".toList, blank c = false := by
    exact .inr ⟨'l', by simp, rfl⟩
  exact ⟨(hsh2 (by decide)).mpr hmem, (hsh3 (by decide)).mpr hmem⟩

/-- A line with a tab only. -/
theorem tab_line_faults : ¬ Trims ['\t'] (Sh2.getCmdLine "\t\n".toList).1 ∧
    ¬ Trims ['\t'] (Sh3.getCmdLine "\t\n".toList).1 := by
  have hsh2 : (Sh2.getCmdLine "\t\n".toList).1 = .fault := by decide
  have hsh3 : (Sh3.getCmdLine "\t\n".toList).1 = .fault := by decide
  exact ⟨fun h => h.2.2 hsh2, fun h => h.2.2 hsh3⟩

/-! ## The whole stream -/

/-- The shell does not call `get_cmd_line` again. -/
def Input.ends : Input → Bool
  | .fault | .exit _ => true
  | .empty | .line _ => false

/-- The first `n` calls on a stream. -/
def calls (get : List Char → Input × List Char) : ℕ → List Char → List Input
  | 0, _ => []
  | n + 1, stdin =>
      match get stdin with
      | (i, rest) => i :: if i.ends then [] else calls get n rest

/-- The characters that calls deliver one after the other. -/
def delivered : List Input → Option (List Char)
  | [] => some []
  | i :: is => i.chars.bind fun cs => (delivered is).map (cs ++ ·)

/-- The first `n` chunks of a stream, up to one after which the shell is
`gone`. -/
def chunks (size : ℕ) (gone : List Char → Bool) : ℕ → List Char → List (List Char)
  | 0, _ => []
  | n + 1, stdin =>
      match fgets size stdin with
      | none => []
      | some (chunk, rest) => chunk :: if gone chunk then [] else chunks size gone n rest

/-- The characters of a chunk other than the newline, without the blanks at
its ends. -/
def kept (chunk : List Char) : List Char := trim blank (chunk.filter (· ≠ '\n'))

/-- A chunk of which nothing is lost: no `nul`, a newline or a blank in the
last place, and not just blanks with a tab before it. -/
def Whole (chunk : List Char) : Prop :=
  nul ∉ chunk ∧ (∃ c ∈ chunk.getLast?, c = '\n' ∨ blank c = true) ∧ ¬ Tabbed chunk.dropLast

/-- The shell leaves with this chunk. -/
def Sh3.gone (chunk : List Char) : Bool := scanLine chunk = .line "exit".toList

theorem chars_scanLine (chunk : List Char) :
    (scanLine chunk).chars =
      if text chunk = [] ∨ Tabbed (seen chunk) then none else some (trim blank (seen chunk)) := by
  rw [scanLine_eq]
  by_cases hnil : text chunk = []
  · simp [hnil, Input.chars]
  by_cases hspaces : ∀ c ∈ seen chunk, c = ' '
  · have htrim : trim blank (seen chunk) = [] :=
      trim_eq_nil fun c hc => by simp [hspaces c hc, blank]
    rw [if_neg hnil, if_pos hspaces, if_neg (not_or.mpr ⟨hnil, not_tabbed_of_spaces hspaces⟩),
      htrim]
    rfl
  rw [if_neg hnil, if_neg hspaces]
  by_cases htab : Tabbed (seen chunk)
  · rw [if_pos htab, if_pos (.inr htab)]
    rfl
  · rw [if_neg htab, if_neg (not_or.mpr ⟨hnil, htab⟩)]
    rfl

section Chunk

variable {body : List Char} {last : Char}

theorem filter_newline (hbody : '\n' ∉ body) :
    (body ++ [last]).filter (· ≠ '\n') = body ++ if last = '\n' then [] else [last] := by
  have hself : body.filter (· ≠ '\n') = body := by
    refine List.filter_eq_self.mpr fun c hc => ?_
    simp only [ne_eq, decide_eq_true_eq]
    rintro rfl
    exact hbody hc
  rw [List.filter_append, hself]
  by_cases hlast : last = '\n' <;> simp [hlast]

/-- What precedes the last character is kept, but for its blanks. -/
theorem length_chars_le (hbody : '\n' ∉ body) {cs : List Char}
    (h : (scanLine (body ++ [last])).chars = some cs) :
    cs.length ≤ (kept (body ++ [last])).length := by
  rw [chars_scanLine] at h
  split at h
  · exact nomatch h
  obtain rfl := Option.some.inj h
  -- what the scans see is an initial part of `body`
  obtain ⟨rest, hrest⟩ : ∃ rest, body = seen (body ++ [last]) ++ rest := by
    have hpre : text (body ++ [last]) <+: body ++ [last] := List.takeWhile_prefix _
    have hdrop : seen (body ++ [last]) <+: text (body ++ [last]) := List.dropLast_prefix _
    have hlen : (seen (body ++ [last])).length ≤ body.length := by
      have hle := hpre.length_le
      rw [List.length_append, List.length_singleton] at hle
      rw [seen, List.length_dropLast]
      omega
    obtain ⟨rest, hrest⟩ :=
      List.prefix_of_prefix_length_le (hdrop.trans hpre) (List.prefix_append body [last]) hlen
    exact ⟨rest, hrest.symm⟩
  rw [kept, filter_newline hbody]
  conv_rhs => rw [hrest, List.append_assoc]
  exact length_trim_append_le _ _

theorem chars_eq_kept_iff (hbody : '\n' ∉ body) :
    (scanLine (body ++ [last])).chars = some (kept (body ++ [last])) ↔ Whole (body ++ [last]) := by
  by_cases hnul : nul ∈ body ++ [last]
  · refine iff_of_false (fun h => ?_) (fun h => h.1 hnul)
    -- a `nul` is never delivered
    rw [chars_scanLine] at h
    split at h
    · exact nomatch h
    have hkept : nul ∈ kept (body ++ [last]) := by
      exact mem_trim (List.mem_filter.mpr ⟨hnul, by decide⟩) blank_nul
    rw [← Option.some.inj h] at hkept
    exact nul_notMem_seen _ ((trim_sublist _).subset hkept)
  have hseen : seen (body ++ [last]) = body := by
    rw [seen, text_eq_self hnul, List.dropLast_concat]
  have htext : text (body ++ [last]) ≠ [] := by
    rw [text_eq_self hnul]
    simp
  have hkept : trim blank body = kept (body ++ [last]) ↔ last = '\n' ∨ blank last = true := by
    rw [kept, filter_newline hbody]
    by_cases hlast : last = '\n'
    · simp [hlast]
    cases hblank : blank last with
    | true => simp [hlast, trim_concat_of_pos hblank]
    | false =>
        have hlen := (rdropWhile_sublist (p := blank) (body.dropWhile blank)).length_le
        simp only [hlast, if_false, trim_concat_of_neg hblank, false_or, Bool.false_eq_true,
          iff_false]
        intro heq
        have := congrArg List.length heq
        rw [List.length_append, List.length_singleton] at this
        unfold trim at this
        omega
  rw [chars_scanLine, hseen]
  simp only [htext, false_or]
  by_cases htab : Tabbed body
  · simp [htab, Whole]
  · simp [htab, Whole, hnul, hkept]

end Chunk

/-- The calls `is` deliver at most what the chunks `ks` keep, and all of it
just when these are whole. -/
def Agree (is : List Input) (ks : List (List Char)) : Prop :=
  (∀ cs, delivered is = some cs → cs.length ≤ (ks.flatMap kept).length) ∧
    (delivered is = some (ks.flatMap kept) ↔ ∀ chunk ∈ ks, Whole chunk)

theorem agree_nil {is : List Input} (h : delivered is = some []) : Agree is [] := by
  refine ⟨fun cs hcs => ?_, iff_of_true h (by simp)⟩
  rw [h] at hcs
  simp [← Option.some.inj hcs]

/-- One call more. -/
theorem Agree.cons {i : Input} {is : List Input} {ks : List (List Char)} {body : List Char}
    {last : Char} (h : i.chars ≠ none → Agree is ks) (hbody : '\n' ∉ body)
    (hi : i.chars = (scanLine (body ++ [last])).chars) :
    Agree (i :: is) ((body ++ [last]) :: ks) := by
  have hwhole : i.chars = some (kept (body ++ [last])) ↔ Whole (body ++ [last]) :=
    hi ▸ chars_eq_kept_iff hbody
  cases hcs : i.chars with
  | none =>
      rw [hcs] at hwhole
      refine ⟨fun ds hds => ?_, iff_of_false (fun hds => ?_) fun hall => ?_⟩
      · simp [delivered, hcs] at hds
      · simp [delivered, hcs] at hds
      · exact nomatch hwhole.mpr (hall _ (List.mem_cons_self ..))
  | some cs =>
      obtain ⟨hle, hiff⟩ := h (by simp [hcs])
      have hlen := length_chars_le hbody (hi.symm.trans hcs)
      rw [hcs] at hwhole
      constructor
      · intro ds hds
        simp only [delivered, hcs, Option.bind_some, Option.map_eq_some_iff] at hds
        obtain ⟨es, hes, rfl⟩ := hds
        have hrest := hle es hes
        simp only [List.flatMap_cons, List.length_append]
        omega
      · rw [List.forall_mem_cons, ← hiff, ← hwhole]
        simp only [delivered, hcs, Option.bind_some, Option.map_eq_some_iff, List.flatMap_cons,
          Option.some.injEq]
        constructor
        · rintro ⟨es, hes, heq⟩
          -- no part can make up for what another has lost
          have hrest := hle es hes
          have hsum := congrArg List.length heq
          simp only [List.length_append] at hsum
          obtain ⟨hfst, rfl⟩ := List.append_inj heq (by omega)
          exact ⟨hfst, hes⟩
        · rintro ⟨rfl, hes⟩
          exact ⟨_, hes, rfl⟩

section Stream

variable {size : ℕ} {reply : List Char → Input} {gone : List Char → Bool}

theorem chunks_nil (n : ℕ) : chunks size gone n [] = [] := by
  cases n <;> simp [chunks, fgets]

theorem delivered_calls_nil (n : ℕ) : delivered (calls (getLine size reply) n []) = some [] := by
  induction n with
  | zero => rfl
  | succ n ih => simp [calls, getLine, fgets, Input.ends, delivered, Input.chars, ih]

theorem agree_calls (hsize : 2 ≤ size)
    (hchars : ∀ chunk, (reply chunk).chars = (scanLine chunk).chars)
    (hgone : ∀ chunk, (scanLine chunk).chars ≠ none → (reply chunk).ends = gone chunk)
    (n : ℕ) (stdin : List Char) :
    Agree (calls (getLine size reply) n stdin) (chunks size gone n stdin) := by
  induction n generalizing stdin with
  | zero => exact agree_nil rfl
  | succ n ih =>
      by_cases hne : stdin = []
      · rw [hne, chunks_nil]
        exact agree_nil (delivered_calls_nil (n + 1))
      · obtain ⟨body, last, rest, hread, hbody, -⟩ := exists_fgets hsize hne
        simp only [calls, getLine, chunks, hread]
        refine Agree.cons (fun hsome => ?_) hbody (hchars _)
        rw [hgone _ (hchars _ ▸ hsome)]
        split
        · exact agree_nil rfl
        · exact ih rest

/-- The chunks are the whole stream if the shell does not leave before. -/
theorem flatten_chunks (hsize : 2 ≤ size) {n : ℕ} {stdin : List Char} (hn : stdin.length ≤ n)
    (hgone : ∀ chunk ∈ chunks size gone n stdin, gone chunk = false) :
    (chunks size gone n stdin).flatten = stdin := by
  induction n generalizing stdin with
  | zero => simp [chunks, List.eq_nil_of_length_eq_zero (Nat.le_zero.mp hn)]
  | succ n ih =>
      by_cases hne : stdin = []
      · rw [hne, chunks_nil]
        rfl
      · obtain ⟨body, last, rest, hread, -, happ⟩ := exists_fgets hsize hne
        have hlen := congrArg List.length happ
        simp only [List.length_append, List.length_singleton] at hlen
        rw [chunks, hread] at hgone ⊢
        have hgo : gone (body ++ [last]) = false := hgone _ (List.mem_cons_self ..)
        have hrest : (chunks size gone n rest).flatten = rest := by
          refine ih (by omega) fun c hc => hgone c (List.mem_cons_of_mem _ ?_)
          rwa [hgo]
        simp only [hgo, Bool.false_eq_true, if_false, List.flatten_cons, hrest, happ]

end Stream

theorem scanLine_cases {chunk : List Char} (h : (scanLine chunk).chars ≠ none) :
    scanLine chunk = .empty ∨ ∃ l, scanLine chunk = .line l := by
  rw [scanLine_eq] at h ⊢
  split_ifs at h ⊢
  · exact absurd rfl h
  · exact .inl rfl
  · exact absurd rfl h
  · exact .inr ⟨_, rfl⟩

theorem scanLine_ne_exit (chunk cmdline : List Char) : scanLine chunk ≠ .exit cmdline := by
  rw [scanLine_eq]
  split_ifs <;> exact nofun

theorem ends_scanLine {chunk : List Char} (h : (scanLine chunk).chars ≠ none) :
    (scanLine chunk).ends = false := by
  rcases scanLine_cases h with hline | ⟨l, hline⟩ <;> rw [hline] <;> rfl

theorem Sh3.ends_leave {chunk : List Char} (h : (scanLine chunk).chars ≠ none) :
    (leave (scanLine chunk)).ends = gone chunk := by
  unfold gone
  rcases scanLine_cases h with hline | ⟨l, hline⟩
  · rw [hline]
    rfl
  · by_cases hl : l = "exit".toList
    · rw [hline, leave, if_pos hl, hl]
      rfl
    · rw [hline, leave, if_neg hl]
      simp only [Input.ends, Input.line.injEq, hl, decide_false]

/-- The calls that a shell makes until the end of its input deliver all the
characters but newlines and the blanks at the ends of chunks just when
every chunk is whole. -/
theorem input_kept_iff (stdin : List Char) (k : ℕ) :
    ((chunks Sh2.maxCmdlineLen (fun _ => false) (stdin.length + k) stdin).flatten = stdin ∧
      (delivered (calls Sh2.getCmdLine (stdin.length + k) stdin) =
          some ((chunks Sh2.maxCmdlineLen (fun _ => false) (stdin.length + k) stdin).flatMap kept) ↔
        ∀ chunk ∈ chunks Sh2.maxCmdlineLen (fun _ => false) (stdin.length + k) stdin,
          Whole chunk)) ∧
    (((∀ chunk ∈ chunks Sh3.maxCmdlineLen Sh3.gone (stdin.length + k) stdin,
        Sh3.gone chunk = false) →
          (chunks Sh3.maxCmdlineLen Sh3.gone (stdin.length + k) stdin).flatten = stdin) ∧
      (delivered (calls Sh3.getCmdLine (stdin.length + k) stdin) =
          some ((chunks Sh3.maxCmdlineLen Sh3.gone (stdin.length + k) stdin).flatMap kept) ↔
        ∀ chunk ∈ chunks Sh3.maxCmdlineLen Sh3.gone (stdin.length + k) stdin, Whole chunk)) := by
  refine ⟨⟨?_, ?_⟩, ?_, ?_⟩
  · exact flatten_chunks (by decide) (Nat.le_add_right _ _) fun _ _ => rfl
  · exact (agree_calls (by decide) (fun _ => rfl) (fun _ => ends_scanLine) _ stdin).2
  · exact flatten_chunks (by decide) (Nat.le_add_right _ _)
  · exact (agree_calls (by decide) (fun _ => Sh3.chars_leave _) (fun _ => Sh3.ends_leave) _ stdin).2

/-- The last line of the input has no newline. -/
theorem last_character_lost :
    delivered (calls Sh2.getCmdLine 2 "ls".toList) = some "l".toList ∧
    delivered (calls Sh2.getCmdLine 2 "ls".toList) ≠
      some ((chunks Sh2.maxCmdlineLen (fun _ => false) 2 "ls".toList).flatMap kept) ∧
    delivered (calls Sh3.getCmdLine 2 "ls".toList) = some "l".toList ∧
    delivered (calls Sh3.getCmdLine 2 "ls".toList) ≠
      some ((chunks Sh3.maxCmdlineLen Sh3.gone 2 "ls".toList).flatMap kept) := by
  decide

end Comp4511
