import Mathlib.Tactic.SplitIfs
import Comp4511.PsScan

/-!
# `process` on the files of the kernel

The kernel prints the name of a process in parentheses and everything
else as a word without blanks. `process` takes the second word of the line
for the name and counts on from there: with a blank in the name the word
ends early, and the fields after it are others.

`Stat` and `Status` are what the kernel prints. `process_eq` is `process`
on a name without blanks, of any sizes and times; `process_stat_iff` says
for which lines the row is right.
-/

namespace Comp4511

open CStr Scanf

namespace Ps

/-! ## What the kernel prints -/

/-- A number as it may be printed with `%d`, `%u`, `%ld` or `%lu`. -/
def Printable (n : ℤ) : Prop := -2 ^ 63 ≤ n ∧ n < 2 ^ 64

/-- The line of a stat file. The fields 4 to 13 are `ids`, 16 to 22 are
`counts`, and `later` are those from 24 on. -/
structure Stat where
  pid : ℕ
  comm : List Char
  state : Char
  ids : List ℤ
  utime : ℕ
  stime : ℕ
  counts : List ℤ
  vsize : ℕ
  later : List ℤ
  pid_lt : pid < 2 ^ 31
  comm_pos : 1 ≤ comm.length
  comm_le : comm.length ≤ 15
  comm_nul : nul ∉ comm
  state_alpha : state.isAlpha = true
  ids_length : ids.length = 10
  counts_length : counts.length = 7
  printable : ∀ n ∈ ids ++ counts, Printable n
  utime_lt : utime < 2 ^ 64
  stime_lt : stime < 2 ^ 64
  vsize_lt : vsize < 2 ^ 64

/-- The fields up to number 23, and those after. -/
def Stat.words (s : Stat) : List (List Char) :=
  decimal s.pid :: ('(' :: s.comm ++ [')']) :: [s.state] :: (s.ids.map signed
    ++ [decimal s.utime, decimal s.stime] ++ s.counts.map signed ++ [decimal s.vsize])

/-- The line as it is printed. -/
def Stat.line (s : Stat) : List Char := joined (s.words ++ s.later.map signed) ++ ['\n']

/-- A status file: the lines before the user's, and the user. -/
structure Status where
  before : List (List Char)
  uid : ℕ
  after : List Char
  before_line : ∀ l ∈ before, '\n' ∉ l ∧ l.length < bufferSize - 1 ∧ ¬ uidKey <+: l
  uid_lt : uid < 2 ^ 32

def Status.contents (t : Status) : List Char :=
  t.before.flatMap (· ++ ['\n']) ++ "Uid:\t".toList ++ decimal t.uid ++ '\t' :: t.after

/-- The row says what the stat file says. -/
structure Stat.Shown (s : Stat) (a : Required) : Prop where
  pid : a.pid.toInt = s.pid
  cmd : a.cmd = s.comm
  time : a.time.toInt = (s.utime + s.stime) / 100
  virt : a.virt.toInt = s.vsize

/-- No blank is in the name. -/
def Stat.Plain (s : Stat) : Prop := ∀ c ∈ s.comm, isSpace c = false

/-! ## The name -/

/-- The last character of `cmd` is cut off. -/
theorem stripBrackets_eq {v : List Char} (hv : nul ∉ v) (c : Char) (junk : List Char) :
    stripBrackets (c :: v ++ nul :: junk) = v.dropLast := by
  have hlen : strlen ((c :: v ++ nul :: junk).drop 1) = v.length := by
    show (text (v ++ nul :: junk)).length = v.length
    rw [text_append_nul hv]
  rw [stripBrackets, hlen]
  rcases List.eq_nil_or_concat v with rfl | ⟨u, x, hconcat⟩
  · simp [text]
  · obtain rfl : v = u ++ [x] := by rw [hconcat, List.concat_eq_append]
    have hu : nul ∉ u := fun h => hv (List.mem_append_left _ h)
    have hset : (c :: (u ++ [x]) ++ nul :: junk).set (u ++ [x]).length nul
        = c :: (u ++ nul :: nul :: junk) := by
      simp
    rw [hset, List.drop_succ_cons, List.drop_zero, text_append_nul hu, List.dropLast_concat]

/-! ## The user -/

/-- Lines without the key are passed over. -/
theorem keyScan_lines {key tail : List Char} (hkey : nul ∉ key) (hline : '\n' ∉ key)
    (htail : tail ≠ []) (hfound : key <+: takeLine (bufferSize - 1) tail)
    {before : List (List Char)}
    (hbefore : ∀ l ∈ before, '\n' ∉ l ∧ l.length < bufferSize - 1 ∧ ¬ key <+: l)
    (buffer : List Char) :
    ∃ fuel junk, Loop.run (keyTurn key) fuel (buffer, before.flatMap (· ++ ['\n']) ++ tail)
      = some (takeLine (bufferSize - 1) tail ++ nul :: junk) := by
  induction before generalizing buffer with
  | nil =>
      refine ⟨1, buffer.drop ((takeLine (bufferSize - 1) tail).length + 1), ?_⟩
      have hdone := keyTurn_done hkey (s := (buffer, tail))
        ((prefix_fgetsInto hkey buffer htail).mpr hfound)
      rw [fgetsInto_of_ne_nil _ _ htail] at hdone
      exact Loop.run_done hdone
  | cons l before ih =>
      obtain ⟨hl, hlen, hnot⟩ := hbefore l (List.mem_cons_self ..)
      have hcontents : (l :: before).flatMap (· ++ ['\n']) ++ tail
          = l ++ '\n' :: (before.flatMap (· ++ ['\n']) ++ tail) := by
        simp
      rw [hcontents]
      replace ih := ih fun l' hl' => hbefore l' (List.mem_cons_of_mem _ hl')
      generalize before.flatMap (· ++ ['\n']) ++ tail = rest at ih ⊢
      have htake : takeLine (bufferSize - 1) (l ++ '\n' :: rest) = l ++ ['\n'] :=
        takeLine_line hl hlen
      have hne : l ++ '\n' :: rest ≠ [] := by simp
      obtain ⟨buffer', hread⟩ : ∃ buffer',
          fgetsInto bufferSize buffer (l ++ '\n' :: rest) = (buffer', rest) := by
        rw [fgetsInto_of_ne_nil _ _ hne, htake]
        exact ⟨_, Prod.ext rfl (by simp)⟩
      have hpass : ¬ key <+: (fgetsInto bufferSize buffer (l ++ '\n' :: rest)).1 := by
        rw [prefix_fgetsInto hkey buffer hne, htake]
        intro hprefix
        rcases List.prefix_concat_iff.mp hprefix with rfl | hpart
        · exact hline (List.mem_append_right _ (List.mem_singleton_self _))
        · exact hnot hpart
      have hagain := keyTurn_again hkey (s := (buffer, l ++ '\n' :: rest)) hpass
      rw [hread] at hagain
      obtain ⟨fuel, junk, hrun⟩ := ih buffer'
      exact ⟨fuel + 1, junk, (Loop.run_again hagain).trans hrun⟩

/-- The user is read from the line that has the key. -/
theorem sscanf_uid (uid : ℕ) (huid : uid < 2 ^ 32) (rest : List Char) (old : Int32) :
    intAt (sscanf ("Uid:\t".toList ++ decimal uid ++ '\t' :: rest) "%*s %d") 0 old
      = Int32.ofNat uid := by
  have hformat : directives "%*s %d".toList = [.word false, .blank, .int true] := by decide
  have hbuffer : text ("Uid:\t".toList ++ decimal uid ++ '\t' :: rest)
      = "Uid:".toList ++ '\t' :: (signed uid ++ '\t' :: text rest) := by
    have hnul : nul ∉ "Uid:\t".toList ++ decimal uid ++ ['\t'] := by
      intro hmem
      simp only [List.mem_append] at hmem
      rcases hmem with (hmem | hmem) | hmem
      · exact absurd hmem (by decide)
      · exact notMem_decimal uid rfl hmem
      · exact absurd hmem (by decide)
    have hsplit : "Uid:\t".toList ++ decimal uid ++ '\t' :: rest
        = ("Uid:\t".toList ++ decimal uid ++ ['\t']) ++ rest := by simp
    rw [hsplit, text_append hnul, signed_natCast]
    simp
  have hdigit : ∀ c ∈ (signed uid ++ '\t' :: text rest).head?, isSpace c = false := by
    obtain ⟨c, l, hl⟩ := List.exists_cons_of_ne_nil (signed_ne_nil uid)
    intro d hd
    rw [hl] at hd
    obtain rfl : c = d := Option.some.inj hd
    exact signed_notSpace uid c (hl ▸ List.mem_cons_self ..)
  have hvalues : sscanf ("Uid:\t".toList ++ decimal uid ++ '\t' :: rest) "%*s %d"
      = [.int (Int32.ofNat uid)] := by
    have hkey : Reads (.word false) "Uid:".toList [] := .skip (by decide) (by simp [isSpace])
    rw [sscanf, hformat, hbuffer, hkey.scan (by simp [isSpace]),
      scan_blank (by decide) hdigit, (Reads.int uid).scan (by simp [isSpace]),
      ofInt_clamp (by omega)]
    rfl
  rw [hvalues]
  rfl

/-! ## The line -/

theorem isSpace_of_isAlpha {c : Char} (h : c.isAlpha = true) : isSpace c = false := by
  have hge : 65 ≤ c.toNat := by
    have halpha : c.isAlpha = (c.isUpper || c.isLower) := rfl
    have hupper : c.isUpper = decide (c.val ≥ 'A'.val ∧ c.val ≤ 'Z'.val) := rfl
    have hlower : c.isLower = (c.val ≥ 'a'.val && c.val ≤ 'z'.val) := rfl
    simp only [halpha, hupper, hlower, Bool.or_eq_true, Bool.and_eq_true, decide_eq_true_eq,
      ge_iff_le, UInt32.le_iff_toNat_le] at h
    rcases h with h | h
    · exact h.1
    · exact Nat.le_trans (by decide) h.1
  have hspace : c ≠ ' ' := by
    rintro rfl
    exact absurd h (by decide)
  simp only [isSpace, hspace, false_or, decide_eq_false_iff_not]
  omega

theorem length_signed_le {n : ℤ} (h : Printable n) : (signed n).length ≤ 20 := by
  obtain ⟨hlow, hhigh⟩ := h
  unfold signed
  split
  · rw [List.length_cons]
    exact Nat.succ_le_succ (length_decimal_le (k := 18) (by omega))
  · exact length_decimal_le (by omega)

namespace Stat

variable {s : Stat}

theorem length_words (s : Stat) : s.words.length = 23 := by
  simp [words, s.ids_length, s.counts_length]

/-- What stands after the 23rd field. -/
theorem line_eq (s : Stat) :
    s.line = joined s.words ++ ((s.later.map signed).flatMap (' ' :: ·) ++ ['\n']) := by
  have hne : s.words ≠ [] := by simp [words]
  rw [line, joined_append hne, List.append_assoc]

theorem length_le (s : Stat) : ∀ w ∈ s.words, w.length ≤ 20 := by
  have hcomm := s.comm_le
  have hnumber : ∀ {n : ℕ}, n < 2 ^ 64 → (decimal n).length ≤ 20 :=
    fun h => length_decimal_le (by omega)
  have hpid := hnumber (Nat.lt_trans s.pid_lt (by decide))
  simp only [words, List.mem_cons, List.mem_append, List.mem_map, List.not_mem_nil, or_false]
  rintro w (rfl | rfl | rfl | (((⟨n, hn, rfl⟩ | rfl | rfl) | ⟨n, hn, rfl⟩) | rfl))
  · exact hpid
  · simp only [List.length_append, List.length_cons, List.length_nil]
    omega
  · exact Nat.le_add_left 1 19
  · exact length_signed_le (s.printable n (List.mem_append_left _ hn))
  · exact hnumber s.utime_lt
  · exact hnumber s.stime_lt
  · exact length_signed_le (s.printable n (List.mem_append_right _ hn))
  · exact hnumber s.vsize_lt

/-- What is stored. -/
def values (s : Stat) : List Value :=
  [.int (Int32.ofNat s.pid), .word ('(' :: s.comm ++ [')']), .int (Int32.ofInt (clamp s.utime)),
    .int (Int32.ofInt (clamp s.stime)), .int (Int32.ofInt (clamp s.vsize))]

/-- A field that is skipped, and one that is stored. -/
def skipped (w : List Char) : Directive × List Char × List Value := (.word false, w, [])

def number (n : ℕ) : Directive × List Char × List Value :=
  (.int true, decimal n, [.int (Int32.ofInt (clamp n))])

/-- Which directive reads which field. -/
def readings (s : Stat) : List (Directive × List Char × List Value) :=
  number s.pid :: (.word true, '(' :: s.comm ++ [')'], [.word ('(' :: s.comm ++ [')'])]) ::
  skipped [s.state] :: (s.ids.map (fun n => skipped (signed n))
    ++ [number s.utime, number s.stime] ++ s.counts.map (fun n => skipped (signed n))
    ++ [number s.vsize])

theorem reads_readings (hplain : s.Plain) : ∀ t ∈ s.readings, Reads t.1 t.2.1 t.2.2 := by
  have hint : ∀ n : ℕ, Reads (number n).1 (number n).2.1 (number n).2.2 := by
    intro n
    have hreads := Reads.int n
    rwa [signed_natCast] at hreads
  have hskip : ∀ n : ℤ, Reads (.word false) (signed n) [] :=
    fun n => .skip (signed_ne_nil n) (signed_notSpace n)
  simp only [readings, List.mem_cons, List.mem_append, List.mem_map, List.not_mem_nil, or_false]
  rintro t (rfl | rfl | rfl | (((⟨n, -, rfl⟩ | rfl | rfl) | ⟨n, -, rfl⟩) | rfl))
  · exact hint s.pid
  · refine .word (by simp) fun c hc => ?_
    rcases List.mem_append.mp hc with hc | hc
    · rcases List.mem_cons.mp hc with rfl | hc
      · decide
      · exact hplain c hc
    · rw [List.mem_singleton.mp hc]
      decide
  · refine .skip (List.cons_ne_nil _ _) fun c hc => ?_
    rw [List.mem_singleton.mp hc]
    exact isSpace_of_isAlpha s.state_alpha
  · exact hskip n
  · exact hint s.utime
  · exact hint s.stime
  · exact hskip n
  · exact hint s.vsize

/-- The conversions of the format of `process`. -/
def conversions : List Directive :=
  Directive.int true :: Directive.word true :: Directive.word false ::
    (List.replicate 10 (Directive.word false) ++ [Directive.int true, Directive.int true]
      ++ List.replicate 7 (Directive.word false) ++ [Directive.int true])

theorem directives_statFormat : directives statFormat.toList = spaced conversions := by decide

/-- The line of a plain process is read field by field. -/
theorem scan_words (hplain : s.Plain) {rest : List Char}
    (hrest : ∀ c ∈ rest.head?, isSpace c = true) :
    scan (directives statFormat.toList) (joined s.words ++ rest) = s.values := by
  have hdirectives : s.readings.map (·.1) = conversions := by
    simp [readings, number, skipped, conversions, Function.comp_def, List.map_const', s.ids_length,
      s.counts_length]
  have hwords : s.readings.map (·.2.1) = s.words := by
    simp [readings, number, skipped, words, Function.comp_def]
  have hvalues : s.readings.flatMap (·.2.2) = s.values := by
    have hnone : ∀ l : List ℤ, l.flatMap (fun _ => ([] : List Value)) = [] :=
      fun l => List.flatMap_eq_nil_iff.mpr fun _ _ => rfl
    have hpid := ofInt_clamp (Nat.lt_trans s.pid_lt (show 2 ^ 31 < 2 ^ 63 by decide))
    simp [readings, number, skipped, values, List.flatMap_map, hnone, hpid]
  rw [directives_statFormat, ← hdirectives, ← hwords, scan_spaced (reads_readings hplain) hrest,
    hvalues]

theorem notMem_words (hplain : s.Plain) {c : Char} (hc : c = nul ∨ c = '\n') :
    c ∉ joined s.words := by
  have hno : ∀ {d : Char}, d ≠ nul → d ≠ '\n' → c ≠ d := by
    rintro d hnul hline rfl
    exact hc.elim hnul hline
  have hdigits : ∀ {n : ℕ}, c ∉ decimal n := by
    intro n
    rcases hc with rfl | rfl <;> exact notMem_decimal n rfl
  have hsigned : ∀ {n : ℤ}, c ∉ signed n := by
    intro n hmem
    unfold signed at hmem
    split at hmem
    · rcases List.mem_cons.mp hmem with hsign | hmem
      · exact hno (by decide) (by decide) hsign
      · exact hdigits hmem
    · exact hdigits hmem
  have hstate : c ≠ s.state := by
    rintro rfl
    have halpha := s.state_alpha
    rcases hc with hc | hc <;> rw [hc] at halpha <;> exact absurd halpha (by decide)
  have hcomm : c ∉ s.comm := by
    intro hmem
    rcases hc with rfl | rfl
    · exact s.comm_nul hmem
    · exact Bool.noConfusion ((hplain _ hmem).symm.trans (show isSpace '\n' = true by decide))
  intro hmem
  rcases mem_joined hmem with hblank | ⟨w, hw, hmem⟩
  · exact hno (by decide) (by decide) hblank
  simp only [words, List.mem_cons, List.mem_append, List.mem_map, List.not_mem_nil, or_false] at hw
  rcases hw with rfl | rfl | rfl | (((⟨n, -, rfl⟩ | rfl | rfl) | ⟨n, -, rfl⟩) | rfl)
  · exact hdigits hmem
  · rcases List.mem_append.mp hmem with hmem | hmem
    · rcases List.mem_cons.mp hmem with hopen | hmem
      · exact hno (by decide) (by decide) hopen
      · exact hcomm hmem
    · exact hno (by decide) (by decide) (List.mem_singleton.mp hmem)
  · exact hstate (List.mem_singleton.mp hmem)
  · exact hsigned hmem
  · exact hdigits hmem
  · exact hdigits hmem
  · exact hsigned hmem
  · exact hdigits hmem

/-- What `fgets` and `sscanf` make of the line of a plain process. -/
theorem sscanf_plain (hplain : s.Plain) (buffer : List Char) :
    sscanf (fgetsInto bufferSize buffer s.line).1 statFormat = s.values := by
  have hlen := length_joined_le s.length_le
  rw [s.length_words] at hlen
  have hsize : bufferSize = 1024 := rfl
  obtain ⟨d, hd, hblank⟩ : ∃ d, ((s.later.map signed).flatMap (' ' :: ·) ++ ['\n']).head? = some d ∧
      (d = ' ' ∨ d = '\n') := by
    cases s.later with
    | nil => exact ⟨'\n', rfl, .inr rfl⟩
    | cons n later => exact ⟨' ', rfl, .inl rfl⟩
  have hnul : d ≠ nul := by
    rcases hblank with rfl | rfl <;> decide
  obtain ⟨tail, htext, htail⟩ := text_fgetsInto bufferSize (notMem_words hplain (.inl rfl))
    (notMem_words hplain (.inr rfl)) (by omega) hd hnul buffer
  rw [sscanf, s.line_eq, htext]
  refine scan_words hplain fun c hc => ?_
  rw [htail] at hc
  obtain rfl := Option.some.inj hc
  rcases hblank with rfl | rfl <;> decide

end Stat

/-- With a blank in the name, what stands before it is taken for the name
and its bracket. -/
theorem Stat.sscanf_blank {s : Stat} {pre post : List Char} {c : Char}
    (hcomm : s.comm = pre ++ c :: post) (hpre : ∀ d ∈ pre, isSpace d = false)
    (hc : isSpace c = true) (buffer : List Char) :
    ∃ vs, sscanf (fgetsInto bufferSize buffer s.line).1 statFormat
      = .int (Int32.ofNat s.pid) :: .word ('(' :: pre) :: vs := by
  obtain ⟨rest, hline⟩ : ∃ rest,
      s.line = (decimal s.pid ++ ' ' :: '(' :: pre) ++ c :: rest := by
    refine ⟨post ++ ')' :: ((s.words.drop 2 ++ s.later.map signed).flatMap (' ' :: ·) ++ ['\n']), ?_⟩
    have hwords : s.words ++ s.later.map signed
        = decimal s.pid :: ('(' :: s.comm ++ [')']) :: (s.words.drop 2 ++ s.later.map signed) := rfl
    rw [line, hwords, joined_cons, List.flatMap_cons, hcomm]
    simp
  have hlen : (decimal s.pid ++ ' ' :: '(' :: pre).length < bufferSize - 1 := by
    have hpid : (decimal s.pid).length ≤ 10 :=
      length_decimal_le (Nat.lt_trans s.pid_lt (by decide))
    have hle := s.comm_le
    rw [hcomm, List.length_append] at hle
    have hsize : bufferSize = 1024 := rfl
    simp only [List.length_append, List.length_cons]
    omega
  have hnot : ∀ d, (d = nul ∨ d = '\n') → d ∉ decimal s.pid ++ ' ' :: '(' :: pre := by
    intro d hd hmem
    simp only [List.mem_append, List.mem_cons] at hmem
    rcases hmem with hmem | hmem | hmem | hmem
    · rcases hd with rfl | rfl <;> exact notMem_decimal s.pid rfl hmem
    · rcases hd with rfl | rfl <;> exact absurd hmem (by decide)
    · rcases hd with rfl | rfl <;> exact absurd hmem (by decide)
    · rcases hd with rfl | rfl
      · exact s.comm_nul (hcomm ▸ List.mem_append_left _ hmem)
      · exact Bool.noConfusion ((hpre _ hmem).symm.trans (show isSpace '\n' = true by decide))
  obtain ⟨ds, hformat⟩ : ∃ ds,
      directives statFormat.toList = .int true :: .blank :: .word true :: ds :=
    ⟨_, directives_statFormat⟩
  have hnul : c ≠ nul := by
    rintro rfl
    exact absurd hc (by decide)
  obtain ⟨tail, htext, htail⟩ := text_fgetsInto bufferSize (v := c :: rest) (hnot _ (.inl rfl))
    (hnot _ (.inr rfl)) hlen rfl hnul buffer
  -- the blank of the name ends the word
  have hend : ∀ d ∈ tail.head?, isSpace d = true := by
    intro d hd
    rw [htail] at hd
    obtain rfl := Option.some.inj hd
    exact hc
  have hpid := Reads.int s.pid
  rw [signed_natCast, ofInt_clamp (Nat.lt_trans s.pid_lt (by decide))] at hpid
  have hword : Reads (.word true) ('(' :: pre) [.word ('(' :: pre)] := by
    refine .word (by simp) fun d hd => ?_
    rcases List.mem_cons.mp hd with rfl | hd
    · decide
    · exact hpre d hd
  have hsplit : decimal s.pid ++ ' ' :: '(' :: pre ++ tail
      = decimal s.pid ++ ' ' :: ('(' :: pre ++ tail) := by simp
  rw [sscanf, hline, htext, hformat, hsplit, hpid.scan (by simp [isSpace]),
    scan_blank (by decide) (by simp [isSpace]), hword.scan hend]
  exact ⟨_, rfl⟩

/-! ## The row -/

section Row

variable {files : Files} (junk : Junk) {getpwuid : Int32 → Option (List Char)}
  {dir user : List Char} {s : Stat} {t : Status}

/-- The loop finds the user. -/
theorem keyScan_status (t : Status) (buffer : List Char) :
    ∃ fuel rest, Loop.run (keyTurn uidKey) fuel (buffer, t.contents)
      = some ("Uid:\t".toList ++ decimal t.uid ++ '\t' :: rest) := by
  have hdigits : (decimal t.uid).length ≤ 10 :=
    length_decimal_le (Nat.lt_trans t.uid_lt (by decide))
  have hline : '\n' ∉ "Uid:\t".toList ++ decimal t.uid ++ ['\t'] := by
    intro hmem
    simp only [List.mem_append] at hmem
    rcases hmem with (hmem | hmem) | hmem
    · exact absurd hmem (by decide)
    · exact notMem_decimal t.uid rfl hmem
    · exact absurd hmem (by decide)
  have hlen : ("Uid:\t".toList ++ decimal t.uid ++ ['\t']).length ≤ bufferSize - 1 := by
    have hsize : bufferSize = 1024 := rfl
    have hkey : "Uid:\t".toList.length = 5 := by decide
    simp only [List.length_append, hkey, List.length_singleton]
    omega
  have htake := takeLine_append hline hlen t.after
  have hfound : uidKey <+: takeLine (bufferSize - 1)
      ("Uid:\t".toList ++ decimal t.uid ++ ['\t'] ++ t.after) := by
    have hkey : uidKey <+: "Uid:\t".toList := by decide
    rw [htake]
    exact ((hkey.trans (List.prefix_append _ _)).trans (List.prefix_append _ _)).trans
      (List.prefix_append _ _)
  obtain ⟨fuel, junk, hrun⟩ :=
    keyScan_lines (by decide) (by decide) (by simp) hfound t.before_line buffer
  have hcontents : t.contents = t.before.flatMap (· ++ ['\n'])
      ++ ("Uid:\t".toList ++ decimal t.uid ++ ['\t'] ++ t.after) := by
    simp [Status.contents]
  rw [htake] at hrun
  rw [hcontents]
  exact ⟨fuel, _, hrun.trans (by rw [List.append_assoc, List.append_assoc]; rfl)⟩

/-- `process` returns, with what `sscanf` has found. -/
theorem process_returns (hstat : files (statPath dir) = some s.line)
    (hstatus : files (statusPath dir) = some t.contents)
    (huser : getpwuid (Int32.ofNat t.uid) = some user) :
    ∃ fuel, process files junk fuel getpwuid dir = some (.ok
      { pid := intAt (sscanf (fgetsInto bufferSize junk.buffer s.line).1 statFormat) 0 junk.pid
        user := user
        time := (intAt (sscanf (fgetsInto bufferSize junk.buffer s.line).1 statFormat) 2 junk.utime
          + intAt (sscanf (fgetsInto bufferSize junk.buffer s.line).1 statFormat) 3 junk.ktime) / 100
        virt := intAt (sscanf (fgetsInto bufferSize junk.buffer s.line).1 statFormat) 4 junk.virt
        cmd := stripBrackets (wordAt
          (sscanf (fgetsInto bufferSize junk.buffer s.line).1 statFormat) 1 junk.name) }) := by
  obtain ⟨fuel, rest, hrun⟩ := keyScan_status t (fgetsInto bufferSize junk.buffer s.line).1
  refine ⟨fuel, ?_⟩
  simp only [process, hstat, hstatus, hrun, Option.map_some, sscanf_uid t.uid t.uid_lt, huser]

/-- The row of a process with a plain name. -/
def Stat.row (s : Stat) (user : List Char) : Required where
  pid := Int32.ofNat s.pid
  user := user
  time := (Int32.ofInt (clamp s.utime) + Int32.ofInt (clamp s.stime)) / 100
  virt := Int32.ofInt (clamp s.vsize)
  cmd := s.comm

theorem process_eq (hplain : s.Plain) (hstat : files (statPath dir) = some s.line)
    (hstatus : files (statusPath dir) = some t.contents)
    (huser : getpwuid (Int32.ofNat t.uid) = some user) :
    ∃ fuel, process files junk fuel getpwuid dir = some (.ok (s.row user)) := by
  obtain ⟨fuel, hprocess⟩ := process_returns junk hstat hstatus huser
  have hcmd : stripBrackets (wordAt s.values 1 junk.name) = s.comm := by
    have hnul : nul ∉ s.comm ++ [')'] := by
      intro hmem
      rcases List.mem_append.mp hmem with hmem | hmem
      · exact s.comm_nul hmem
      · exact absurd hmem (by decide)
    have hname : wordAt s.values 1 junk.name
        = '(' :: (s.comm ++ [')']) ++ nul :: junk.name.drop (s.comm.length + 3) := by
      simp [wordAt, Stat.values]
    rw [hname, stripBrackets_eq hnul, List.dropLast_concat]
  rw [Stat.sscanf_plain hplain, hcmd] at hprocess
  exact ⟨fuel, hprocess⟩

/-- The sum of the times is that of the fields if it fits an `int`. -/
theorem time_eq_iff {utime stime : ℕ} (hutime : utime < 2 ^ 31) (hstime : stime < 2 ^ 31) :
    ((Int32.ofInt (clamp utime) + Int32.ofInt (clamp stime)) / 100).toInt
      = ((utime + stime) / 100 : ℕ) ↔ utime + stime < 2 ^ 31 := by
  have hhundred : (100 : Int32).toInt = 100 := by decide
  rw [ofInt_clamp (by omega), ofInt_clamp (by omega),
    Int32.toInt_div_of_ne_right _ _ (by decide), Int32.toInt_add, Int32.toInt_ofNat_of_lt hutime,
    Int32.toInt_ofNat_of_lt hstime, hhundred]
  constructor
  · intro heq
    by_contra hbig
    -- the sum wraps to a negative one
    have hwrap : ((utime : ℤ) + stime).bmod (2 ^ 32) = utime + stime - 2 ^ 32 := by
      rw [Int.bmod_eq_emod]
      split <;> omega
    have hpos := Int.tdiv_nonneg (a := 2 ^ 32 - (utime + stime)) (b := 100) (by omega) (by decide)
    rw [hwrap, ← Int.neg_sub, Int.neg_tdiv] at heq
    omega
  · intro hsmall
    rw [Int.bmod_eq_of_le (by omega) (by omega), Int.tdiv_eq_ediv_of_nonneg (by omega)]
    omega

/-- The first blank of a name. -/
theorem exists_blank (h : ¬ s.Plain) : ∃ pre c post, s.comm = pre ++ c :: post ∧
    (∀ d ∈ pre, isSpace d = false) ∧ isSpace c = true := by
  have hsplit := List.takeWhile_append_dropWhile (p := fun c => !isSpace c) (l := s.comm)
  have hpre : ∀ d ∈ s.comm.takeWhile fun c => !isSpace c, isSpace d = false := by
    intro d hd
    have hnot := List.mem_takeWhile_imp hd
    simpa using hnot
  cases hrest : s.comm.dropWhile fun c => !isSpace c with
  | nil =>
      rw [hrest, List.append_nil] at hsplit
      rw [hsplit] at hpre
      exact absurd hpre h
  | cons c post =>
      have hc := List.head?_dropWhile_not (fun c => !isSpace c) s.comm
      rw [hrest] at hsplit hc
      exact ⟨_, c, post, hsplit.symm, hpre, by simpa using hc⟩

/-- Of the lines that the kernel prints, with times and a size below
`2 ^ 31`, those are shown right whose name has no blank and whose times
together are below `2 ^ 31`. -/
theorem process_stat_iff (hstat : files (statPath dir) = some s.line)
    (hstatus : files (statusPath dir) = some t.contents)
    (huser : getpwuid (Int32.ofNat t.uid) = some user)
    (hutime : s.utime < 2 ^ 31) (hstime : s.stime < 2 ^ 31) (hvsize : s.vsize < 2 ^ 31) :
    ∃ fuel a, process files junk fuel getpwuid dir = some (.ok a) ∧
      (s.Shown a ↔ s.Plain ∧ s.utime + s.stime < 2 ^ 31) := by
  by_cases hplain : s.Plain
  · obtain ⟨fuel, hprocess⟩ := process_eq junk hplain hstat hstatus huser
    refine ⟨fuel, _, hprocess, fun hshown => ⟨hplain, ?_⟩, fun h => ?_⟩
    · have htime := hshown.time
      exact (time_eq_iff hutime hstime).mp (htime.trans (by norm_cast))
    · refine ⟨Int32.toInt_ofNat_of_lt s.pid_lt, rfl, ?_, ?_⟩
      · exact ((time_eq_iff hutime hstime).mpr h.2).trans (by norm_cast)
      · show (Int32.ofInt (clamp s.vsize)).toInt = _
        rw [ofInt_clamp (by omega), Int32.toInt_ofNat_of_lt hvsize]
  · -- the name that is shown is shorter
    obtain ⟨fuel, hprocess⟩ := process_returns junk hstat hstatus huser
    refine ⟨fuel, _, hprocess, fun hshown => ?_, fun h => absurd h.1 hplain⟩
    obtain ⟨pre, c, post, hcomm, hpre, hc⟩ := exists_blank hplain
    obtain ⟨vs, hvs⟩ := Stat.sscanf_blank hcomm hpre hc junk.buffer
    have hcmd := hshown.cmd
    have hname : wordAt (.int (Int32.ofNat s.pid) :: .word ('(' :: pre) :: vs) 1 junk.name
        = '(' :: pre ++ nul :: junk.name.drop (pre.length + 2) := by
      simp [wordAt]
    have hnul : nul ∉ pre := fun hmem => s.comm_nul (hcomm ▸ List.mem_append_left _ hmem)
    simp only [hvs, hname, stripBrackets_eq hnul] at hcmd
    have hlen := congrArg List.length hcmd
    rw [hcomm, List.length_dropLast, List.length_append, List.length_cons] at hlen
    omega

end Row

/-- A process with a name. -/
def sampleStat (comm : String) (hpos : 1 ≤ comm.toList.length) (hle : comm.toList.length ≤ 15)
    (hnul : nul ∉ comm.toList) : Stat where
  pid := 7
  comm := comm.toList
  state := 'S'
  ids := [1, 7, 7, 0, -1, 4194560, 120, 30, 0, 0]
  utime := 1250
  stime := 50
  counts := [0, 0, 20, 0, 1, 0, 3300]
  vsize := 2310144
  later := [188]
  pid_lt := by decide
  comm_pos := hpos
  comm_le := hle
  comm_nul := hnul
  state_alpha := by decide
  ids_length := rfl
  counts_length := rfl
  printable := by unfold Printable; decide
  utime_lt := by decide
  stime_lt := by decide
  vsize_lt := by decide

def sampleStatus : Status where
  before := ["Name:\tsh".toList, "Pid:\t7".toList]
  uid := 0
  after := "0\t0\t0\n".toList
  before_line := by decide
  uid_lt := by decide

def sampleFiles (s : Stat) : Files := oneProcess s.line sampleStatus.contents

theorem sampleFiles_stat (s : Stat) : sampleFiles s (statPath "7".toList) = some s.line := rfl

theorem sampleFiles_status (s : Stat) :
    sampleFiles s (statusPath "7".toList) = some sampleStatus.contents := by
  have hne : statusPath "7".toList ≠ statPath "7".toList := by decide
  simp only [sampleFiles, oneProcess, if_neg hne, if_true]

/-- A name with a closing parenthesis in it. -/
theorem process_stat_iff_parenthesis : ∃ fuel a,
    process (sampleFiles (sampleStat "a)b" (by decide) (by decide) (by decide))) blankJunk fuel
      (fun _ => some "root".toList) "7".toList = some (.ok a) ∧
    (sampleStat "a)b" (by decide) (by decide) (by decide)).Shown a := by
  have hiff : ∃ fuel a,
      process (sampleFiles (sampleStat "a)b" (by decide) (by decide) (by decide))) blankJunk fuel
        (fun _ => some "root".toList) "7".toList = some (.ok a) ∧
      ((sampleStat "a)b" (by decide) (by decide) (by decide)).Shown a ↔
        (sampleStat "a)b" (by decide) (by decide) (by decide)).Plain ∧ 1250 + 50 < 2 ^ 31) :=
    process_stat_iff blankJunk (sampleFiles_stat _) (sampleFiles_status _) rfl (by decide)
      (by decide) (by decide)
  obtain ⟨fuel, a, hprocess, hshown⟩ := hiff
  refine ⟨fuel, a, hprocess, hshown.mpr ⟨?_, by decide⟩⟩
  simp [Stat.Plain, sampleStat, isSpace]

/-- A name with a blank in it: the name is cut, the time is that of the
fields 13 and 14 and the size is field 22. -/
theorem blank_name_misread :
    process (sampleFiles (sampleStat "tmux: server" (by decide) (by decide) (by decide)))
      blankJunk 3 (fun _ => some "root".toList) "7".toList
        = some (.ok ⟨7, "root".toList, 12, 3300, "tmux".toList⟩) ∧
    ¬ (sampleStat "tmux: server" (by decide) (by decide) (by decide)).Shown
      ⟨7, "root".toList, 12, 3300, "tmux".toList⟩ := by
  constructor
  · decide +kernel
  · intro hshown
    exact absurd hshown.cmd (by decide)

end Ps

end Comp4511
