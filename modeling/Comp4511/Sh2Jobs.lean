import Comp4511.CStr

/-!
# The listing of `jobs`

For `jobs` the second shell runs `ps` on its own children and prints what it
reads, without the header and without the line of `ps` itself, and with a
number before and an `&` behind each line. The header is cut off at a fixed
offset, and so is the last line, whose length depends on the pid of the
shell.

`printed_lines` is the loop on whole lines. The rest is a matter of lengths:
too little cut off leaves something of the last line (`printed_append_ne`), too
much takes a newline away, and with it a line of the output
(`count_printed`).
-/

namespace Comp4511

open CStr

namespace Sh2

/-! ## The loop -/

/-- `printf("[%d]", num)`. -/
def label (num : ℕ) : List Char := '[' :: decimal num ++ [']']

/-- The loop on the characters from `x` up to `end`. -/
def printFrom (num : ℕ) : List Char → List Char
  | [] => []
  | c :: cs =>
      if c = '\n' then
        " &".toList ++ c :: ((if cs = [] then [] else label (num + 1)) ++ printFrom (num + 1) cs)
      else c :: printFrom num cs

/-- The whole loop, with the number before the first line. -/
def printed (num : ℕ) (cs : List Char) : List Char :=
  (if cs = [] then [] else label num) ++ printFrom num cs

def bufferLen : ℕ := 4096

/-- `read` into a buffer that is all `nul`. -/
def readBuffer (output : List Char) : List Char :=
  output.take bufferLen ++ List.replicate (bufferLen - output.length) nul

/-- The branch for `jobs` with what is in `buffer`; `none` is an access
before the buffer. -/
def jobsOutput (buffer : List Char) : Option (List Char) :=
  if strlen buffer < 41 then none
  else
    let stop := strlen buffer - 41
    some (printed 1 ((buffer.take stop).drop 16))

/-! ## What `ps` prints -/

structure Job where
  pid : ℕ
  command : List Char
deriving Repr, DecidableEq

/-- `printf` with `%7d`. -/
def padded (n : ℕ) : List Char := List.replicate (7 - (decimal n).length) ' ' ++ decimal n

/-- A line of `ps` without its newline. -/
def Job.line (j : Job) : List Char := padded j.pid ++ ' ' :: j.command

def jobLines (jobs : List Job) : List Char := jobs.flatMap fun j => j.line ++ ['\n']

/-- The `ps` that the shell runs, which lists itself. -/
def helperJob (shell helper : ℕ) : Job :=
  ⟨helper, "ps --ppid ".toList ++ decimal shell ++ " -o pid -o command".toList⟩

def psOutput (header : List Char) (jobs : List Job) (shell helper : ℕ) : List Char :=
  header ++ jobLines (jobs ++ [helperJob shell helper])

/-- What the listing should be, from number `num` on. -/
def listing (num : ℕ) : List Job → List Char
  | [] => []
  | j :: jobs => label num ++ j.line ++ " &\n".toList ++ listing (num + 1) jobs

/-! ## Whole lines -/

section Lines

variable {num : ℕ} {cs l : List Char}

theorem printFrom_line (h : '\n' ∉ l) :
    printFrom num (l ++ '\n' :: cs) = l ++ " &\n".toList ++ printed (num + 1) cs := by
  induction l with
  | nil => simp [printFrom, printed]
  | cons c l ih =>
      simp only [List.mem_cons, not_or] at h
      simp [printFrom, Ne.symm h.1, ih h.2]

theorem printed_line (h : '\n' ∉ l) :
    printed num (l ++ '\n' :: cs) = label num ++ l ++ " &\n".toList ++ printed (num + 1) cs := by
  rw [printed, printFrom_line h]
  simp

theorem newline_notMem_padded (n : ℕ) : '\n' ∉ padded n := by
  simp [padded, notMem_decimal]

theorem newline_notMem_line {j : Job} (h : '\n' ∉ j.command) : '\n' ∉ j.line := by
  simp [Job.line, newline_notMem_padded, h]

/-- The loop on the lines of the jobs, with something behind them. -/
theorem printed_lines {jobs : List Job} (h : ∀ j ∈ jobs, '\n' ∉ j.command) (cs : List Char) :
    printed num (jobLines jobs ++ cs) = listing num jobs ++ printed (num + jobs.length) cs := by
  induction jobs generalizing num with
  | nil => simp [jobLines, listing]
  | cons j jobs ih =>
      have hline := newline_notMem_line (h j (List.mem_cons_self ..))
      have hrest : printed (num + 1) (jobLines jobs ++ cs)
          = listing (num + 1) jobs ++ printed (num + 1 + jobs.length) cs :=
        ih fun j hj => h j (List.mem_cons_of_mem _ hj)
      have heq : jobLines (j :: jobs) ++ cs = j.line ++ '\n' :: (jobLines jobs ++ cs) := by
        simp [jobLines]
      rw [heq, printed_line hline, hrest, listing, List.length_cons]
      simp [Nat.add_assoc, Nat.add_comm 1]

theorem printed_jobLines {jobs : List Job} (h : ∀ j ∈ jobs, '\n' ∉ j.command) :
    printed num (jobLines jobs) = listing num jobs := by
  simpa [printed, printFrom] using printed_lines h []

/-- The loop prints as many newlines as it meets. -/
theorem count_printed (num : ℕ) (cs : List Char) :
    (printed num cs).count '\n' = cs.count '\n' := by
  have hlabel : ∀ num, (label num).count '\n' = 0 := by
    intro num
    rw [List.count_eq_zero]
    simp [label, notMem_decimal]
  have hfrom : ∀ num, (printFrom num cs).count '\n' = cs.count '\n' := by
    induction cs with
    | nil => exact fun _ => rfl
    | cons c cs ih =>
        intro num
        rw [printFrom]
        split
        · next hc =>
            subst hc
            split <;> simp [ih, hlabel]
        · next hc => simp [ih, hc]
  rw [printed, List.count_append, hfrom]
  split <;> simp [hlabel]

theorem printed_ne_nil (h : cs ≠ []) : printed num cs ≠ [] := by
  simp [printed, h, label]

end Lines

/-! ## Cutting off the last line -/

section Cut

variable {header : List Char} {jobs : List Job} {shell helper : ℕ}

theorem jobLines_append (jobs more : List Job) :
    jobLines (jobs ++ more) = jobLines jobs ++ jobLines more :=
  List.flatMap_append

theorem length_helper (shell helper : ℕ) : (jobLines [helperJob shell helper]).length =
    (padded helper).length + (decimal shell).length + 30 := by
  simp [jobLines, helperJob, Job.line]
  omega

/-- The last line ends with a newline. -/
theorem exists_jobLines_eq (h : jobs ≠ []) : ∃ l, jobLines jobs = l ++ ['\n'] := by
  obtain ⟨init, j, rfl⟩ := (List.eq_nil_or_concat jobs).resolve_left h
  exact ⟨jobLines init ++ j.line, by simp [jobLines]⟩

theorem nul_notMem_jobLines (h : ∀ j ∈ jobs, nul ∉ j.command) : nul ∉ jobLines jobs := by
  have hpadded : ∀ n, nul ∉ padded n := by
    intro n hmem
    rcases List.mem_append.mp hmem with hmem | hmem
    · exact absurd (List.eq_of_mem_replicate hmem) (by decide)
    · exact notMem_decimal n rfl hmem
  intro hmem
  obtain ⟨j, hj, hmem⟩ := List.mem_flatMap.mp hmem
  rw [Job.line, List.append_assoc, List.cons_append, List.mem_append, List.mem_cons,
    List.mem_append, List.mem_singleton] at hmem
  rcases hmem with hmem | heq | hmem | heq
  · exact hpadded j.pid hmem
  · exact absurd heq (by decide)
  · exact h j hj hmem
  · exact absurd heq (by decide)

theorem nul_notMem_helper (shell helper : ℕ) : nul ∉ (helperJob shell helper).command := by
  intro hmem
  rw [helperJob, List.mem_append, List.mem_append] at hmem
  rcases hmem with (hmem | hmem) | hmem
  · exact absurd hmem (by decide)
  · exact notMem_decimal shell rfl hmem
  · exact absurd hmem (by decide)

/-- The characters that the loop goes over. -/
theorem jobsOutput_eq (hheader : header.length = 16) (hnul : nul ∉ header)
    (hcommand : ∀ j ∈ jobs, nul ∉ j.command)
    (hsize : (psOutput header jobs shell helper).length ≤ 4095) :
    jobsOutput (readBuffer (psOutput header jobs shell helper)) =
      some (printed 1 ((jobLines jobs ++ jobLines [helperJob shell helper]).take
        ((jobLines jobs).length + (padded helper).length + (decimal shell).length - 11))) := by
  obtain ⟨out, hout⟩ : ∃ out, out = psOutput header jobs shell helper := ⟨_, rfl⟩
  have hfree : nul ∉ out := by
    have hlines : nul ∉ jobLines (jobs ++ [helperJob shell helper]) := by
      refine nul_notMem_jobLines fun j hj => ?_
      rcases List.mem_append.mp hj with hj | hj
      · exact hcommand j hj
      · rw [List.mem_singleton.mp hj]
        exact nul_notMem_helper shell helper
    rw [hout, psOutput, List.mem_append]
    exact fun hmem => hmem.elim hnul hlines
  have hlen : out.length
      = 16 + ((jobLines jobs).length + ((padded helper).length + (decimal shell).length + 30)) := by
    rw [hout, psOutput, jobLines_append, List.length_append, List.length_append, length_helper,
      hheader]
  rw [← hout] at hsize ⊢
  have hbuffer : ∃ tail, readBuffer out = out ++ nul :: tail := by
    refine ⟨List.replicate (4095 - out.length) nul, ?_⟩
    rw [readBuffer, List.take_of_length_le (by unfold bufferLen; omega), ← List.replicate_succ]
    congr 2
    unfold bufferLen
    omega
  obtain ⟨tail, htail⟩ := hbuffer
  have hstrlen : strlen (readBuffer out) = out.length := by
    rw [strlen, htail, text_append_nul hfree]
  have htake : ((readBuffer out).take (out.length - 41)).drop 16
      = (jobLines jobs ++ jobLines [helperJob shell helper]).take (out.length - 41 - 16) := by
    rw [htail, List.take_append_of_le_length (by omega), List.drop_take, hout, psOutput,
      jobLines_append, List.drop_append_of_le_length (by omega),
      List.drop_of_length_le (by omega), List.nil_append]
  unfold jobsOutput
  rw [hstrlen, if_neg (by omega)]
  dsimp only
  rw [htake]
  congr 3
  omega

/-- With too much cut off, the newline of the last job is missing. -/
theorem printed_take_ne (hline : ∀ j ∈ jobs, '\n' ∉ j.command) (hjobs : jobs ≠ []) {n : ℕ}
    (hn : n < (jobLines jobs).length) (cs : List Char) :
    printed 1 ((jobLines jobs ++ cs).take n) ≠ listing 1 jobs := by
  intro heq
  obtain ⟨l, hl⟩ := exists_jobLines_eq hjobs
  have hle : n ≤ l.length := by
    rw [hl, List.length_append, List.length_singleton] at hn
    omega
  have hcount := congrArg (List.count '\n') heq
  rw [← printed_jobLines hline, count_printed, count_printed, hl, List.append_assoc,
    List.take_append_of_le_length hle, List.count_append, List.count_singleton_self] at hcount
  have hsub := (List.take_sublist n l).count_le '\n'
  omega

/-- With too little cut off, something of the last line is printed. -/
theorem printed_append_ne (hline : ∀ j ∈ jobs, '\n' ∉ j.command) {cs : List Char} (hcs : cs ≠ []) :
    printed 1 (jobLines jobs ++ cs) ≠ listing 1 jobs := by
  rw [printed_lines hline]
  simpa using printed_ne_nil hcs

/-- `jobs` lists the jobs and nothing else just when the line of `ps` has 41
characters, or fewer and there is nothing to list. -/
theorem jobs_listing_iff (header : List Char) (jobs : List Job) (shell helper : ℕ)
    (hheader : header.length = 16) (hnul : nul ∉ header)
    (hcommand : ∀ j ∈ jobs, nul ∉ j.command ∧ '\n' ∉ j.command)
    (hsize : (psOutput header jobs shell helper).length ≤ 4095) :
    jobsOutput (readBuffer (psOutput header jobs shell helper)) = some (listing 1 jobs) ↔
      (padded helper).length + (decimal shell).length = 11 ∨
        (padded helper).length + (decimal shell).length < 11 ∧ jobs = [] := by
  have hline : ∀ j ∈ jobs, '\n' ∉ j.command := fun j hj => (hcommand j hj).2
  have hlen := length_helper shell helper
  rw [jobsOutput_eq hheader hnul (fun j hj => (hcommand j hj).1) hsize, Option.some.injEq]
  obtain ⟨w, hw⟩ : ∃ w, w = (padded helper).length + (decimal shell).length := ⟨_, rfl⟩
  rw [Nat.add_assoc, ← hw]
  rcases Nat.lt_trichotomy w 11 with hlt | rfl | hgt
  · by_cases hjobs : jobs = []
    · refine iff_of_true ?_ (.inr ⟨hlt, hjobs⟩)
      have hnone : (jobLines jobs).length + w - 11 = 0 := by
        rw [hjobs]
        show 0 + w - 11 = 0
        omega
      rw [hnone, hjobs]
      rfl
    · refine iff_of_false (printed_take_ne hline hjobs ?_ _) (by simp [hjobs]; omega)
      obtain ⟨l, hl⟩ := exists_jobLines_eq hjobs
      rw [hl, List.length_append, List.length_singleton]
      omega
  · refine iff_of_true ?_ (.inl rfl)
    rw [Nat.add_sub_cancel, List.take_left]
    exact printed_jobLines hline
  · have hsplit : (jobLines jobs).length + w - 11 = (jobLines jobs).length + (w - 11) := by omega
    refine iff_of_false ?_ (by omega)
    rw [hsplit, List.take_length_add_append]
    refine printed_append_ne hline fun hnil => ?_
    have htake := congrArg List.length hnil
    rw [List.length_take, hlen, List.length_nil] at htake
    omega

/-- What `ps` prints first. -/
def psHeader : List Char := "    PID COMMAND\n".toList

theorem jobs_listing_iff_sleep :
    jobsOutput (readBuffer (psOutput psHeader [⟨4243, "sleep 9".toList⟩] 4242 4244)) =
      some "[1]   4243 sleep 9 &\n".toList := by
  have hlist := (jobs_listing_iff psHeader [⟨4243, "sleep 9".toList⟩] 4242 4244 (by decide)
    (by decide) (by decide) (by decide)).mpr (by decide)
  exact hlist

/-- A shell whose pid has five digits lists something of its `ps` as well. -/
theorem helper_listed :
    jobsOutput (readBuffer (psOutput psHeader [⟨42421, "sleep 9".toList⟩] 42420 42422)) =
      some "[1]  42421 sleep 9 &\n[2] ".toList ∧
    jobsOutput (readBuffer (psOutput psHeader [⟨42421, "sleep 9".toList⟩] 42420 42422)) ≠
      some (listing 1 [⟨42421, "sleep 9".toList⟩]) := by
  decide +kernel

end Cut

end Sh2

end Comp4511
