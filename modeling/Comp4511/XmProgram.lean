import Comp4511.Scanf
import Comp4511.XmFront
import Comp4511.XmUser

/-!
# The program and the system call together

What a user of `test_xmerge` sees: the output file and the lines that are
printed.

The first half is about the files. Whatever fails, however short the
writes are, and whichever files are the same, a call that returns has
changed no file but the output file, and that holds what the writes of
the call put there, behind or over its old contents (`xmerge_output`).
The two loops of `xmerge` keep `Writing`; every `return` gives `Kept`.

The second half composes `main` with the call. For a command line of the
grammar the program ends; without a failure it prints how many bytes and
files there were and the output file holds all of them, placed as the
options say, and at a failure it prints the error and how many files were
merged, and the output file holds these and a part of the next
(`program_merges`).
-/

namespace Comp4511

open CStr

namespace Xm

/-! ## The output file on every return -/

theorem written_append (h h' : List Event) : written (h ++ h') = written h ++ written h' :=
  List.flatMap_append ..

/-- A world of a call made in `w₀`: the output file holds what was written,
the other files what they held. -/
structure Kept (env : Env) (w₀ w : World) : Prop where
  output : ∃ hs, w.history = w₀.history ++ hs ∧
    w.data (env.inode env.params.outfile) = outputAfter env w₀ (written hs)
  others : ∀ j, j ≠ env.inode env.params.outfile → w.data j = w₀.data j

/-- The same with the output file open. -/
structure Writing (env : Env) (w₀ : World) (outfd : Nat) (w : World) : Prop where
  output : ∃ f hs, Output env w₀ outfd f hs w
  others : ∀ j, j ≠ env.inode env.params.outfile → w.data j = w₀.data j

/-- What is kept when a part of `xmerge` goes on, or returns. -/
def Keeps {α : Type} (env : Env) (w₀ : World) (outfd : Nat) (world : α → World) :
    Except (Int × World) α → Prop
  | .ok a => Writing env w₀ outfd (world a)
  | .error ret => Kept env w₀ ret.2

section Kept

variable {env : Env} {w₀ w : World} {outfd : Nat}

theorem foldl_ksysClose_data (fds : List Nat) (w : World) :
    (fds.foldl ksysClose w).data = w.data := by
  induction fds generalizing w with
  | nil => rfl
  | cons fd fds ih => exact ih (ksysClose w fd)

/-- A return with an error writes nothing more. -/
theorem Writing.bail (h : Writing env w₀ outfd w) (oldFs : AddrLimit) (fds : List Nat) (ret : Int) :
    Kept env w₀ (bail w oldFs fds ret).2 := by
  obtain ⟨f, hs, hout⟩ := h.output
  have hdata : (Xm.bail w oldFs fds ret).2.data = w.data := foldl_ksysClose_data fds w
  have hquiet : written (fds.map .ksysClose) = [] := by
    rw [written, List.flatMap_eq_nil_iff]
    intro e he
    obtain ⟨fd, -, rfl⟩ := List.mem_map.mp he
    rfl
  refine ⟨⟨hs ++ fds.map .ksysClose, ?_, ?_⟩, fun j hj => ?_⟩
  · rw [(bail_spec w oldFs fds ret).2.1, hout.history, List.append_assoc]
  · rw [hdata, written_append, hquiet, List.append_nil, ← hout.contents, hout.inode]
  · rw [hdata]
    exact h.others j hj

/-- A call that leaves the files and the output descriptor alone. -/
theorem Writing.frame {w' : World} {hs' : List Event} (h : Writing env w₀ outfd w)
    (hh : w'.history = w.history ++ hs') (hquiet : written hs' = [])
    (ht : Fd.get w'.table outfd = Fd.get w.table outfd) (hd : w'.data = w.data) :
    Writing env w₀ outfd w' := by
  obtain ⟨f, hs, hout⟩ := h.output
  exact ⟨⟨f, _, hout.frame hh hquiet ht hd⟩, fun j hj => by rw [hd]; exact h.others j hj⟩

theorem Writing.log (h : Writing env w₀ outfd w) {e : Event} (hquiet : e.written = []) :
    Writing env w₀ outfd (w.log e) :=
  h.frame rfl ((List.append_nil _).trans hquiet) rfl rfl

theorem written_of_neg (fd : Nat) (buffer : List UInt8) (e : Errno) :
    (Event.ksysWrite fd buffer e.code).written = [] := by
  have hneg := e.neg
  have hzero : e.code.toNat = 0 := by omega
  rw [Event.written, hzero, List.take_zero]

/-- Reading from another descriptor. -/
theorem Writing.read (h : Writing env w₀ outfd w) {infd : Nat} (hne : infd ≠ outfd)
    (count : Nat) : Writing env w₀ outfd (ksysRead env w infd count).2.2 := by
  unfold ksysRead
  split
  · exact h.log rfl
  · exact h.log rfl
  · exact h.frame rfl rfl (Fd.get_put_of_ne _ hne.symm _) rfl

/-- A write fails or adds to the output file. -/
theorem Writing.write (h : Writing env w₀ outfd w) (buffer : List UInt8) :
    Writing env w₀ outfd (ksysWrite env w outfd buffer).2 := by
  obtain ⟨f, hs, hout⟩ := h.output
  rcases hout.write buffer with ⟨e, heq⟩ | ⟨n, f', w', heq, -, -, hothers, -, hout'⟩
  · rw [heq]
    exact h.log (written_of_neg outfd buffer e)
  · rw [heq]
    exact ⟨⟨f', _, hout'⟩, fun j hj => (hothers j hj).trans (h.others j hj)⟩

/-- One turn of the copying loop. -/
theorem copyTurn_keeps {infd : Nat} {s : Copy} (h : Writing env w₀ outfd s.world)
    (hne : infd ≠ outfd) (oldFs : AddrLimit) :
    match copyTurn env oldFs outfd infd s with
    | .again s' => Writing env w₀ outfd s'.world
    | .done r => Keeps env w₀ outfd Copy.world r := by
  have hread := h.read hne pageSize
  have hwrite := hread.write (ksysRead env s.world infd pageSize).2.1
  unfold copyTurn
  dsimp only
  split_ifs
  · exact hread
  · exact hread.bail oldFs _ _
  · exact hwrite.bail oldFs _ _
  · exact hwrite

theorem copyLoop_keeps {infd fuel : Nat} {s : Copy} {r : Except (Int × World) Copy}
    (h : Writing env w₀ outfd s.world) (hne : infd ≠ outfd) {oldFs : AddrLimit}
    (hrun : Loop.run (copyTurn env oldFs outfd infd) fuel s = some r) :
    Keeps env w₀ outfd Copy.world r := by
  have hagain : ∀ s s', Writing env w₀ outfd s.world →
      copyTurn env oldFs outfd infd s = .again s' → Writing env w₀ outfd s'.world := by
    intro s s' hs heq
    have hturn := copyTurn_keeps hs hne oldFs
    rwa [heq] at hturn
  obtain ⟨t, ht, hdone⟩ := Loop.exists_done hagain h hrun
  have hturn := copyTurn_keeps ht hne oldFs
  rwa [hdone] at hturn

theorem fileDone_keeps {infd : Nat} {c : Copy} (h : Writing env w₀ outfd c.world)
    (hne : infd ≠ outfd) (oldFs : AddrLimit) (filecount : Int32) :
    Keeps env w₀ outfd Merge.world (fileDone env oldFs outfd infd filecount c) := by
  obtain ⟨left, -, hth, htt, htd, -⟩ := copyToUser_spec env c.world (filecount + 1)
  have hcount : Writing env w₀ outfd (copyToUser env c.world (filecount + 1)).2 :=
    h.frame hth rfl (by rw [htt]) htd
  unfold fileDone
  dsimp only
  rw [if_neg (by omega)]
  exact hcount.frame rfl rfl (Fd.get_close_of_ne _ hne.symm) rfl

/-- One file from its `ksys_open` on. -/
theorem mergeOpen_keeps {x fuel : Nat} {s : Merge} (h : Writing env w₀ outfd w)
    {oldFs : AddrLimit} {r : Except (Int × World) Merge}
    (hmerge : mergeOpen env oldFs outfd fuel x s w = some r) :
    Keeps env w₀ outfd Merge.world r := by
  unfold mergeOpen at hmerge
  rcases ksysOpen_rdonly env w (env.word (env.params.nameAt x)) with ⟨e, hopen⟩ | hopen
  · rw [hopen] at hmerge
    dsimp only at hmerge
    rw [if_pos e.neg] at hmerge
    obtain rfl := Option.some.inj hmerge
    exact (h.log rfl).bail oldFs _ _
  · rw [hopen] at hmerge
    dsimp only at hmerge
    rw [if_neg (by omega), Int.toNat_natCast] at hmerge
    -- the new descriptor is not the output's
    have hne : Fd.lowest w.table ≠ outfd := by
      intro heq
      obtain ⟨f, hs, hout⟩ := h.output
      have hfree := Fd.get_lowest w.table
      rw [heq, hout.get] at hfree
      cases hfree
    have hopened : Writing env w₀ outfd
        (w.opened (env.word (env.params.nameAt x)) ⟨inputInode env x, 0, false⟩) :=
      h.frame rfl rfl (Fd.get_put_of_ne _ hne.symm _) rfl
    obtain ⟨c, hloop, rfl⟩ := Option.map_eq_some_iff.mp hmerge
    have hcopy := copyLoop_keeps hopened hne hloop
    cases c with
    | error ret => exact hcopy
    | ok c => exact fileDone_keeps hcopy hne oldFs s.filecount

theorem mergeFile_keeps {x fuel : Nat} {s : Merge} (h : Writing env w₀ outfd s.world)
    {oldFs : AddrLimit} {r : Except (Int × World) Merge}
    (hmerge : mergeFile env oldFs outfd fuel x s = some r) :
    Keeps env w₀ outfd Merge.world r := by
  have hname : Writing env w₀ outfd (copyFromUser env s.world (env.params.nameAt x) 8).2 :=
    h.log rfl
  unfold mergeFile at hmerge
  dsimp only at hmerge
  by_cases hleft : (copyFromUser env s.world (env.params.nameAt x) 8).1 = 0
  · rw [if_neg (not_not_intro hleft)] at hmerge
    exact mergeOpen_keeps (hname.log rfl) hmerge
  · rw [if_pos hleft] at hmerge
    obtain rfl := Option.some.inj hmerge
    exact hname.bail oldFs _ _

theorem mergeFiles_keeps {fuel n x : Nat} {s : Merge} (h : Writing env w₀ outfd s.world)
    {oldFs : AddrLimit} {r : Except (Int × World) Merge}
    (hmerge : mergeFiles env oldFs outfd fuel n x s = some r) :
    Keeps env w₀ outfd Merge.world r := by
  induction n generalizing x s with
  | zero =>
      obtain rfl := Option.some.inj hmerge
      exact h
  | succ n ih =>
      rw [mergeFiles] at hmerge
      cases hfile : mergeFile env oldFs outfd fuel x s with
      | none =>
          rw [hfile] at hmerge
          cases hmerge
      | some r' =>
          have hkeep := mergeFile_keeps h hfile
          rw [hfile] at hmerge
          cases r' with
          | error ret =>
              obtain rfl := Option.some.inj hmerge
              exact hkeep
          | ok s' => exact ih hkeep hmerge

end Kept

/-- Whatever fails, however short the writes are and whichever files are
the same: when `xmerge` returns no file but the output file has changed,
and that holds what the writes of the call put there, over or behind its
old contents. If it was not opened nothing was written, and it is as it
was. -/
theorem xmerge_output {env : Env} {args : Addr} {argslen fuel : Nat} {w₀ w : World} {r : Int}
    (h : xmerge env args argslen fuel w₀ = some (r, w)) :
    ∃ hs, w.history = w₀.history ++ hs
      ∧ (∀ j, j ≠ env.inode env.params.outfile → w.data j = w₀.data j)
      ∧ (w.data (env.inode env.params.outfile) = outputAfter env w₀ (written hs)
        ∨ r < 0 ∧ filesDone hs = 0 ∧ written hs = []
          ∧ w.data (env.inode env.params.outfile) = w₀.data (env.inode env.params.outfile)) := by
  unfold xmerge at h
  dsimp only at h
  by_cases hleft : (copyFromUser env (setFs w₀ .kernel) args argslen).1 = 0
  case neg =>
    -- the parameters cannot be read
    rw [if_pos hleft] at h
    obtain ⟨rfl, rfl⟩ := Prod.mk.inj (Option.some.inj h)
    exact ⟨_, rfl, fun _ _ => rfl, .inr ⟨by decide, rfl, rfl, rfl⟩⟩
  rw [if_neg (not_not_intro hleft)] at h
  have hread := segment_copyFromUser .kernel args argslen
    (copyFromUser env (setFs w₀ .kernel) args argslen).1
  rw [if_pos hleft] at hread
  obtain ⟨hs₀, hh, hread⟩ : ∃ hs₀, (copyFromUser env (setFs w₀ .kernel) args argslen).2.history
      = w₀.history ++ hs₀ ∧ Segment hs₀ none 0 [] := ⟨_, rfl, hread⟩
  have hd : (copyFromUser env (setFs w₀ .kernel) args argslen).2.data = w₀.data := rfl
  have hc : (copyFromUser env (setFs w₀ .kernel) args argslen).2.ofileCount
      = w₀.ofileCount := rfl
  generalize (copyFromUser env (setFs w₀ .kernel) args argslen).2 = w₁ at h hh hd hc
  rcases ksysOpen_cases env w₁ env.params.outfile env.params.oflags with ⟨e, hopen⟩ | hopen
  · -- the output file cannot be opened
    rw [hopen] at h
    dsimp only at h
    rw [if_pos e.neg] at h
    obtain ⟨rfl, rfl⟩ := Prod.mk.inj (Option.some.inj h)
    refine ⟨hs₀ ++ [.ksysOpen w₁.limit env.params.outfile e.code], ?_, fun j _ => ?_,
      .inr ⟨e.neg, ?_, ?_, ?_⟩⟩
    · show w₁.history ++ _ = _
      rw [hh, List.append_assoc]
    · exact congrFun hd j
    · exact (hread.append (segment_openError w₁.limit env.params.outfile e)).done
    · rw [written_append, hread.written_eq_nil]
      rfl
    · exact congrFun hd _
  · rw [hopen] at h
    dsimp only at h
    rw [if_neg (by omega), Int.toNat_natCast] at h
    have hstart := merging_start env hh hd hc hread
    obtain ⟨r', hmerge, hret⟩ := Option.map_eq_some_iff.mp h
    have hkeep := mergeFiles_keeps ⟨hstart.output, hstart.data⟩ hmerge
    cases r' with
    | error ret =>
        obtain rfl : ret = (r, w) := hret
        obtain ⟨hs, hhist, hdata⟩ := hkeep.output
        exact ⟨hs, hhist, hkeep.others, .inl hdata⟩
    | ok s =>
        obtain ⟨-, rfl⟩ := Prod.mk.inj hret
        obtain ⟨f, hs, hout⟩ := hkeep.output
        refine ⟨hs ++ [.ksysClose (Fd.lowest w₁.table)], ?_, hkeep.others, .inl ?_⟩
        · show s.world.history ++ _ = _
          rw [hout.history, List.append_assoc]
        · rw [written_append, show written [.ksysClose (Fd.lowest w₁.table)] = [] from rfl,
            List.append_nil, ← hout.contents, hout.inode]
          rfl

/-- Writes of one byte, and a read that fails in the second file. -/
theorem xmerge_output_failing : ∃ r w hs,
    xmerge (sampleEnv failingReads fun _ => .count 1) 0 40 4 sampleWorld = some (r, w)
    ∧ w.data 10 = [1, 2, 3]
    ∧ (w.data 20 = outputAfter (sampleEnv failingReads fun _ => .count 1) sampleWorld (written hs)
      ∨ r < 0 ∧ filesDone hs = 0 ∧ written hs = [] ∧ w.data 20 = []) := by
  have hsome : (xmerge (sampleEnv failingReads fun _ => .count 1) 0 40 4 sampleWorld).isSome := by
    decide +kernel
  obtain ⟨⟨r, w⟩, hret⟩ := Option.isSome_iff_exists.mp hsome
  obtain ⟨hs, -, hothers, hfile⟩ := xmerge_output hret
  exact ⟨r, w, hs, hret, hothers 10 (by decide), hfile⟩

/-- The code of a failed call is an error number. -/
theorem failure_low {env : Env} {args : Addr} {argslen fuel : Nat} {w₀ w : World} {r v : Int}
    {hs : List Event} (h : xmerge env args argslen fuel w₀ = some (r, w))
    (hh : w.history = w₀.history ++ hs) (hv : failure hs = some v) : -4095 ≤ v ∧ v < 0 := by
  obtain ⟨e, he, hev⟩ := List.exists_of_findSome?_eq_some hv
  obtain ⟨pre, post, hsplit⟩ := List.append_of_mem he
  have hans := xmerge_answers h hh pre e post hsplit
  cases e with
  | copyFromUser limit src len left =>
      simp only [Event.failure] at hev
      split_ifs at hev
      rw [← Option.some.inj hev]
      decide
  | ksysOpen limit name result =>
      simp only [Event.failure] at hev
      split_ifs at hev with hneg
      obtain rfl := Option.some.inj hev
      rcases hans with ⟨e, -, rfl⟩ | ⟨-, hnonneg⟩
      · exact ⟨e.low, e.neg⟩
      · omega
  | ksysRead fd result | ksysWrite fd buffer result =>
      simp only [Event.failure] at hev
      split_ifs at hev with hneg
      obtain rfl := Option.some.inj hev
      rcases hans with hnonneg | ⟨e, -, rfl⟩
      · omega
      · exact ⟨e.low, e.neg⟩
  | printk | copyToUser | ksysClose => cases hev

/-- The same surroundings, with `xp` at the address that is passed. -/
def Env.passing (env : Env) (xp : XmergeParams) : Env := { env with params := xp }

namespace Front

/-! ## The program -/

/-- What the program writes to its two streams. -/
structure Printed where
  stdout : List Char
  stderr : List Char
deriving Repr, DecidableEq

/-- `*(xp.ofile_count)` and its line. -/
def mergedLine (ofileCount : Int32) : List Char :=
  Scanf.signed ofileCount.toInt ++ " file(s) merged\n".toList

/-- The end of `main`, with what the system call returned. `syscall` makes
-1 of an error number and sets `errno`; `%d` shows the low half of a
`long`; `perror` takes its text from `strerror`. -/
def report (strerror : Int → List Char) (errno r : Int) (ofileCount : Int32) : Printed :=
  let (result, errno) := if -4095 ≤ r ∧ r < 0 then (-1, -r) else (r, errno)
  if 0 ≤ result then
    { stdout := Scanf.signed (Int32.ofInt result).toInt ++ " bytes merged\n".toList
        ++ mergedLine ofileCount
      stderr := [] }
  else
    { stdout := mergedLine ofileCount
      stderr := "ERROR: ".toList ++ strerror errno ++ ['\n'] }

/-- The program from `main` to its end, or `none` if it uses `argv[argc]`
or the call does not return within the turns given. `xp` is at `args`. -/
def run (strerror : Int → List Char) (errno : Int) (env : Env) (argv : Argv)
    (xp : XmergeParams) (args ofileCount : Addr) (fuel : Nat) (w : World) :
    Option (Printed × World) :=
  match main argv xp ofileCount with
  | .call xp =>
      (xmerge (env.passing xp) args paramsSize fuel w).map fun (r, w) =>
        (report strerror errno r w.ofileCount, w)
  | .overrun | .exit => none

/-- The memory holds `argv`. -/
def Holds (env : Env) (argv : Argv) : Prop :=
  ∀ i (hi : i < argv.words.length), env.word (argv.slot i) = (argv.words.get ⟨i, hi⟩).1

/-- The contents of the input files. -/
def Parse.contents (p : Parse) (env : Env) (w₀ : World) : List (List UInt8) :=
  p.infiles.map fun f => w₀.data (env.inode f.1)

/-- Where the options put `bytes` in a file that held `old`. -/
def placed (opts : List Opt) (old bytes : List UInt8) : List UInt8 :=
  let kept := if .t ∈ opts then [] else old
  if .a ∈ opts ∨ flagged opts = false then kept ++ bytes else bytes ++ kept.drop bytes.length

section Program

variable {p : Parse} {argv : Argv} {env : Env} {xp : XmergeParams} {w₀ : World}

/-- The flags that are passed, bit by bit. -/
theorem joined_append (opts : List Opt) :
    ((if flagged opts then joined opts else oCreat ||| oWronly ||| oAppend) &&& oAppend ≠ 0)
      ↔ .a ∈ opts ∨ flagged opts = false := by
  have hflag : Opt.a ∈ opts → flagged opts = true := fun ha =>
    List.any_eq_true.mpr ⟨.a, ha, by decide⟩
  by_cases hf : flagged opts = true
  · rw [if_pos hf, hf]
    by_cases ha : Opt.a ∈ opts <;> by_cases hc : Opt.c ∈ opts <;> by_cases ht : Opt.t ∈ opts <;>
      by_cases he : Opt.e ∈ opts <;> simp [joined, ha, hc, ht, he] <;> decide
  · rw [if_neg hf]
    exact iff_of_true (by decide) (Or.inr (by simpa using hf))

theorem joined_trunc (opts : List Opt) :
    ((if flagged opts then joined opts else oCreat ||| oWronly ||| oAppend) &&& oTrunc ≠ 0)
      ↔ .t ∈ opts := by
  have hflag : Opt.t ∈ opts → flagged opts = true := fun ht =>
    List.any_eq_true.mpr ⟨.t, ht, by decide⟩
  by_cases hf : flagged opts = true
  · rw [if_pos hf]
    by_cases ha : Opt.a ∈ opts <;> by_cases hc : Opt.c ∈ opts <;> by_cases ht : Opt.t ∈ opts <;>
      by_cases he : Opt.e ∈ opts <;> simp [joined, ha, hc, ht, he] <;> decide
  · rw [if_neg hf]
    exact iff_of_false (by decide) fun ht => hf (hflag ht)

/-- The output file of the call, in terms of the options. -/
theorem outputAfter_passes (hpass : p.Passes argv xp) (w₀ : World) (bytes : List UInt8) :
    outputAfter (env.passing xp) w₀ bytes
      = placed p.opts (w₀.data (env.inode p.outfile.1)) bytes := by
  have happend := joined_append p.opts
  have htrunc := joined_trunc p.opts
  rw [← hpass.oflags] at happend htrunc
  unfold outputAfter placed Env.passing
  dsimp only
  rw [hpass.outfile]
  simp only [happend, htrunc]

/-- The files the call opens are those named on the command line. -/
theorem inputInode_passes (hof : p.Of argv) (hpass : p.Passes argv xp) (hmem : Holds env argv)
    {i : ℕ} (hi : i < p.infiles.length) :
    inputInode (env.passing xp) i = env.inode (p.infiles.get ⟨i, hi⟩).1 := by
  have hget : argv.words[p.before.length + 2 + i]? = some (p.infiles.get ⟨i, hi⟩) := by
    rw [hof.words, show p.before.length + 2 + i = p.before.length + (1 + i) + 1 by omega,
      List.getElem?_cons_succ, List.getElem?_append_right (by omega),
      show p.before.length + (1 + i) - p.before.length = i + 1 by omega, List.getElem?_cons_succ]
    exact List.getElem?_eq_getElem hi
  obtain ⟨hlt, hword⟩ := List.getElem?_eq_some_iff.mp hget
  have hslot := hmem _ hlt
  show env.inode (env.word (xp.nameAt i)) = _
  rw [hpass.infiles i hi, hslot]
  exact congrArg (fun f => env.inode f.1) hword

theorem inputFile_passes (hof : p.Of argv) (hpass : p.Passes argv xp) (hmem : Holds env argv)
    {i : ℕ} (hi : i < p.infiles.length) :
    inputFile (env.passing xp) w₀.data i = (p.contents env w₀).getD i [] := by
  rw [inputFile, inputInode_passes hof hpass hmem hi, List.getD_eq_getElem?_getD, Parse.contents,
    List.getElem?_map, List.getElem?_eq_getElem hi]
  rfl

theorem filesUpTo_passes (hof : p.Of argv) (hpass : p.Passes argv xp) (hmem : Holds env argv)
    {k : ℕ} (hk : k ≤ p.infiles.length) :
    filesUpTo (env.passing xp) w₀.data k = ((p.contents env w₀).take k).flatten := by
  have hlen : (p.contents env w₀).length = p.infiles.length := List.length_map ..
  induction k with
  | zero => rfl
  | succ k ih =>
      have hget : (p.contents env w₀)[k]? = some ((p.contents env w₀).getD k []) := by
        rw [List.getD_eq_getElem?_getD, List.getElem?_eq_getElem (by omega)]
        rfl
      rw [filesUpTo_succ, ih (by omega), inputFile_passes hof hpass hmem hk, List.take_add_one,
        hget, List.flatten_append]
      simp

theorem inputsDiffer_passes (hof : p.Of argv) (hpass : p.Passes argv xp) (hmem : Holds env argv)
    (hdiff : ∀ f ∈ p.infiles, env.inode f.1 ≠ env.inode p.outfile.1) :
    InputsDiffer (env.passing xp) := by
  intro i hi
  have hi' : i < p.infiles.length := hpass.numFiles ▸ hi
  rw [inputInode_passes hof hpass hmem hi']
  show _ ≠ env.inode xp.outfile
  rw [hpass.outfile]
  exact hdiff _ (List.get_mem ..)

end Program

theorem report_count (strerror : Int → List Char) (errno : Int) {n : ℕ} (hn : n < 2 ^ 31)
    (ofileCount : Int32) : report strerror errno n ofileCount =
      { stdout := decimal n ++ " bytes merged\n".toList ++ mergedLine ofileCount, stderr := [] } := by
  unfold report
  rw [if_neg (by omega)]
  dsimp only
  rw [if_pos (by omega)]
  have hlow : (Int32.ofInt n).toInt = n := Int32.toInt_ofNat_of_lt hn
  rw [hlow, Scanf.signed_natCast]

theorem report_error (strerror : Int → List Char) (errno : Int) {e : Int} (hlow : -4095 ≤ e)
    (hneg : e < 0) (ofileCount : Int32) : report strerror errno e ofileCount =
      { stdout := mergedLine ofileCount
        stderr := "ERROR: ".toList ++ strerror (-e) ++ ['\n'] } := by
  unfold report
  rw [if_pos ⟨hlow, hneg⟩]
  dsimp only
  rw [if_neg (by omega)]

/-- The program as a whole, for a command line of the grammar whose input
files are not the output file and are not too long together. It ends, and
no other file changes. If every write takes all it is given or fails,
then: without a failure it prints the number of bytes and of files, and
the output file holds all of them where the options put them; at a failure
it prints the error and the number of files merged, and the output file
holds those and a beginning of the next, or could not be opened. -/
theorem program_merges {p : Parse} {argv : Argv} (hof : p.Of argv) (xp : XmergeParams)
    (args ofileCount : Addr) (strerror : Int → List Char) (errno : Int) {env : Env} {w₀ : World}
    (hmem : Holds env argv) (hdiff : ∀ f ∈ p.infiles, env.inode f.1 ≠ env.inode p.outfile.1)
    (hcopies : ∀ h, env.copyToUser h = 0) (hcount : w₀.ofileCount = 0)
    (hsize : (p.contents env w₀).flatten.length < 2 ^ 31) :
    ∃ out w hs, (∃ fuel, ∀ n, fuel ≤ n →
        run strerror errno env argv xp args ofileCount n w₀ = some (out, w))
      ∧ w.history = w₀.history ++ hs
      ∧ (∀ j, j ≠ env.inode p.outfile.1 → w.data j = w₀.data j)
      ∧ (WholeWrites hs →
        (failure hs = none →
          out = { stdout := decimal (p.contents env w₀).flatten.length ++ " bytes merged\n".toList
                    ++ decimal p.infiles.length ++ " file(s) merged\n".toList
                  stderr := [] }
          ∧ w.data (env.inode p.outfile.1) = placed p.opts (w₀.data (env.inode p.outfile.1))
              (p.contents env w₀).flatten)
        ∧ ∀ e, failure hs = some e → ∃ k m, (k < p.infiles.length ∨ k = 0 ∧ m = 0)
          ∧ out = { stdout := decimal k ++ " file(s) merged\n".toList
                    stderr := "ERROR: ".toList ++ strerror (-e) ++ ['\n'] }
          ∧ (w.data (env.inode p.outfile.1) = placed p.opts (w₀.data (env.inode p.outfile.1))
                (((p.contents env w₀).take k).flatten ++ ((p.contents env w₀).getD k []).take m)
            ∨ k = 0 ∧ w.data (env.inode p.outfile.1) = w₀.data (env.inode p.outfile.1))) := by
  obtain ⟨xp', hmain, hpass⟩ := hof.passes xp ofileCount
  have hdiff' := inputsDiffer_passes hof hpass hmem hdiff
  have hargc := argv.argc_lt
  have hfew : p.infiles.length < 2 ^ 31 := by
    rw [hof.words, List.length_cons, List.length_append, List.length_cons] at hargc
    omega
  have hlen : (p.contents env w₀).length = p.infiles.length := List.length_map ..
  have hnum : (env.passing xp').params.numFiles.toNat = p.infiles.length := hpass.numFiles
  have hall : filesUpTo (env.passing xp') w₀.data p.infiles.length = (p.contents env w₀).flatten := by
    rw [filesUpTo_passes hof hpass hmem (Nat.le_refl _), ← hlen, List.take_length]
  have hkept : CountsKept (env.passing xp') w₀ := ⟨hcopies, hcount⟩
  obtain ⟨fuel, ⟨r, w⟩, hret, houtcome⟩ : ∃ fuel ret,
      xmerge (env.passing xp') args paramsSize fuel w₀ = some ret
        ∧ (Finished (env.passing xp') w₀ ret
          ∨ ∃ k m, (k < (env.passing xp').params.numFiles.toNat ∨ k = 0 ∧ m = 0)
            ∧ Stopped (env.passing xp') w₀ ret k m) :=
    ⟨_, xmerge_outcome hdiff' args paramsSize w₀ (Nat.lt_succ_self _)⟩
  have hout : (env.passing xp').inode (env.passing xp').params.outfile
      = env.inode p.outfile.1 := congrArg env.inode hpass.outfile
  obtain ⟨hs, hh, hothers, hfile⟩ := xmerge_output hret
  rw [hout] at hothers hfile
  have hrun : ∀ n, fuel ≤ n → run strerror errno env argv xp args ofileCount n w₀
      = some (report strerror errno r w.ofileCount, w) := by
    intro n hn
    rw [run, hmain]
    dsimp only
    rw [xmerge_mono hret hn]
    rfl
  have hline : ∀ k, k ≤ p.infiles.length → w.ofileCount = Int32.ofNat k →
      mergedLine w.ofileCount = decimal k ++ " file(s) merged\n".toList := by
    intro k hk hcnt
    rw [mergedLine, hcnt, Int32.toInt_ofNat_of_lt (by omega), Scanf.signed_natCast]
  refine ⟨_, w, hs, ⟨fuel, hrun⟩, hh, hothers, fun hwhole => ?_⟩
  rw [hwhole.written_eq, outputAfter_passes hpass] at hfile
  rcases houtcome with hfin | ⟨k, m, hk, hstop⟩
  · obtain ⟨hs', hh', -, hseg⟩ := hfin.history
    obtain rfl : hs = hs' := List.append_cancel_left (hh.symm.trans hh')
    have hresult : r = (p.contents env w₀).flatten.length := by
      have hr := hfin.result
      rw [hnum, hall] at hr
      exact hr.trans (Int32.toInt_ofNat_of_lt hsize)
    have hcnt := hfin.ofileCount hkept
    rw [hnum] at hcnt
    refine ⟨fun _ => ⟨?_, ?_⟩, fun e he => ?_⟩
    · rw [hresult, report_count strerror errno hsize, hline _ (Nat.le_refl _) hcnt,
        List.append_assoc, List.append_assoc, List.append_assoc]
    · rcases hfile with hfile | ⟨hneg, -⟩
      · rw [hfile, hseg.bytes, hnum, hall]
      · omega
    · rw [hseg.failure] at he
      cases he
  · obtain ⟨hs', hh', hseg⟩ := hstop.history
    obtain rfl : hs = hs' := List.append_cancel_left (hh.symm.trans hh')
    rw [hnum] at hk
    refine ⟨fun hnone => ?_, fun e he => ⟨k, m, hk, ?_, ?_⟩⟩
    · rw [hseg.failure] at hnone
      cases hnone
    · obtain ⟨hlow, hneg⟩ := failure_low hret hh he
      rw [hseg.failure] at he
      obtain rfl : r = e := Option.some.inj he
      rw [report_error strerror errno hlow hneg, hline k (by omega) (hstop.ofileCount hkept)]
    · have hbytes : offered hs = ((p.contents env w₀).take k).flatten
          ++ ((p.contents env w₀).getD k []).take m := by
        rw [hseg.bytes, filesUpTo_passes hof hpass hmem (by omega)]
        rcases hk with hlt | ⟨-, rfl⟩
        · rw [inputFile_passes hof hpass hmem hlt]
        · rfl
      rcases hfile with hfile | ⟨-, hzero, -, hfile⟩
      · exact .inl (hfile.trans (congrArg _ hbytes))
      · exact .inr ⟨hseg.done.symm.trans hzero, hfile⟩

/-- Where `sampleArgv` is in memory, with one input file. -/
def appendEnv : Env where
  params := ⟨0, 0, 0, 0, 0, 0⟩
  word := fun a => 0x8000 + 2 * (a - 0x7000)
  inode := fun name => if name = 0x8050 then 20 else 10
  copyFromUser := fun _ => 0
  copyToUser := fun _ => 0
  ksysOpen := fun _ => none
  ksysRead := fun _ => .count 2
  ksysWrite := fun _ => .count 4096

def appendWorld : World where
  limit := .user
  table := []
  data := fun i => if i = 10 then [1, 2, 3] else [9]
  ofileCount := 0
  history := []

theorem appendParse_of : appendParse.Of (sampleArgv appendTexts (by decide)) := by
  refine ⟨by decide, by decide, fun mode hmode => ?_, by decide⟩
  have hmode : mode = "0644".toList := by simpa [appendParse] using hmode
  subst hmode
  exact ⟨by decide, by simp [isOctal], by decide⟩

/-- `test_xmerge -a -m 0644 -a out in`. -/
theorem program_merges_append : ∃ out w hs,
    (∃ fuel, ∀ n, fuel ≤ n → run (fun _ => []) 0 appendEnv (sampleArgv appendTexts (by decide))
      ⟨9, 9, 9, 9, 9, 9⟩ 0x100 0x300 n appendWorld = some (out, w))
    ∧ (WholeWrites hs → failure hs = none →
      out.stdout = "3 bytes merged\n1 file(s) merged\n".toList ∧ w.data 20 = [9, 1, 2, 3]) := by
  have hmem : Holds appendEnv (sampleArgv appendTexts (by decide)) := by
    have hall : ∀ i : Fin 7, appendEnv.word ((sampleArgv appendTexts (by decide)).slot i)
        = ((sampleArgv appendTexts (by decide)).words.get i).1 := by decide
    exact fun i hi => hall ⟨i, hi⟩
  obtain ⟨out, w, hs, hrun, -, -, hdone⟩ := program_merges appendParse_of ⟨9, 9, 9, 9, 9, 9⟩
    0x100 0x300 (fun _ => []) 0 hmem (by decide) (fun _ => rfl)
    (rfl : appendWorld.ofileCount = 0) (by decide)
  refine ⟨out, w, hs, hrun, fun hwhole hnone => ?_⟩
  obtain ⟨rfl, hdata⟩ := (hdone hwhole).1 hnone
  exact ⟨by decide, hdata.trans (by decide)⟩

end Front

end Xm

end Comp4511
