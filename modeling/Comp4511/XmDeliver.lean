import Comp4511.XmCopy

/-!
# What `xmerge` delivers

`xmerge_outcome` says what the call returns and what it offered to
`ksys_write`. Here the offered bytes are compared with those that arrived.

The copying loop adds the count of `ksys_read` to its result and asks of
`ksys_write` only that it did not fail. So a call that returns a count
has delivered the files exactly when no write was short
(`xmerge_delivers_iff`), and one whose writes are whole leaves the
complete files and a beginning of the next, wherever it fails
(`xmerge_prefix`).

Both speak of the result for every fuel that suffices, since more fuel
does not change it (`xmerge_mono`).
-/

namespace Comp4511

namespace Xm

/-! ## Fuel -/

section Fuel

variable {env : Env} {oldFs : AddrLimit} {outfd fuel fuel' : Nat}

theorem mergeFile_mono {x : Nat} {s : Merge} {r : Except (Int × World) Merge}
    (h : mergeFile env oldFs outfd fuel x s = some r) (hle : fuel ≤ fuel') :
    mergeFile env oldFs outfd fuel' x s = some r := by
  unfold mergeFile at h ⊢
  dsimp only at h ⊢
  split at h
  · next hleft =>
      rw [if_pos hleft]
      exact h
  · next hleft =>
      rw [if_neg hleft]
      split at h
      · next hneg =>
          rw [if_pos hneg]
          exact h
      · next hneg =>
          rw [if_neg hneg]
          obtain ⟨r', hrun, hr⟩ := Option.map_eq_some_iff.mp h
          rw [Loop.run_mono hrun hle, Option.map_some, hr]

theorem mergeFiles_mono {n x : Nat} {s : Merge} {r : Except (Int × World) Merge}
    (h : mergeFiles env oldFs outfd fuel n x s = some r) (hle : fuel ≤ fuel') :
    mergeFiles env oldFs outfd fuel' n x s = some r := by
  induction n generalizing x s with
  | zero => exact h
  | succ n ih =>
      rw [mergeFiles] at h ⊢
      cases hfile : mergeFile env oldFs outfd fuel x s with
      | none =>
          rw [hfile] at h
          cases h
      | some r' =>
          rw [mergeFile_mono hfile hle]
          rw [hfile] at h
          cases r' with
          | error ret => exact h
          | ok s' => exact ih h

/-- More turns do not change what the call returns. -/
theorem xmerge_mono {args : Addr} {argslen : Nat} {w₀ : World} {ret : Int × World}
    (h : xmerge env args argslen fuel w₀ = some ret) (hle : fuel ≤ fuel') :
    xmerge env args argslen fuel' w₀ = some ret := by
  unfold xmerge at h ⊢
  dsimp only at h ⊢
  split at h
  · next hleft =>
      rw [if_pos hleft]
      exact h
  · next hleft =>
      rw [if_neg hleft]
      split at h
      · next hneg =>
          rw [if_pos hneg]
          exact h
      · next hneg =>
          rw [if_neg hneg]
          obtain ⟨r, hfiles, hr⟩ := Option.map_eq_some_iff.mp h
          rw [mergeFiles_mono hfiles hle, Option.map_some, hr]

end Fuel

/-- `xmerge` returns `r` and leaves the world `w`, having made the calls
`hs`. -/
def Returns (env : Env) (args : Addr) (argslen : Nat) (w₀ : World) (r : Int) (w : World)
    (hs : List Event) : Prop :=
  w.history = w₀.history ++ hs ∧
    ∃ fuel, ∀ n, fuel ≤ n → xmerge env args argslen n w₀ = some (r, w)

/-- The input files together. -/
def inputFiles (env : Env) (w₀ : World) : List UInt8 :=
  filesUpTo env w₀.data env.params.numFiles.toNat

theorem Returns.of_outcome {env : Env} {args : Addr} {argslen fuel : Nat} {w₀ : World}
    {ret : Int × World} {hs : List Event} (h : xmerge env args argslen fuel w₀ = some ret)
    (hh : ret.2.history = w₀.history ++ hs) :
    Returns env args argslen w₀ ret.1 ret.2 hs :=
  ⟨hh, fuel, fun _ hle => xmerge_mono h hle⟩

theorem Returns.eq {env : Env} {args : Addr} {argslen fuel : Nat} {w₀ w : World}
    {ret : Int × World} {r : Int} {hs : List Event} (h : Returns env args argslen w₀ r w hs)
    (hret : xmerge env args argslen fuel w₀ = some ret) : ret = (r, w) := by
  obtain ⟨-, n, hn⟩ := h
  have hmax := hn (max n fuel) (Nat.le_max_left ..)
  rw [xmerge_mono hret (Nat.le_max_right n fuel)] at hmax
  exact Option.some.inj hmax

instance : DecidablePred Event.Whole := fun e =>
  match e with
  | .ksysWrite _ _ _ => inferInstanceAs (Decidable (_ ∨ _))
  | .copyFromUser .. | .printk _ | .ksysOpen .. | .ksysRead .. | .copyToUser ..
  | .ksysClose _ => .isTrue trivial

instance (h : List Event) : Decidable (WholeWrites h) := List.decidableBAll Event.Whole h

/-- Two names, at `0x400` and `0x408`, and the output file's at `0x100`. -/
def sampleParams : XmergeParams where
  outfile := 0x100
  infiles := 0x200
  numFiles := 2
  oflags := 1
  mode := 0
  ofileCount := 0x300

def sampleInode (name : Addr) : Inode :=
  if name = 0x400 then 10 else if name = 0x408 then 11 else 20

/-- Two input files of three bytes each and an empty output file. What the
reads and the writes answer is given. -/
def sampleEnv (ksysRead ksysWrite : List Event → Answer) : Env where
  params := sampleParams
  word := fun a => a + 0x200
  inode := sampleInode
  copyFromUser := fun _ => 0
  copyToUser := fun _ => 0
  ksysOpen := fun _ => none
  ksysRead := ksysRead
  ksysWrite := ksysWrite

def sampleWorld : World where
  limit := .user
  table := []
  data := fun i => if i = 10 then [1, 2, 3] else if i = 11 then [4, 5, 6] else []
  ofileCount := 0
  history := []

theorem sampleEnv_inputsDiffer (ksysRead ksysWrite : List Event → Answer) :
    InputsDiffer (sampleEnv ksysRead ksysWrite) := by
  have hall : ∀ x, x < sampleParams.numFiles.toNat →
      sampleInode (sampleParams.nameAt x + 0x200) ≠ sampleInode sampleParams.outfile := by
    decide
  intro x hx
  simp only [inputInode, sampleEnv] at hx ⊢
  exact hall x hx

/-! ## The two results -/

/-- A call that returns a count has written the input files, one after
the other, and nothing else, and the count is that of the bytes written,
exactly when one of its calls failed (and then it does not return a
count) or every `ksys_write` took all it was given. What was written is
what the output file holds afterwards, over or behind its old contents. -/
theorem xmerge_delivers_iff {env : Env} (hdiff : InputsDiffer env) (args : Addr) (argslen : Nat)
    (w₀ : World) (hsize : (inputFiles env w₀).length < 2 ^ 31) :
    ∃ r w hs, Returns env args argslen w₀ r w hs ∧
      (0 ≤ r → w.data (env.inode env.params.outfile) = outputAfter env w₀ (written hs)) ∧
      ((0 ≤ r → written hs = inputFiles env w₀ ∧ r = (written hs).length) ↔
        ((failure hs).isSome ∨ WholeWrites hs)) := by
  obtain ⟨ret, hret, hfin | ⟨k, m, -, hstop⟩⟩ :=
    xmerge_outcome hdiff args argslen w₀ (Nat.lt_succ_self _)
  · obtain ⟨hs, hh, hdata, hseg⟩ := hfin.history
    have hresult : ret.1 = (inputFiles env w₀).length :=
      hfin.result.trans (Int32.toInt_ofNat_of_lt hsize)
    have hoff : offered hs = inputFiles env w₀ := hseg.bytes
    refine ⟨ret.1, ret.2, hs, .of_outcome hret hh, fun _ => hdata, ?_⟩
    constructor
    · intro hall
      have hnonneg : 0 ≤ ret.1 := by omega
      right
      rw [wholeWrites_iff, (hall hnonneg).1, hoff]
    · rintro (hfail | hwhole) -
      · rw [hseg.failure] at hfail
        exact nomatch hfail
      · rw [hwhole.written_eq, hoff]
        exact ⟨rfl, hresult⟩
  · obtain ⟨hs, hh, hseg⟩ := hstop.history
    have hneg := hstop.neg
    refine ⟨ret.1, ret.2, hs, .of_outcome hret hh, fun hnonneg => ?_,
      iff_of_true (fun hnonneg => ?_) (.inl ?_)⟩
    · omega
    · omega
    · rw [hseg.failure]
      rfl

theorem xmerge_delivers_iff_whole : ∃ r w hs,
    Returns (sampleEnv (fun _ => .count 2) fun _ => .count 4096) 0 40 sampleWorld r w hs ∧
      (0 ≤ r → w.data 20 = outputAfter (sampleEnv (fun _ => .count 2) fun _ => .count 4096)
        sampleWorld (written hs)) ∧
      ((0 ≤ r → written hs
          = inputFiles (sampleEnv (fun _ => .count 2) fun _ => .count 4096) sampleWorld ∧
        r = (written hs).length) ↔ ((failure hs).isSome ∨ WholeWrites hs)) :=
  xmerge_delivers_iff (sampleEnv_inputsDiffer _ _) 0 40 sampleWorld (by decide)

/-- Every write takes one byte only. Of the six bytes four are written,
and the call returns six. -/
theorem short_write_lost : ∃ r w hs,
    InputsDiffer (sampleEnv (fun _ => .count 2) fun _ => .count 1) ∧
    (inputFiles (sampleEnv (fun _ => .count 2) fun _ => .count 1) sampleWorld).length < 2 ^ 31 ∧
    Returns (sampleEnv (fun _ => .count 2) fun _ => .count 1) 0 40 sampleWorld r w hs ∧
    r = 6 ∧
    inputFiles (sampleEnv (fun _ => .count 2) fun _ => .count 1) sampleWorld
      = [1, 2, 3, 4, 5, 6] ∧
    written hs = [1, 3, 4, 6] ∧ w.data 20 = [1, 3, 4, 6] := by
  have hsome : (xmerge (sampleEnv (fun _ => .count 2) fun _ => .count 1) 0 40 4
      sampleWorld).isSome := by
    decide +kernel
  obtain ⟨ret, hret⟩ := Option.isSome_iff_exists.mp hsome
  have hseen : (xmerge (sampleEnv (fun _ => .count 2) fun _ => .count 1) 0 40 4
      sampleWorld).map (fun p => (p.1, written p.2.history, p.2.data 20))
        = some (6, [1, 3, 4, 6], [1, 3, 4, 6]) := by
    decide +kernel
  rw [hret, Option.map_some, Option.some.injEq, Prod.mk.injEq, Prod.mk.injEq] at hseen
  exact ⟨ret.1, ret.2, ret.2.history, sampleEnv_inputsDiffer _ _, by decide,
    .of_outcome hret rfl, hseen.1, by decide, hseen.2.1, hseen.2.2⟩

/-- Where no write is short, the call returns the code of its first
failure, if there is one: the `k` files read to their end before it are
counted in `*ofile_count` and written, and so is a beginning of the next.
Without a failure all files are. -/
theorem xmerge_prefix {env : Env} (hdiff : InputsDiffer env) (args : Addr) (argslen : Nat)
    (w₀ : World) (hcopies : ∀ h, env.copyToUser h = 0) (hcount : w₀.ofileCount = 0) :
    ∃ r w hs, Returns env args argslen w₀ r w hs ∧
      (WholeWrites hs →
        (∀ e, failure hs = some e → ∃ k m, filesDone hs = k ∧
          (k < env.params.numFiles.toNat ∨ k = 0 ∧ m = 0) ∧ r = e ∧ w.ofileCount = Int32.ofNat k ∧
          written hs = filesUpTo env w₀.data k ++ (inputFile env w₀.data k).take m) ∧
        (failure hs = none → filesDone hs = env.params.numFiles.toNat ∧
          w.ofileCount = Int32.ofNat env.params.numFiles.toNat ∧
          written hs = inputFiles env w₀ ∧
          ((inputFiles env w₀).length < 2 ^ 31 → r = (inputFiles env w₀).length))) := by
  obtain ⟨ret, hret, hfin | ⟨k, m, hk, hstop⟩⟩ :=
    xmerge_outcome hdiff args argslen w₀ (Nat.lt_succ_self _)
  · obtain ⟨hs, hh, -, hseg⟩ := hfin.history
    refine ⟨ret.1, ret.2, hs, .of_outcome hret hh, fun hwhole => ⟨?_, ?_⟩⟩
    · intro e he
      rw [hseg.failure] at he
      exact nomatch he
    · intro _
      refine ⟨hseg.done, hfin.ofileCount ⟨hcopies, hcount⟩, ?_, ?_⟩
      · rw [hwhole.written_eq]
        exact hseg.bytes
      · intro hsize
        exact hfin.result.trans (Int32.toInt_ofNat_of_lt hsize)
  · obtain ⟨hs, hh, hseg⟩ := hstop.history
    refine ⟨ret.1, ret.2, hs, .of_outcome hret hh, fun hwhole => ⟨?_, ?_⟩⟩
    · intro e he
      rw [hseg.failure] at he
      obtain rfl := Option.some.inj he
      refine ⟨k, m, hseg.done, hk, rfl, hstop.ofileCount ⟨hcopies, hcount⟩, ?_⟩
      rw [hwhole.written_eq]
      exact hseg.bytes
    · intro hnone
      rw [hseg.failure] at hnone
      exact nomatch hnone

/-- The read after the first two bytes of the second file fails with
`-EIO`. -/
def failingReads (h : List Event) : Answer :=
  if offered h = [1, 2, 3, 4, 5] then .error ⟨-5, by decide, by decide⟩ else .count 2

theorem xmerge_prefix_failing : ∃ r w hs,
    Returns (sampleEnv failingReads fun _ => .count 4096) 0 40 sampleWorld r w hs ∧
      WholeWrites hs ∧ r = -5 ∧ w.ofileCount = 1 ∧
      written hs = [1, 2, 3] ++ [4, 5, 6].take 2 := by
  obtain ⟨r, w, hs, hret, hall⟩ := xmerge_prefix
    (sampleEnv_inputsDiffer failingReads fun _ => .count 4096) 0 40 sampleWorld
    (fun _ => rfl) rfl
  have hsome : (xmerge (sampleEnv failingReads fun _ => .count 4096) 0 40 4
      sampleWorld).isSome := by
    decide +kernel
  obtain ⟨ret, hrun⟩ := Option.isSome_iff_exists.mp hsome
  obtain rfl := hret.eq hrun
  have hseen : (xmerge (sampleEnv failingReads fun _ => .count 4096) 0 40 4 sampleWorld).all
      (fun p => WholeWrites p.2.history ∧ failure p.2.history = some (-5) ∧
        filesDone p.2.history = 1 ∧ written p.2.history = [1, 2, 3, 4, 5]) := by
    decide +kernel
  obtain rfl : w.history = hs := hret.1
  rw [hrun, Option.all_some, decide_eq_true_eq] at hseen
  obtain ⟨hwhole, hfail, hdone, hwritten⟩ := hseen
  obtain ⟨k, m, hk, -, hr, hcount, -⟩ := (hall hwhole).1 (-5) hfail
  obtain rfl : 1 = k := hdone.symm.trans hk
  exact ⟨r, w, w.history, hret, hwhole, hr, hcount, hwritten⟩

end Xm

end Comp4511
