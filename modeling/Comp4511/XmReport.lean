import Comp4511.XmClean

/-!
# What `xmerge` reports

`step_logs` reads a step for what it adds to the history: one event, by
which the call goes on or, if it is a failure, comes to the return
statement with its code; only closing follows. `Told` is what that makes
of a whole run: a history without a failure has the bytes read as its
result, one with a failure has its code, and nothing is done after it but
closing.

The total is kept in an `int`, so it is exact below `2 ^ 31` bytes only
(`merge_total_iff`). And a `copy_to_user` that does not copy everything is
no failure to the call: `copies_reported` is about those of the run.
-/

namespace Comp4511

namespace Xm

/-! ## What a step logs -/

/-- The bytes a read took. -/
def Event.read : Event → Nat
  | .ksysRead _ result => result.toNat
  | _ => 0

def bytesRead (h : List Event) : Nat := (h.map Event.read).sum

/-- What the call will return, once that is settled. -/
def Pc.result : Pc → Option Int
  | .leave _ ret | .returned ret => some ret
  | .params | .openOut | .head .. | .name .. | .openIn .. | .read .. | .write .. | .count ..
  | .closeIn .. => none

/-- The bytes that are read and not yet written. -/
def Pc.pending : Pc → Nat
  | .write _ _ _ buffer => buffer.length
  | .params | .openOut | .head .. | .name .. | .openIn .. | .read .. | .count .. | .closeIn ..
  | .leave .. | .returned _ => 0

/-- The step leaves the event `e`. -/
structure Logs (c c' : Config) (e : Event) : Prop where
  history : c'.world.history = c.world.history ++ [e]
  bytecount : c'.bytecount = c.bytecount + Int32.ofNat e.read
  result : c'.pc.result = c.pc.result.or e.failure
  closing : c.pc.result.isSome → ∃ fd, e = .ksysClose fd
  pending : e.failure = none → c.pc.pending + e.read = e.offered.length + c'.pc.pending

/-- The step leaves no event. -/
structure Silent (c c' : Config) : Prop where
  history : c'.world.history = c.world.history
  bytecount : c'.bytecount = c.bytecount
  result : c'.pc.result = some (c.pc.result.getD c.bytecount.toInt)
  pending : c'.pc.pending = c.pc.pending

section Logs

variable {env : Env} {args : Addr} {argslen : Nat} {oldFs : AddrLimit} {w w' : World} {b : Int32}
  {pc pc' : Pc} {fds : List Nat} {e : Event}

/-- A step that goes on. -/
theorem Logs.of_quiet (hq : Quiet fds e w w') (hread : e.read = 0)
    (hpc : pc.result = none) (hresult : pc'.result = e.failure)
    (hpending : e.failure = none → pc.pending = e.offered.length + pc'.pending) :
    Logs ⟨pc, w, b⟩ ⟨pc', w', b⟩ e := by
  refine ⟨hq.history, ?_, ?_, ?_, ?_⟩
  · rw [hread]
    exact (Int32.add_zero b).symm
  · rw [hpc]
    exact hresult
  · rw [hpc]
    exact nofun
  · rw [hread]
    exact hpending

/-- A step at which the call fails. -/
theorem Logs.of_failure {v : Int} (hq : Quiet fds e w w') (hfail : e.failure = some v)
    (hread : e.read = 0) (hpc : pc.result = none) (hpc' : pc'.result = some v) :
    Logs ⟨pc, w, b⟩ ⟨pc', w', b⟩ e := by
  refine .of_quiet hq hread hpc (hpc'.trans hfail.symm) fun hnone => ?_
  rw [hfail] at hnone
  exact nomatch hnone

theorem Event.failure_read (fd n : Nat) : (Event.ksysRead fd n).failure = none := by
  unfold Event.failure
  exact if_neg (by omega)

theorem Event.failure_write (fd n : Nat) (buffer : List UInt8) :
    (Event.ksysWrite fd buffer n).failure = none := by
  unfold Event.failure
  exact if_neg (by omega)

theorem Event.failure_open (limit : AddrLimit) (name : Addr) (fd : Nat) :
    (Event.ksysOpen limit name fd).failure = none := by
  unfold Event.failure
  exact if_neg (by omega)

theorem Opens.logs {fd : Nat} {name : Addr} (h : Opens fd name w w') (hpc : pc.result = none)
    (hpc' : pc'.result = none) (hpending : pc.pending = pc'.pending) :
    Logs ⟨pc, w, b⟩ ⟨pc', w', b⟩ (.ksysOpen w.limit name fd) := by
  refine ⟨h.history, (Int32.add_zero b).symm, ?_, ?_, fun _ => ?_⟩
  · rw [hpc, hpc', Event.failure_open]
    rfl
  · rw [hpc]
    exact nofun
  · rw [hpending]
    exact Nat.add_comm ..

theorem Closes.logs {fd : Nat} (h : Closes fd w w') (hresult : pc'.result = pc.result)
    (hpending : pc.pending = pc'.pending) :
    Logs ⟨pc, w, b⟩ ⟨pc', w', b⟩ (.ksysClose fd) := by
  refine ⟨h.history, (Int32.add_zero b).symm, ?_, fun _ => ⟨fd, rfl⟩, fun _ => ?_⟩
  · rw [hresult]
    exact (Option.or_none ..).symm
  · rw [hpending]
    exact Nat.add_comm ..

theorem step_logs {c c' : Config} (hstep : Step env args argslen oldFs c c') :
    (∃ e, Logs c c' e) ∨ Silent c c' := by
  cases hstep with
  | paramsFault _ hleft hq => exact .inl ⟨_, .of_failure hq (if_neg hleft) rfl rfl rfl⟩
  | params _ hq => exact .inl ⟨_, .of_quiet hq rfl rfl rfl fun _ => rfl⟩
  | @openOutFail _ _ e _ _ hq => exact .inl ⟨_, .of_failure hq (if_pos e.neg) rfl rfl rfl⟩
  | openOut _ ho => exact .inl ⟨_, ho.logs rfl rfl rfl⟩
  | last => exact .inr ⟨rfl, rfl, rfl, rfl⟩
  | nameFault _ _ hleft hq => exact .inl ⟨_, .of_failure hq (if_neg hleft) rfl rfl rfl⟩
  | head _ _ hq => exact .inl ⟨_, .of_quiet hq rfl rfl rfl fun _ => rfl⟩
  | name hq => exact .inl ⟨_, .of_quiet hq rfl rfl rfl fun _ => rfl⟩
  | @openInFail _ _ _ _ e _ _ hq => exact .inl ⟨_, .of_failure hq (if_pos e.neg) rfl rfl rfl⟩
  | openIn _ ho => exact .inl ⟨_, ho.logs rfl rfl rfl⟩
  | eof hq => exact .inl ⟨_, .of_quiet hq rfl rfl rfl fun _ => rfl⟩
  | @readFail _ _ _ _ _ e _ _ hq =>
      have hread : e.code.toNat = 0 := Int.toNat_of_nonpos (Int.le_of_lt e.neg)
      exact .inl ⟨_, .of_failure hq (if_pos e.neg) hread rfl rfl⟩
  | @read _ _ _ infd _ buffer _ _ _ hq =>
      have hread : (Event.ksysRead infd buffer.length).read = buffer.length :=
        Int.toNat_natCast _
      refine .inl ⟨_, hq.history, ?_, (Event.failure_read infd buffer.length).symm, nofun, fun _ => ?_⟩
      · rw [hread]
      · rw [hread]
        rfl
  | @writeFail _ _ _ _ _ _ e _ _ hq => exact .inl ⟨_, .of_failure hq (if_pos e.neg) rfl rfl rfl⟩
  | @write _ _ outfd _ _ n buffer _ hq =>
      refine .inl ⟨_, .of_quiet hq rfl rfl (Event.failure_write ..).symm fun _ => ?_⟩
      have hnonneg : ¬ (n : Int) < 0 := by omega
      simp only [Event.offered, if_neg hnonneg]
      rfl
  | count _ hq => exact .inl ⟨_, .of_quiet hq rfl rfl rfl fun _ => rfl⟩
  | closeIn hc => exact .inl ⟨_, hc.logs rfl rfl⟩
  | close hc => exact .inl ⟨_, hc.logs rfl rfl⟩
  | restore => exact .inr ⟨rfl, rfl, rfl, rfl⟩

end Logs

/-! ## What a run tells -/

theorem bytesRead_append (h : List Event) (e : Event) :
    bytesRead (h ++ [e]) = bytesRead h + e.read := by
  simp [bytesRead]

theorem failure_append (h : List Event) (e : Event) :
    failure (h ++ [e]) = (failure h).or e.failure := by
  unfold failure
  rw [List.findSome?_append]
  simp

theorem offered_append (h : List Event) (e : Event) :
    offered (h ++ [e]) = offered h ++ e.offered := by
  simp [offered]

/-- After a failure there is only closing. -/
def Stops (hs : List Event) : Prop :=
  ∀ pre e post, hs = pre ++ e :: post → e.failure.isSome → ∀ e' ∈ post, ∃ fd, e' = .ksysClose fd

/-- A call made in `w₀` has come to `c` with the history `hs`. -/
structure Told (w₀ : World) (c : Config) (hs : List Event) : Prop where
  history : c.world.history = w₀.history ++ hs
  bytecount : c.bytecount = Int32.ofNat (bytesRead hs)
  failed : ∀ v, failure hs = some v → c.pc.result = some v
  fine : failure hs = none → c.pc.result = none ∨ c.pc.result = some c.bytecount.toInt
  pending : failure hs = none → bytesRead hs = (offered hs).length + c.pc.pending
  stops : Stops hs

section Told

variable {w₀ : World} {c c' : Config} {hs : List Event} {e : Event}

theorem Told.isSome_result (h : Told w₀ c hs) {e : Event} (he : e ∈ hs)
    (hfail : e.failure.isSome) : c.pc.result.isSome := by
  have hsome : (failure hs).isSome := by
    rw [failure, List.isSome_findSome?]
    exact List.any_eq_true.mpr ⟨e, he, hfail⟩
  obtain ⟨v, hv⟩ := Option.isSome_iff_exists.mp hsome
  rw [h.failed v hv]
  rfl

theorem Told.stops_append (h : Told w₀ c hs) (hlog : Logs c c' e) : Stops (hs ++ [e]) := by
  intro pre e₀ post hsplit hfail
  rcases Lts.split_concat hsplit with ⟨-, -, rfl⟩ | ⟨post, hhs, rfl⟩
  · exact nofun
  · intro e' hmem
    rw [List.mem_append, List.mem_singleton] at hmem
    rcases hmem with hmem | rfl
    · exact h.stops pre e₀ post hhs hfail e' hmem
    · have he₀ : e₀ ∈ hs := by simp [hhs]
      exact hlog.closing (h.isSome_result he₀ hfail)

theorem Told.logs (h : Told w₀ c hs) (hlog : Logs c c' e) : Told w₀ c' (hs ++ [e]) := by
  refine ⟨?_, ?_, ?_, ?_, ?_, h.stops_append hlog⟩
  · rw [hlog.history, h.history, List.append_assoc]
  · rw [hlog.bytecount, h.bytecount, bytesRead_append, Int32.ofNat_add]
  · intro v hv
    rw [failure_append] at hv
    rw [hlog.result]
    cases hfail : failure hs with
    | some v' =>
        rw [hfail] at hv
        rw [h.failed v' hfail]
        exact hv
    | none =>
        rw [hfail, Option.none_or] at hv
        -- a settled call only closes, and closing does not fail
        have hnone : c.pc.result = none := by
          rw [← Option.not_isSome_iff_eq_none]
          intro hsome
          obtain ⟨fd, rfl⟩ := hlog.closing hsome
          exact nomatch hv
        rw [hnone]
        exact hv
  · intro hnone
    rw [failure_append, Option.or_eq_none_iff] at hnone
    have hbytes : c'.bytecount.toInt = c.bytecount.toInt ∨ c.pc.result = none := by
      cases hresult : c.pc.result with
      | none => exact .inr rfl
      | some v =>
          obtain ⟨fd, rfl⟩ := hlog.closing (by rw [hresult]; rfl)
          rw [hlog.bytecount]
          exact .inl (congrArg Int32.toInt (Int32.add_zero _))
    rw [hlog.result, hnone.2, Option.or_none]
    rcases h.fine hnone.1 with hresult | hresult
    · exact .inl hresult
    · rcases hbytes with hbytes | hbytes
      · rw [hbytes]
        exact .inr hresult
      · exact .inl hbytes
  · intro hnone
    rw [failure_append, Option.or_eq_none_iff] at hnone
    have hold := h.pending hnone.1
    have hnew := hlog.pending hnone.2
    rw [bytesRead_append, offered_append, List.length_append]
    omega

theorem Told.silent (h : Told w₀ c hs) (hs' : Silent c c') : Told w₀ c' hs := by
  refine ⟨hs'.history.trans h.history, hs'.bytecount.trans h.bytecount, ?_, ?_, ?_, h.stops⟩
  · intro v hv
    rw [hs'.result, h.failed v hv]
    rfl
  · intro hnone
    rw [hs'.result, hs'.bytecount]
    rcases h.fine hnone with hresult | hresult <;> rw [hresult] <;> exact .inr rfl
  · intro hnone
    rw [hs'.pending]
    exact h.pending hnone

end Told

/-- What the result `r` says about the history `hs` of the call. -/
structure Report (r : Int) (hs : List Event) : Prop where
  failed : ∀ v, failure hs = some v → r = v
  total : failure hs = none → r = (Int32.ofNat (bytesRead hs)).toInt
  offered : failure hs = none → bytesRead hs = (offered hs).length
  stops : Stops hs

theorem told_of_steps {env : Env} {args : Addr} {argslen : Nat} {w₀ : World} {c : Config}
    {hs : List Event} (h : Steps env args argslen w₀.limit (start w₀) c)
    (hh : c.world.history = w₀.history ++ hs) : Told w₀ c hs := by
  have hkeep : ∀ c c', (∃ hs, Told w₀ c hs) → Step env args argslen w₀.limit c c' →
      ∃ hs, Told w₀ c' hs := by
    rintro c c' ⟨hs, htold⟩ hstep
    rcases step_logs hstep with ⟨e, hlog⟩ | hsilent
    · exact ⟨_, htold.logs hlog⟩
    · exact ⟨hs, htold.silent hsilent⟩
  have hstart : Told w₀ (start w₀) [] := by
    refine ⟨(List.append_nil _).symm, rfl, nofun, fun _ => .inl rfl, fun _ => rfl, ?_⟩
    intro pre e post hnil
    simp at hnil
  obtain ⟨hs', htold⟩ := steps_inv hkeep ⟨[], hstart⟩ h
  obtain rfl : hs = hs' := List.append_cancel_left (hh.symm.trans htold.history)
  exact htold

theorem xmerge_report {env : Env} {args : Addr} {argslen fuel : Nat} {w₀ w : World} {r : Int}
    {hs : List Event} (h : xmerge env args argslen fuel w₀ = some (r, w))
    (hh : w.history = w₀.history ++ hs) : Report r hs := by
  obtain ⟨b, hb⟩ := xmerge_steps h
  have htold := told_of_steps hb hh
  refine ⟨fun v hv => Option.some.inj (htold.failed v hv), fun hnone => ?_, htold.pending,
    htold.stops⟩
  rcases htold.fine hnone with hresult | hresult
  · exact nomatch hresult
  · have hbytes : b = Int32.ofNat (bytesRead hs) := htold.bytecount
    rw [← hbytes]
    exact Option.some.inj hresult

/-! ## The total -/

theorem Report.merged {env : Env} {w₀ : World} {ret : Int × World} {hs : List Event}
    (h : Report ret.1 hs) (hfin : Finished env w₀ ret) (hh : ret.2.history = w₀.history ++ hs) :
    failure hs = none ∧ bytesRead hs = (inputFiles env w₀).length ∧
      ret.1 = ((inputFiles env w₀).length : Int).bmod (2 ^ 32) := by
  obtain ⟨hs', hh', -, hseg⟩ := hfin.history
  obtain rfl : hs = hs' := List.append_cancel_left (hh.symm.trans hh')
  have hbytes : bytesRead hs = (inputFiles env w₀).length := by
    rw [h.offered hseg.failure, hseg.bytes]
    rfl
  refine ⟨hseg.failure, hbytes, ?_⟩
  rw [h.total hseg.failure, hbytes]
  exact Int32.toInt_ofNat'

/-- A run without a failure has read the input files, and its result is
the number of bytes read exactly when there are fewer than `2 ^ 31`. -/
theorem merge_total_iff {env : Env} (hdiff : InputsDiffer env) (args : Addr) (argslen : Nat)
    (w₀ : World) :
    ∃ r w hs, Returns env args argslen w₀ r w hs ∧ (failure hs = none →
      bytesRead hs = (inputFiles env w₀).length ∧
      ((0 ≤ r ∧ r = bytesRead hs) ↔ (inputFiles env w₀).length < 2 ^ 31)) := by
  obtain ⟨ret, hret, hfin | ⟨k, m, -, hstop⟩⟩ :=
    xmerge_outcome hdiff args argslen w₀ (Nat.lt_succ_self _)
  · obtain ⟨hs, hh, -, -⟩ := hfin.history
    obtain ⟨-, hbytes, hresult⟩ := (xmerge_report hret hh).merged hfin hh
    refine ⟨ret.1, ret.2, hs, .of_outcome hret hh, fun _ => ⟨hbytes, ?_⟩⟩
    rw [hresult, hbytes]
    constructor
    · rintro ⟨-, heq⟩
      have hlt := Int.bmod_lt (x := ((inputFiles env w₀).length : Int)) (m := 2 ^ 32) (by decide)
      omega
    · intro hsize
      rw [Int.bmod_eq_of_le (by omega) (by omega)]
      exact ⟨Int.natCast_nonneg _, rfl⟩
  · obtain ⟨hs, hh, hseg⟩ := hstop.history
    refine ⟨ret.1, ret.2, hs, .of_outcome hret hh, fun hnone => ?_⟩
    rw [hseg.failure] at hnone
    exact nomatch hnone

theorem merge_total_iff_small : ∃ r w hs,
    Returns (sampleEnv (fun _ => .count 2) fun _ => .count 4096) 0 40 sampleWorld r w hs ∧
      (failure hs = none → bytesRead hs = 6 ∧ ((0 ≤ r ∧ r = bytesRead hs) ↔ 6 < 2 ^ 31)) :=
  merge_total_iff (sampleEnv_inputsDiffer _ _) 0 40 sampleWorld

/-- Nothing fails where the environment never answers with an error. -/
theorem failure_eq_none {env : Env} {args : Addr} {argslen fuel : Nat} {w₀ w : World} {r : Int}
    {hs : List Event} (hcopy : ∀ h, env.copyFromUser h = 0) (hopen : ∀ h, env.ksysOpen h = none)
    (hread : ∀ h, ∃ n, env.ksysRead h = .count n) (hwrite : ∀ h, ∃ n, env.ksysWrite h = .count n)
    (h : xmerge env args argslen fuel w₀ = some (r, w)) (hh : w.history = w₀.history ++ hs) :
    failure hs = none := by
  rw [failure, List.findSome?_eq_none_iff]
  intro e he
  obtain ⟨pre, post, hsplit⟩ := List.append_of_mem he
  have hanswer := xmerge_answers h hh pre e post hsplit
  cases e with
  | copyFromUser limit src len left =>
      have hleft : left = 0 := by
        rw [hanswer, hcopy, Nat.zero_min]
      exact if_pos hleft
  | ksysOpen limit name result =>
      rcases hanswer with ⟨e, he, -⟩ | ⟨-, hnonneg⟩
      · rw [hopen] at he
        cases he
      · exact if_neg (Int.not_lt.mpr hnonneg)
  | ksysRead fd result =>
      rcases hanswer with hnonneg | ⟨e, he, -⟩
      · exact if_neg (Int.not_lt.mpr hnonneg)
      · obtain ⟨n, hn⟩ := hread (w₀.history ++ pre)
        rw [hn] at he
        cases he
  | ksysWrite fd buffer result =>
      rcases hanswer with hnonneg | ⟨e, he, -⟩
      · exact if_neg (Int.not_lt.mpr hnonneg)
      · obtain ⟨n, hn⟩ := hwrite (w₀.history ++ pre)
        rw [hn] at he
        cases he
  | printk name => rfl
  | copyToUser limit dst len left => rfl
  | ksysClose fd => rfl

/-- The first input file holds `bytes`; all other files are empty. -/
def oneFileWorld (bytes : List UInt8) : World :=
  { sampleWorld with data := fun i => if i = 10 then bytes else [] }

theorem inputFiles_oneFileWorld (ksysRead ksysWrite : List Event → Answer) (bytes : List UInt8) :
    inputFiles (sampleEnv ksysRead ksysWrite) (oneFileWorld bytes) = bytes := by
  have hinode₀ : sampleInode (sampleParams.nameAt 0 + 0x200) = 10 := by decide
  have hinode₁ : sampleInode (sampleParams.nameAt 1 + 0x200) = 11 := by decide
  have h₀ : inputFile (sampleEnv ksysRead ksysWrite) (oneFileWorld bytes).data 0 = bytes := by
    simp only [inputFile, inputInode, sampleEnv, hinode₀, oneFileWorld]
    rfl
  have h₁ : inputFile (sampleEnv ksysRead ksysWrite) (oneFileWorld bytes).data 1 = [] := by
    simp only [inputFile, inputInode, sampleEnv, hinode₁, oneFileWorld]
    rfl
  have hfiles : inputFiles (sampleEnv ksysRead ksysWrite) (oneFileWorld bytes)
      = filesUpTo (sampleEnv ksysRead ksysWrite) (oneFileWorld bytes).data 2 := rfl
  rw [hfiles, filesUpTo_succ, filesUpTo_succ, h₀, h₁, List.append_nil]
  rfl

/-- A file of `2 ^ 32 - 14` bytes: the reads and writes all succeed, every
byte is read, and the call returns `-EFAULT`. -/
theorem large_merge_error : ∃ r w hs,
    InputsDiffer (sampleEnv (fun _ => .count 4096) fun _ => .count 4096) ∧
    Returns (sampleEnv (fun _ => .count 4096) fun _ => .count 4096) 0 40
      (oneFileWorld (List.replicate (2 ^ 32 - 14) 0)) r w hs ∧
    failure hs = none ∧ bytesRead hs = 2 ^ 32 - 14 ∧ r = efault.code := by
  have hdiff := sampleEnv_inputsDiffer (fun _ => .count 4096) fun _ => .count 4096
  obtain ⟨ret, hret, hfin | ⟨k, m, -, hstop⟩⟩ :=
    xmerge_outcome hdiff 0 40 (oneFileWorld (List.replicate (2 ^ 32 - 14) 0))
      (Nat.lt_succ_self _)
  · obtain ⟨hs, hh, -, -⟩ := hfin.history
    obtain ⟨hnone, hbytes, hresult⟩ := (xmerge_report hret hh).merged hfin hh
    rw [inputFiles_oneFileWorld, List.length_replicate] at hbytes hresult
    have hwrap : ((2 ^ 32 - 14 : Nat) : Int).bmod (2 ^ 32) = efault.code := by decide
    exact ⟨ret.1, ret.2, hs, hdiff, .of_outcome hret hh, hnone, hbytes, hresult.trans hwrap⟩
  · -- the environment never answers with an error
    obtain ⟨hs, hh, hseg⟩ := hstop.history
    have hnone := failure_eq_none (fun _ => rfl) (fun _ => rfl) (fun _ => ⟨_, rfl⟩)
      (fun _ => ⟨_, rfl⟩) hret hh
    rw [hseg.failure] at hnone
    exact nomatch hnone

/-! ## Failed copies -/

/-- A user copy that did not copy everything. -/
def Event.CopyFailed : Event → Prop
  | .copyFromUser _ _ _ left | .copyToUser _ _ _ left => left ≠ 0
  | .printk _ | .ksysOpen .. | .ksysRead .. | .ksysWrite .. | .ksysClose _ => False

/-- The file count could not be stored. -/
def Event.CountFailed : Event → Prop
  | .copyToUser _ _ _ left => left ≠ 0
  | .copyFromUser .. | .printk _ | .ksysOpen .. | .ksysRead .. | .ksysWrite .. | .ksysClose _ =>
      False

/-- After an event of the kind `bad` the call returns `-EFAULT` without
doing anything more than closing. -/
def Reports (bad : Event → Prop) (r : Int) (hs : List Event) : Prop :=
  ∀ pre e post, hs = pre ++ e :: post → bad e →
    r = efault.code ∧ ∀ e' ∈ post, ∃ fd, e' = .ksysClose fd

section Report

variable {r : Int} {hs pre post : List Event} {e : Event}

/-- Before a failure there is no other. -/
theorem Stops.failure_eq (h : Stops hs) (hsplit : hs = pre ++ e :: post) {v : Int}
    (hfail : e.failure = some v) : failure hs = some v := by
  have hnone : failure pre = none := by
    rw [failure, List.findSome?_eq_none_iff]
    intro e' he'
    obtain ⟨pre₁, pre₂, rfl⟩ := List.append_of_mem he'
    by_contra hne
    have hsome := Option.isSome_iff_ne_none.mpr hne
    have hpost := h pre₁ e' (pre₂ ++ e :: post) (by simp [hsplit]) hsome
    obtain ⟨fd, rfl⟩ := hpost e (by simp)
    cases hfail
  unfold failure at hnone ⊢
  rw [hsplit, List.findSome?_append, hnone, Option.none_or, List.findSome?_cons, hfail]

theorem Report.reports (h : Report r hs) {bad : Event → Prop}
    (hbad : ∀ e ∈ hs, bad e → e.failure = some efault.code) : Reports bad r hs := by
  intro pre e post hsplit he
  have hfail := hbad e (by simp [hsplit]) he
  exact ⟨h.failed _ (h.stops.failure_eq hsplit hfail),
    h.stops pre e post hsplit (by rw [hfail]; rfl)⟩

/-- A count that could not be stored is not a failure, and if only closing
follows there was none. -/
theorem Report.total_of_closing (h : Report r hs) (hsplit : hs = pre ++ e :: post)
    (hcount : e.CountFailed) (hpost : ∀ e' ∈ post, ∃ fd, e' = .ksysClose fd) :
    r = (Int32.ofNat (bytesRead hs)).toInt := by
  refine h.total ?_
  rw [failure, List.findSome?_eq_none_iff]
  intro e' he'
  by_contra hne
  obtain ⟨v, hv⟩ := Option.ne_none_iff_exists'.mp hne
  rw [hsplit, List.mem_append, List.mem_cons] at he'
  rcases he' with hpre | rfl | hmem
  · obtain ⟨pre₁, pre₂, rfl⟩ := List.append_of_mem hpre
    have hclose := h.stops pre₁ e' (pre₂ ++ e :: post) (by simp [hsplit]) (by rw [hv]; rfl)
    obtain ⟨fd, rfl⟩ := hclose e (by simp)
    exact hcount
  · cases e' with
    | copyToUser limit dst len left => cases hv
    | _ => exact hcount
  · obtain ⟨fd, rfl⟩ := hpost e' hmem
    cases hv

end Report

/-- A failed copy of the parameters or of a name is a failure. -/
theorem Event.CopyFailed.failure {e : Event} (h : e.CopyFailed) (hstored : ¬ e.CountFailed) :
    e.failure = some efault.code := by
  cases e with
  | copyFromUser limit src len left => exact if_neg h
  | copyToUser limit dst len left => exact absurd h hstored
  | _ => exact h.elim

theorem Event.CountFailed.copyFailed {e : Event} (h : e.CountFailed) : e.CopyFailed := by
  cases e with
  | copyToUser limit dst len left => exact h
  | _ => exact h.elim

/-- A call whose result is settled returns it. -/
theorem ends_of_result {env : Env} {args : Addr} {argslen : Nat} {oldFs : AddrLimit} {c : Config}
    {r : Int} (h : c.pc.result = some r) : ∃ w, Ends env args argslen oldFs c (r, w) := by
  obtain ⟨pc, w, b⟩ := c
  cases pc with
  | leave fds ret =>
      obtain rfl := Option.some.inj h
      exact ⟨_, ends_bail env args argslen oldFs fds ret w b⟩
  | returned ret =>
      obtain rfl := Option.some.inj h
      exact ⟨w, b, .refl⟩
  | _ => exact nomatch h

/-- A run in which the file count is stored each time reports every user
copy that fails, and as soon as one has failed it is bound to return. A
run in which that fails does not report it (unless the total of bytes
happens to wrap to `-EFAULT`). -/
theorem copies_reported (env : Env) (args : Addr) (argslen : Nat) (w₀ : World) :
    (∀ c hs, Steps env args argslen w₀.limit (start w₀) c → c.world.history = w₀.history ++ hs →
      (∀ e ∈ hs, ¬ e.CountFailed) → (∃ e ∈ hs, e.CopyFailed) →
      ∃ w, Ends env args argslen w₀.limit c (efault.code, w)) ∧
    ∀ fuel r w hs, xmerge env args argslen fuel w₀ = some (r, w) →
      w.history = w₀.history ++ hs →
      ((∀ e ∈ hs, ¬ e.CountFailed) → Reports Event.CopyFailed r hs) ∧
      (bytesRead hs < 2 ^ 31 → Reports Event.CopyFailed r hs → ∀ e ∈ hs, ¬ e.CountFailed) := by
  refine ⟨?_, fun fuel r w hs h hh => ⟨?_, ?_⟩⟩
  · rintro c hs hsteps hh hstored ⟨e, he, hfailed⟩
    have htold := told_of_steps hsteps hh
    obtain ⟨pre, post, hsplit⟩ := List.append_of_mem he
    have hfail := htold.stops.failure_eq hsplit (hfailed.failure (hstored e he))
    exact ends_of_result (htold.failed _ hfail)
  · intro hstored
    exact (xmerge_report h hh).reports fun e he hfailed => hfailed.failure (hstored e he)
  · intro hsize hreports e he hcount
    obtain ⟨pre, post, hsplit⟩ := List.append_of_mem he
    obtain ⟨hr, hpost⟩ := hreports pre e post hsplit hcount.copyFailed
    have htotal := (xmerge_report h hh).total_of_closing hsplit hcount hpost
    rw [Int32.toInt_ofNat_of_lt hsize, hr] at htotal
    have hneg := efault.neg
    omega

/-- The pointer to the second name cannot be read. -/
def unreadableName (h : List Event) : Nat := if filesDone h = 1 then 8 else 0

instance : DecidablePred Event.CountFailed := fun e =>
  match e with
  | .copyToUser .. => inferInstanceAs (Decidable (_ ≠ _))
  | .copyFromUser .. | .printk _ | .ksysOpen .. | .ksysRead .. | .ksysWrite .. | .ksysClose _ =>
      .isFalse id

theorem copies_reported_name : ∃ w,
    xmerge { sampleEnv (fun _ => .count 2) (fun _ => .count 4096) with
      copyFromUser := unreadableName } 0 40 4 sampleWorld = some (-14, w) ∧
    Event.copyFromUser .kernel 0x208 8 8 ∈ w.history ∧
    Reports Event.CopyFailed (-14) w.history := by
  have hseen : (xmerge { sampleEnv (fun _ => .count 2) (fun _ => .count 4096) with
      copyFromUser := unreadableName } 0 40 4 sampleWorld).map (fun p => (p.1,
        decide (Event.copyFromUser .kernel 0x208 8 8 ∈ p.2.history ∧
          ∀ e ∈ p.2.history, ¬ e.CountFailed))) = some (-14, true) := by
    decide +kernel
  obtain ⟨⟨r, w⟩, hret, hw⟩ := Option.map_eq_some_iff.mp hseen
  obtain ⟨rfl, hmem⟩ := Prod.mk.inj hw
  obtain ⟨hmem, hstored⟩ := of_decide_eq_true hmem
  exact ⟨w, hret, hmem, ((copies_reported _ 0 40 sampleWorld).2 4 _ w _ hret rfl).1 hstored⟩

/-- The file count cannot be stored at all. Both files are merged and
their bytes returned. -/
theorem count_failure_ignored : ∃ w,
    xmerge { sampleEnv (fun _ => .count 2) (fun _ => .count 4096) with
      copyToUser := fun _ => 4 } 0 40 4 sampleWorld = some (6, w) ∧
    Event.copyToUser .kernel 0x300 4 4 ∈ w.history ∧
    ¬ Reports Event.CopyFailed 6 w.history := by
  have hseen : (xmerge { sampleEnv (fun _ => .count 2) (fun _ => .count 4096) with
      copyToUser := fun _ => 4 } 0 40 4 sampleWorld).map (fun p => (p.1,
        decide (Event.copyToUser .kernel 0x300 4 4 ∈ p.2.history))) = some (6, true) := by
    decide +kernel
  obtain ⟨⟨r, w⟩, hret, hw⟩ := Option.map_eq_some_iff.mp hseen
  obtain ⟨rfl, hmem⟩ := Prod.mk.inj hw
  have hmem := of_decide_eq_true hmem
  refine ⟨w, hret, hmem, fun hreports => ?_⟩
  obtain ⟨pre, post, hsplit⟩ := List.append_of_mem hmem
  obtain ⟨hr, -⟩ := hreports pre _ post hsplit (show (4 : Nat) ≠ 0 by decide)
  exact absurd hr (by decide)

end Xm

end Comp4511
