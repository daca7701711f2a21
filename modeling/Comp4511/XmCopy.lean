import Comp4511.XmCall

/-!
# What `xmerge` copies

A history of the call is read in three ways: the first failure in it, the
number of files whose end was reached, and the bytes it offered to
`ksys_write` and had accepted. `Segment` is this reading of a part of the
history, and parts compose (`Segment.append`).

`copyTurn_cases` is one turn of the copying loop: it ends the file, fails,
or moves on by some bytes. From it `mergeFile_cases` follows by the loop
rule, and `xmerge_outcome` by induction over the files: either everything
was read and offered and the total is returned, or the first failure is
returned and what was offered is the complete files before it and a
beginning of the next.

`xmerge` takes any count that `ksys_write` returns for all of the buffer.
So the bytes offered are delivered exactly when every write was whole.
-/

namespace Comp4511

namespace Xm

/-! ## Reading a history -/

/-- The code with which a failed call makes `xmerge` return. A failed
`copy_to_user` does not. -/
def Event.failure : Event → Option Int
  | .copyFromUser _ _ _ left => if left = 0 then none else some efault.code
  | .ksysOpen _ _ result => if result < 0 then some result else none
  | .ksysRead _ result => if result < 0 then some result else none
  | .ksysWrite _ _ result => if result < 0 then some result else none
  | .printk _ | .copyToUser .. | .ksysClose _ => none

/-- The end of a file was read. -/
def Event.eof : Event → Bool
  | .ksysRead _ result => result = 0
  | _ => false

/-- The bytes of a write that did not fail. -/
def Event.offered : Event → List UInt8
  | .ksysWrite _ buffer result => if result < 0 then [] else buffer
  | _ => []

/-- The bytes a write put into the file. -/
def Event.written : Event → List UInt8
  | .ksysWrite _ buffer result => buffer.take result.toNat
  | _ => []

/-- The write failed or took everything. -/
def Event.Whole : Event → Prop
  | .ksysWrite _ buffer result => result < 0 ∨ buffer.length ≤ result
  | _ => True

/-- The first failure of a history. -/
def failure (h : List Event) : Option Int := h.findSome? Event.failure

/-- The files that were read to their end. -/
def filesDone (h : List Event) : Nat := h.countP Event.eof

def offered (h : List Event) : List UInt8 := h.flatMap Event.offered

/-- What the output file received. -/
def written (h : List Event) : List UInt8 := h.flatMap Event.written

/-- No write of the history was short. -/
def WholeWrites (h : List Event) : Prop := ∀ e ∈ h, e.Whole

theorem Event.written_length_le (e : Event) : e.written.length ≤ e.offered.length := by
  cases e with
  | ksysWrite fd buffer result =>
      simp only [Event.written, Event.offered]
      by_cases hneg : result < 0
      · rw [if_pos hneg, Int.toNat_of_nonpos (by omega)]
        exact Nat.le_refl 0
      · rw [if_neg hneg, List.length_take]
        exact Nat.min_le_right ..
  | _ => exact Nat.le_refl 0

theorem Event.whole_iff (e : Event) : e.Whole ↔ e.written.length = e.offered.length := by
  cases e with
  | ksysWrite fd buffer result =>
      simp only [Event.Whole, Event.written, Event.offered]
      by_cases hneg : result < 0
      · rw [if_pos hneg, Int.toNat_of_nonpos (by omega)]
        exact iff_of_true (.inl hneg) rfl
      · rw [if_neg hneg, List.length_take]
        omega
  | _ => exact iff_of_true trivial rfl

theorem Event.Whole.written_eq {e : Event} (h : e.Whole) : e.written = e.offered := by
  have hlen := e.whole_iff.mp h
  cases e with
  | ksysWrite fd buffer result =>
      simp only [Event.written, Event.offered] at hlen ⊢
      by_cases hneg : result < 0
      · rw [if_pos hneg] at hlen ⊢
        exact List.length_eq_zero_iff.mp hlen
      · rw [if_neg hneg] at hlen ⊢
        rw [List.length_take] at hlen
        exact List.take_of_length_le (by omega)
  | _ => rfl

theorem WholeWrites.written_eq {h : List Event} (hw : WholeWrites h) : written h = offered h := by
  induction h with
  | nil => rfl
  | cons e h ih =>
      have hhead := (hw e (List.mem_cons_self ..)).written_eq
      have htail := ih fun e he => hw e (List.mem_cons_of_mem _ he)
      unfold written offered at htail ⊢
      rw [List.flatMap_cons, List.flatMap_cons, hhead, htail]

theorem written_length_le (h : List Event) : (written h).length ≤ (offered h).length := by
  induction h with
  | nil => exact Nat.le_refl 0
  | cons e h ih =>
      unfold written offered at ih ⊢
      rw [List.flatMap_cons, List.flatMap_cons, List.length_append, List.length_append]
      exact Nat.add_le_add e.written_length_le ih

/-- All that was offered arrived, as far as the number of bytes goes,
exactly when no write was short. -/
theorem wholeWrites_iff (h : List Event) :
    WholeWrites h ↔ (written h).length = (offered h).length := by
  constructor
  · intro hw
    rw [hw.written_eq]
  induction h with
  | nil => exact fun _ e he => nomatch he
  | cons e h ih =>
      intro hlen
      have hle := written_length_le h
      have hhead := e.written_length_le
      have hsum : e.written.length + (written h).length
          = e.offered.length + (offered h).length := by
        unfold written offered at hlen ⊢
        rwa [List.flatMap_cons, List.flatMap_cons, List.length_append,
          List.length_append] at hlen
      intro e' he'
      rcases List.mem_cons.mp he' with rfl | he'
      · exact e'.whole_iff.mpr (by omega)
      · exact ih (by omega) e' he'

/-! ## Parts of a history -/

/-- A part of a history: its first failure, the files it finished and the
bytes it offered. -/
structure Segment (h : List Event) (fail : Option Int) (done : Nat) (bytes : List UInt8) :
    Prop where
  failure : failure h = fail
  done : filesDone h = done
  bytes : offered h = bytes

theorem Segment.append {h h' : List Event} {f f' : Option Int} {d d' : Nat} {b b' : List UInt8}
    (hs : Segment h f d b) (hs' : Segment h' f' d' b') :
    Segment (h ++ h') (f.or f') (d + d') (b ++ b') := by
  refine ⟨?_, ?_, ?_⟩
  · rw [Xm.failure, List.findSome?_append, ← hs.failure, ← hs'.failure]
    rfl
  · rw [filesDone, List.countP_append, ← hs.done, ← hs'.done]
    rfl
  · rw [offered, List.flatMap_append, ← hs.bytes, ← hs'.bytes]
    rfl

theorem Segment.nil : Segment [] none 0 [] := ⟨rfl, rfl, rfl⟩

theorem Segment.written_eq_nil {h : List Event} {f : Option Int} {d : Nat}
    (hs : Segment h f d []) : written h = [] := by
  have hlen := written_length_le h
  rw [hs.bytes] at hlen
  exact List.length_eq_zero_iff.mp (Nat.le_zero.mp hlen)

/-- A part that failed stays failed, whatever is closed after it. -/
theorem Segment.closes {h : List Event} {e : Int} {d : Nat} {b : List UInt8}
    (hs : Segment h (some e) d b) (fds : List Nat) :
    Segment (h ++ fds.map .ksysClose) (some e) d b := by
  have hclose : Segment (fds.map .ksysClose) none 0 [] := by
    refine ⟨?_, ?_, ?_⟩
    · rw [Xm.failure, List.findSome?_eq_none_iff]
      intro ev hev
      obtain ⟨fd, -, rfl⟩ := List.mem_map.mp hev
      rfl
    · rw [filesDone, List.countP_eq_zero]
      intro ev hev
      obtain ⟨fd, -, rfl⟩ := List.mem_map.mp hev
      exact Bool.false_ne_true
    · rw [offered, List.flatMap_eq_nil_iff]
      intro ev hev
      obtain ⟨fd, -, rfl⟩ := List.mem_map.mp hev
      rfl
  have happ := hs.append hclose
  rwa [List.append_nil] at happ

section Single

variable (fd : Nat) (buffer : List UInt8) (limit : AddrLimit) (name : Addr) (e : Errno)

theorem segment_read {n : Nat} (hn : n ≠ 0) : Segment [.ksysRead fd n] none 0 [] := by
  have hnneg : ¬ (n : Int) < 0 := by omega
  refine ⟨?_, ?_, rfl⟩
  · simp [Xm.failure, Event.failure, hnneg]
  · simp [filesDone, Event.eof, hn]

theorem segment_eof : Segment [.ksysRead fd (0 : Nat)] none 1 [] := ⟨rfl, rfl, rfl⟩

theorem segment_readError : Segment [.ksysRead fd e.code] (some e.code) 0 [] := by
  have hneg := e.neg
  refine ⟨?_, ?_, rfl⟩
  · simp [Xm.failure, Event.failure, hneg]
  · have hne : e.code ≠ 0 := by omega
    simp [filesDone, Event.eof, hne]

theorem segment_write (n : Nat) : Segment [.ksysWrite fd buffer n] none 0 buffer := by
  have hnneg : ¬ (n : Int) < 0 := by omega
  refine ⟨?_, rfl, ?_⟩
  · simp [Xm.failure, Event.failure, hnneg]
  · simp [offered, Event.offered, hnneg]

theorem segment_writeError : Segment [.ksysWrite fd buffer e.code] (some e.code) 0 [] := by
  have hneg := e.neg
  refine ⟨?_, rfl, ?_⟩
  · simp [Xm.failure, Event.failure, hneg]
  · simp [offered, Event.offered, hneg]

theorem segment_open : Segment [.ksysOpen limit name fd] none 0 [] := by
  have hnneg : ¬ (fd : Int) < 0 := by omega
  refine ⟨?_, rfl, rfl⟩
  simp [Xm.failure, Event.failure, hnneg]

theorem segment_openError : Segment [.ksysOpen limit name e.code] (some e.code) 0 [] := by
  have hneg := e.neg
  refine ⟨?_, rfl, rfl⟩
  simp [Xm.failure, Event.failure, hneg]

theorem segment_copyFromUser (len left : Nat) :
    Segment [.copyFromUser limit name len left] (if left = 0 then none else some efault.code)
      0 [] := by
  refine ⟨?_, rfl, rfl⟩
  by_cases hleft : left = 0 <;> simp [Xm.failure, Event.failure, hleft]

theorem segment_printk : Segment [.printk name] none 0 [] := ⟨rfl, rfl, rfl⟩

theorem segment_copyToUser (len left : Nat) :
    Segment [.copyToUser limit name len left] none 0 [] := ⟨rfl, rfl, rfl⟩

theorem segment_close : Segment [.ksysClose fd] none 0 [] := ⟨rfl, rfl, rfl⟩

end Single

/-! ## The calls -/

section Calls

variable (env : Env) (w : World)

theorem clip_le (c n : Nat) : clip c n ≤ n := Nat.min_le_right ..

theorem clip_eq_zero {c n : Nat} (h : clip c n = 0) : n = 0 := by
  unfold clip at h
  omega

/-- A read of an open descriptor fails, or takes a beginning of what is
left of the file, empty only at its end. -/
theorem ksysRead_cases {fd : Nat} {f : OpenFile} (hf : Fd.get w.table fd = some f)
    {count : Nat} (hcount : 0 < count) :
    (∃ e : Errno, ksysRead env w fd count = (e.code, [], w.log (.ksysRead fd e.code))) ∨
    ∃ n, n ≤ ((w.data f.inode).drop f.pos).length ∧
      (n = 0 → (w.data f.inode).drop f.pos = []) ∧
      ksysRead env w fd count = ((n : Int), ((w.data f.inode).drop f.pos).take n,
        { w.log (.ksysRead fd n) with
          table := Fd.put w.table fd (some { f with pos := f.pos + n }) }) := by
  unfold ksysRead
  rw [hf]
  cases env.ksysRead w.history with
  | error e => exact .inl ⟨e, rfl⟩
  | count c =>
      right
      refine ⟨clip c (min count ((w.data f.inode).drop f.pos).length), ?_, ?_, rfl⟩
      · exact Nat.le_trans (clip_le ..) (Nat.min_le_right ..)
      · intro hzero
        have hmin := clip_eq_zero hzero
        exact List.length_eq_zero_iff.mp (by omega)

/-- The world in which `f` has just been opened. -/
def World.opened (w : World) (name : Addr) (f : OpenFile) : World :=
  { w.log (.ksysOpen w.limit name (Fd.lowest w.table)) with
    table := Fd.put w.table (Fd.lowest w.table) (some f) }

theorem ksysOpen_cases (name : Addr) (flags : Int32) :
    (∃ e : Errno, ksysOpen env w name flags = (e.code, w.log (.ksysOpen w.limit name e.code))) ∨
    ksysOpen env w name flags = ((Fd.lowest w.table : Int),
      { w.opened name ⟨env.inode name, 0, flags &&& oAppend ≠ 0⟩ with
        data := if flags &&& oTrunc ≠ 0 then Function.update w.data (env.inode name) []
          else w.data }) := by
  unfold ksysOpen
  cases env.ksysOpen w.history with
  | some e => exact .inl ⟨e, rfl⟩
  | none => exact .inr rfl

theorem ksysOpen_rdonly (name : Addr) :
    (∃ e : Errno, ksysOpen env w name oRdonly
      = (e.code, w.log (.ksysOpen w.limit name e.code))) ∨
    ksysOpen env w name oRdonly
      = ((Fd.lowest w.table : Int), w.opened name ⟨env.inode name, 0, false⟩) :=
  ksysOpen_cases env w name oRdonly

theorem foldl_ksysClose (fds : List Nat) :
    (fds.foldl ksysClose w).history = w.history ++ fds.map .ksysClose ∧
      (fds.foldl ksysClose w).ofileCount = w.ofileCount := by
  induction fds generalizing w with
  | nil => exact ⟨(List.append_nil _).symm, rfl⟩
  | cons fd fds ih =>
      obtain ⟨hh, hc⟩ := ih (ksysClose w fd)
      refine ⟨?_, hc⟩
      rw [List.foldl_cons, hh, List.map_cons]
      simp [ksysClose, World.log]

theorem bail_spec (oldFs : AddrLimit) (fds : List Nat) (ret : Int) :
    (bail w oldFs fds ret).1 = ret ∧
      (bail w oldFs fds ret).2.history = w.history ++ fds.map .ksysClose ∧
      (bail w oldFs fds ret).2.ofileCount = w.ofileCount :=
  ⟨rfl, foldl_ksysClose w fds⟩

end Calls

/-! ## The output file -/

theorem writeAt_end (contents bytes : List UInt8) :
    writeAt contents contents.length bytes = contents ++ bytes := by
  have hrest : contents.drop (contents.length + bytes.length) = [] :=
    List.drop_of_length_le (Nat.le_add_right ..)
  rw [writeAt, List.take_length, Nat.sub_self, hrest]
  simp

/-- A write where the last one ended. -/
theorem writeAt_next (old done bytes : List UInt8) :
    writeAt (done ++ old.drop done.length) done.length bytes
      = (done ++ bytes) ++ old.drop (done ++ bytes).length := by
  have hhole : done.length - (done ++ old.drop done.length).length = 0 := by
    rw [List.length_append]
    omega
  rw [writeAt, List.take_left, hhole, List.drop_length_add_append, List.drop_drop,
    List.length_append]
  simp

/-- What the output file of a call made in `w₀` holds when `bytes` have
been written to it: at its end, or from its beginning on. -/
def outputAfter (env : Env) (w₀ : World) (bytes : List UInt8) : List UInt8 :=
  let old := if env.params.oflags &&& oTrunc ≠ 0 then []
    else w₀.data (env.inode env.params.outfile)
  if env.params.oflags &&& oAppend ≠ 0 then old ++ bytes else bytes ++ old.drop bytes.length

theorem outputAfter_nil (env : Env) (w₀ : World) :
    outputAfter env w₀ [] = if env.params.oflags &&& oTrunc ≠ 0 then []
      else w₀.data (env.inode env.params.outfile) := by
  unfold outputAfter
  dsimp only
  split
  · exact List.append_nil _
  · rfl

/-- A call made in `w₀` has the output file open in `w`, and the file
holds what the writes of the history `hs` since put there. -/
structure Output (env : Env) (w₀ : World) (outfd : Nat) (f : OpenFile) (hs : List Event)
    (w : World) : Prop where
  history : w.history = w₀.history ++ hs
  get : Fd.get w.table outfd = some f
  inode : f.inode = env.inode env.params.outfile
  append : f.append = decide (env.params.oflags &&& oAppend ≠ 0)
  pos : f.append = false → f.pos = (written hs).length
  contents : w.data f.inode = outputAfter env w₀ (written hs)

section Output

variable {env : Env} {w₀ w : World} {outfd : Nat} {f : OpenFile} {hs : List Event}

/-- Other calls leave the output file alone. -/
theorem Output.frame {w' : World} {hs' : List Event} (h : Output env w₀ outfd f hs w)
    (hh : w'.history = w.history ++ hs') (hquiet : written hs' = [])
    (ht : Fd.get w'.table outfd = Fd.get w.table outfd) (hd : w'.data = w.data) :
    Output env w₀ outfd f (hs ++ hs') w' := by
  have hwritten : written (hs ++ hs') = written hs := by
    rw [written, List.flatMap_append]
    exact (congrArg _ hquiet).trans (List.append_nil _)
  refine ⟨?_, ht.trans h.get, h.inode, h.append, ?_, ?_⟩
  · rw [hh, h.history, List.append_assoc]
  · rw [hwritten]
    exact h.pos
  · rw [hwritten, hd]
    exact h.contents

/-- A write fails, or the bytes it takes come after those that are there. -/
theorem Output.write (h : Output env w₀ outfd f hs w) (buffer : List UInt8) :
    (∃ e : Errno, ksysWrite env w outfd buffer
      = (e.code, w.log (.ksysWrite outfd buffer e.code))) ∨
    ∃ (n : Nat) (f' : OpenFile) (w' : World), ksysWrite env w outfd buffer = ((n : Int), w') ∧
      w'.history = w.history ++ [.ksysWrite outfd buffer n] ∧
      (∀ d, d ≠ outfd → Fd.get w'.table d = Fd.get w.table d) ∧
      (∀ j, j ≠ env.inode env.params.outfile → w'.data j = w.data j) ∧
      w'.ofileCount = w.ofileCount ∧
      Output env w₀ outfd f' (hs ++ [.ksysWrite outfd buffer n]) w' := by
  unfold ksysWrite
  rw [h.get]
  cases env.ksysWrite w.history with
  | error e => exact .inl ⟨e, rfl⟩
  | count c =>
      right
      have hwritten : written (hs ++ [.ksysWrite outfd buffer (clip c buffer.length : Nat)])
          = written hs ++ buffer.take (clip c buffer.length) := by
        rw [written, List.flatMap_append]
        exact congrArg _ (List.append_nil _)
      have hlen : (buffer.take (clip c buffer.length)).length = clip c buffer.length := by
        rw [List.length_take]
        exact Nat.min_eq_left (clip_le ..)
      dsimp only
      generalize hpos : (if f.append then (w.data f.inode).length else f.pos) = pos
      refine ⟨_, ⟨f.inode, pos + clip c buffer.length, f.append⟩, _, rfl, rfl,
        fun d hd => Fd.get_put_of_ne _ hd _, ?_, rfl, ?_⟩
      · intro j hj
        rw [← h.inode] at hj
        exact Function.update_of_ne hj ..
      refine ⟨?_, Fd.get_put_self .., h.inode, h.append, ?_, ?_⟩
      · rw [World.log, h.history, List.append_assoc]
      · intro happend
        dsimp only at happend ⊢
        rw [happend, if_neg Bool.false_ne_true, h.pos happend] at hpos
        rw [hwritten, List.length_append, hlen, hpos]
      · show Function.update w.data f.inode _ f.inode = _
        rw [Function.update_self, hwritten]
        have happend := h.append
        have hcontents := h.contents
        unfold outputAfter at hcontents ⊢
        dsimp only at hcontents ⊢
        by_cases hflag : env.params.oflags &&& oAppend ≠ 0
        · rw [decide_eq_true hflag] at happend
          rw [happend, if_pos rfl] at hpos
          rw [if_pos hflag] at hcontents ⊢
          rw [← hpos, writeAt_end, hcontents, List.append_assoc]
        · rw [decide_eq_false hflag] at happend
          rw [happend, if_neg Bool.false_ne_true, h.pos happend] at hpos
          rw [if_neg hflag] at hcontents ⊢
          rw [← hpos, hcontents, writeAt_next]

end Output

/-! ## Copying one file -/

section Copy

variable {env : Env} {w₀ : World} {outfd infd : Nat} {i : Inode} {w₁ : World} {b₁ : Int32}

/-- The copying loop, which started in `w₁` with the input file at its
beginning, has moved `p` bytes; `hs` is the history since. -/
structure Copying (env : Env) (w₀ : World) (outfd infd : Nat) (i : Inode) (w₁ : World)
    (b₁ : Int32) (p : Nat) (hs : List Event) (s : Copy) : Prop where
  infile : ∃ append, Fd.get s.world.table infd = some ⟨i, p, append⟩
  output : ∃ f hs, Output env w₀ outfd f hs s.world
  data : ∀ j, j ≠ env.inode env.params.outfile → s.world.data j = w₁.data j
  pos : p ≤ (w₁.data i).length
  history : s.world.history = w₁.history ++ hs
  segment : Segment hs none 0 ((w₁.data i).take p)
  bytecount : s.bytecount = b₁ + Int32.ofNat p
  ofileCount : s.world.ofileCount = w₁.ofileCount

/-- The loop has reached the end of the file. -/
structure Copied (env : Env) (w₀ : World) (outfd : Nat) (i : Inode) (w₁ : World) (b₁ : Int32)
    (s : Copy) : Prop where
  output : ∃ f hs, Output env w₀ outfd f hs s.world
  data : ∀ j, j ≠ env.inode env.params.outfile → s.world.data j = w₁.data j
  history : ∃ hs, s.world.history = w₁.history ++ hs ∧ Segment hs none 1 (w₁.data i)
  bytecount : s.bytecount = b₁ + Int32.ofNat (w₁.data i).length
  ofileCount : s.world.ofileCount = w₁.ofileCount

/-- `xmerge` returns from the middle of the file with an error. -/
structure CopyFailed (i : Inode) (w₁ : World) (ret : Int × World) : Prop where
  neg : ret.1 < 0
  history : ∃ hs m, ret.2.history = w₁.history ++ hs ∧
    Segment hs (some ret.1) 0 ((w₁.data i).take m)
  ofileCount : ret.2.ofileCount = w₁.ofileCount

theorem Copying.failed {p : Nat} {hs hs' : List Event} {s : Copy} {e : Errno}
    (h : Copying env w₀ outfd infd i w₁ b₁ p hs s) (w : World)
    (hh : w.history = s.world.history ++ hs') (hc : w.ofileCount = s.world.ofileCount)
    (hseg : Segment hs' (some e.code) 0 []) (oldFs : AddrLimit) (fds : List Nat) :
    CopyFailed i w₁ (bail w oldFs fds e.code) := by
  obtain ⟨-, hbh, hbc⟩ := bail_spec w oldFs fds e.code
  refine ⟨e.neg, ⟨hs ++ (hs' ++ fds.map .ksysClose), p, ?_, ?_⟩, ?_⟩
  · rw [hbh, hh, h.history, List.append_assoc, List.append_assoc]
  · have happ := h.segment.append (hseg.closes fds)
    rwa [List.append_nil] at happ
  · rw [hbc, hc, h.ofileCount]

/-- One turn ends the file, returns an error, or moves some bytes. -/
theorem copyTurn_cases (oldFs : AddrLimit) (hne : infd ≠ outfd)
    (hio : i ≠ env.inode env.params.outfile) {p : Nat} {hs : List Event} {s : Copy}
    (h : Copying env w₀ outfd infd i w₁ b₁ p hs s) :
    (∃ s', copyTurn env oldFs outfd infd s = .done (.ok s') ∧ Copied env w₀ outfd i w₁ b₁ s') ∨
    (∃ ret, copyTurn env oldFs outfd infd s = .done (.error ret) ∧ CopyFailed i w₁ ret) ∨
    ∃ n hs' s', copyTurn env oldFs outfd infd s = .again s' ∧ 0 < n ∧
      Copying env w₀ outfd infd i w₁ b₁ (p + n) hs' s' := by
  obtain ⟨append, hin⟩ := h.infile
  obtain ⟨f, hs₀, hout⟩ := h.output
  have hdata := h.data i hio
  unfold copyTurn
  have hpage : 0 < pageSize := by decide
  rcases ksysRead_cases env s.world hin hpage with
    ⟨e, hread⟩ | ⟨n, hle, hend, hread⟩
  · -- the read fails
    have hneg := e.neg
    rw [hread]
    dsimp only
    rw [if_neg (by omega), if_pos hneg]
    refine .inr (.inl ⟨_, rfl, ?_⟩)
    refine h.failed _ ?_ ?_ (segment_readError infd e) _ _
    · rfl
    · rfl
  rw [hread]
  dsimp only at hle hend hread ⊢
  rw [hdata] at hle hend ⊢
  rw [List.length_drop] at hle
  by_cases hn : n = 0
  · -- the end of the file
    subst hn
    have hall : (w₁.data i).length ≤ p := List.drop_eq_nil_iff.mp (hend rfl)
    have hp : p = (w₁.data i).length := Nat.le_antisymm h.pos hall
    refine .inl ⟨_, if_pos rfl, ?_⟩
    refine ⟨⟨f, hs₀ ++ [.ksysRead infd (0 : Nat)], ?_⟩, h.data,
      ⟨hs ++ [.ksysRead infd (0 : Nat)], ?_, ?_⟩, ?_, h.ofileCount⟩
    · exact hout.frame rfl rfl (Fd.get_put_of_ne _ hne.symm _) rfl
    · rw [World.log, h.history, List.append_assoc]
    · have happ := h.segment.append (segment_eof infd)
      rwa [List.append_nil, hp, List.take_length] at happ
    · rw [← hp]
      exact h.bytecount
  · -- some bytes are read and offered
    rw [if_neg (by omega), if_neg (by omega)]
    have hout' : Output env w₀ outfd f (hs₀ ++ [.ksysRead infd n])
        { s.world.log (.ksysRead infd n) with
          table := Fd.put s.world.table infd (some ⟨i, p + n, append⟩) } :=
      hout.frame rfl rfl (Fd.get_put_of_ne _ hne.symm _) rfl
    rcases hout'.write (((w₁.data i).drop p).take n) with
      ⟨e, hwrite⟩ | ⟨k, f', w', hwrite, hh', ht', hd', hc', hout''⟩
    · rw [hwrite]
      dsimp only
      rw [if_pos e.neg]
      refine .inr (.inl ⟨_, rfl, ?_⟩)
      refine h.failed _ ?_ ?_ ((segment_read infd hn).append
        (segment_writeError outfd (((w₁.data i).drop p).take n) e)) _ _
      · simp only [World.log, List.append_assoc]
      · rfl
    · rw [hwrite]
      dsimp only
      rw [if_neg (by omega)]
      refine .inr (.inr ⟨n, hs ++ ([.ksysRead infd n]
        ++ [.ksysWrite outfd (((w₁.data i).drop p).take n) k]), _, rfl, Nat.pos_of_ne_zero hn, ?_⟩)
      refine ⟨⟨append, ?_⟩, ⟨f', _, hout''⟩, ?_, ?_, ?_, ?_, ?_, hc'.trans h.ofileCount⟩
      · rw [ht' infd hne]
        exact Fd.get_put_self ..
      · intro j hj
        exact (hd' j hj).trans (h.data j hj)
      · have hpos := h.pos
        omega
      · simp only [hh', World.log, h.history, List.append_assoc]
      · have happ := h.segment.append
          ((segment_read infd hn).append (segment_write outfd (((w₁.data i).drop p).take n) k))
        rwa [List.nil_append, ← List.take_add] at happ
      · rw [h.bytecount, Int32.ofNat_add, Int32.add_assoc]
        rfl

/-- The position of the input file. -/
def inputPos (infd : Nat) (s : Copy) : Nat :=
  ((Fd.get s.world.table infd).map OpenFile.pos).getD 0

theorem Copying.inputPos {p : Nat} {hs : List Event} {s : Copy}
    (h : Copying env w₀ outfd infd i w₁ b₁ p hs s) : inputPos infd s = p := by
  obtain ⟨append, hin⟩ := h.infile
  rw [Xm.inputPos, hin]
  rfl

/-- The loop ends within as many turns as the file has bytes, and one. -/
theorem copyLoop_cases (oldFs : AddrLimit) (hne : infd ≠ outfd)
    (hio : i ≠ env.inode env.params.outfile) {s : Copy}
    (h : Copying env w₀ outfd infd i w₁ b₁ 0 [] s) {fuel : Nat}
    (hfuel : (w₁.data i).length < fuel) :
    (∃ s', Loop.run (copyTurn env oldFs outfd infd) fuel s = some (.ok s') ∧
      Copied env w₀ outfd i w₁ b₁ s') ∨
    ∃ ret, Loop.run (copyTurn env oldFs outfd infd) fuel s = some (.error ret) ∧
      CopyFailed i w₁ ret := by
  have hkeep : ∀ s s', (∃ p hs, Copying env w₀ outfd infd i w₁ b₁ p hs s) →
      copyTurn env oldFs outfd infd s = .again s' →
      (∃ p hs, Copying env w₀ outfd infd i w₁ b₁ p hs s') ∧
        (w₁.data i).length - inputPos infd s' < (w₁.data i).length - inputPos infd s := by
    rintro s s' ⟨p, hs, hc⟩ hagain
    rcases copyTurn_cases oldFs hne hio hc with
      ⟨s'', hdone, -⟩ | ⟨ret, hdone, -⟩ | ⟨n, hs', s'', hturn, hn, hc'⟩
    · rw [hdone] at hagain
      exact nomatch hagain
    · rw [hdone] at hagain
      exact nomatch hagain
    · rw [hturn] at hagain
      obtain rfl := Loop.Turn.again.inj hagain
      refine ⟨⟨p + n, hs', hc'⟩, ?_⟩
      have hpos := hc'.pos
      rw [hc.inputPos, hc'.inputPos]
      omega
  have hstart : (w₁.data i).length - inputPos infd s < fuel := by
    rw [h.inputPos]
    exact hfuel
  obtain ⟨t, r, ⟨p, hs, hc⟩, hdone, hrun⟩ := Loop.run_total hkeep ⟨0, [], h⟩ hstart
  rw [hrun]
  rcases copyTurn_cases oldFs hne hio hc with
    ⟨s', hturn, hcopied⟩ | ⟨ret, hturn, hfailed⟩ | ⟨n, hs', s', hturn, -⟩
  · rw [hturn] at hdone
    obtain rfl := Loop.Turn.done.inj hdone
    exact .inl ⟨s', rfl, hcopied⟩
  · rw [hturn] at hdone
    obtain rfl := Loop.Turn.done.inj hdone
    exact .inr ⟨ret, rfl, hfailed⟩
  · rw [hturn] at hdone
    exact nomatch hdone

end Copy

/-! ## The files -/

/-- The name of input file `x`. -/
def inputName (env : Env) (x : Nat) : Addr := env.word (env.params.nameAt x)

/-- The file the name number `x` denotes. -/
def inputInode (env : Env) (x : Nat) : Inode :=
  env.inode (env.word (env.params.nameAt x))

/-- The contents of input file number `x`. -/
def inputFile (env : Env) (data : Inode → List UInt8) (x : Nat) : List UInt8 :=
  data (inputInode env x)

/-- The first `x` input files, one after the other. -/
def filesUpTo (env : Env) (data : Inode → List UInt8) (x : Nat) : List UInt8 :=
  ((List.range x).map (inputFile env data)).flatten

theorem filesUpTo_succ (env : Env) (data : Inode → List UInt8) (x : Nat) :
    filesUpTo env data (x + 1) = filesUpTo env data x ++ inputFile env data x := by
  rw [filesUpTo, List.range_succ, List.map_append, List.flatten_append]
  simp [filesUpTo]

/-- No user copy of the file count fails, and it is zero on entry. -/
def CountsKept (env : Env) (w₀ : World) : Prop :=
  (∀ h, env.copyToUser h = 0) ∧ w₀.ofileCount = 0

/-- The call, which was made in `w₀`, has merged `x` files. -/
structure Merging (env : Env) (w₀ : World) (outfd x : Nat) (s : Merge) : Prop where
  output : ∃ f hs, Output env w₀ outfd f hs s.world
  data : ∀ j, j ≠ env.inode env.params.outfile → s.world.data j = w₀.data j
  history : ∃ hs, s.world.history = w₀.history ++ hs ∧
    Segment hs none x (filesUpTo env w₀.data x)
  bytecount : s.bytecount = Int32.ofNat (filesUpTo env w₀.data x).length
  filecount : s.filecount = Int32.ofNat x
  ofileCount : CountsKept env w₀ → s.world.ofileCount = Int32.ofNat x

/-- The call returns at a failure, with `k` files merged and `m` bytes of
the next. -/
structure Stopped (env : Env) (w₀ : World) (ret : Int × World) (k m : Nat) : Prop where
  neg : ret.1 < 0
  history : ∃ hs, ret.2.history = w₀.history ++ hs ∧
    Segment hs (some ret.1) k (filesUpTo env w₀.data k ++ (inputFile env w₀.data k).take m)
  ofileCount : CountsKept env w₀ → ret.2.ofileCount = Int32.ofNat k

section Files

variable {env : Env} {w₀ : World} {outfd x : Nat} {s : Merge}

/-- A failure between two files. -/
theorem Merging.stopped {hs' : List Event} {e : Errno} (h : Merging env w₀ outfd x s) (w : World)
    (hh : w.history = s.world.history ++ hs') (hc : w.ofileCount = s.world.ofileCount)
    (hseg : Segment hs' (some e.code) 0 []) (oldFs : AddrLimit) (fds : List Nat) :
    Stopped env w₀ (bail w oldFs fds e.code) x 0 := by
  obtain ⟨hs, hhist, hsegment⟩ := h.history
  obtain ⟨-, hbh, hbc⟩ := bail_spec w oldFs fds e.code
  refine ⟨e.neg, ⟨hs ++ (hs' ++ fds.map .ksysClose), ?_, ?_⟩, fun hk => ?_⟩
  · rw [hbh, hh, hhist, List.append_assoc, List.append_assoc]
  · exact hsegment.append (hseg.closes fds)
  · rw [hbc, hc, h.ofileCount hk]

/-- A failure in the middle of a file. -/
theorem Merging.stopped_copy {w₁ : World} {hs' : List Event} {ret : Int × World}
    (h : Merging env w₀ outfd x s) (hh : w₁.history = s.world.history ++ hs')
    (hc : w₁.ofileCount = s.world.ofileCount) (hseg : Segment hs' none 0 [])
    (hfile : w₁.data (inputInode env x) = inputFile env w₀.data x)
    (hf : CopyFailed (inputInode env x) w₁ ret) : ∃ m, Stopped env w₀ ret x m := by
  obtain ⟨hs, hhist, hsegment⟩ := h.history
  obtain ⟨hs'', m, hret, hsegment'⟩ := hf.history
  refine ⟨m, hf.neg, ⟨hs ++ (hs' ++ hs''), ?_, ?_⟩, fun hk => ?_⟩
  · rw [hret, hh, hhist, List.append_assoc, List.append_assoc]
  · have happ := hsegment.append (hseg.append hsegment')
    rw [hfile] at happ
    exact happ
  · rw [hf.ofileCount, hc, h.ofileCount hk]

theorem copyToUser_spec (env : Env) (w : World) (value : Int32) :
    ∃ left, (copyToUser env w value).1 = left ∧
      (copyToUser env w value).2.history
        = w.history ++ [.copyToUser w.limit env.params.ofileCount 4 left] ∧
      (copyToUser env w value).2.table = w.table ∧
      (copyToUser env w value).2.data = w.data ∧
      ((∀ h, env.copyToUser h = 0) → (copyToUser env w value).2.ofileCount = value) := by
  refine ⟨_, rfl, ?_, ?_, ?_, fun hk => ?_⟩
  · unfold copyToUser
    dsimp only
    split <;> rfl
  · unfold copyToUser
    dsimp only
    split <;> rfl
  · unfold copyToUser
    dsimp only
    split <;> rfl
  · unfold copyToUser
    dsimp only
    rw [hk, if_pos (by decide)]

/-- After the copying loop the file is counted and closed. -/
theorem Merging.fileDone {w₁ : World} {hs' : List Event} {infd : Nat} {c : Copy}
    (h : Merging env w₀ outfd x s) (oldFs : AddrLimit)
    (hh : w₁.history = s.world.history ++ hs') (hseg : Segment hs' none 0 [])
    (hdata : w₁.data = s.world.data) (hne : infd ≠ outfd)
    (hfile : w₁.data (inputInode env x) = inputFile env w₀.data x)
    (hc : Copied env w₀ outfd (inputInode env x) w₁ s.bytecount c) :
    ∃ s', fileDone env oldFs outfd infd s.filecount c = .ok s' ∧
      Merging env w₀ outfd (x + 1) s' := by
  obtain ⟨f, hs₀, hout⟩ := hc.output
  obtain ⟨hs, hhist, hsegment⟩ := h.history
  obtain ⟨hs'', hcopy, hsegment'⟩ := hc.history
  obtain ⟨left, -, hth, htt, htd, hto⟩ := copyToUser_spec env c.world (s.filecount + 1)
  rw [hfile] at hsegment'
  have hdone : Xm.fileDone env oldFs outfd infd s.filecount c
      = .ok { world := ksysClose (copyToUser env c.world (s.filecount + 1)).2 infd
              filecount := s.filecount + 1, bytecount := c.bytecount } := by
    unfold Xm.fileDone
    exact if_neg (by omega)
  refine ⟨_, hdone, ⟨f, _, (hout.frame hth rfl (by rw [htt]) htd).frame rfl rfl ?_ rfl⟩, ?_,
    ⟨hs ++ (hs' ++ hs'' ++ [.copyToUser c.world.limit env.params.ofileCount 4 left]
      ++ [.ksysClose infd]), ?_, ?_⟩, ?_, ?_, ?_⟩
  · exact Fd.get_close_of_ne _ hne.symm
  · intro j hj
    show (copyToUser env c.world (s.filecount + 1)).2.data j = _
    rw [htd, hc.data j hj, hdata]
    exact h.data j hj
  · show (copyToUser env c.world (s.filecount + 1)).2.history ++ [.ksysClose infd] = _
    rw [hth, hcopy, hh, hhist]
    simp only [List.append_assoc]
  · have happ := hsegment.append (((hseg.append hsegment').append
      (segment_copyToUser c.world.limit env.params.ofileCount 4 left)).append (segment_close infd))
    rw [filesUpTo_succ]
    simpa using happ
  · show c.bytecount = _
    rw [hc.bytecount, h.bytecount, filesUpTo_succ, List.length_append, Int32.ofNat_add, hfile]
  · show s.filecount + 1 = _
    rw [h.filecount, Int32.ofNat_add]
    rfl
  · intro hk
    show (copyToUser env c.world (s.filecount + 1)).2.ofileCount = _
    rw [hto hk.1, h.filecount, Int32.ofNat_add]
    rfl

/-- The body of the loop over the files from the `ksys_open` on. -/
def mergeOpen (env : Env) (oldFs : AddrLimit) (outfd fuel x : Nat) (s : Merge) (w : World) :
    Option (Except (Int × World) Merge) :=
  let (infd, w) := ksysOpen env w (env.word (env.params.nameAt x)) oRdonly
  if infd < 0 then some (.error (bail w oldFs [outfd] infd))
  else
    (Loop.run (copyTurn env oldFs outfd infd.toNat) fuel
      { world := w, bytecount := s.bytecount }).map fun r =>
        r.bind (fileDone env oldFs outfd infd.toNat s.filecount)

theorem mergeOpen_cases (oldFs : AddrLimit) {w : World} {hs : List Event} (h : Merging env w₀ outfd x s)
    (hdiff : inputInode env x ≠ env.inode env.params.outfile) {fuel : Nat}
    (hfuel : (inputFile env w₀.data x).length < fuel) (hh : w.history = s.world.history ++ hs)
    (hseg : Segment hs none 0 []) (ht : w.table = s.world.table) (hd : w.data = s.world.data)
    (hc : w.ofileCount = s.world.ofileCount) :
    (∃ s', mergeOpen env oldFs outfd fuel x s w = some (.ok s') ∧
      Merging env w₀ outfd (x + 1) s') ∨
    ∃ ret m, mergeOpen env oldFs outfd fuel x s w = some (.error ret) ∧
      Stopped env w₀ ret x m := by
  obtain ⟨f, hs₀, hout⟩ := h.output
  have hfile : w.data (inputInode env x) = inputFile env w₀.data x := by
    rw [hd]
    exact h.data _ hdiff
  unfold mergeOpen
  rcases ksysOpen_rdonly env w (env.word (env.params.nameAt x)) with
    ⟨e, hopen⟩ | hopen
  · -- the file cannot be opened
    rw [hopen]
    dsimp only
    rw [if_pos e.neg]
    refine .inr ⟨_, 0, rfl, ?_⟩
    refine h.stopped _ ?_ ?_ (hseg.append (segment_openError w.limit
      (env.word (env.params.nameAt x)) e)) _ _
    · simp only [World.log, hh, List.append_assoc]
    · exact hc
  rw [hopen]
  dsimp only
  rw [if_neg (by omega), Int.toNat_natCast]
  -- the new descriptor is not the output's
  have hne : Fd.lowest w.table ≠ outfd := by
    intro heq
    have hfree := Fd.get_lowest w.table
    rw [heq, ht, hout.get] at hfree
    exact nomatch hfree
  have hopened : (w.opened (env.word (env.params.nameAt x)) ⟨inputInode env x, 0, false⟩).history
      = s.world.history ++ (hs ++ [.ksysOpen w.limit (env.word (env.params.nameAt x))
        (Fd.lowest w.table)]) := by
    rw [World.opened, World.log, hh, List.append_assoc]
  have hstart : Copying env w₀ outfd (Fd.lowest w.table) (inputInode env x)
      (w.opened (env.word (env.params.nameAt x)) ⟨inputInode env x, 0, false⟩) s.bytecount 0 []
      ⟨w.opened (env.word (env.params.nameAt x)) ⟨inputInode env x, 0, false⟩,
        s.bytecount⟩ := by
    refine ⟨⟨false, Fd.get_put_self ..⟩, ⟨f, _, hout.frame hopened ?_ ?_ hd⟩, fun _ _ => rfl,
      Nat.zero_le _, (List.append_nil _).symm, Segment.nil, (Int32.add_zero _).symm, rfl⟩
    · exact (hseg.append (segment_open (Fd.lowest w.table) w.limit _)).written_eq_nil
    · rw [World.opened, Fd.get_put_of_ne _ hne.symm, ht]
  have hseg' := hseg.append
    (segment_open (Fd.lowest w.table) w.limit (env.word (env.params.nameAt x)))
  have hlen : (w.data (inputInode env x)).length < fuel := by
    rw [hfile]
    exact hfuel
  rcases copyLoop_cases oldFs hne hdiff hstart hlen with
    ⟨c, hrun, hcopied⟩ | ⟨ret, hrun, hfailed⟩
  · obtain ⟨s', hdone, hs'⟩ := h.fileDone oldFs hopened hseg' hd hne hfile hcopied
    refine .inl ⟨s', ?_, hs'⟩
    exact (congrArg _ hrun).trans (congrArg some hdone)
  · obtain ⟨m, hstop⟩ := h.stopped_copy hopened hc hseg' hfile hfailed
    exact .inr ⟨ret, m, congrArg _ hrun, hstop⟩

/-- One file is merged, or the call returns an error. -/
theorem mergeFile_cases (oldFs : AddrLimit) (h : Merging env w₀ outfd x s)
    (hdiff : inputInode env x ≠ env.inode env.params.outfile) {fuel : Nat}
    (hfuel : (inputFile env w₀.data x).length < fuel) :
    (∃ s', mergeFile env oldFs outfd fuel x s = some (.ok s') ∧
      Merging env w₀ outfd (x + 1) s') ∨
    ∃ ret m, mergeFile env oldFs outfd fuel x s = some (.error ret) ∧
      Stopped env w₀ ret x m := by
  have heq : mergeFile env oldFs outfd fuel x s
      = if (copyFromUser env s.world (env.params.nameAt x) 8).1 ≠ 0 then
          some (.error (bail (copyFromUser env s.world (env.params.nameAt x) 8).2 oldFs [outfd]
            efault.code))
        else mergeOpen env oldFs outfd fuel x s
          ((copyFromUser env s.world (env.params.nameAt x) 8).2.log
            (.printk (env.word (env.params.nameAt x)))) := rfl
  have hread := segment_copyFromUser s.world.limit (env.params.nameAt x) 8
    (copyFromUser env s.world (env.params.nameAt x) 8).1
  rw [heq]
  by_cases hleft : (copyFromUser env s.world (env.params.nameAt x) 8).1 = 0
  · rw [if_pos hleft] at hread
    rw [if_neg (not_not_intro hleft)]
    refine mergeOpen_cases oldFs h hdiff hfuel ?_
      (hread.append (segment_printk (env.word (env.params.nameAt x)))) rfl rfl rfl
    exact List.append_assoc ..
  · -- the pointer to the name cannot be read
    rw [if_neg hleft] at hread
    rw [if_pos hleft]
    refine .inr ⟨_, 0, rfl, ?_⟩
    refine h.stopped _ ?_ ?_ hread _ _
    · rfl
    · rfl

/-- The loop over the files. -/
theorem mergeFiles_cases (oldFs : AddrLimit) {fuel n : Nat} (h : Merging env w₀ outfd x s)
    (hinput : ∀ y, x ≤ y → y < x + n → inputInode env y ≠ env.inode env.params.outfile ∧
      (inputFile env w₀.data y).length < fuel) :
    (∃ s', mergeFiles env oldFs outfd fuel n x s = some (.ok s') ∧
      Merging env w₀ outfd (x + n) s') ∨
    ∃ ret k m, k < x + n ∧ mergeFiles env oldFs outfd fuel n x s = some (.error ret) ∧
      Stopped env w₀ ret k m := by
  induction n generalizing x s with
  | zero => exact .inl ⟨s, rfl, h⟩
  | succ n ih =>
      obtain ⟨hdiff, hfuel⟩ := hinput x (Nat.le_refl x) (by omega)
      rw [mergeFiles]
      rcases mergeFile_cases oldFs h hdiff hfuel with
        ⟨s', hmerge, h'⟩ | ⟨ret, m, hmerge, hstop⟩
      · rw [hmerge]
        have hrest := ih h' fun y hy hlt => hinput y (by omega) (by omega)
        rwa [Nat.add_right_comm] at hrest
      · rw [hmerge]
        exact .inr ⟨ret, x, m, by omega, rfl, hstop⟩

end Files

/-! ## The whole call -/

/-- The call returns after the last file. -/
structure Finished (env : Env) (w₀ : World) (ret : Int × World) : Prop where
  history : ∃ hs, ret.2.history = w₀.history ++ hs ∧
    ret.2.data (env.inode env.params.outfile) = outputAfter env w₀ (written hs) ∧
    Segment hs none env.params.numFiles.toNat (filesUpTo env w₀.data env.params.numFiles.toNat)
  result : ret.1 = (Int32.ofNat (filesUpTo env w₀.data env.params.numFiles.toNat).length).toInt
  ofileCount : CountsKept env w₀ → ret.2.ofileCount = Int32.ofNat env.params.numFiles.toNat

/-- None of the input files is the output file. -/
def InputsDiffer (env : Env) : Prop :=
  ∀ x, x < env.params.numFiles.toNat → inputInode env x ≠ env.inode env.params.outfile

theorem inputFile_length_le {env : Env} {data : Inode → List UInt8} {n x : Nat} (hx : x < n) :
    (inputFile env data x).length ≤ (filesUpTo env data n).length := by
  induction n with
  | zero => exact absurd hx (Nat.not_lt_zero x)
  | succ n ih =>
      rw [filesUpTo_succ, List.length_append]
      rcases Nat.lt_succ_iff_lt_or_eq.mp hx with hlt | rfl
      · exact Nat.le_add_right_of_le (ih hlt)
      · exact Nat.le_add_left ..

/-- A failure before the first file. -/
theorem stopped_early {env : Env} {w₀ w : World} {hs : List Event} {e : Errno}
    (hh : w.history = w₀.history ++ hs) (hc : w.ofileCount = w₀.ofileCount)
    (hseg : Segment hs (some e.code) 0 []) (oldFs : AddrLimit) :
    Stopped env w₀ (bail w oldFs [] e.code) 0 0 := by
  refine ⟨e.neg, ⟨hs, hh, hseg⟩, fun hk => ?_⟩
  exact hc.trans hk.2

/-- The parameters are read, the output file is open, nothing is merged
yet. -/
theorem merging_start (env : Env) {w₀ w : World} {hs : List Event}
    (hh : w.history = w₀.history ++ hs) (hd : w.data = w₀.data)
    (hc : w.ofileCount = w₀.ofileCount) (hseg : Segment hs none 0 []) :
    Merging env w₀ (Fd.lowest w.table) 0
      { world := { w.opened env.params.outfile
            ⟨env.inode env.params.outfile, 0, env.params.oflags &&& oAppend ≠ 0⟩ with
          data := if env.params.oflags &&& oTrunc ≠ 0 then
              Function.update w.data (env.inode env.params.outfile) []
            else w.data }
        filecount := 0, bytecount := 0 } := by
  have hopened : w.history ++ [.ksysOpen w.limit env.params.outfile (Fd.lowest w.table)]
      = w₀.history ++ (hs ++ [.ksysOpen w.limit env.params.outfile (Fd.lowest w.table)]) := by
    rw [hh, List.append_assoc]
  have hstart := hseg.append (segment_open (Fd.lowest w.table) w.limit env.params.outfile)
  refine ⟨⟨_, _, hopened, Fd.get_put_self .., rfl, rfl, ?_, ?_⟩, ?_, ⟨_, hopened, hstart⟩, rfl, rfl,
    fun hk => hc.trans hk.2⟩
  · intro _
    rw [hstart.written_eq_nil]
    rfl
  · rw [hstart.written_eq_nil, outputAfter_nil, ← hd]
    dsimp only
    split
    · exact Function.update_self ..
    · rfl
  · intro j hj
    dsimp only
    rw [← hd]
    split
    · exact Function.update_of_ne hj ..
    · rfl

/-- With enough turns for the longest file the call returns: after the
last file, at a failure with fewer files than given merged, or at one
before the first file. -/
theorem xmerge_outcome {env : Env} (hdiff : InputsDiffer env) (args : Addr) (argslen : Nat)
    {fuel : Nat} (w₀ : World)
    (hfuel : (filesUpTo env w₀.data env.params.numFiles.toNat).length < fuel) :
    ∃ ret, xmerge env args argslen fuel w₀ = some ret ∧
      (Finished env w₀ ret ∨ ∃ k m, (k < env.params.numFiles.toNat ∨ k = 0 ∧ m = 0) ∧
        Stopped env w₀ ret k m) := by
  have hread := segment_copyFromUser .kernel args argslen
    (copyFromUser env (setFs w₀ .kernel) args argslen).1
  unfold xmerge
  by_cases hleft : (copyFromUser env (setFs w₀ .kernel) args argslen).1 = 0
  case neg =>
    rw [if_neg hleft] at hread
    refine ⟨_, if_pos hleft, .inr ⟨0, 0, .inr ⟨rfl, rfl⟩, ?_⟩⟩
    refine stopped_early ?_ ?_ hread w₀.limit
    · rfl
    · rfl
  rw [if_pos hleft] at hread
  dsimp only
  rw [if_neg (not_not_intro hleft)]
  have hh : (copyFromUser env (setFs w₀ .kernel) args argslen).2.history
      = w₀.history ++ [.copyFromUser .kernel args argslen
        (copyFromUser env (setFs w₀ .kernel) args argslen).1] := rfl
  have hd : (copyFromUser env (setFs w₀ .kernel) args argslen).2.data = w₀.data := rfl
  have hc : (copyFromUser env (setFs w₀ .kernel) args argslen).2.ofileCount
      = w₀.ofileCount := rfl
  generalize (copyFromUser env (setFs w₀ .kernel) args argslen).2 = w at hh hd hc ⊢
  rcases ksysOpen_cases env w env.params.outfile env.params.oflags with
    ⟨e, hopen⟩ | hopen
  · rw [hopen]
    dsimp only
    rw [if_pos e.neg]
    refine ⟨_, rfl, .inr ⟨0, 0, .inr ⟨rfl, rfl⟩, ?_⟩⟩
    refine stopped_early ?_ ?_ (hread.append (segment_openError w.limit env.params.outfile e))
      w₀.limit
    · show w.history ++ _ = _
      rw [hh, List.append_assoc]
    · exact hc
  rw [hopen]
  dsimp only
  rw [if_neg (by omega), Int.toNat_natCast]
  have hstart := merging_start env hh hd hc hread
  have hinput : ∀ y, 0 ≤ y → y < 0 + env.params.numFiles.toNat →
      inputInode env y ≠ env.inode env.params.outfile ∧
        (inputFile env w₀.data y).length < fuel := by
    intro y _ hy
    rw [Nat.zero_add] at hy
    exact ⟨hdiff y hy, Nat.lt_of_le_of_lt (inputFile_length_le hy) hfuel⟩
  rcases mergeFiles_cases w₀.limit hstart hinput with
    ⟨s, hmerge, hs⟩ | ⟨ret, k, m, hk, hmerge, hstop⟩
  · rw [Nat.zero_add] at hs
    obtain ⟨hs', hhist, hseg⟩ := hs.history
    obtain ⟨f, hs'', hout⟩ := hs.output
    obtain rfl : hs' = hs'' := List.append_cancel_left (hhist.symm.trans hout.history)
    refine ⟨(s.bytecount.toInt, setFs (ksysClose s.world (Fd.lowest w.table)) w₀.limit), ?_,
      .inl ⟨⟨hs' ++ [.ksysClose (Fd.lowest w.table)], ?_, ?_, ?_⟩, ?_, hs.ofileCount⟩⟩
    · exact congrArg (Option.map _) hmerge
    · show s.world.history ++ _ = _
      rw [hhist, List.append_assoc]
    · have hquiet : written (hs' ++ [.ksysClose (Fd.lowest w.table)]) = written hs' := by
        rw [written, List.flatMap_append]
        exact List.append_nil _
      rw [hquiet, ← hout.contents, hout.inode]
      rfl
    · have happ := hseg.append (segment_close (Fd.lowest w.table))
      rwa [List.append_nil] at happ
    · show s.bytecount.toInt = _
      rw [hs.bytecount]
  · refine ⟨ret, congrArg (Option.map _) hmerge, .inr ⟨k, m, .inl ?_, hstop⟩⟩
    omega

end Xm

end Comp4511
