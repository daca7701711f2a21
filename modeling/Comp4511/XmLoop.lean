import Mathlib.Data.Nat.Find
import Comp4511.XmDeliver

/-!
# When the copying loops end

The copying loop reads until the end of the input file. If that file is
also the output file, the loop's own writes may move the end away: always
when they append, and otherwise when the output position is ahead of the
input position, that is, when something was written before.

What the kernel may answer depends on the flags and on the files that there
are (`Obeys`): it does not open an output file that may not be there or has
to be, nor an input that is missing, and without write access it takes no
bytes.

`copyTurn_lengths` is one turn of the loop as far as the lengths of the
files and the two positions go. A file that cannot grow is read to its
end (`copyLoop_ends`), one that does is read for ever
(`copyLoop_forever`); `Level` carries through the files before what both
need to know. `xmerge_ends_iff` says for which files and flags the call
returns whatever the kernel may answer.
-/

namespace Comp4511

namespace Xm

/-! ## Files that grow -/

/-- The file that is written to. -/
def outputInode (env : Env) : Inode := env.inode env.params.outfile

/-- The output file is opened with `O_APPEND`. -/
def appends (env : Env) : Bool := env.params.oflags &&& oAppend ≠ 0

/-- The files once the output file is open. -/
def openedData (env : Env) (data : Inode → List UInt8) : Inode → List UInt8 :=
  if env.params.oflags &&& oTrunc ≠ 0 then Function.update data (outputInode env) [] else data

/-- An `open` fails where the kernel answers an error. -/
theorem ksysOpen_neg_iff (env : Env) (w : World) (name : Addr) (flags : Int32) :
    (ksysOpen env w name flags).1 < 0 ↔ env.ksysOpen w.history ≠ none := by
  unfold ksysOpen
  cases env.ksysOpen w.history with
  | some e => exact iff_of_true e.neg (Option.some_ne_none e)
  | none => exact iff_of_false (Int.not_lt.mpr (Int.natCast_nonneg _)) (not_not_intro rfl)

/-- Input `k` is the output file, and something is written to it before it
is read to its end: the contents of an earlier input or, when writes
append, its own. -/
def Grows (env : Env) (data : Inode → List UInt8) (k : Nat) : Prop :=
  inputInode env k = outputInode env ∧
    ∃ j, (j < k ∨ j = k ∧ appends env = true) ∧ inputFile env (openedData env data) j ≠ []

/-- The same call on the same files; what the kernel answers may differ. -/
structure SameFiles (env env' : Env) : Prop where
  params : env'.params = env.params
  word : env'.word = env.word
  inode : env'.inode = env.inode

/-! ## What the kernel may answer -/

/-- The files that there are before the call. -/
abbrev Files := Inode → Option (List UInt8)

/-- Their contents. -/
def Files.data (files : Files) : Inode → List UInt8 := fun i => (files i).getD []

def oAccmode : Int32 := 3

def oRdwr : Int32 := 2

def oDirectory : Int32 := 0x10000

def oPath : Int32 := 0x200000

/-- `__O_TMPFILE`. -/
def oTmpfile : Int32 := 0x400000

/-- The flags allow the output file to be opened: a file that exists where it
need not be new or a directory, another one where it may be created. -/
def MayOpen (files : Files) (env : Env) : Prop :=
  env.params.oflags &&& oTmpfile = 0 ∧
    if (files (outputInode env)).isSome then
      (env.params.oflags &&& oCreat = 0 ∨ env.params.oflags &&& oExcl = 0) ∧
        env.params.oflags &&& oDirectory = 0
    else env.params.oflags &&& oCreat ≠ 0

instance (files : Files) (env : Env) : Decidable (MayOpen files env) :=
  inferInstanceAs (Decidable (_ ∧ _))

/-- The flags allow bytes to be written. -/
def MayWrite (env : Env) : Prop :=
  (env.params.oflags &&& oAccmode = oWronly ∨ env.params.oflags &&& oAccmode = oRdwr) ∧
    env.params.oflags &&& oPath = 0

instance (env : Env) : Decidable (MayWrite env) := inferInstanceAs (Decidable (_ ∧ _))

/-- The name is that of a file, if only of the output file, which has been
opened before. -/
def Found (files : Files) (env : Env) (name : Addr) : Prop :=
  (files (env.inode name)).isSome ∨ env.inode name = outputInode env

instance (files : Files) (env : Env) : DecidablePred (Found files env) :=
  fun _ => inferInstanceAs (Decidable (_ ∨ _))

/-- The kernel opens nothing and writes nothing that it cannot. The output
file is opened behind the copy of the parameters, an input behind the
`printk` of its name. -/
structure Obeys (files : Files) (env : Env) : Prop where
  outfile : ∀ h limit src len left,
    env.ksysOpen (h ++ [.copyFromUser limit src len left]) = none → MayOpen files env
  infile : ∀ h name, env.ksysOpen (h ++ [.printk name]) = none → Found files env name
  write : ∀ h c, env.ksysWrite h = .count c → MayWrite env

/-- No read or write fails, and they move whole pages. -/
structure Whole (env : Env) : Prop where
  ksysRead : ∀ h, env.ksysRead h = .count pageSize
  ksysWrite : ∀ h, env.ksysWrite h = .count pageSize

/-- Nothing fails that need not. -/
structure Generous (files : Files) (env : Env) : Prop extends Whole env where
  copyFromUser : ∀ h, env.copyFromUser h = 0
  outfile : ∀ h limit src len left,
    env.ksysOpen (h ++ [.copyFromUser limit src len left]) = none
  infile : ∀ h name, Found files env name → env.ksysOpen (h ++ [.printk name]) = none

/-! ## One turn -/

theorem length_writeAt (contents bytes : List UInt8) (pos : Nat) :
    (writeAt contents pos bytes).length = max contents.length (pos + bytes.length) := by
  simp only [writeAt, List.length_append, List.length_take, List.length_replicate,
    List.length_drop]
  omega

/-- Where the next byte is written. -/
def writePos (env : Env) (data : Inode → List UInt8) (q : Nat) : Nat :=
  if appends env then (data (outputInode env)).length else q

/-- The loop has the input file at position `p` and the output file at
position `q`. -/
structure Positions (env : Env) (outfd infd : Nat) (i : Inode) (p q : Nat) (w : World) :
    Prop where
  infile : ∃ append, Fd.get w.table infd = some ⟨i, p, append⟩
  outfile : Fd.get w.table outfd = some ⟨outputInode env, q, appends env⟩

/-- A turn has moved `n` bytes in and `m` of them out. -/
structure Moved (env : Env) (outfd infd : Nat) (i : Inode) (p q n m : Nat) (w w' : World) :
    Prop where
  read : 0 < n ∧ p + n ≤ (w.data i).length
  written : 0 < m ∧ m ≤ n
  whole : Whole env → m = n
  positions : Positions env outfd infd i (p + n) (writePos env w.data q + m) w'
  data : ∀ j, j ≠ outputInode env → w'.data j = w.data j
  output : (w'.data (outputInode env)).length
    = max (w.data (outputInode env)).length (writePos env w.data q + m)

theorem clip_pos {c n : Nat} (h : 0 < n) : 0 < clip c n := by
  unfold clip
  omega

/-- A write fails or lengthens the output file by what it takes. -/
theorem ksysWrite_lengths {env : Env} {w : World} {outfd q : Nat}
    (hout : Fd.get w.table outfd = some ⟨outputInode env, q, appends env⟩) (buffer : List UInt8)
    (hpos : 0 < buffer.length) (hpage : buffer.length ≤ pageSize) :
    (∃ (e : Errno) (w' : World), ksysWrite env w outfd buffer = (e.code, w') ∧ ¬ Whole env) ∨
    ∃ (m : Nat) (w' : World), ksysWrite env w outfd buffer = ((m : Int), w') ∧
      (0 < m ∧ m ≤ buffer.length) ∧ (Whole env → m = buffer.length) ∧
      Fd.get w'.table outfd = some ⟨outputInode env, writePos env w.data q + m, appends env⟩ ∧
      (∀ d, d ≠ outfd → Fd.get w'.table d = Fd.get w.table d) ∧
      (∀ j, j ≠ outputInode env → w'.data j = w.data j) ∧
      (w'.data (outputInode env)).length
        = max (w.data (outputInode env)).length (writePos env w.data q + m) := by
  unfold ksysWrite
  rw [hout]
  cases hwrite : env.ksysWrite w.history with
  | error e =>
      refine .inl ⟨e, _, rfl, fun hg => ?_⟩
      rw [hg.ksysWrite] at hwrite
      exact nomatch hwrite
  | count c =>
      refine .inr ⟨clip c buffer.length, _, rfl, ⟨clip_pos hpos, clip_le ..⟩, fun hg => ?_,
        Fd.get_put_self .., fun d hd => Fd.get_put_of_ne _ hd _,
        fun j hj => Function.update_of_ne hj .., ?_⟩
      · rw [hg.ksysWrite, Answer.count.injEq] at hwrite
        rw [← hwrite, clip]
        omega
      · have hlen : (buffer.take (clip c buffer.length)).length = clip c buffer.length :=
          List.length_take_of_le (clip_le ..)
        show (Function.update w.data (outputInode env) _ (outputInode env)).length = _
        rw [Function.update_self, length_writeAt, hlen]
        rfl

/-- One turn fails, ends at the end of the file, or moves bytes. -/
theorem copyTurn_lengths {env : Env} {outfd infd : Nat} {i : Inode} {p q : Nat} {s : Copy}
    (oldFs : AddrLimit) (hne : infd ≠ outfd) (h : Positions env outfd infd i p q s.world) :
    (∃ ret, copyTurn env oldFs outfd infd s = .done (.error ret) ∧ ¬ Whole env) ∨
    (∃ s', copyTurn env oldFs outfd infd s = .done (.ok s') ∧ (s.world.data i).length ≤ p ∧
      s'.world.data = s.world.data ∧ Positions env outfd infd i p q s'.world) ∨
    ∃ n m s', copyTurn env oldFs outfd infd s = .again s' ∧
      Moved env outfd infd i p q n m s.world s'.world := by
  obtain ⟨append, hin⟩ := h.infile
  have hout := h.outfile
  unfold copyTurn ksysRead
  rw [hin]
  cases hread : env.ksysRead s.world.history with
  | error e =>
      have hneg := e.neg
      dsimp only
      rw [if_neg (by omega), if_pos hneg]
      refine .inl ⟨_, rfl, fun hg => ?_⟩
      rw [hg.ksysRead] at hread
      exact nomatch hread
  | count c =>
      dsimp only
      have hle : clip c (min pageSize ((s.world.data i).drop p).length)
          ≤ min pageSize ((s.world.data i).drop p).length := clip_le ..
      have hzero := clip_eq_zero (c := c) (n := min pageSize ((s.world.data i).drop p).length)
      have hpage : 0 < pageSize := by decide
      generalize clip c (min pageSize ((s.world.data i).drop p).length) = n at hle hzero ⊢
      rw [List.length_drop] at hle hzero
      by_cases hn : n = 0
      · -- the end of the file
        subst hn
        refine .inr (.inl ⟨_, if_pos rfl, ?_, rfl, ⟨append, Fd.get_put_self ..⟩, ?_⟩)
        · have hnone := hzero rfl
          omega
        · exact (Fd.get_put_of_ne _ hne.symm _).trans hout
      rw [if_neg (by omega), if_neg (by omega)]
      have hlen : (((s.world.data i).drop p).take n).length = n := by
        rw [List.length_take, List.length_drop]
        omega
      have hout' : Fd.get (Fd.put s.world.table infd (some ⟨i, p + n, append⟩)) outfd
          = some ⟨outputInode env, q, appends env⟩ :=
        (Fd.get_put_of_ne _ hne.symm _).trans hout
      rcases ksysWrite_lengths (w := { s.world.log (.ksysRead infd n) with
          table := Fd.put s.world.table infd (some ⟨i, p + n, append⟩) }) hout'
          (((s.world.data i).drop p).take n) (by omega) (by omega) with
        ⟨e, w', hwrite, hnot⟩ | ⟨m, w', hwrite, hm, hwhole, hget, hother, hdata, hgrown⟩
      · rw [hwrite]
        dsimp only
        rw [if_pos e.neg]
        exact .inl ⟨_, rfl, hnot⟩
      · rw [hwrite]
        dsimp only
        rw [if_neg (by omega)]
        rw [hlen] at hm hwhole
        refine .inr (.inr ⟨n, m, _, rfl, ⟨by omega, by omega⟩, hm, hwhole, ⟨⟨append, ?_⟩, hget⟩,
          hdata, hgrown⟩)
        exact (hother infd hne).trans (Fd.get_put_self ..)

/-! ## One file -/

/-- The loop, which started in `w₁` with the input file at its beginning and
the output file at `q₁`, is at `p` and `q`. -/
structure InLoop (env : Env) (outfd infd : Nat) (i : Inode) (w₁ : World) (q₁ p q : Nat)
    (w : World) : Prop where
  positions : Positions env outfd infd i p q w
  data : ∀ j, j ≠ outputInode env → w.data j = w₁.data j
  grown : (w₁.data (outputInode env)).length ≤ (w.data (outputInode env)).length
  still : p = 0 → w.data = w₁.data ∧ q = q₁
  moved : 0 < p → 0 < (w.data (outputInode env)).length ∧
    (appends env = false → 0 < q ∧ q ≤ (w.data (outputInode env)).length)

/-- The writes of the loop do not move the end of the file it reads. -/
structure Bounded (env : Env) (i : Inode) (w₁ : World) (p q : Nat) (w : World) : Prop where
  length : (w.data i).length ≤ (w₁.data i).length
  pos : p ≤ (w₁.data i).length
  behind : i = outputInode env → w₁.data i ≠ [] → appends env = false ∧ q ≤ p

section Loops

variable {env : Env} {outfd infd : Nat} {i : Inode} {w₁ w w' : World} {q₁ p q n m : Nat}

theorem InLoop.next (h : InLoop env outfd infd i w₁ q₁ p q w)
    (hm : Moved env outfd infd i p q n m w w') :
    InLoop env outfd infd i w₁ q₁ (p + n) (writePos env w.data q + m) w' := by
  have hread := hm.read
  have hwritten := hm.written
  have hgrown := h.grown
  have houtput := hm.output
  refine ⟨hm.positions, fun j hj => (hm.data j hj).trans (h.data j hj), by omega, by omega,
    fun _ => ⟨by omega, fun _ => ⟨by omega, by omega⟩⟩⟩

theorem Bounded.next (hb : Bounded env i w₁ p q w) (hm : Moved env outfd infd i p q n m w w') :
    Bounded env i w₁ (p + n) (writePos env w.data q + m) w' := by
  have hread := hm.read
  have hwritten := hm.written
  have hlength := hb.length
  by_cases hi : i = outputInode env
  · have hne : w₁.data i ≠ [] := by
      intro hnil
      rw [hnil] at hlength
      simp only [List.length_nil] at hlength
      omega
    obtain ⟨happend, hle⟩ := hb.behind hi hne
    have hpos : writePos env w.data q = q := by
      rw [writePos, happend]
      rfl
    refine ⟨?_, by omega, fun _ _ => ⟨happend, by omega⟩⟩
    have houtput := hm.output
    rw [hpos, ← hi] at houtput
    omega
  · refine ⟨?_, by omega, fun h => absurd h hi⟩
    rw [hm.data i hi]
    exact hlength

theorem Positions.inputPos {s : Copy} (h : Positions env outfd infd i p q s.world) :
    inputPos infd s = p := by
  obtain ⟨append, hin⟩ := h.infile
  rw [Xm.inputPos, hin]
  rfl

/-- A file whose end does not move is read to its end. -/
theorem copyLoop_ends (oldFs : AddrLimit) (hne : infd ≠ outfd) {s : Copy}
    (h : InLoop env outfd infd i w₁ q₁ 0 q₁ s.world) (hb : Bounded env i w₁ 0 q₁ s.world) :
    ∃ fuel r, Loop.run (copyTurn env oldFs outfd infd) fuel s = some r ∧
      ((∃ ret, r = .error ret ∧ ¬ Whole env) ∨ ∃ s' p q, r = .ok s' ∧
        InLoop env outfd infd i w₁ q₁ p q s'.world ∧ (s'.world.data i).length ≤ p ∧
        p ≤ (w₁.data i).length) := by
  have hkeep : ∀ s s', (∃ p q, InLoop env outfd infd i w₁ q₁ p q s.world ∧
        Bounded env i w₁ p q s.world) →
      copyTurn env oldFs outfd infd s = .again s' →
      (∃ p q, InLoop env outfd infd i w₁ q₁ p q s'.world ∧ Bounded env i w₁ p q s'.world) ∧
        (w₁.data i).length - inputPos infd s' < (w₁.data i).length - inputPos infd s := by
    rintro s s' ⟨p, q, h, hb⟩ hagain
    rcases copyTurn_lengths oldFs hne h.positions with
      ⟨ret, hdone, -⟩ | ⟨s'', hdone, -⟩ | ⟨n, m, s'', hturn, hmoved⟩
    · rw [hdone] at hagain
      exact nomatch hagain
    · rw [hdone] at hagain
      exact nomatch hagain
    · rw [hturn] at hagain
      obtain rfl := Loop.Turn.again.inj hagain
      refine ⟨⟨_, _, h.next hmoved, hb.next hmoved⟩, ?_⟩
      have hread := hmoved.read
      have hlength := hb.length
      rw [h.positions.inputPos, hmoved.positions.inputPos]
      omega
  obtain ⟨t, r, ⟨p, q, ht, hbt⟩, hdone, hrun⟩ :=
    Loop.run_total hkeep ⟨0, q₁, h, hb⟩ (Nat.lt_succ_self _)
  refine ⟨_, r, hrun, ?_⟩
  rcases copyTurn_lengths oldFs hne ht.positions with
    ⟨ret, hturn, hnot⟩ | ⟨s', hturn, hend, hdata, hpos⟩ | ⟨n, m, s', hturn, -⟩
  · rw [hturn] at hdone
    exact .inl ⟨ret, (Loop.Turn.done.inj hdone).symm, hnot⟩
  · rw [hturn] at hdone
    refine .inr ⟨s', p, q, (Loop.Turn.done.inj hdone).symm, ⟨hpos, ?_, ?_, ?_, ?_⟩, ?_, hbt.pos⟩
    · rw [hdata]
      exact ht.data
    · rw [hdata]
      exact ht.grown
    · rw [hdata]
      exact ht.still
    · rw [hdata]
      exact ht.moved
    · rw [hdata]
      exact hend
  · rw [hturn] at hdone
    exact nomatch hdone

/-- The loop is before the end of the output file and will be after any
turn. -/
def Ahead (env : Env) (p q : Nat) (w : World) : Prop :=
  p < (w.data (outputInode env)).length ∧
    (appends env = false → p < q ∧ q ≤ (w.data (outputInode env)).length)

theorem Ahead.next (h : Ahead env p q w) (hg : Whole env)
    (hm : Moved env outfd infd (outputInode env) p q n m w w') :
    Ahead env (p + n) (writePos env w.data q + m) w' := by
  have hread := hm.read
  have hwritten := hm.written
  have hwhole := hm.whole hg
  have houtput := hm.output
  cases happend : appends env with
  | true =>
      have hpos : writePos env w.data q = (w.data (outputInode env)).length := by
        rw [writePos, happend]
        rfl
      exact ⟨by omega, by simp [happend]⟩
  | false =>
      have hpos : writePos env w.data q = q := by
        rw [writePos, happend]
        rfl
      obtain ⟨hlt, hle⟩ := h.2 happend
      exact ⟨by omega, fun _ => ⟨by omega, by omega⟩⟩

/-- The output file is read for ever. -/
theorem copyLoop_forever (oldFs : AddrLimit) (hne : infd ≠ outfd) (hg : Whole env) {s : Copy}
    (h : Positions env outfd infd (outputInode env) p q s.world) (ha : Ahead env p q s.world)
    (fuel : Nat) : Loop.run (copyTurn env oldFs outfd infd) fuel s = none := by
  refine Loop.run_eq_none (I := fun s => ∃ p q,
    Positions env outfd infd (outputInode env) p q s.world ∧ Ahead env p q s.world) ?_
    ⟨p, q, h, ha⟩ fuel
  rintro s ⟨p, q, h, ha⟩
  rcases copyTurn_lengths oldFs hne h with
    ⟨ret, -, hnot⟩ | ⟨s', -, hend, -⟩ | ⟨n, m, s', hturn, hmoved⟩
  · exact absurd hg hnot
  · have hlt := ha.1
    omega
  · exact ⟨s', hturn, _, _, hmoved.positions, ha.next hg hmoved⟩

end Loops

/-! ## The files -/

/-- Between two files, with the output file at `q`, `x` of them done and
none of the first `N` growing: what is to be read of the output file is
still as it was opened, and once an input was not empty something is
written. -/
structure Level (env : Env) (w₀ : World) (outfd N x q : Nat) (w : World) : Prop where
  outfile : Fd.get w.table outfd = some ⟨outputInode env, q, appends env⟩
  data : ∀ j, j ≠ outputInode env → w.data j = w₀.data j
  grown : (openedData env w₀.data (outputInode env)).length
    ≤ (w.data (outputInode env)).length
  untouched : ∀ k, x ≤ k → k < N → inputInode env k = outputInode env → q = 0 ∧
    (w.data (outputInode env)).length = (openedData env w₀.data (outputInode env)).length
  started : (∃ j, j < x ∧ inputFile env (openedData env w₀.data) j ≠ []) →
    0 < (w.data (outputInode env)).length ∧
      (appends env = false → 0 < q ∧ q ≤ (w.data (outputInode env)).length)

section Files

variable {files : Files} {env : Env} {w₀ : World} {outfd N x q : Nat}

theorem openedData_of_ne {data : Inode → List UInt8} {j : Inode} (hj : j ≠ outputInode env) :
    openedData env data j = data j := by
  unfold openedData
  split
  · exact Function.update_of_ne hj ..
  · rfl

/-- An input is read as it was when the output file was opened. -/
theorem Level.length_input {w : World} (h : Level env w₀ outfd N x q w) (hx : x < N) :
    (w.data (inputInode env x)).length = (inputFile env (openedData env w₀.data) x).length := by
  unfold inputFile
  by_cases hi : inputInode env x = outputInode env
  · rw [hi]
    exact (h.untouched x (Nat.le_refl x) hx hi).2
  · rw [h.data _ hi, openedData_of_ne hi]

theorem Level.bounded {w : World} (h : Level env w₀ outfd N x q w)
    (hcalm : ∀ k, k < N → ¬ Grows env w₀.data k) (hx : x < N) :
    Bounded env (inputInode env x) w 0 q w := by
  refine ⟨Nat.le_refl _, Nat.zero_le _, fun hi hne => ?_⟩
  have hinput : inputFile env (openedData env w₀.data) x ≠ [] := by
    intro hnil
    have hlen := h.length_input hx
    rw [hnil] at hlen
    exact hne (List.length_eq_zero_iff.mp hlen)
  refine ⟨?_, Nat.le_of_eq (h.untouched x (Nat.le_refl x) hx hi).1⟩
  rw [← Bool.not_eq_true]
  intro happend
  exact hcalm x hx ⟨hi, x, .inr ⟨rfl, happend⟩, hinput⟩

/-- One more file is done. -/
theorem Level.next {w₁ w : World} {infd p q' : Nat} (h : Level env w₀ outfd N x q w₁)
    (hcalm : ∀ k, k < N → ¬ Grows env w₀.data k) (hx : x < N)
    (hl : InLoop env outfd infd (inputInode env x) w₁ q p q' w)
    (hend : (w.data (inputInode env x)).length ≤ p)
    (hp : p ≤ (w₁.data (inputInode env x)).length) : Level env w₀ outfd N (x + 1) q' w := by
  refine ⟨hl.positions.outfile, fun j hj => (hl.data j hj).trans (h.data j hj),
    Nat.le_trans h.grown hl.grown, ?_, ?_⟩
  · intro k hk hkN hi
    -- nothing may be written before file `k`, so this one is empty
    have hnil : inputFile env (openedData env w₀.data) x = [] := by
      by_contra hne
      exact hcalm k hkN ⟨hi, x, .inl hk, hne⟩
    have hlen := h.length_input hx
    rw [hnil, List.length_nil] at hlen
    obtain ⟨hdata, rfl⟩ := hl.still (by omega)
    rw [hdata]
    exact h.untouched k (by omega) hkN hi
  · rintro ⟨j, hj, hne⟩
    rcases Nat.lt_succ_iff_lt_or_eq.mp hj with hj | rfl
    · by_cases hzero : p = 0
      · obtain ⟨hdata, rfl⟩ := hl.still hzero
        rw [hdata]
        exact h.started ⟨j, hj, hne⟩
      · exact hl.moved (Nat.pos_of_ne_zero hzero)
    · refine hl.moved (Nat.pos_of_ne_zero fun hzero => ?_)
      have hlen := h.length_input hx
      rw [← (hl.still hzero).1] at hlen
      rw [← List.length_pos_iff] at hne
      omega

theorem Level.congr {w w' : World} (h : Level env w₀ outfd N x q w)
    (ht : Fd.get w'.table outfd = Fd.get w.table outfd) (hd : w'.data = w.data) :
    Level env w₀ outfd N x q w' := by
  refine ⟨ht.trans h.outfile, ?_, ?_, ?_, ?_⟩ <;> rw [hd]
  · exact h.data
  · exact h.grown
  · exact h.untouched
  · exact h.started

/-- The loop body up to the copying loop: it fails or comes to the loop. -/
theorem mergeFile_opens (files : Files) (oldFs : AddrLimit) {s : Merge}
    (h : Level env w₀ outfd N x q s.world) :
    (∃ ret, (∀ fuel, mergeFile env oldFs outfd fuel x s = some (.error ret)) ∧
      (Generous files env → ¬ Found files env (inputName env x))) ∨
    ∃ infd w₁, infd ≠ outfd ∧ Level env w₀ outfd N x q w₁ ∧
      InLoop env outfd infd (inputInode env x) w₁ q 0 q w₁ ∧
      ∀ fuel, mergeFile env oldFs outfd fuel x s
        = (Loop.run (copyTurn env oldFs outfd infd) fuel ⟨w₁, s.bytecount⟩).map fun r =>
            r.bind (fileDone env oldFs outfd infd s.filecount) := by
  unfold mergeFile
  dsimp only
  by_cases hleft : (copyFromUser env s.world (env.params.nameAt x) 8).1 = 0
  case neg =>
    refine .inl ⟨_, fun _ => if_pos hleft, fun hg => absurd ?_ hleft⟩
    show min (env.copyFromUser s.world.history) 8 = 0
    rw [hg.copyFromUser]
    rfl
  have hw : Level env w₀ outfd N x q ((copyFromUser env s.world (env.params.nameAt x) 8).2.log
      (.printk (env.word (env.params.nameAt x)))) := h.congr rfl rfl
  obtain ⟨before, hlast⟩ : ∃ before, ((copyFromUser env s.world (env.params.nameAt x) 8).2.log
      (.printk (env.word (env.params.nameAt x)))).history =
        before ++ [.printk (env.word (env.params.nameAt x))] := ⟨_, rfl⟩
  generalize (copyFromUser env s.world (env.params.nameAt x) 8).2.log
    (.printk (env.word (env.params.nameAt x))) = w at hw hlast ⊢
  simp only [if_neg (not_not_intro hleft)]
  rcases ksysOpen_rdonly env w (env.word (env.params.nameAt x)) with ⟨e, hopen⟩ | hopen
  · have hdenied := (ksysOpen_neg_iff env w _ oRdonly).mp (by rw [hopen]; exact e.neg)
    rw [hopen]
    dsimp only
    refine .inl ⟨_, fun _ => if_pos e.neg, fun hg hfound => hdenied ?_⟩
    rw [hlast]
    exact hg.infile _ _ hfound
  rw [hopen]
  dsimp only
  have hne : Fd.lowest w.table ≠ outfd := by
    intro heq
    have hfree := Fd.get_lowest w.table
    rw [heq, hw.outfile] at hfree
    exact nomatch hfree
  have hopened : Level env w₀ outfd N x q
      (w.opened (env.word (env.params.nameAt x)) ⟨inputInode env x, 0, false⟩) :=
    hw.congr (Fd.get_put_of_ne _ hne.symm _) rfl
  refine .inr ⟨Fd.lowest w.table, _, hne, hopened, ?_, fun fuel => ?_⟩
  · exact ⟨⟨⟨false, Fd.get_put_self ..⟩, hopened.outfile⟩, fun _ _ => rfl, Nat.le_refl _,
      fun _ => ⟨rfl, rfl⟩, fun h => absurd h (Nat.lt_irrefl 0)⟩
  · rw [if_neg (by omega), Int.toNat_natCast]
    rfl

/-- An input that is missing ends the call. -/
theorem mergeFile_missing (ho : Obeys files env) (hmissing : ¬ Found files env (inputName env x))
    (oldFs : AddrLimit) (outfd : Nat) (s : Merge) :
    ∃ ret, ∀ fuel, mergeFile env oldFs outfd fuel x s = some (.error ret) := by
  unfold mergeFile
  dsimp only
  by_cases hleft : (copyFromUser env s.world (env.params.nameAt x) 8).1 = 0
  case neg => exact ⟨_, fun _ => if_pos hleft⟩
  simp only [if_neg (not_not_intro hleft)]
  have hneg := (ksysOpen_neg_iff env ((copyFromUser env s.world (env.params.nameAt x) 8).2.log
    (.printk (inputName env x))) (inputName env x) oRdonly).mpr
      fun hopen => hmissing (ho.infile _ _ hopen)
  exact ⟨_, fun _ => if_pos hneg⟩

/-- Without write access no copying loop goes round. -/
theorem copyTurn_denied (hdenied : ∀ h c, env.ksysWrite h ≠ .count c) (oldFs : AddrLimit)
    (outfd infd : Nat) (s : Copy) : ∃ r, copyTurn env oldFs outfd infd s = .done r := by
  have hwrite : ∀ w buffer, (ksysWrite env w outfd buffer).1 < 0 := by
    intro w buffer
    unfold ksysWrite
    cases Fd.get w.table outfd with
    | none => exact ebadf.neg
    | some f =>
        cases hanswer : env.ksysWrite w.history with
        | error e => exact e.neg
        | count c => exact absurd hanswer (hdenied _ c)
  unfold copyTurn
  dsimp only
  split_ifs with hend hfail hdone
  · exact ⟨_, rfl⟩
  · exact ⟨_, rfl⟩
  · exact ⟨_, rfl⟩
  · exact absurd (hwrite _ _) hdone

theorem mergeFiles_denied (hdenied : ∀ h c, env.ksysWrite h ≠ .count c) (oldFs : AddrLimit)
    (outfd n x : Nat) (s : Merge) : ∃ r, mergeFiles env oldFs outfd 1 n x s = some r := by
  induction n generalizing x s with
  | zero => exact ⟨_, rfl⟩
  | succ n ih =>
      have hfile : ∃ r, mergeFile env oldFs outfd 1 x s = some r := by
        unfold mergeFile
        dsimp only
        split_ifs
        · exact ⟨_, rfl⟩
        · exact ⟨_, rfl⟩
        · obtain ⟨r, hturn⟩ := copyTurn_denied hdenied oldFs outfd _ _
          exact ⟨_, by rw [Loop.run_done hturn, Option.map_some]⟩
      obtain ⟨r, hr⟩ := hfile
      rw [mergeFiles, hr]
      cases r with
      | error ret => exact ⟨_, rfl⟩
      | ok s' => exact ih (x + 1) s'

/-- A file that does not grow is merged, or something fails. -/
theorem mergeFile_level (files : Files) (oldFs : AddrLimit) {s : Merge} (h : Level env w₀ outfd N x q s.world)
    (hcalm : ∀ k, k < N → ¬ Grows env w₀.data k) (hx : x < N) :
    ∃ fuel r, mergeFile env oldFs outfd fuel x s = some r ∧
      ((∃ ret, r = .error ret ∧ (Generous files env → ¬ Found files env (inputName env x))) ∨
        ∃ s' q', r = .ok s' ∧ Level env w₀ outfd N (x + 1) q' s'.world) := by
  rcases mergeFile_opens files oldFs h with ⟨ret, hret, hnot⟩ | ⟨infd, w₁, hne, hw₁, hstart, hbody⟩
  · exact ⟨0, _, hret 0, .inl ⟨ret, rfl, hnot⟩⟩
  obtain ⟨fuel, r, hrun, hr⟩ :=
    copyLoop_ends oldFs hne (s := ⟨w₁, s.bytecount⟩) hstart (hw₁.bounded hcalm hx)
  refine ⟨fuel, _, by rw [hbody, hrun, Option.map_some], ?_⟩
  rcases hr with ⟨ret, rfl, hnot⟩ | ⟨c, p, q', rfl, hl, hend, hp⟩
  · exact .inl ⟨ret, rfl, fun hg => absurd hg.toWhole hnot⟩
  right
  obtain ⟨left, -, -, htable, hdata, -⟩ := copyToUser_spec env c.world (s.filecount + 1)
  have hdone : fileDone env oldFs outfd infd s.filecount c
      = .ok { world := ksysClose (copyToUser env c.world (s.filecount + 1)).2 infd
              filecount := s.filecount + 1, bytecount := c.bytecount } := by
    unfold fileDone
    exact if_neg (by omega)
  refine ⟨_, q', hdone, (hw₁.next hcalm hx hl hend hp).congr ?_ hdata⟩
  show Fd.get (Fd.close (copyToUser env c.world (s.filecount + 1)).2.table infd) outfd = _
  rw [Fd.get_close_of_ne _ hne.symm, htable]

/-- So are all of them, up to number `N`. -/
theorem mergeFiles_level (files : Files) (oldFs : AddrLimit) {s : Merge} {n : Nat}
    (h : Level env w₀ outfd N x q s.world) (hcalm : ∀ k, k < N → ¬ Grows env w₀.data k)
    (hn : x + n = N) :
    ∃ fuel r, mergeFiles env oldFs outfd fuel n x s = some r ∧
      ((∃ ret, r = .error ret ∧
          (Generous files env → ∃ j, x ≤ j ∧ j < N ∧ ¬ Found files env (inputName env j))) ∨
        ∃ s' q', r = .ok s' ∧ Level env w₀ outfd N N q' s'.world) := by
  induction n generalizing x s q with
  | zero =>
      obtain rfl : x = N := hn
      exact ⟨0, _, rfl, .inr ⟨s, q, rfl, h⟩⟩
  | succ n ih =>
      obtain ⟨fuel, r, hfile, hr⟩ := mergeFile_level files oldFs h hcalm (by omega)
      rcases hr with ⟨ret, rfl, hnot⟩ | ⟨s', q', rfl, h'⟩
      · refine ⟨fuel, .error ret, ?_,
          .inl ⟨ret, rfl, fun hg => ⟨x, Nat.le_refl x, by omega, hnot hg⟩⟩⟩
        rw [mergeFiles, hfile]
      · obtain ⟨fuel', r, hfiles, hr⟩ := ih h' (by omega)
        refine ⟨max fuel fuel', r, ?_, hr.imp_left ?_⟩
        · rw [mergeFiles, mergeFile_mono hfile (Nat.le_max_left ..)]
          exact mergeFiles_mono hfiles (Nat.le_max_right ..)
        · rintro ⟨ret, heq, hnot⟩
          refine ⟨ret, heq, fun hg => ?_⟩
          obtain ⟨j, hle, hj⟩ := hnot hg
          exact ⟨j, Nat.le_of_succ_le hle, hj⟩

theorem mergeFiles_add (oldFs : AddrLimit) (fuel a b x : Nat) (s : Merge) :
    mergeFiles env oldFs outfd fuel (a + b) x s =
      match mergeFiles env oldFs outfd fuel a x s with
      | some (.ok s) => mergeFiles env oldFs outfd fuel b (x + a) s
      | r => r := by
  induction a generalizing x s with
  | zero => rw [Nat.zero_add]; rfl
  | succ a ih =>
      rw [Nat.succ_add, mergeFiles, mergeFiles]
      cases mergeFile env oldFs outfd fuel x s with
      | none => rfl
      | some r =>
          cases r with
          | error ret => rfl
          | ok s' =>
              dsimp only
              rw [ih, Nat.succ_add_eq_add_succ]

/-- A file that grows is never done. -/
theorem mergeFile_forever (oldFs : AddrLimit) {s : Merge} (h : Level env w₀ outfd x x q s.world)
    (hg : Generous files env) (hgrows : Grows env w₀.data x) (fuel : Nat) :
    mergeFile env oldFs outfd fuel x s = none := by
  obtain ⟨hi, j, hj, hne⟩ := hgrows
  rcases mergeFile_opens files oldFs h with ⟨ret, -, hnot⟩ | ⟨infd, w₁, hneq, hw₁, hstart, hbody⟩
  · exact absurd (.inr hi) (hnot hg)
  have hahead : Ahead env 0 q w₁ := by
    rcases hj with hj | ⟨rfl, happend⟩
    · exact hw₁.started ⟨j, hj, hne⟩
    · refine ⟨Nat.lt_of_lt_of_le ?_ hw₁.grown, by simp [happend]⟩
      rw [← hi]
      exact List.length_pos_iff.mpr hne
  have hpos := hstart.positions
  rw [hi] at hpos
  rw [hbody, copyLoop_forever oldFs hneq hg.toWhole (s := ⟨w₁, s.bytecount⟩) hpos hahead fuel]
  rfl

end Files

/-! ## The whole call -/

section Call

variable {files : Files} {env : Env} {w₀ : World}

/-- The call fails before the first file, or comes to it. -/
theorem xmerge_opens (files : Files) (env : Env) (args : Addr) (argslen N : Nat) (w₀ : World) :
    (∃ ret, (∀ fuel, xmerge env args argslen fuel w₀ = some ret) ∧ ¬ Generous files env) ∨
    ∃ outfd w₁, Level env w₀ outfd N 0 0 w₁ ∧ (Obeys files env → MayOpen files env) ∧
      ∀ fuel, xmerge env args argslen fuel w₀
        = (mergeFiles env w₀.limit outfd fuel env.params.numFiles.toNat 0 ⟨w₁, 0, 0⟩).map fun r =>
            match r with
            | .error ret => ret
            | .ok s => (s.bytecount.toInt, setFs (ksysClose s.world outfd) w₀.limit) := by
  unfold xmerge
  dsimp only
  by_cases hleft : (copyFromUser env (setFs w₀ .kernel) args argslen).1 = 0
  case neg =>
    refine .inl ⟨_, fun _ => if_pos hleft, fun hg => hleft ?_⟩
    show min (env.copyFromUser (setFs w₀ .kernel).history) argslen = 0
    rw [hg.copyFromUser]
    exact Nat.zero_min _
  have hd : (copyFromUser env (setFs w₀ .kernel) args argslen).2.data = w₀.data := rfl
  obtain ⟨before, limit, left, hlast⟩ : ∃ before limit left,
      (copyFromUser env (setFs w₀ .kernel) args argslen).2.history =
        before ++ [.copyFromUser limit args argslen left] := ⟨_, _, _, rfl⟩
  generalize (copyFromUser env (setFs w₀ .kernel) args argslen).2 = w at hd hlast ⊢
  simp only [if_neg (not_not_intro hleft)]
  have hanswer := ksysOpen_neg_iff env w env.params.outfile env.params.oflags
  rw [hlast] at hanswer
  rcases ksysOpen_cases env w env.params.outfile env.params.oflags with ⟨e, hopen⟩ | hopen
  · rw [hopen] at hanswer ⊢
    dsimp only
    exact .inl ⟨_, fun _ => if_pos e.neg, fun hg => hanswer.mp e.neg (hg.outfile ..)⟩
  rw [hopen] at hanswer ⊢
  dsimp only at hanswer ⊢
  rw [hd]
  refine .inr ⟨Fd.lowest w.table, { w.opened env.params.outfile
      ⟨outputInode env, 0, appends env⟩ with data := openedData env w₀.data },
    ⟨Fd.get_put_self .., fun j hj => ?_, Nat.le_refl _, fun _ _ _ _ => ⟨rfl, rfl⟩, ?_⟩,
    fun ho => ?_, fun fuel => ?_⟩
  · exact openedData_of_ne hj
  · rintro ⟨j, hj, -⟩
    exact absurd hj (Nat.not_lt_zero j)
  · refine ho.outfile before limit args argslen left (not_not.mp (hanswer.not.mp ?_))
    omega
  · rw [if_neg (by omega), Int.toNat_natCast]
    rfl

/-- Where no input grows, of all or of those before a missing one, the call
returns. -/
theorem xmerge_ends {N : Nat} (hN : N ≤ env.params.numFiles.toNat)
    (hcalm : ∀ k, k < N → ¬ Grows env w₀.data k)
    (hstop : N < env.params.numFiles.toNat → ∀ outfd s, ∃ ret, ∀ fuel,
      mergeFile env w₀.limit outfd fuel N s = some (.error ret)) (args : Addr) (argslen : Nat) :
    ∃ fuel ret, xmerge env args argslen fuel w₀ = some ret := by
  rcases xmerge_opens (fun _ => none) env args argslen N w₀ with
    ⟨ret, hret, -⟩ | ⟨outfd, w₁, hlevel, -, heq⟩
  · exact ⟨0, ret, hret 0⟩
  obtain ⟨fuel, r, hfiles, -⟩ := mergeFiles_level (fun _ => none) w₀.limit (s := ⟨w₁, 0, 0⟩)
    hlevel hcalm (Nat.zero_add N)
  obtain ⟨r', hr'⟩ : ∃ r', mergeFiles env w₀.limit outfd fuel env.params.numFiles.toNat 0
      ⟨w₁, 0, 0⟩ = some r' := by
    rcases Nat.eq_or_lt_of_le hN with heqN | hlt
    · exact ⟨r, heqN ▸ hfiles⟩
    obtain ⟨m, hm⟩ : ∃ m, env.params.numFiles.toNat = N + (m + 1) :=
      ⟨env.params.numFiles.toNat - N - 1, by omega⟩
    rw [hm, mergeFiles_add, hfiles]
    cases r with
    | error ret => exact ⟨_, rfl⟩
    | ok s =>
        obtain ⟨ret, hfile⟩ := hstop hlt outfd s
        refine ⟨.error ret, ?_⟩
        dsimp only
        rw [Nat.zero_add, mergeFiles, hfile]
  exact ⟨fuel, _, by rw [heq, hr', Option.map_some]⟩

/-- Without write access it does, too. -/
theorem xmerge_denied (hdenied : ∀ h c, env.ksysWrite h ≠ .count c) (args : Addr) (argslen : Nat)
    (w₀ : World) : ∃ fuel ret, xmerge env args argslen fuel w₀ = some ret := by
  rcases xmerge_opens (fun _ => none) env args argslen 0 w₀ with
    ⟨ret, hret, -⟩ | ⟨outfd, w₁, -, -, heq⟩
  · exact ⟨0, ret, hret 0⟩
  · obtain ⟨r, hr⟩ := mergeFiles_denied hdenied w₀.limit outfd env.params.numFiles.toNat 0 ⟨w₁, 0, 0⟩
    exact ⟨1, _, by rw [heq, hr, Option.map_some]⟩

/-- If an input grows, those before it are there and nothing fails that need
not, it does not. -/
theorem xmerge_forever (hg : Generous files env) {k : Nat} (hk : k < env.params.numFiles.toNat)
    (hthere : ∀ j, j < k → Found files env (inputName env j)) (hgrows : Grows env w₀.data k)
    (args : Addr) (argslen fuel : Nat) : xmerge env args argslen fuel w₀ = none := by
  induction k using Nat.strongRecOn with
  | ind k ih =>
      by_cases hearlier : ∃ j, j < k ∧ Grows env w₀.data j
      · obtain ⟨j, hj, hgrows'⟩ := hearlier
        exact ih j hj (Nat.lt_trans hj hk) (fun i hi => hthere i (Nat.lt_trans hi hj)) hgrows'
      have hcalm : ∀ j, j < k → ¬ Grows env w₀.data j :=
        fun j hj hgrows' => hearlier ⟨j, hj, hgrows'⟩
      rcases xmerge_opens files env args argslen k w₀ with
        ⟨ret, -, hnot⟩ | ⟨outfd, w₁, hlevel, -, heq⟩
      · exact absurd hg hnot
      obtain ⟨fuel', r, hfiles, hr⟩ :=
        mergeFiles_level files w₀.limit (s := ⟨w₁, 0, 0⟩) hlevel hcalm (Nat.zero_add k)
      obtain ⟨s, q, rfl, hs⟩ := hr.resolve_left (by
        rintro ⟨_, _, hnot⟩
        obtain ⟨j, -, hj, hmissing⟩ := hnot hg
        exact hmissing (hthere j hj))
      -- with enough turns for the files before, the loop of this one does not end
      have hnone : xmerge env args argslen (max fuel fuel') w₀ = none := by
        obtain ⟨m, hm⟩ : ∃ m, env.params.numFiles.toNat = k + (m + 1) :=
          ⟨env.params.numFiles.toNat - k - 1, by omega⟩
        rw [heq, hm, mergeFiles_add, mergeFiles_mono hfiles (Nat.le_max_right ..)]
        dsimp only
        rw [Nat.zero_add, mergeFiles, mergeFile_forever w₀.limit hs hg hgrows]
        rfl
      cases hret : xmerge env args argslen fuel w₀ with
      | none => rfl
      | some ret =>
          rw [xmerge_mono hret (Nat.le_max_left ..)] at hnone
          cases hnone

/-- The environment in which nothing fails that need not. -/
def Env.generous (files : Files) (env : Env) : Env :=
  { env with
    copyFromUser := fun _ => 0
    copyToUser := fun _ => 0
    ksysOpen := fun h =>
      match h.getLast? with
      | some (.printk name) => if Found files env name then none else some ⟨-2, by omega, by omega⟩
      | _ => none
    ksysRead := fun _ => .count pageSize
    ksysWrite := fun _ => .count pageSize }

theorem generous_generous (files : Files) (env : Env) : Generous files (env.generous files) where
  copyFromUser _ := rfl
  outfile h limit src len left := by simp [Env.generous]
  infile h name hfound := by
    have hfound : Found files env name := hfound
    simp [Env.generous, hfound]
  ksysRead _ := rfl
  ksysWrite _ := rfl

/-- It is one that the kernel can be in, where the flags allow the output
file to be opened and written. -/
theorem obeys_generous (hopens : MayOpen files env) (hwrites : MayWrite env) :
    Obeys files (env.generous files) where
  outfile _ _ _ _ _ _ := hopens
  infile h name hopen := by
    by_contra hmissing
    have hmissing : ¬ Found files env name := hmissing
    simp [Env.generous, hmissing] at hopen
  write _ _ _ := hwrites

theorem SameFiles.grows_iff {env' : Env} (h : SameFiles env env')
    (data : Inode → List UInt8) (k : Nat) : Grows env' data k ↔ Grows env data k := by
  simp only [Grows, inputInode, inputFile, openedData, outputInode, appends, h.params, h.word,
    h.inode]

theorem SameFiles.found_iff {env' : Env} (h : SameFiles env env') (k : Nat) :
    Found files env' (inputName env' k) ↔ Found files env (inputName env k) := by
  simp only [Found, inputName, outputInode, h.params, h.word, h.inode]

theorem SameFiles.allows_iff {env' : Env} (h : SameFiles env env') (files : Files) :
    (MayOpen files env' ↔ MayOpen files env) ∧ (MayWrite env' ↔ MayWrite env) := by
  simp only [MayOpen, MayWrite, outputInode, h.params, h.inode]
  exact ⟨Iff.rfl, trivial⟩

/-- The numbers below `n` up to the first without `P`, or all. -/
theorem exists_first_not (P : Nat → Prop) (n : Nat) :
    ∃ N, N ≤ n ∧ (∀ j, j < N → P j) ∧ (N < n → ¬ P N) := by
  classical
  by_cases h : ∃ j, j < n ∧ ¬ P j
  · obtain ⟨hlt, hno⟩ := Nat.find_spec h
    refine ⟨Nat.find h, Nat.le_of_lt hlt, fun j hj => ?_, fun _ => hno⟩
    exact not_not.mp fun hnot => Nat.find_min h hj ⟨Nat.lt_trans hj hlt, hnot⟩
  · refine ⟨n, Nat.le_refl n, fun j hj => ?_, fun hlt => absurd hlt (Nat.lt_irrefl n)⟩
    exact not_not.mp fun hnot => h ⟨j, hj, hnot⟩

/-- The call returns for all that the kernel may answer exactly when the
flags keep the output file from being opened or from being written, or no
input that is the output file has something written to it before it is read
to its end, unless an input before it is missing. -/
theorem xmerge_ends_iff (files : Files) (env : Env) (args : Addr) (argslen : Nat) (w₀ : World) :
    (∀ env', SameFiles env env' → Obeys files env' →
        ∃ fuel ret, xmerge env' args argslen fuel { w₀ with data := files.data } = some ret) ↔
      (MayOpen files env → MayWrite env → ∀ k, k < env.params.numFiles.toNat →
        (∀ j, j < k → Found files env (inputName env j)) → ¬ Grows env files.data k) := by
  constructor
  · intro hends hopens hwrites k hk hthere hgrows
    have hsame : SameFiles env (env.generous files) := ⟨rfl, rfl, rfl⟩
    obtain ⟨fuel, ret, hret⟩ := hends _ hsame (obeys_generous hopens hwrites)
    have hnone : xmerge (env.generous files) args argslen fuel { w₀ with data := files.data } =
        none := xmerge_forever (generous_generous files env) hk
      (fun j hj => (hsame.found_iff j).mpr (hthere j hj)) ((hsame.grows_iff _ k).mpr hgrows)
      args argslen fuel
    rw [hret] at hnone
    cases hnone
  · intro hcalm env' hsame ho
    obtain ⟨hopens_iff, hwrites_iff⟩ := hsame.allows_iff files
    by_cases hwrites : MayWrite env'
    case neg => exact xmerge_denied (fun h c hwrite => hwrites (ho.write h c hwrite)) args argslen _
    rcases xmerge_opens files env' args argslen 0 { w₀ with data := files.data } with
      ⟨ret, hret, -⟩ | ⟨-, -, -, hopens, -⟩
    · exact ⟨0, ret, hret 0⟩
    have hcalm := hcalm (hopens_iff.mp (hopens ho)) (hwrites_iff.mp hwrites)
    obtain ⟨N, hN, hthere, hmissing⟩ := exists_first_not
      (fun j => Found files env' (inputName env' j)) env'.params.numFiles.toNat
    have hstill : ∀ k, k < N → ¬ Grows env' files.data k := by
      intro k hk
      rw [hsame.grows_iff]
      refine hcalm k (by rw [← hsame.params]; omega) fun j hj => (hsame.found_iff j).mp ?_
      exact hthere j (Nat.lt_trans hj hk)
    exact @xmerge_ends env' { w₀ with data := files.data } N hN hstill
      (fun hlt outfd s => mergeFile_missing ho (hmissing hlt) w₀.limit outfd s) args argslen

end Call

/-- The first input is the output file itself, opened with the flags that
the front end uses when none are given. -/
def aliasParams : XmergeParams where
  outfile := 0x100
  infiles := 0x200
  numFiles := 1
  oflags := 0x441
  mode := 0o600
  ofileCount := 0x300

def aliasEnv : Env where
  params := aliasParams
  word := fun _ => 0x100
  inode := fun _ => 20
  copyFromUser := fun _ => 0
  copyToUser := fun _ => 0
  ksysOpen := fun _ => none
  ksysRead := fun _ => .count pageSize
  ksysWrite := fun _ => .count pageSize

/-- A file of one byte is merged into itself. -/
theorem self_merge_forever : aliasParams.oflags &&& oAppend ≠ 0 ∧
    inputInode aliasEnv 0 = aliasEnv.inode aliasEnv.params.outfile ∧
    Obeys (fun _ => some [7]) aliasEnv ∧
    ∀ fuel, xmerge aliasEnv 0 40 fuel { sampleWorld with data := fun _ => [7] } = none := by
  have hopens : MayOpen (fun _ => some [7]) aliasEnv := by decide
  have hwrites : MayWrite aliasEnv := by decide
  have hg : Generous (fun _ => some [7]) aliasEnv :=
    ⟨⟨fun _ => rfl, fun _ => rfl⟩, fun _ => rfl, fun _ _ _ _ _ => rfl, fun _ _ _ => rfl⟩
  refine ⟨by decide, rfl, ⟨fun _ _ _ _ _ _ => hopens, fun _ _ _ => .inl rfl, fun _ _ _ => hwrites⟩,
    fun fuel => ?_⟩
  refine xmerge_forever hg (k := 0) (by decide) (fun j hj => absurd hj (Nat.not_lt_zero j))
    ⟨rfl, 0, .inr ⟨rfl, by decide⟩, ?_⟩ 0 40 fuel
  decide

end Xm

end Comp4511
