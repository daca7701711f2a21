import Mathlib.Algebra.GroupWithZero.Nat
import Mathlib.Algebra.Ring.Int.Defs
import Mathlib.Logic.Function.Basic
import Comp4511.Fd
import Comp4511.Loops

/-!
# The system call of `xmerge.c`

`xmerge` lifts the address limit, copies its parameter record from the
caller, opens the output file and then, file by file, copies the name,
opens it, moves its contents in pieces of a page and stores the number of
files done.

The kernel functions it calls are not part of the repository. What they
do to the process and to the files is modelled here: descriptors are
allocated and closed, a read takes bytes at the position of its
descriptor, a write puts them there. What they *answer* is up to an
`Env`, which may let any call fail, a read return fewer bytes than asked
for and a write take fewer than offered; it sees the history of the call
so far, so any behaviour can be had. An answer is clipped to what the
interface allows: a read of a file that is not at its end, and a write,
move at least one byte.

Every call leaves an event in the history, with the address limit it was
made under. The loop that copies one file may not end, so `xmerge` takes
the number of turns it may make.
-/

namespace Comp4511

namespace Xm

/-! ## Data -/

/-- An address of the caller. -/
abbrev Addr := UInt64

/-- A file, apart from its names. -/
abbrev Inode := Nat

/-- `mm_segment_t`: user space, or everything (`get_ds()`). -/
inductive AddrLimit where
  | user
  | kernel
deriving Repr, DecidableEq

/-- `struct xmerge_params`. -/
structure XmergeParams where
  outfile : Addr
  infiles : Addr
  numFiles : UInt32
  oflags : Int32
  mode : UInt32
  ofileCount : Addr
deriving Repr, DecidableEq

/-- A negative error number, down to `-MAX_ERRNO`. Being so small it is
the same in the `long` a call returns and the `int` it is stored in. -/
structure Errno where
  code : Int
  neg : code < 0
  low : -4095 ≤ code
deriving Repr, DecidableEq

def efault : Errno := ⟨-14, by decide, by decide⟩

def ebadf : Errno := ⟨-9, by decide, by decide⟩

/-- What the kernel answers to a read or a write: an error, or a number of
bytes it is ready to move. -/
inductive Answer where
  | error (e : Errno)
  | count (n : Nat)
deriving Repr, DecidableEq

/-- The calls of `xmerge`, with what they returned. For the two user
copies that is the number of bytes not copied. -/
inductive Event where
  | copyFromUser (limit : AddrLimit) (src : Addr) (len left : Nat)
  | printk (name : Addr)
  | ksysOpen (limit : AddrLimit) (name : Addr) (result : Int)
  | ksysRead (fd : Nat) (result : Int)
  | ksysWrite (fd : Nat) (buffer : List UInt8) (result : Int)
  | copyToUser (limit : AddrLimit) (dst : Addr) (len left : Nat)
  | ksysClose (fd : Nat)
deriving Repr, DecidableEq

/-- An open file description. -/
structure OpenFile where
  inode : Inode
  pos : Nat
  append : Bool
deriving Repr, DecidableEq

/-- The caller's process and the files. `ofileCount` is the caller's
`int` that `xp.ofile_count` points to. -/
structure World where
  limit : AddrLimit
  table : Fd.Table OpenFile
  data : Inode → List UInt8
  ofileCount : Int32
  history : List Event

/-- What the rest of the system supplies: the parameter record at `args`,
the pointers in the caller's memory, the files the names denote, and the
answers to the calls. -/
structure Env where
  params : XmergeParams
  word : Addr → Addr
  inode : Addr → Inode
  copyFromUser : List Event → Nat
  copyToUser : List Event → Nat
  ksysOpen : List Event → Option Errno
  ksysRead : List Event → Answer
  ksysWrite : List Event → Answer

/-! ## The kernel's side of the calls -/

def pageSize : Nat := 4096

def oRdonly : Int32 := 0

def oWronly : Int32 := 1

def oCreat : Int32 := 0x40

def oExcl : Int32 := 0x80

def oTrunc : Int32 := 0x200

def oAppend : Int32 := 0x400

/-- Write `bytes` into a file at `pos`, past a hole if need be. -/
def writeAt (contents : List UInt8) (pos : Nat) (bytes : List UInt8) : List UInt8 :=
  contents.take pos ++ List.replicate (pos - contents.length) 0 ++ bytes
    ++ contents.drop (pos + bytes.length)

/-- The bytes moved when `c` are on offer and `n` can be: at least one if
any can. -/
def clip (c n : Nat) : Nat := min (max 1 c) n

def World.log (w : World) (e : Event) : World :=
  { w with history := w.history ++ [e] }

def setFs (w : World) (limit : AddrLimit) : World :=
  { w with limit := limit }

section Calls

variable (env : Env) (w : World)

def copyFromUser (src : Addr) (len : Nat) : Nat × World :=
  let left := min (env.copyFromUser w.history) len
  (left, w.log (.copyFromUser w.limit src len left))

/-- `copy_to_user` of an `int` to `xp.ofile_count`. -/
def copyToUser (value : Int32) : Nat × World :=
  let left := min (env.copyToUser w.history) 4
  let w' := w.log (.copyToUser w.limit env.params.ofileCount 4 left)
  (left, if left = 0 then { w' with ofileCount := value } else w')

def ksysOpen (name : Addr) (flags : Int32) : Int × World :=
  match env.ksysOpen w.history with
  | some e => (e.code, w.log (.ksysOpen w.limit name e.code))
  | none =>
      let i := env.inode name
      let (fd, table) := Fd.alloc w.table { inode := i, pos := 0, append := flags &&& oAppend ≠ 0 }
      (fd, { w.log (.ksysOpen w.limit name fd) with
        table := table
        data := if flags &&& oTrunc ≠ 0 then Function.update w.data i [] else w.data })

/-- `ksys_read`: the result and the bytes it puts into the buffer. -/
def ksysRead (fd count : Nat) : Int × List UInt8 × World :=
  match Fd.get w.table fd, env.ksysRead w.history with
  | none, _ => (ebadf.code, [], w.log (.ksysRead fd ebadf.code))
  | some _, .error e => (e.code, [], w.log (.ksysRead fd e.code))
  | some f, .count c =>
      let rest := (w.data f.inode).drop f.pos
      let n := clip c (min count rest.length)
      (n, rest.take n, { w.log (.ksysRead fd n) with
        table := Fd.put w.table fd (some { f with pos := f.pos + n }) })

def ksysWrite (fd : Nat) (buffer : List UInt8) : Int × World :=
  match Fd.get w.table fd, env.ksysWrite w.history with
  | none, _ => (ebadf.code, w.log (.ksysWrite fd buffer ebadf.code))
  | some _, .error e => (e.code, w.log (.ksysWrite fd buffer e.code))
  | some f, .count c =>
      let n := clip c buffer.length
      let pos := if f.append then (w.data f.inode).length else f.pos
      (n, { w.log (.ksysWrite fd buffer n) with
        table := Fd.put w.table fd (some { f with pos := pos + n })
        data := Function.update w.data f.inode (writeAt (w.data f.inode) pos (buffer.take n)) })

end Calls

def ksysClose (w : World) (fd : Nat) : World :=
  { w.log (.ksysClose fd) with table := Fd.close w.table fd }

/-! ## The system call -/

/-- An early return: descriptors are closed, the limit is put back. -/
def bail (w : World) (oldFs : AddrLimit) (fds : List Nat) (ret : Int) : Int × World :=
  (ret, setFs (fds.foldl ksysClose w) oldFs)

/-- The state of the copying loop. -/
structure Copy where
  world : World
  bytecount : Int32

/-- One turn of `while ((read = ksys_read(...)) != 0)`. It ends with the
state after the loop, or with what `xmerge` returns early. -/
def copyTurn (env : Env) (oldFs : AddrLimit) (outfd infd : Nat) (s : Copy) :
    Loop.Turn Copy (Except (Int × World) Copy) :=
  let (read, buffer, w) := ksysRead env s.world infd pageSize
  if read = 0 then .done (.ok { s with world := w })
  else if read < 0 then .done (.error (bail w oldFs [outfd, infd] read))
  else
    -- computed as `long`, stored as `int`
    let bytecount := s.bytecount + Int32.ofInt read
    let (err, w) := ksysWrite env w outfd buffer
    if err < 0 then .done (.error (bail w oldFs [outfd, infd] err))
    else .again { world := w, bytecount := bytecount }

/-- The state of the loop over the files. -/
structure Merge where
  world : World
  filecount : Int32
  bytecount : Int32

/-- `xp.infiles + x`, with `x` an `int`. -/
def XmergeParams.nameAt (xp : XmergeParams) (x : Nat) : Addr :=
  xp.infiles + UInt64.ofInt (8 * (Int32.ofNat x).toInt)

/-- The end of the loop body, after a file has been copied. The number of
bytes `copy_to_user` did not copy is stored in an `int` and compared with
zero from below. -/
def fileDone (env : Env) (oldFs : AddrLimit) (outfd infd : Nat) (filecount : Int32) (s : Copy) :
    Except (Int × World) Merge :=
  let filecount := filecount + 1
  let (err, w) := copyToUser env s.world filecount
  if (err : Int) < 0 then .error (bail w oldFs [outfd, infd] efault.code)
  else .ok { world := ksysClose w infd, filecount := filecount, bytecount := s.bytecount }

/-- The body of the loop over the files. -/
def mergeFile (env : Env) (oldFs : AddrLimit) (outfd fuel x : Nat) (s : Merge) :
    Option (Except (Int × World) Merge) :=
  let (left, w) := copyFromUser env s.world (env.params.nameAt x) 8
  if left ≠ 0 then some (.error (bail w oldFs [outfd] efault.code))
  else
    let infilename := env.word (env.params.nameAt x)
    let w := w.log (.printk infilename)
    let (infd, w) := ksysOpen env w infilename oRdonly
    if infd < 0 then some (.error (bail w oldFs [outfd] infd))
    else
      (Loop.run (copyTurn env oldFs outfd infd.toNat) fuel
        { world := w, bytecount := s.bytecount }).map fun r =>
          r.bind (fileDone env oldFs outfd infd.toNat s.filecount)

/-- The loop over the files from number `x`, with `n` of them left. -/
def mergeFiles (env : Env) (oldFs : AddrLimit) (outfd fuel : Nat) :
    Nat → Nat → Merge → Option (Except (Int × World) Merge)
  | 0, _, s => some (.ok s)
  | n + 1, x, s =>
      match mergeFile env oldFs outfd fuel x s with
      | some (.ok s) => mergeFiles env oldFs outfd fuel n (x + 1) s
      | r => r

/-- `xmerge`, with at most `fuel` turns of each copying loop. -/
def xmerge (env : Env) (args : Addr) (argslen fuel : Nat) (w : World) : Option (Int × World) :=
  let oldFs := w.limit
  let w := setFs w .kernel
  let (left, w) := copyFromUser env w args argslen
  if left ≠ 0 then some (bail w oldFs [] efault.code)
  else
    let xp := env.params
    let (outfd, w) := ksysOpen env w xp.outfile xp.oflags
    if outfd < 0 then some (bail w oldFs [] outfd)
    else
      (mergeFiles env oldFs outfd.toNat fuel xp.numFiles.toNat 0
        { world := w, filecount := 0, bytecount := 0 }).map fun r =>
          match r with
          | .error ret => ret
          | .ok s => (s.bytecount.toInt, setFs (ksysClose s.world outfd.toNat) oldFs)

end Xm

end Comp4511
