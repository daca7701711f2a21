import Mathlib.Logic.Relation
import Comp4511.XmDeliver

/-!
# `xmerge` call by call

`Step` says what the system call may do next: one constructor for each
kernel function it calls and each way the call may turn out, with the
event it leaves, the descriptors it may change and the answer of the
`Env` it comes from. Of the files it only says that writes alone put
bytes into them.

`xmerge_steps` is the refinement: every run of `xmerge` that returns is a
path of steps to `Pc.returned`. So what every step keeps holds when the
call returns, on all of its return statements at once (`returns_inv`).
-/

namespace Comp4511

namespace Xm

/-- The place in `xmerge`: what is done next. Files are numbered by `x`. -/
inductive Pc where
  | params
  | openOut
  | head (outfd x : Nat)
  | name (outfd x : Nat)
  | openIn (outfd x : Nat)
  | read (outfd infd x : Nat)
  | write (outfd infd x : Nat) (buffer : List UInt8)
  | count (outfd infd x : Nat)
  | closeIn (outfd infd x : Nat)
  | leave (fds : List Nat) (ret : Int)
  | returned (ret : Int)
deriving Repr, DecidableEq

structure Config where
  pc : Pc
  world : World
  bytecount : Int32

/-! ## What a call does to the process -/

/-- A call that neither opens nor closes. The positions of the descriptors
`fds` may move. -/
structure Quiet (fds : List Nat) (e : Event) (w w' : World) : Prop where
  limit : w'.limit = w.limit
  history : w'.history = w.history ++ [e]
  table : ∀ d, d ∉ fds → Fd.get w'.table d = Fd.get w.table d
  same : Fd.SameOpen w'.table w.table
  data : e.offered = [] → w'.data = w.data

structure Opens (fd : Nat) (name : Addr) (w w' : World) : Prop where
  limit : w'.limit = w.limit
  history : w'.history = w.history ++ [.ksysOpen w.limit name fd]
  table : ∀ d, d ≠ fd → Fd.get w'.table d = Fd.get w.table d
  free : Fd.get w.table fd = none
  opened : (Fd.get w'.table fd).isSome
  data : ∀ i, w'.data i = w.data i ∨ w'.data i = []

structure Closes (fd : Nat) (w w' : World) : Prop where
  limit : w'.limit = w.limit
  history : w'.history = w.history ++ [.ksysClose fd]
  table : ∀ d, d ≠ fd → Fd.get w'.table d = Fd.get w.table d
  closed : Fd.get w'.table fd = none
  data : w'.data = w.data

/-! ## Steps -/

section Steps

variable (env : Env) (args : Addr) (argslen : Nat) (oldFs : AddrLimit)

inductive Step : Config → Config → Prop
  | paramsFault {w w' : World} {left : Nat} {b : Int32} :
      left = min (env.copyFromUser w.history) argslen → left ≠ 0 →
      Quiet [] (.copyFromUser w.limit args argslen left) w w' →
      Step ⟨.params, w, b⟩ ⟨.leave [] efault.code, w', b⟩
  | params {w w' : World} {b : Int32} :
      min (env.copyFromUser w.history) argslen = 0 →
      Quiet [] (.copyFromUser w.limit args argslen 0) w w' →
      Step ⟨.params, w, b⟩ ⟨.openOut, w', b⟩
  | openOutFail {w w' : World} {e : Errno} {b : Int32} :
      env.ksysOpen w.history = some e →
      Quiet [] (.ksysOpen w.limit env.params.outfile e.code) w w' →
      Step ⟨.openOut, w, b⟩ ⟨.leave [] e.code, w', b⟩
  | openOut {w w' : World} {fd : Nat} {b : Int32} :
      env.ksysOpen w.history = none → Opens fd env.params.outfile w w' →
      Step ⟨.openOut, w, b⟩ ⟨.head fd 0, w', b⟩
  | last {w : World} {outfd : Nat} {b : Int32} :
      Step ⟨.head outfd env.params.numFiles.toNat, w, b⟩ ⟨.leave [outfd] b.toInt, w, b⟩
  | nameFault {w w' : World} {outfd x left : Nat} {b : Int32} :
      x < env.params.numFiles.toNat →
      left = min (env.copyFromUser w.history) 8 → left ≠ 0 →
      Quiet [] (.copyFromUser w.limit (env.params.nameAt x) 8 left) w w' →
      Step ⟨.head outfd x, w, b⟩ ⟨.leave [outfd] efault.code, w', b⟩
  | head {w w' : World} {outfd x : Nat} {b : Int32} :
      x < env.params.numFiles.toNat → min (env.copyFromUser w.history) 8 = 0 →
      Quiet [] (.copyFromUser w.limit (env.params.nameAt x) 8 0) w w' →
      Step ⟨.head outfd x, w, b⟩ ⟨.name outfd x, w', b⟩
  | name {w w' : World} {outfd x : Nat} {b : Int32} :
      Quiet [] (.printk (inputName env x)) w w' →
      Step ⟨.name outfd x, w, b⟩ ⟨.openIn outfd x, w', b⟩
  | openInFail {w w' : World} {outfd x : Nat} {e : Errno} {b : Int32} :
      env.ksysOpen w.history = some e →
      Quiet [] (.ksysOpen w.limit (inputName env x) e.code) w w' →
      Step ⟨.openIn outfd x, w, b⟩ ⟨.leave [outfd] e.code, w', b⟩
  | openIn {w w' : World} {outfd infd x : Nat} {b : Int32} :
      env.ksysOpen w.history = none → Opens infd (inputName env x) w w' →
      Step ⟨.openIn outfd x, w, b⟩ ⟨.read outfd infd x, w', b⟩
  | eof {w w' : World} {outfd infd x : Nat} {b : Int32} :
      Quiet [infd] (.ksysRead infd 0) w w' →
      Step ⟨.read outfd infd x, w, b⟩ ⟨.count outfd infd x, w', b⟩
  | readFail {w w' : World} {outfd infd x : Nat} {e : Errno} {b : Int32} :
      env.ksysRead w.history = .error e ∨ Fd.get w.table infd = none →
      Quiet [infd] (.ksysRead infd e.code) w w' →
      Step ⟨.read outfd infd x, w, b⟩ ⟨.leave [outfd, infd] e.code, w', b⟩
  | read {w w' : World} {outfd infd x : Nat} {buffer : List UInt8} {b : Int32} :
      buffer ≠ [] → (∃ i, buffer.Sublist (w.data i)) →
      Quiet [infd] (.ksysRead infd buffer.length) w w' →
      Step ⟨.read outfd infd x, w, b⟩
        ⟨.write outfd infd x buffer, w', b + Int32.ofNat buffer.length⟩
  | writeFail {w w' : World} {outfd infd x : Nat} {buffer : List UInt8} {e : Errno} {b : Int32} :
      env.ksysWrite w.history = .error e ∨ Fd.get w.table outfd = none →
      Quiet [outfd] (.ksysWrite outfd buffer e.code) w w' →
      Step ⟨.write outfd infd x buffer, w, b⟩ ⟨.leave [outfd, infd] e.code, w', b⟩
  | write {w w' : World} {outfd infd x n : Nat} {buffer : List UInt8} {b : Int32} :
      Quiet [outfd] (.ksysWrite outfd buffer n) w w' →
      Step ⟨.write outfd infd x buffer, w, b⟩ ⟨.read outfd infd x, w', b⟩
  | count {w w' : World} {outfd infd x left : Nat} {b : Int32} :
      left = min (env.copyToUser w.history) 4 →
      Quiet [] (.copyToUser w.limit env.params.ofileCount 4 left) w w' →
      Step ⟨.count outfd infd x, w, b⟩ ⟨.closeIn outfd infd x, w', b⟩
  | closeIn {w w' : World} {outfd infd x : Nat} {b : Int32} : Closes infd w w' →
      Step ⟨.closeIn outfd infd x, w, b⟩ ⟨.head outfd (x + 1), w', b⟩
  | close {w w' : World} {fd : Nat} {fds : List Nat} {ret : Int} {b : Int32} : Closes fd w w' →
      Step ⟨.leave (fd :: fds) ret, w, b⟩ ⟨.leave fds ret, w', b⟩
  | restore {w : World} {ret : Int} {b : Int32} :
      Step ⟨.leave [] ret, w, b⟩ ⟨.returned ret, setFs w oldFs, b⟩

/-- Paths of steps. -/
def Steps : Config → Config → Prop := Relation.ReflTransGen (Step env args argslen oldFs)

/-- From `c` the call may return `ret`. -/
def Ends (c : Config) (ret : Int × World) : Prop :=
  ∃ b, Steps env args argslen oldFs c ⟨.returned ret.1, ret.2, b⟩

end Steps

/-! ## The calls are steps -/

section Calls

variable {env : Env} {w : World}

theorem Quiet.log (fds : List Nat) (e : Event) (w : World) : Quiet fds e w (w.log e) :=
  ⟨rfl, rfl, fun _ _ => rfl, fun _ => rfl, fun _ => rfl⟩

/-- The position of an open descriptor moves. -/
theorem Quiet.put {fd : Nat} {f f' : OpenFile} {e : Event} {data : Inode → List UInt8}
    (hf : Fd.get w.table fd = some f) (hdata : e.offered = [] → data = w.data) :
    Quiet [fd] e w { w.log e with table := Fd.put w.table fd (some f'), data := data } := by
  refine ⟨rfl, rfl, fun d hd => ?_, fun d => ?_, hdata⟩
  · exact Fd.get_put_of_ne _ (List.ne_of_not_mem_cons hd) _
  · show (Fd.get (Fd.put w.table fd (some f')) d).isSome = _
    rw [Fd.get_put]
    split
    · next h => rw [h, hf]; rfl
    · rfl

theorem quiet_copyFromUser (env : Env) (w : World) (src : Addr) (len : Nat) :
    Quiet [] (.copyFromUser w.limit src len (copyFromUser env w src len).1) w
      (copyFromUser env w src len).2 :=
  Quiet.log ..

theorem quiet_copyToUser (env : Env) (w : World) (value : Int32) :
    Quiet [] (.copyToUser w.limit env.params.ofileCount 4 (copyToUser env w value).1) w
      (copyToUser env w value).2 := by
  unfold copyToUser
  dsimp only
  split
  · exact ⟨rfl, rfl, fun _ _ => rfl, fun _ => rfl, fun _ => rfl⟩
  · exact Quiet.log ..

theorem closes_ksysClose (fd : Nat) (w : World) : Closes fd w (ksysClose w fd) :=
  ⟨rfl, rfl, fun _ hd => Fd.get_close_of_ne _ hd, Fd.get_close_self .., rfl⟩

/-- An open fails or takes a free number. -/
theorem ksysOpen_spec (env : Env) (w : World) (name : Addr) (flags : Int32) :
    (∃ e, env.ksysOpen w.history = some e ∧ ∃ w', ksysOpen env w name flags = (e.code, w') ∧
      Quiet [] (.ksysOpen w.limit name e.code) w w') ∨
    env.ksysOpen w.history = none ∧ ∃ (fd : Nat) (w' : World),
      ksysOpen env w name flags = ((fd : Int), w') ∧ Opens fd name w w' := by
  unfold ksysOpen
  cases env.ksysOpen w.history with
  | some e => exact .inl ⟨e, rfl, _, rfl, Quiet.log ..⟩
  | none =>
      refine .inr ⟨rfl, _, _, rfl, rfl, rfl, fun d hd => ?_, Fd.get_lowest _, ?_, fun i => ?_⟩
      · exact Fd.get_put_of_ne _ hd _
      · show (Fd.get (Fd.put _ _ _) _).isSome = true
        rw [Fd.get_put_self]
        rfl
      · show (if flags &&& oTrunc ≠ 0 then Function.update w.data (env.inode name) []
          else w.data) i = w.data i ∨ (if flags &&& oTrunc ≠ 0 then
            Function.update w.data (env.inode name) [] else w.data) i = []
        split
        · by_cases hi : i = env.inode name
          · subst hi
            exact .inr (Function.update_self ..)
          · exact .inl (Function.update_of_ne hi ..)
        · exact .inl rfl

/-- A read fails or takes as many bytes of a file as it returns. -/
theorem ksysRead_spec (env : Env) (w : World) (fd count : Nat) :
    (∃ (e : Errno) (w' : World), ksysRead env w fd count = (e.code, [], w') ∧
      (env.ksysRead w.history = .error e ∨ Fd.get w.table fd = none) ∧
      Quiet [fd] (.ksysRead fd e.code) w w') ∨
    ∃ (buffer : List UInt8) (w' : World),
      ksysRead env w fd count = ((buffer.length : Int), buffer, w') ∧
      (∃ i, buffer.Sublist (w.data i)) ∧
      Quiet [fd] (.ksysRead fd buffer.length) w w' := by
  unfold ksysRead
  cases hf : Fd.get w.table fd with
  | none => exact .inl ⟨ebadf, _, rfl, .inr rfl, Quiet.log ..⟩
  | some f =>
      cases env.ksysRead w.history with
      | error e => exact .inl ⟨e, _, rfl, .inl rfl, Quiet.log ..⟩
      | count c =>
          right
          dsimp only
          have hle : clip c (min count ((w.data f.inode).drop f.pos).length)
              ≤ ((w.data f.inode).drop f.pos).length :=
            Nat.le_trans (clip_le ..) (Nat.min_le_right ..)
          generalize clip c (min count ((w.data f.inode).drop f.pos).length) = n at hle ⊢
          have hlen : (((w.data f.inode).drop f.pos).take n).length = n :=
            List.length_take_of_le hle
          refine ⟨((w.data f.inode).drop f.pos).take n, _, Prod.ext ?_ rfl, ⟨f.inode, ?_⟩, ?_⟩
          · exact congrArg Nat.cast hlen.symm
          · exact (List.take_sublist ..).trans (List.drop_sublist ..)
          · rw [hlen]
            exact Quiet.put hf fun _ => rfl

theorem ksysWrite_spec (env : Env) (w : World) (fd : Nat) {buffer : List UInt8}
    (hne : buffer ≠ []) :
    (∃ (e : Errno) (w' : World), ksysWrite env w fd buffer = (e.code, w') ∧
      (env.ksysWrite w.history = .error e ∨ Fd.get w.table fd = none) ∧
      Quiet [fd] (.ksysWrite fd buffer e.code) w w') ∨
    ∃ (n : Nat) (w' : World), ksysWrite env w fd buffer = ((n : Int), w') ∧
      Quiet [fd] (.ksysWrite fd buffer n) w w' := by
  unfold ksysWrite
  cases hf : Fd.get w.table fd with
  | none => exact .inl ⟨ebadf, _, rfl, .inr rfl, Quiet.log ..⟩
  | some f =>
      cases env.ksysWrite w.history with
      | error e => exact .inl ⟨e, _, rfl, .inl rfl, Quiet.log ..⟩
      | count c =>
          refine .inr ⟨clip c buffer.length, _, rfl, Quiet.put hf fun hoff => ?_⟩
          have hnonneg : ¬ (clip c buffer.length : Int) < 0 := by omega
          simp only [Event.offered, if_neg hnonneg] at hoff
          exact absurd hoff hne

end Calls

/-! ## Runs are paths -/

section Runs

variable {env : Env} {args : Addr} {argslen : Nat} {oldFs : AddrLimit}

theorem Ends.after {c c' : Config} {ret : Int × World} (h : Steps env args argslen oldFs c c')
    (h' : Ends env args argslen oldFs c' ret) : Ends env args argslen oldFs c ret := by
  obtain ⟨b, hb⟩ := h'
  exact ⟨b, h.trans hb⟩

/-- From `c` the call comes to `here` or returns early. -/
def Arrives {α : Type} (env : Env) (args : Addr) (argslen : Nat) (oldFs : AddrLimit) (c : Config)
    (here : α → Config) : Except (Int × World) α → Prop
  | .ok a => Steps env args argslen oldFs c (here a)
  | .error ret => Ends env args argslen oldFs c ret

theorem Arrives.after {α : Type} {c c' : Config} {here : α → Config}
    {r : Except (Int × World) α} (h : Steps env args argslen oldFs c c')
    (h' : Arrives env args argslen oldFs c' here r) : Arrives env args argslen oldFs c here r := by
  cases r with
  | ok a => exact h.trans h'
  | error ret => exact Ends.after h h'

section Returns

variable (env args argslen oldFs)

theorem ends_bail (fds : List Nat) (ret : Int) (w : World) (b : Int32) :
    Ends env args argslen oldFs ⟨.leave fds ret, w, b⟩ (bail w oldFs fds ret) := by
  induction fds generalizing w with
  | nil => exact ⟨b, .single .restore⟩
  | cons fd fds ih => exact Ends.after (.single (.close (closes_ksysClose fd w))) (ih _)

end Returns

/-- An early return after one more step. -/
theorem ends_after {c : Config} {fds : List Nat} {ret : Int} {w : World} {b : Int32}
    (h : Step env args argslen oldFs c ⟨.leave fds ret, w, b⟩) :
    Ends env args argslen oldFs c (bail w oldFs fds ret) := by
  exact Ends.after (.single h) (ends_bail env args argslen oldFs fds ret w b)

variable (args argslen)

/-- One turn of the copying loop. -/
theorem copyTurn_steps (env : Env) (oldFs : AddrLimit) (outfd infd x : Nat) (s : Copy) :
    match copyTurn env oldFs outfd infd s with
    | .again s' => Steps env args argslen oldFs ⟨.read outfd infd x, s.world, s.bytecount⟩
        ⟨.read outfd infd x, s'.world, s'.bytecount⟩
    | .done r => Arrives env args argslen oldFs ⟨.read outfd infd x, s.world, s.bytecount⟩
        (fun s' : Copy => ⟨.count outfd infd x, s'.world, s'.bytecount⟩) r := by
  unfold copyTurn
  rcases ksysRead_spec env s.world infd pageSize with
    ⟨e, w, hread, hwhy, hquiet⟩ | ⟨buffer, w, hread, hpart, hquiet⟩
  · have hneg := e.neg
    rw [hread]
    dsimp only
    rw [if_neg (by omega), if_pos hneg]
    exact ends_after (.readFail hwhy hquiet)
  rw [hread]
  dsimp only
  by_cases hnil : buffer = []
  · subst hnil
    exact .single (.eof hquiet)
  have hpos := List.length_pos_iff.mpr hnil
  rw [if_neg (by omega), if_neg (by omega)]
  have hmove : Step env args argslen oldFs ⟨.read outfd infd x, s.world, s.bytecount⟩
      ⟨.write outfd infd x buffer, w, s.bytecount + Int32.ofNat buffer.length⟩ :=
    .read hnil hpart hquiet
  rcases ksysWrite_spec env w outfd hnil with
    ⟨e, w', hwrite, hwhy, hquiet'⟩ | ⟨n, w', hwrite, hquiet'⟩
  · rw [hwrite]
    dsimp only
    rw [if_pos e.neg]
    exact Arrives.after (.single hmove) (ends_after (.writeFail hwhy hquiet'))
  · rw [hwrite]
    dsimp only
    rw [if_neg (by omega)]
    exact .head hmove (.single (.write hquiet'))

theorem copyLoop_steps {outfd infd fuel : Nat} (x : Nat) {s : Copy}
    {r : Except (Int × World) Copy}
    (h : Loop.run (copyTurn env oldFs outfd infd) fuel s = some r) :
    Arrives env args argslen oldFs ⟨.read outfd infd x, s.world, s.bytecount⟩
      (fun s' : Copy => ⟨.count outfd infd x, s'.world, s'.bytecount⟩) r := by
  induction fuel generalizing s with
  | zero => exact nomatch h
  | succ fuel ih =>
      have hturn := copyTurn_steps args argslen env oldFs outfd infd x s
      cases hbody : copyTurn env oldFs outfd infd s with
      | again s' =>
          rw [hbody] at hturn
          rw [Loop.run_again hbody] at h
          exact Arrives.after hturn (ih h)
      | done r' =>
          rw [hbody] at hturn
          rw [Loop.run_done hbody] at h
          obtain rfl := Option.some.inj h
          exact hturn

/-- The body of the loop over the files. -/
theorem mergeFile_steps {outfd fuel x : Nat} {s : Merge} {r : Except (Int × World) Merge}
    (hx : x < env.params.numFiles.toNat) (h : mergeFile env oldFs outfd fuel x s = some r) :
    Arrives env args argslen oldFs ⟨.head outfd x, s.world, s.bytecount⟩
      (fun s' : Merge => ⟨.head outfd (x + 1), s'.world, s'.bytecount⟩) r := by
  have hquiet := quiet_copyFromUser env s.world (env.params.nameAt x) 8
  unfold mergeFile at h
  dsimp only at h
  split at h
  · next hleft =>
      obtain rfl := Option.some.inj h
      exact ends_after (.nameFault hx rfl hleft hquiet)
  next hleft =>
  have hleft := not_not.mp hleft
  rw [hleft] at hquiet
  have hhead : Step env args argslen oldFs ⟨.head outfd x, s.world, s.bytecount⟩
      ⟨.name outfd x, (copyFromUser env s.world (env.params.nameAt x) 8).2, s.bytecount⟩ :=
    .head hx hleft hquiet
  generalize (copyFromUser env s.world (env.params.nameAt x) 8).2 = w at h hhead
  have hname : Steps env args argslen oldFs ⟨.head outfd x, s.world, s.bytecount⟩
      ⟨.openIn outfd x, w.log (.printk (inputName env x)), s.bytecount⟩ :=
    .head hhead (.single (.name (Quiet.log ..)))
  refine Arrives.after hname ?_
  rcases ksysOpen_spec env (w.log (.printk (inputName env x))) (inputName env x) oRdonly with
    ⟨e, hwhy, w', hopen, hquiet'⟩ | ⟨hwhy, infd, w', hopen, hopens⟩
  · rw [show env.word (env.params.nameAt x) = inputName env x from rfl, hopen] at h
    dsimp only at h
    rw [if_pos e.neg] at h
    obtain rfl := Option.some.inj h
    exact ends_after (.openInFail hwhy hquiet')
  rw [show env.word (env.params.nameAt x) = inputName env x from rfl, hopen] at h
  dsimp only at h
  rw [if_neg (by omega), Int.toNat_natCast] at h
  refine Arrives.after (.single (.openIn hwhy hopens)) ?_
  obtain ⟨r', hrun, rfl⟩ := Option.map_eq_some_iff.mp h
  have hcopy := copyLoop_steps args argslen x hrun
  cases r' with
  | error ret => exact hcopy
  | ok c =>
      refine Arrives.after hcopy ?_
      have hcount := quiet_copyToUser env c.world (s.filecount + 1)
      show Arrives env args argslen oldFs _ _ (fileDone env oldFs outfd infd s.filecount c)
      unfold fileDone
      dsimp only
      rw [if_neg (by omega)]
      exact .head (.count rfl hcount) (.single (.closeIn (closes_ksysClose ..)))

theorem mergeFiles_steps {outfd fuel n x : Nat} {s : Merge} {r : Except (Int × World) Merge}
    (hx : x + n = env.params.numFiles.toNat)
    (h : mergeFiles env oldFs outfd fuel n x s = some r) :
    Arrives env args argslen oldFs ⟨.head outfd x, s.world, s.bytecount⟩
      (fun s' : Merge => ⟨.head outfd env.params.numFiles.toNat, s'.world, s'.bytecount⟩) r := by
  induction n generalizing x s with
  | zero =>
      obtain rfl := Option.some.inj h
      rw [← hx]
      exact .refl
  | succ n ih =>
      rw [mergeFiles] at h
      cases hfile : mergeFile env oldFs outfd fuel x s with
      | none =>
          rw [hfile] at h
          cases h
      | some r' =>
          have hbody := mergeFile_steps args argslen (by omega) hfile
          rw [hfile] at h
          cases r' with
          | error ret =>
              obtain rfl := Option.some.inj h
              exact hbody
          | ok s' => exact Arrives.after hbody (ih (by omega) h)

variable {args argslen}

/-- Every run of `xmerge` that returns is a path. -/
theorem xmerge_steps {fuel : Nat} {w₀ : World} {ret : Int × World}
    (h : xmerge env args argslen fuel w₀ = some ret) :
    Ends env args argslen w₀.limit ⟨.params, setFs w₀ .kernel, 0⟩ ret := by
  have hquiet := quiet_copyFromUser env (setFs w₀ .kernel) args argslen
  unfold xmerge at h
  dsimp only at h
  split at h
  · next hleft =>
      obtain rfl := Option.some.inj h
      exact ends_after (.paramsFault rfl hleft hquiet)
  next hleft =>
  have hleft := not_not.mp hleft
  rw [hleft] at hquiet
  have hparams : Step env args argslen w₀.limit ⟨.params, setFs w₀ .kernel, 0⟩
      ⟨.openOut, (copyFromUser env (setFs w₀ .kernel) args argslen).2, 0⟩ :=
    .params hleft hquiet
  generalize (copyFromUser env (setFs w₀ .kernel) args argslen).2 = w at h hparams
  refine Ends.after (.single hparams) ?_
  rcases ksysOpen_spec env w env.params.outfile env.params.oflags with
    ⟨e, hwhy, w', hopen, hquiet'⟩ | ⟨hwhy, outfd, w', hopen, hopens⟩
  · rw [hopen] at h
    dsimp only at h
    rw [if_pos e.neg] at h
    obtain rfl := Option.some.inj h
    exact ends_after (.openOutFail hwhy hquiet')
  rw [hopen] at h
  dsimp only at h
  rw [if_neg (by omega), Int.toNat_natCast] at h
  refine Ends.after (.single (.openOut hwhy hopens)) ?_
  obtain ⟨r, hfiles, hr⟩ := Option.map_eq_some_iff.mp h
  have hmerge := mergeFiles_steps args argslen (Nat.zero_add _) hfiles
  cases r with
  | error ret' =>
      obtain rfl : ret' = ret := hr
      exact hmerge
  | ok s =>
      obtain rfl := hr
      refine Ends.after hmerge (Ends.after (.single .last) ?_)
      exact ends_bail env args argslen w₀.limit [outfd] s.bytecount.toInt s.world s.bytecount

/-- Where a call made in `w₀` begins. -/
def start (w₀ : World) : Config := ⟨.params, setFs w₀ .kernel, 0⟩

/-- What every step keeps holds wherever the call comes to. -/
theorem steps_inv {I : Config → Prop} {w₀ : World} {c : Config}
    (hkeep : ∀ c c', I c → Step env args argslen w₀.limit c c' → I c') (hstart : I (start w₀))
    (h : Steps env args argslen w₀.limit (start w₀) c) : I c := by
  induction h with
  | refl => exact hstart
  | tail _ hstep ih => exact hkeep _ _ ih hstep

/-- So it holds when the call returns. -/
theorem returns_inv {I : Config → Prop} {fuel : Nat} {w₀ w : World} {r : Int}
    (hkeep : ∀ c c', I c → Step env args argslen w₀.limit c c' → I c') (hstart : I (start w₀))
    (h : xmerge env args argslen fuel w₀ = some (r, w)) : ∃ b, I ⟨.returned r, w, b⟩ := by
  obtain ⟨b, hb⟩ := xmerge_steps h
  exact ⟨b, steps_inv hkeep hstart hb⟩

end Runs

end Xm

end Comp4511
