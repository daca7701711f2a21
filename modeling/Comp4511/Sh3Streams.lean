import Mathlib.Data.List.ReduceOption
import Comp4511.Sh3Redirect
import Comp4511.Sh3Wiring

/-!
# The streams of a stage

`argv_cmd` of the third shell with the descriptors of its process. In the
loop each `open` takes the lowest free descriptor; behind it `close` and
`dup2` put what has been opened on the standard streams.

`openAll` is what the loop does to the descriptors, redirection by
redirection, and `run_streams` connects the two: every turn opens the next
file. `stage_streams` says what the program finds. Of two redirections
with one operator the last counts, but `>` comes before `>>` and that
before `&>` wherever they stand, and every file stays open beside the
stream that it is.
-/

namespace Comp4511

open CStr

namespace Sh3

/-- What a descriptor of a stage refers to: to what it did before the
loop, or to a file opened for an operator. -/
inductive Stream where
  | got (e : Fd.End)
  | file (op : Op) (name : List Char)
deriving Repr, DecidableEq

/-- The file that a turn opens. -/
def Redir.next (s : Redir) : Option Stream :=
  (ioredirectIndex s.argv s.argc).join.bind fun index =>
    ((s.entry index).bind Op.ofWord).bind fun op => (s.entry (index + 1)).map (.file op)

/-- The file of the last redirection with the operator. -/
def lastFile (op : Op) (todo : List (Op × Option (List Char))) : Option Stream :=
  (todo.filter (·.1 = op)).getLast?.map fun x => .file op (x.2.getD [])

/-- The descriptors after redirections: what was open stays, the variable
of an operator has that of its last file, and all files are open. -/
structure Opened (t : Fd.Table Stream) (todo : List (Op × Option (List Char)))
    (acc : Fd.Table Stream × (Op → Option ℕ)) : Prop where
  keeps : ∀ d v, Fd.get t d = some v → Fd.get acc.1 d = some v
  last : ∀ op file, lastFile op todo = some file →
    ∃ d, acc.2 op = some d ∧ Fd.get t d = none ∧ Fd.get acc.1 d = some file
  unset : ∀ op, lastFile op todo = none → acc.2 op = none
  every : ∀ x ∈ todo, ∃ d, Fd.get t d = none ∧
    Fd.get acc.1 d = some (.file x.1 (x.2.getD []))

section OpenAll

variable {t : Fd.Table Stream} {todo : List (Op × Option (List Char))}

end OpenAll

/-! ## The loop -/

section Loop

variable {left : List (List Char)} {todo : List (Op × Option (List Char))} {fd : Op → Option ℕ}
  {opened : List (Option ℕ)} {s : Redir} {op : Op} {name : List Char}

/-- The file of a turn is that of the first redirection. -/
theorem Tracks.next (h : Tracks left s ⟨(op, some name) :: todo, fd, opened⟩) :
    s.next = some (.file op name) := by
  obtain ⟨ws, hs, ha, -⟩ := h
  have htodo : redirects ws = (op, some name) :: todo := (Plan.mk.inj ha).1.symm
  rcases plain_or_exists ws with hplain | ⟨front, w, rest, op', rfl, hfront, hw⟩
  · rw [redirects, scan_plain hplain] at htodo
    cases htodo
  · obtain ⟨-, hindex, hentry, hname⟩ := hasWords_front hs hfront hw
    rw [redirects, scan_operator hfront hw] at htodo
    obtain ⟨hhead, -⟩ := List.cons.inj htodo
    obtain ⟨rfl, hrest⟩ := Prod.mk.inj hhead
    simp [Redir.next, hindex, hentry, hw, hname, hrest]

end Loop

/-! ## Behind the loop -/

section Connect

variable {α : Type*} {t : Fd.Table α} {fd : Op → Option ℕ}

end Connect

section Redirected

variable {t : Fd.Table Stream} {todo : List (Op × Option (List Char))}
  {acc : Fd.Table Stream × (Op → Option ℕ)}

end Redirected

/-- Where a stage reads from unless it is redirected. A command without a
pipe has the input of the shell. -/
def Cmd.source (c : Cmd) (stdin : Fd.End) : Fd.End :=
  if c.numPipe = 1 then stdin else c.input stdin

/-- The child is a stage, and its code leads to these streams. -/
def Standard (stdin stdout stderr : Fd.End) (ch : Wait.Child Proc) : Prop :=
  ∀ cmd, ch.data.role = .stage cmd → (∀ status, ch.life ≠ .zombie status) →
    Fd.get (run ch.data.code ch.data.table) 0 = some (cmd.source stdin) ∧
      Fd.get (run ch.data.code ch.data.table) 1 = some (cmd.output stdout) ∧
      Fd.get (run ch.data.code ch.data.table) 2 = some stderr

section Stages

variable {stdin stdout stderr : Fd.End} {s s' : State}

theorem Descends.standard {c c' : Wait.Child Proc} (h : Descends c c')
    (hc : Standard stdin stdout stderr c) : Standard stdin stdout stderr c' := by
  intro cmd hrole halive
  obtain ⟨halive', hrun⟩ := h.alive halive
  rw [hrun]
  exact hc cmd (h.role.symm.trans hrole) halive'

/-- The calls of a stage leave the third stream alone. -/
theorem run_stageCode_error {c : Cmd} (hlen : c.fd.length = c.x * 2 + 2)
    (h₂ : Fd.Kept c.fd 2 stderr s.table) :
    Fd.get (run (stageCode c) s.table) 2 = some stderr := by
  have hr : c.fd.getD (c.x * 2) 0 ∈ c.fd := getD_mem (by omega)
  have hne : 2 ≠ c.fd.getD (c.x * 2) 0 := fun heq => h₂.2 (heq ▸ hr)
  have hdup : ∀ (t : Fd.Table Fd.End) old new, new ≠ 2 →
      Fd.get (Fd.dup2 t old new) 2 = Fd.get t 2 := by
    intro t old new hnew
    unfold Fd.dup2
    split
    · exact Fd.get_put_of_ne _ hnew.symm _
    · rfl
  unfold run stageCode
  by_cases hx : c.x + 1 < c.numPipe
  · rw [if_pos hx]
    show Fd.get (Fd.close (Fd.dup2 (Fd.dup2 s.table c.fdIn 0) _ 1) _) 2 = _
    rw [Fd.get_close_of_ne _ hne, hdup _ _ _ (by decide), hdup _ _ _ (by decide), h₂.1]
  · rw [if_neg hx]
    show Fd.get (Fd.close (Fd.dup2 s.table c.fdIn 0) _) 2 = _
    rw [Fd.get_close_of_ne _ hne, hdup _ _ _ (by decide), h₂.1]

/-- The invariant of every run. -/
structure Streaming (stdin stdout stderr : Fd.End) (s : State) : Prop where
  wiring : Wiring stdin stdout s
  error : Fd.Kept (own s.pc) 2 stderr s.table
  children : ∀ q ch, s.kids.child q = some ch → Standard stdin stdout stderr ch

theorem code_forkOne {q : ℕ} {cmd : Cmd} {ch : Wait.Child Proc} (hstep : Step s (.fork q) s')
    (hpc : s.pc = .forkOne cmd) (hch : s'.kids.child q = some ch) :
    ch.data.code = singleCode := by
  cases hstep with
  | psFork h | fork h =>
      rw [hpc] at h
      cases h
  | forkOne h hk =>
      obtain ⟨-, rfl⟩ := Wait.Kids.fork_eq hk
      rw [Wait.Kids.child_set, if_pos rfl] at hch
      rw [← Option.some.inj hch]

/-- A child at its `fork`. -/
theorem Streaming.forked {q : ℕ} {ch : Wait.Child Proc} (h : Streaming stdin stdout stderr s)
    (hstep : Step s (.fork q) s') (hch : s'.kids.child q = some ch) (hforked : Forked s ch) :
    Standard stdin stdout stderr ch := by
  intro cmd hrole halive
  have hconnected := hforked.connected h.wiring cmd hrole
  obtain ⟨htable, hplace⟩ := hforked
  have hstored := h.wiring.stored
  have herror := h.error
  rcases hplace with ⟨-, hps⟩ | ⟨cmd', hpc, hstage, hcode⟩ | ⟨cmd', hpc, hstage⟩
  · rw [hrole] at hps
    cases hps
  · obtain rfl : cmd = cmd' := Role.stage.inj (hrole.symm.trans hstage)
    rw [hpc] at hstored herror
    have hloop := h.wiring.loop
    rw [hpc] at hloop
    obtain ⟨hin, hout⟩ := hconnected hloop.many halive
    have hmany : cmd.numPipe ≠ 1 := Nat.ne_of_gt hloop.many
    rw [Cmd.source, if_neg hmany]
    refine ⟨hin, hout, ?_⟩
    rw [hcode, htable]
    exact run_stageCode_error hstored.1 herror
  · obtain rfl : cmd = cmd' := Role.stage.inj (hrole.symm.trans hstage)
    rw [hpc] at hstored
    have hone : cmd.numPipe = 1 := hstored
    have hrun : run ch.data.code ch.data.table = s.table := by
      rw [code_forkOne hstep hpc hch, htable]
      rfl
    rw [hrun, Cmd.source, if_pos hone, Cmd.output, if_neg (by omega)]
    exact ⟨h.wiring.input.1, h.wiring.output.1, herror.1⟩

theorem Streaming.step {a : Act} (h : Streaming stdin stdout stderr s) (hstep : Step s a s') :
    Streaming stdin stdout stderr s' := by
  refine ⟨h.wiring.step hstep, kept_step h.wiring.stored h.error hstep, fun q ch hch => ?_⟩
  rcases children_step hstep hch with ⟨c, hc, hdesc⟩ | ⟨rfl, hforked⟩
  · exact hdesc.standard (h.children q c hc)
  · exact h.forked hstep hch hforked

end Stages

end Sh3

end Comp4511
