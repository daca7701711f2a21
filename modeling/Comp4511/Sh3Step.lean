import Comp4511.Fd
import Comp4511.Wait

/-!
# The command loop of the third shell

`main` and `process_cmd` of `ASS3/myshell.c` as a machine: one step is one
system call of the shell, or the code between two of them. The children
are processes of their own, with a copy of the descriptor table and of
the variables of `process_cmd`; between `fork` and `argv_cmd` a child runs
straight through a few calls, which are its `code`. Between any two steps
of the shell each child may make its next step, exit, stop or go on, and
the handler of `SIGCHLD` may run (`Wait.Kids.step`).

A line enters as what `get_cmd_line`, the comparison with `jobs` and
`tokenize` make of it: nothing, `exit`, `jobs`, or a pipeline with a
number of stages. `fork`, `pipe` and the `exec` of `ps` succeed, and the
array `fd` is taken to be large enough. The terminal's foreground group
is left out, as nothing in the source asks for it.
-/

namespace Comp4511

namespace Sh3

/-- What is done with a line after the snapshot of `ps`. -/
inductive Todo where
  | jobs
  | command (background : Bool) (numPipe : ℕ)
deriving Repr, DecidableEq

inductive Line where
  | blank
  | exit
  | run (t : Todo)
deriving Repr, DecidableEq

/-- The variables of `process_cmd`. `fd` holds what has been stored in the
array so far. `firstPipe` is not in the source: it is the number of the
pipe that stage 0 makes. -/
structure Cmd where
  background : Bool
  numPipe : ℕ
  firstPipe : ℕ
  x : ℕ
  fd : List ℕ
  fdIn : ℕ
  pgid : ℕ
  pid : List ℕ
deriving Repr, DecidableEq

/-- The calls a child makes before it runs its command. -/
inductive Instr where
  | setpgid (pgid : ℕ)
  | dup2 (old new : ℕ)
  | close (fd : ℕ)
  | execlp
  | argvCmd
deriving Repr, DecidableEq

/-- What a child was forked for: the snapshot, or a stage, with the
variables of `process_cmd` at the `fork`. -/
inductive Role where
  | ps
  | stage (c : Cmd)
deriving Repr, DecidableEq

/-- A child process. -/
structure Proc where
  role : Role
  table : Fd.Table Fd.End
  pgrp : ℕ
  code : List Instr
deriving Repr, DecidableEq

/-- Where the shell is: at the prompt, before a system call with the
variables it needs, or after `exit`. -/
inductive Pc where
  | prompt
  | exited
  | psPipe (t : Todo)
  | psFork (t : Todo) (fd₀ fd₁ : ℕ)
  | psClose (t : Todo) (fd₀ fd₁ childPid : ℕ)
  | psWait (t : Todo) (fd₀ childPid : ℕ)
  | psRead (t : Todo) (fd₀ : ℕ)
  | pipe (c : Cmd)
  | fork (c : Cmd)
  | setpgid (c : Cmd)
  | close (c : Cmd)
  | forkOne (c : Cmd)
  | setpgidOne (c : Cmd)
  | wait (c : Cmd) (x : ℕ)
  | closeAll (c : Cmd) (x : ℕ)
deriving Repr, DecidableEq

structure State where
  pc : Pc
  kids : Wait.Kids Proc
  table : Fd.Table Fd.End
  pipes : ℕ
  pgrp : ℕ

inductive Act where
  | line (l : Line)
  | main
  | fork (pid : ℕ)
  | child (pid : ℕ)
  | kids (a : Wait.Act)
deriving Repr, DecidableEq

/-- The shell at its first prompt, with the descriptors it was given; it
leads its process group. -/
def boot (table : Fd.Table Fd.End) (pipes pgrp : ℕ) : State where
  pc := .prompt
  kids := .empty
  table := table
  pipes := pipes
  pgrp := pgrp

/-! ## The children -/

/-- The child of `main` that becomes `ps`. -/
def psCode (fd₀ fd₁ : ℕ) : List Instr :=
  [.close 1, .dup2 fd₁ 1, .close fd₀, .execlp]

/-- Stage `x` of a pipeline. -/
def stageCode (c : Cmd) : List Instr :=
  [.setpgid (if c.x = 0 then 0 else c.pgid), .dup2 c.fdIn 0]
    ++ (if c.x + 1 < c.numPipe then [.dup2 (c.fd.getD (c.x * 2 + 1) 0) 1] else [])
    ++ [.close (c.fd.getD (c.x * 2) 0), .argvCmd]

/-- A command without a pipe. -/
def singleCode : List Instr := [.setpgid 0, .argvCmd]

/-- What a call does to the descriptors of the child that makes it. -/
def Instr.onTable : Instr → Fd.Table Fd.End → Fd.Table Fd.End
  | .dup2 old new, t => Fd.dup2 t old new
  | .close fd, t => Fd.close t fd
  | .setpgid _, t | .execlp, t | .argvCmd, t => t

/-- Exiting closes all descriptors. A zombie stays in its group. -/
def Proc.exit (proc : Proc) : Proc := { proc with table := [] }

/-- The group `g` has a member: the shell or a child not yet waited for. -/
def groupExists (shell : ℕ) (k : Wait.Kids Proc) (g : ℕ) : Bool :=
  g = shell || k.procs.entries.any fun e => e.2.data.pgrp = g

/-- `setpgid`: `0` stands for the process's own pid. It fails for a group
without a member. -/
def setpgid (shell : ℕ) (k : Wait.Kids Proc) (p pgid : ℕ) : Wait.Kids Proc :=
  let g := if pgid = 0 then p else pgid
  if g = p ∨ groupExists shell k g = true then k.modify p fun proc => { proc with pgrp := g }
  else k

/-- `setpgid` by the parent fails too when the child has called `exec`. -/
def setpgidChild (shell : ℕ) (k : Wait.Kids Proc) (p pgid : ℕ) : Wait.Kids Proc :=
  match k.child p with
  | some ⟨_, proc⟩ => if proc.code = [] then k else setpgid shell k p pgid
  | none => k

/-- The next call of child `p`. -/
def childStep (s : State) (p : ℕ) : Option State :=
  match s.kids.child p with
  | some ⟨.running, ⟨role, t, g, i :: code⟩⟩ =>
      let k := s.kids.set p ⟨.running, ⟨role, i.onTable t, g, code⟩⟩
      some { s with
        kids := match i with
          | .setpgid pgid => setpgid s.pgrp k p pgid
          | _ => k }
  | _ => none

/-! ## The shell -/

def Cmd.start (background : Bool) (numPipe firstPipe : ℕ) : Cmd where
  background := background
  numPipe := numPipe
  firstPipe := firstPipe
  x := 0
  fd := []
  fdIn := 0
  pgid := 0
  pid := []

/-- Behind the two branches of `process_cmd`. -/
def afterFork (c : Cmd) : Pc :=
  if c.background then .closeAll c 0 else .wait c 0

/-- After the snapshot has been read. -/
def afterPs (pipes : ℕ) : Todo → Pc
  | .jobs => .prompt
  | .command background numPipe =>
      let c := Cmd.start background numPipe pipes
      if 1 < numPipe then .pipe c else if numPipe = 1 then .forkOne c else afterFork c

/-- The next step of the shell where it does not need an answer from
outside. -/
def mainStep (s : State) : Option State :=
  match s.pc with
  | .psPipe t =>
      let r := Fd.pipe s.table (.readEnd s.pipes) (.writeEnd s.pipes)
      some { s with table := r.2, pipes := s.pipes + 1, pc := .psFork t r.1.1 r.1.2 }
  | .psClose t fd₀ fd₁ p =>
      some { s with table := Fd.close s.table fd₁, pc := .psWait t fd₀ p }
  | .psWait t fd₀ p =>
      (s.kids.waitpid p false).map fun r => { s with kids := r.2, pc := .psRead t fd₀ }
  | .psRead t _ => some { s with pc := afterPs s.pipes t }
  | .pipe c =>
      if c.x < c.numPipe then
        let r := Fd.pipe s.table (.readEnd s.pipes) (.writeEnd s.pipes)
        some { s with table := r.2, pipes := s.pipes + 1,
                      pc := .fork { c with fd := c.fd ++ [r.1.1, r.1.2] } }
      else some { s with pc := afterFork c }
  | .setpgid c =>
      some { s with kids := setpgidChild s.pgrp s.kids (c.pid.getD c.x 0) c.pgid, pc := .close c }
  | .close c =>
      if c.x + 1 < c.numPipe then
        some { s with table := Fd.close s.table (c.fd.getD (c.x * 2 + 1) 0),
                      pc := .pipe { c with x := c.x + 1, fdIn := c.fd.getD (c.x * 2) 0 } }
      else some { s with pc := .pipe { c with x := c.x + 1 } }
  | .setpgidOne c =>
      some { s with kids := setpgidChild s.pgrp s.kids (c.pid.getD c.x 0) c.pgid,
                    pc := afterFork c }
  | .wait c x =>
      if x < c.numPipe then
        (s.kids.waitpid (c.pid.getD x 0) true).map fun r =>
          { s with kids := r.2, pc := .wait c (x + 1) }
      else some { s with pc := .closeAll c 0 }
  | .closeAll c x =>
      if x < (c.numPipe - 1) * 2 then
        some { s with table := Fd.close s.table (c.fd.getD x 0), pc := .closeAll c (x + 1) }
      else some { s with pc := .prompt }
  | _ => none

/-- The shell forks and is told the pid of the child. -/
def forkStep (s : State) (p : ℕ) : Option State :=
  match s.pc with
  | .psFork t fd₀ fd₁ =>
      (s.kids.fork p ⟨.ps, s.table, s.pgrp, psCode fd₀ fd₁⟩).map fun k =>
        { s with kids := k, pc := .psClose t fd₀ fd₁ p }
  | .fork c =>
      (s.kids.fork p ⟨.stage c, s.table, s.pgrp, stageCode c⟩).map fun k =>
        { s with kids := k,
                 pc := .setpgid { c with pid := c.pid ++ [p],
                                         pgid := if c.x = 0 then p else c.pgid } }
  | .forkOne c =>
      (s.kids.fork p ⟨.stage c, s.table, s.pgrp, singleCode⟩).map fun k =>
        { s with kids := k, pc := .setpgidOne { c with pid := c.pid ++ [p], pgid := p } }
  | _ => none

def lineStep (s : State) (l : Line) : Option State :=
  match s.pc, l with
  | .prompt, .blank => some s
  | .prompt, .exit => some { s with pc := .exited }
  | .prompt, .run t => some { s with pc := .psPipe t }
  | _, _ => none

/-- One step of the shell, a child or the handler. The shell does not go
on while the handler runs. -/
def step (s : State) (a : Act) : Option State :=
  if s.pc = .exited then none
  else
    match a with
    | .kids b => (s.kids.step Proc.exit b).map fun k => { s with kids := k }
    | .child p => childStep s p
    | .line l => if s.kids.handler = .idle then lineStep s l else none
    | .main => if s.kids.handler = .idle then mainStep s else none
    | .fork p => if s.kids.handler = .idle then forkStep s p else none

/-! ## What a step does -/

/-- The variables of `process_cmd` after `pipe`, after `fork`, and at the
end of the loop body. -/
def Cmd.piped (c : Cmd) (fd₀ fd₁ : ℕ) : Cmd := { c with fd := c.fd ++ [fd₀, fd₁] }

def Cmd.forked (c : Cmd) (p : ℕ) : Cmd :=
  { c with pid := c.pid ++ [p], pgid := if c.x = 0 then p else c.pgid }

def Cmd.next (c : Cmd) : Cmd := { c with x := c.x + 1, fdIn := c.fd.getD (c.x * 2) 0 }

/-- What a child's call does to the children. -/
def called (shell : ℕ) (k : Wait.Kids Proc) (p : ℕ) (role : Role) (t : Fd.Table Fd.End) (g : ℕ)
    (i : Instr) (code : List Instr) : Wait.Kids Proc :=
  let k := k.set p ⟨.running, ⟨role, i.onTable t, g, code⟩⟩
  match i with
  | .setpgid pgid => setpgid shell k p pgid
  | _ => k

/-- What a step does, one case for each place of the loop. -/
inductive Step (s : State) : Act → State → Prop
  | kids {b : Wait.Act} {k : Wait.Kids Proc} :
      s.kids.step Proc.exit b = some k → Step s (.kids b) { s with kids := k }
  | child {p g : ℕ} {role : Role} {t : Fd.Table Fd.End} {i : Instr} {code : List Instr} :
      s.kids.child p = some ⟨.running, ⟨role, t, g, i :: code⟩⟩ →
      Step s (.child p) { s with kids := called s.pgrp s.kids p role t g i code }
  | blank : s.pc = .prompt → Step s (.line .blank) s
  | exit : s.pc = .prompt → Step s (.line .exit) { s with pc := .exited }
  | run {t : Todo} : s.pc = .prompt → Step s (.line (.run t)) { s with pc := .psPipe t }
  | psPipe {t : Todo} {fd₀ fd₁ : ℕ} {t' : Fd.Table Fd.End} : s.pc = .psPipe t →
      Fd.pipe s.table (.readEnd s.pipes) (.writeEnd s.pipes) = ((fd₀, fd₁), t') →
      Step s .main { s with table := t', pipes := s.pipes + 1, pc := .psFork t fd₀ fd₁ }
  | psFork {t : Todo} {fd₀ fd₁ p : ℕ} {k : Wait.Kids Proc} : s.pc = .psFork t fd₀ fd₁ →
      s.kids.fork p ⟨.ps, s.table, s.pgrp, psCode fd₀ fd₁⟩ = some k →
      Step s (.fork p) { s with kids := k, pc := .psClose t fd₀ fd₁ p }
  | psClose {t : Todo} {fd₀ fd₁ p : ℕ} : s.pc = .psClose t fd₀ fd₁ p →
      Step s .main { s with table := Fd.close s.table fd₁, pc := .psWait t fd₀ p }
  | psWait {t : Todo} {fd₀ p : ℕ} {r : Wait.Result} {k : Wait.Kids Proc} :
      s.pc = .psWait t fd₀ p → s.kids.waitpid p false = some (r, k) →
      Step s .main { s with kids := k, pc := .psRead t fd₀ }
  | psRead {t : Todo} {fd₀ : ℕ} : s.pc = .psRead t fd₀ →
      Step s .main { s with pc := afterPs s.pipes t }
  | pipe {c : Cmd} {fd₀ fd₁ : ℕ} {t' : Fd.Table Fd.End} : s.pc = .pipe c → c.x < c.numPipe →
      Fd.pipe s.table (.readEnd s.pipes) (.writeEnd s.pipes) = ((fd₀, fd₁), t') →
      Step s .main { s with table := t', pipes := s.pipes + 1, pc := .fork (c.piped fd₀ fd₁) }
  | loopEnd {c : Cmd} : s.pc = .pipe c → ¬ c.x < c.numPipe →
      Step s .main { s with pc := afterFork c }
  | fork {c : Cmd} {p : ℕ} {k : Wait.Kids Proc} : s.pc = .fork c →
      s.kids.fork p ⟨.stage c, s.table, s.pgrp, stageCode c⟩ = some k →
      Step s (.fork p) { s with kids := k, pc := .setpgid (c.forked p) }
  | setpgid {c : Cmd} : s.pc = .setpgid c →
      Step s .main { s with kids := setpgidChild s.pgrp s.kids (c.pid.getD c.x 0) c.pgid,
                            pc := .close c }
  | close {c : Cmd} : s.pc = .close c → c.x + 1 < c.numPipe →
      Step s .main { s with table := Fd.close s.table (c.fd.getD (c.x * 2 + 1) 0),
                            pc := .pipe c.next }
  | lastStage {c : Cmd} : s.pc = .close c → ¬ c.x + 1 < c.numPipe →
      Step s .main { s with pc := .pipe { c with x := c.x + 1 } }
  | forkOne {c : Cmd} {p : ℕ} {k : Wait.Kids Proc} : s.pc = .forkOne c →
      s.kids.fork p ⟨.stage c, s.table, s.pgrp, singleCode⟩ = some k →
      Step s (.fork p) { s with kids := k,
                                pc := .setpgidOne { c with pid := c.pid ++ [p], pgid := p } }
  | setpgidOne {c : Cmd} : s.pc = .setpgidOne c →
      Step s .main { s with kids := setpgidChild s.pgrp s.kids (c.pid.getD c.x 0) c.pgid,
                            pc := afterFork c }
  | wait {c : Cmd} {x : ℕ} {r : Wait.Result} {k : Wait.Kids Proc} : s.pc = .wait c x →
      x < c.numPipe → s.kids.waitpid (c.pid.getD x 0) true = some (r, k) →
      Step s .main { s with kids := k, pc := .wait c (x + 1) }
  | waitEnd {c : Cmd} {x : ℕ} : s.pc = .wait c x → ¬ x < c.numPipe →
      Step s .main { s with pc := .closeAll c 0 }
  | closeAll {c : Cmd} {x : ℕ} : s.pc = .closeAll c x → x < (c.numPipe - 1) * 2 →
      Step s .main { s with table := Fd.close s.table (c.fd.getD x 0),
                            pc := .closeAll c (x + 1) }
  | closeEnd {c : Cmd} {x : ℕ} : s.pc = .closeAll c x → ¬ x < (c.numPipe - 1) * 2 →
      Step s .main { s with pc := .prompt }

/-- `setpgid` changes the group of the process it is for, if anything. -/
theorem setpgid_cases (shell : ℕ) (k : Wait.Kids Proc) (p pgid : ℕ) :
    setpgid shell k p pgid = k ∨
      ∃ g, setpgid shell k p pgid = k.modify p fun proc => { proc with pgrp := g } := by
  unfold setpgid
  generalize (if pgid = 0 then p else pgid) = g
  dsimp only
  split
  · exact .inr ⟨g, rfl⟩
  · exact .inl rfl

theorem setpgidChild_cases (shell : ℕ) (k : Wait.Kids Proc) (p pgid : ℕ) :
    setpgidChild shell k p pgid = k ∨
      ∃ g, setpgidChild shell k p pgid = k.modify p fun proc => { proc with pgrp := g } := by
  unfold setpgidChild
  split
  · split
    · exact .inl rfl
    · exact setpgid_cases shell k p pgid
  · exact .inl rfl

/-- A call of a child changes the child only. -/
theorem called_eq (shell : ℕ) (k : Wait.Kids Proc) (p : ℕ) (role : Role) (t : Fd.Table Fd.End)
    (g : ℕ) (i : Instr) (code : List Instr) :
    ∃ g', called shell k p role t g i code
      = k.set p ⟨.running, ⟨role, i.onTable t, g', code⟩⟩ := by
  unfold called
  dsimp only
  split
  · next pgid =>
      rcases setpgid_cases shell
        (k.set p ⟨.running, ⟨role, (Instr.setpgid pgid).onTable t, g, code⟩⟩) p pgid with
        heq | ⟨g', heq⟩
      · exact ⟨g, heq⟩
      · refine ⟨g', ?_⟩
        rw [heq, Wait.Kids.modify, Wait.Kids.child_set, if_pos rfl]
        exact Wait.Kids.set_set ..
  · exact ⟨g, rfl⟩

section Cases

variable {s s' : State}

theorem lineStep_cases {l : Line} (h : lineStep s l = some s') : Step s (.line l) s' := by
  unfold lineStep at h
  split at h
  · next hpc =>
      obtain rfl := Option.some.inj h
      exact .blank hpc
  · next hpc =>
      obtain rfl := Option.some.inj h
      exact .exit hpc
  · next hpc =>
      obtain rfl := Option.some.inj h
      exact .run hpc
  · exact nomatch h

theorem childStep_cases {p : ℕ} (h : childStep s p = some s') : Step s (.child p) s' := by
  unfold childStep at h
  split at h
  · next hc =>
      obtain rfl := Option.some.inj h
      exact .child hc
  · exact nomatch h

theorem forkStep_cases {p : ℕ} (h : forkStep s p = some s') : Step s (.fork p) s' := by
  unfold forkStep at h
  split at h
  · next hpc =>
      obtain ⟨k, hfork, rfl⟩ := Option.map_eq_some_iff.mp h
      exact .psFork hpc hfork
  · next hpc =>
      obtain ⟨k, hfork, rfl⟩ := Option.map_eq_some_iff.mp h
      exact .fork hpc hfork
  · next hpc =>
      obtain ⟨k, hfork, rfl⟩ := Option.map_eq_some_iff.mp h
      exact .forkOne hpc hfork
  · exact nomatch h

theorem mainStep_cases (h : mainStep s = some s') : Step s .main s' := by
  unfold mainStep at h
  split at h
  · next hpc =>
      obtain rfl := Option.some.inj h
      exact .psPipe hpc rfl
  · next hpc =>
      obtain rfl := Option.some.inj h
      exact .psClose hpc
  · next hpc =>
      obtain ⟨⟨r, k⟩, hwait, rfl⟩ := Option.map_eq_some_iff.mp h
      exact .psWait hpc hwait
  · next hpc =>
      obtain rfl := Option.some.inj h
      exact .psRead hpc
  · next hpc =>
      split at h
      · next hx =>
          obtain rfl := Option.some.inj h
          exact .pipe hpc hx rfl
      · next hx =>
          obtain rfl := Option.some.inj h
          exact .loopEnd hpc hx
  · next hpc =>
      obtain rfl := Option.some.inj h
      exact .setpgid hpc
  · next hpc =>
      split at h
      · next hx =>
          obtain rfl := Option.some.inj h
          exact .close hpc hx
      · next hx =>
          obtain rfl := Option.some.inj h
          exact .lastStage hpc hx
  · next hpc =>
      obtain rfl := Option.some.inj h
      exact .setpgidOne hpc
  · next hpc =>
      split at h
      · next hx =>
          obtain ⟨⟨r, k⟩, hwait, rfl⟩ := Option.map_eq_some_iff.mp h
          exact .wait hpc hx hwait
      · next hx =>
          obtain rfl := Option.some.inj h
          exact .waitEnd hpc hx
  · next hpc =>
      split at h
      · next hx =>
          obtain rfl := Option.some.inj h
          exact .closeAll hpc hx
      · next hx =>
          obtain rfl := Option.some.inj h
          exact .closeEnd hpc hx
  · exact nomatch h

theorem step_cases {a : Act} (h : step s a = some s') : s.pc ≠ .exited ∧ Step s a s' := by
  unfold step at h
  split at h
  · exact nomatch h
  · next hpc =>
      refine ⟨hpc, ?_⟩
      cases a with
      | kids b =>
          obtain ⟨k, hk, rfl⟩ := Option.map_eq_some_iff.mp h
          exact .kids hk
      | child p => exact childStep_cases h
      | line l => exact lineStep_cases (Option.ite_none_right_eq_some.mp h).2
      | main => exact mainStep_cases (Option.ite_none_right_eq_some.mp h).2
      | fork p => exact forkStep_cases (Option.ite_none_right_eq_some.mp h).2

/-- Whatever happens to the children can happen in the shell. -/
theorem step_kids {b : Wait.Act} {k : Wait.Kids Proc} (hpc : s.pc ≠ .exited)
    (h : s.kids.step Proc.exit b = some k) : step s (.kids b) = some { s with kids := k } := by
  unfold step
  rw [if_neg hpc]
  exact congrArg (Option.map _) h

end Cases

end Sh3

end Comp4511
