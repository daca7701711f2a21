import Comp4511.Fd
import Comp4511.Wait

/-!
# The command loop of the second shell

`main` of `ASS2/myshell.c` as a machine: one step is one system call of
the shell, or the code between two of them. Between any two steps
children may exit, stop and go on, and the handler of `SIGCHLD` may run;
that part is `Wait.Kids.step`. `signal` installs the handler with
`SA_RESTART`, so a handler run inside `waitpid` leaves the shell where it
was.

A line enters as the words that `parse` and `special` make of it. `fork`,
`pipe` and the `exec` of a child succeed.
-/

namespace Comp4511

namespace Sh2

/-- A line: nothing, or the words in `argv` and the value of
`background`. -/
inductive Line where
  | blank
  | words (argv : List String) (background : Bool)
deriving Repr, DecidableEq

/-- Where `main` is: at the prompt, before a system call with the
variables it needs, or after `exit`. `done` is the end of the loop body,
with the value of `status`. -/
inductive Pc where
  | prompt
  | exited
  | fork (background : Bool)
  | wait (childPid : ℕ)
  | forkCd
  | jobsPipe
  | jobsFork (fd₀ fd₁ : ℕ)
  | jobsClose (fd₀ fd₁ childPid : ℕ)
  | jobsWait (fd₀ childPid : ℕ)
  | jobsRead (fd₀ : ℕ)
  | done (status : ℕ)
deriving Repr, DecidableEq

structure State where
  pc : Pc
  kids : Wait.Kids Unit
  childStatus : ℕ
  table : Fd.Table Fd.End
  pipes : ℕ

inductive Act where
  | line (l : Line)
  | main
  | fork (pid : ℕ)
  | waitAny (choice : Option ℕ)
  | kids (a : Wait.Act)
deriving Repr, DecidableEq

/-- The shell at its first prompt, with the descriptors it was given. -/
def boot (table : Fd.Table Fd.End) (pipes : ℕ) : State where
  pc := .prompt
  kids := .empty
  childStatus := 0
  table := table
  pipes := pipes

/-- `WEXITSTATUS`. -/
def wexitstatus (status : ℕ) : ℕ := status / 256 % 256

/-- The wait status of a child that called `exit`. -/
def exitedWith (code : UInt8) : ℕ := code.toNat * 256

/-- The text `special` puts in place of `$?`. -/
def State.stat (s : State) : String := toString (wexitstatus s.childStatus)

/-- The chain of comparisons of `argv[0]`. A `cd` in the foreground makes
no child. -/
def dispatch (argv : List String) (background : Bool) : Pc :=
  match argv with
  | [] => .prompt
  | cmd :: _ =>
      if cmd = "exit" then .exited
      else if cmd = "cd" then if background then .forkCd else .done 0
      else if cmd = "jobs" then .jobsPipe
      else .fork background

/-- `status` after `waitpid(child_pid, &status, 0)`: unchanged when there
is no such child. -/
def statusOf : Wait.Result → ℕ
  | .ended status => status
  | .stopped | .noChild => 0

/-- The next step of `main` where it does not need an answer from outside. -/
def mainStep (s : State) : Option State :=
  match s.pc with
  | .wait p =>
      (s.kids.waitpid p false).map fun r => { s with kids := r.2, pc := .done (statusOf r.1) }
  | .jobsPipe =>
      let r := Fd.pipe s.table (.readEnd s.pipes) (.writeEnd s.pipes)
      some { s with table := r.2, pipes := s.pipes + 1, pc := .jobsFork r.1.1 r.1.2 }
  | .jobsClose fd₀ fd₁ p =>
      some { s with table := Fd.close s.table fd₁, pc := .jobsWait fd₀ p }
  | .jobsRead _ => some { s with pc := .done 0 }
  | .done status => some { s with childStatus := status, pc := .prompt }
  | _ => none

/-- `main` forks and is told the pid of the child. -/
def forkStep (s : State) (p : ℕ) : Option State :=
  match s.pc with
  | .fork background =>
      (s.kids.fork p ()).map fun k =>
        { s with kids := k, pc := if background then .done 0 else .wait p }
  | .forkCd => (s.kids.fork p ()).map fun k => { s with kids := k, pc := .done 0 }
  | .jobsFork fd₀ fd₁ =>
      (s.kids.fork p ()).map fun k => { s with kids := k, pc := .jobsClose fd₀ fd₁ p }
  | _ => none

def lineStep (s : State) (l : Line) : Option State :=
  match s.pc, l with
  | .prompt, .blank => some s
  | .prompt, .words argv background => some { s with pc := dispatch argv background }
  | _, _ => none

def waitAnyStep (s : State) (choice : Option ℕ) : Option State :=
  match s.pc with
  | .jobsWait fd₀ _ =>
      (s.kids.waitAny choice).map fun k => { s with kids := k, pc := .jobsRead fd₀ }
  | _ => none

/-- One step of the shell, its children or its handler. `main` does not go
on while the handler runs. -/
def step (s : State) (a : Act) : Option State :=
  if s.pc = .exited then none
  else
    match a with
    | .kids b => (s.kids.step id b).map fun k => { s with kids := k }
    | .line l => if s.kids.handler = .idle then lineStep s l else none
    | .main => if s.kids.handler = .idle then mainStep s else none
    | .fork p => if s.kids.handler = .idle then forkStep s p else none
    | .waitAny choice => if s.kids.handler = .idle then waitAnyStep s choice else none

/-- What a step does, one case for each place of the loop. -/
inductive Step (s : State) : Act → State → Prop
  | kids {b : Wait.Act} {k : Wait.Kids Unit} :
      s.kids.step id b = some k → Step s (.kids b) { s with kids := k }
  | blank : s.pc = .prompt → Step s (.line .blank) s
  | words {argv : List String} {background : Bool} : s.pc = .prompt →
      Step s (.line (.words argv background)) { s with pc := dispatch argv background }
  | fork {background : Bool} {p : ℕ} {k : Wait.Kids Unit} : s.pc = .fork background →
      s.kids.fork p () = some k →
      Step s (.fork p) { s with kids := k, pc := if background then .done 0 else .wait p }
  | wait {p : ℕ} {r : Wait.Result} {k : Wait.Kids Unit} : s.pc = .wait p →
      s.kids.waitpid p false = some (r, k) →
      Step s .main { s with kids := k, pc := .done (statusOf r) }
  | forkCd {p : ℕ} {k : Wait.Kids Unit} : s.pc = .forkCd → s.kids.fork p () = some k →
      Step s (.fork p) { s with kids := k, pc := .done 0 }
  | jobsPipe {fd₀ fd₁ : ℕ} {t : Fd.Table Fd.End} : s.pc = .jobsPipe →
      Fd.pipe s.table (.readEnd s.pipes) (.writeEnd s.pipes) = ((fd₀, fd₁), t) →
      Step s .main { s with table := t, pipes := s.pipes + 1, pc := .jobsFork fd₀ fd₁ }
  | jobsFork {fd₀ fd₁ p : ℕ} {k : Wait.Kids Unit} : s.pc = .jobsFork fd₀ fd₁ →
      s.kids.fork p () = some k →
      Step s (.fork p) { s with kids := k, pc := .jobsClose fd₀ fd₁ p }
  | jobsClose {fd₀ fd₁ p : ℕ} : s.pc = .jobsClose fd₀ fd₁ p →
      Step s .main { s with table := Fd.close s.table fd₁, pc := .jobsWait fd₀ p }
  | jobsWait {fd₀ p : ℕ} {choice : Option ℕ} {k : Wait.Kids Unit} : s.pc = .jobsWait fd₀ p →
      s.kids.waitAny choice = some k →
      Step s (.waitAny choice) { s with kids := k, pc := .jobsRead fd₀ }
  | jobsRead {fd₀ : ℕ} : s.pc = .jobsRead fd₀ → Step s .main { s with pc := .done 0 }
  | done {status : ℕ} : s.pc = .done status →
      Step s .main { s with childStatus := status, pc := .prompt }

section Cases

variable {s s' : State}

theorem lineStep_cases {l : Line} (h : lineStep s l = some s') : Step s (.line l) s' := by
  unfold lineStep at h
  split at h
  · next hpc =>
      obtain rfl := Option.some.inj h
      exact .blank hpc
  · next hpc =>
      obtain rfl := Option.some.inj h
      exact .words hpc
  · exact nomatch h

theorem mainStep_cases (h : mainStep s = some s') : Step s .main s' := by
  unfold mainStep at h
  split at h
  · next p hpc =>
      obtain ⟨⟨r, k⟩, hwait, rfl⟩ := Option.map_eq_some_iff.mp h
      exact .wait hpc hwait
  · next hpc =>
      obtain rfl := Option.some.inj h
      exact .jobsPipe hpc rfl
  · next hpc =>
      obtain rfl := Option.some.inj h
      exact .jobsClose hpc
  · next hpc =>
      obtain rfl := Option.some.inj h
      exact .jobsRead hpc
  · next hpc =>
      obtain rfl := Option.some.inj h
      exact .done hpc
  · exact nomatch h

theorem forkStep_cases {p : ℕ} (h : forkStep s p = some s') : Step s (.fork p) s' := by
  unfold forkStep at h
  split at h
  · next hpc =>
      obtain ⟨k, hfork, rfl⟩ := Option.map_eq_some_iff.mp h
      exact .fork hpc hfork
  · next hpc =>
      obtain ⟨k, hfork, rfl⟩ := Option.map_eq_some_iff.mp h
      exact .forkCd hpc hfork
  · next hpc =>
      obtain ⟨k, hfork, rfl⟩ := Option.map_eq_some_iff.mp h
      exact .jobsFork hpc hfork
  · exact nomatch h

theorem waitAnyStep_cases {choice : Option ℕ} (h : waitAnyStep s choice = some s') :
    Step s (.waitAny choice) s' := by
  unfold waitAnyStep at h
  split at h
  · next hpc =>
      obtain ⟨k, hwait, rfl⟩ := Option.map_eq_some_iff.mp h
      exact .jobsWait hpc hwait
  · exact nomatch h

theorem step_cases {a : Act} (h : step s a = some s') : s.pc ≠ .exited ∧ Step s a s' := by
  unfold step at h
  split at h
  · exact nomatch h
  · next hpc =>
      refine ⟨hpc, ?_⟩
      cases a with
      | kids b =>
          obtain ⟨k, hk, rfl⟩ := Option.map_eq_some_iff.mp h
          exact .kids hk
      | line l => exact lineStep_cases (Option.ite_none_right_eq_some.mp h).2
      | main => exact mainStep_cases (Option.ite_none_right_eq_some.mp h).2
      | fork p => exact forkStep_cases (Option.ite_none_right_eq_some.mp h).2
      | waitAny choice => exact waitAnyStep_cases (Option.ite_none_right_eq_some.mp h).2

/-- Whatever happens to the children can happen in the shell. -/
theorem step_kids {b : Wait.Act} {k : Wait.Kids Unit} (hpc : s.pc ≠ .exited)
    (h : s.kids.step id b = some k) : step s (.kids b) = some { s with kids := k } := by
  unfold step
  rw [if_neg hpc]
  exact congrArg (Option.map _) h

end Cases

end Sh2

end Comp4511
