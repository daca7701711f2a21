import Comp4511.Sh3Token

/-!
# The redirections of a stage

`argv_cmd` of `ASS3/myshell.c` up to its call of `execvp` or the builtin
`bg`. The loop looks for the first operator, opens the file named behind
it and, where a descriptor is open, takes the two entries out of `argv`.
What `open` returns is a parameter: the result of each call in turn, with
`-1` for a name that is `NULL`. `open` of `<` that fails is reported and
leaves the loop; the other three only leave `-1` in their variable.

`Plan` is what the loop is about: the redirections of a stage from left to
right, and the descriptors. Its turn takes the first one off, leaves it, or
gives up. `redirectTurn_sim` is the step lemma: a turn of the source is a
turn of the plan, while `argv` holds the words that are left.
-/

namespace Comp4511

open CStr

namespace Sh3

/-- The operators, named after the variable that takes the descriptor. -/
inductive Op where
  | inp
  | out
  | app
  | err
deriving Repr, DecidableEq

/-- The operator that a word is. -/
def Op.ofWord (w : List Char) : Option Op :=
  if w = "<".toList then some .inp
  else if w = ">".toList then some .out
  else if w = ">>".toList then some .app
  else if w = "&>".toList then some .err
  else none

/-- `IOredirect_index` from entry `i` on: `none` after a comparison with
`NULL`, `some none` for `-1`. -/
def ioredirectIndexFrom : List (Option (List Char)) → ℕ → Option (Option ℕ)
  | [], _ => some none
  | none :: _, _ => none
  | some w :: argv, i =>
      if (Op.ofWord w).isSome then some (some i) else ioredirectIndexFrom argv (i + 1)

def ioredirectIndex (argv : List (Option (List Char))) (argc : ℤ) : Option (Option ℕ) :=
  ioredirectIndexFrom (argv.take argc.toNat) 0

/-- The variables of the loop: `infd`, `outfd`, `appfd` and `errfd` are `fd`
by the operator, with `none` for `-1`. `opens` is not in the source: it is
what the calls of `open` have returned so far. -/
structure Redir where
  argv : List (Option (List Char))
  argc : ℤ
  fd : Op → Option ℕ
  opens : List (Option ℕ)
  printed : List String

/-- `argv[i]`; entries behind the last that `tokenize` writes are not
reached. -/
def Redir.entry (s : Redir) (i : ℕ) : Option (List Char) := s.argv[i]?.join

/-- The test `infd != -1 || outfd != -1 || appfd != -1 || errfd != -1`. -/
def anyOpen (fd : Op → Option ℕ) : Bool :=
  (fd .inp).isSome || (fd .out).isSome || (fd .app).isSome || (fd .err).isSome

/-- `open` of a name, where `result` has what the calls return; `NULL` is
not a name. -/
def openFile (result : ℕ → Option ℕ) (opens : List (Option ℕ)) (name : Option (List Char)) :
    Option ℕ :=
  name.bind fun _ => result opens.length

/-- `n` turns of the loop that takes two entries out, from entry `i` on. -/
def shift (argc : ℤ) : ℕ → ℕ → List (Option (List Char)) → List (Option (List Char))
  | _, 0, argv => argv
  | i, n + 1, argv =>
      shift argc (i + 1) n (argv.set i (if argc ≤ i + 2 then none else argv[i + 2]?.join))

/-- The call of `open` for the operator at `index`. -/
def Redir.open (result : ℕ → Option ℕ) (s : Redir) (op : Op) (index : ℕ) : Redir :=
  let r := openFile result s.opens (s.entry (index + 1))
  { s with fd := Function.update s.fd op r, opens := s.opens ++ [r] }

/-- The last part of a turn. -/
def Redir.remove (s : Redir) (index : ℕ) : Redir :=
  if anyOpen s.fd then
    { s with
      argv := shift s.argc index (s.argc - index).toNat s.argv
      argc := s.argc - 2 }
  else s

/-- One turn of `while (1)`. The result is the state after the loop;
`none` is a comparison with `NULL`. -/
def redirectTurn (result : ℕ → Option ℕ) (s : Redir) : Loop.Turn Redir (Option Redir) :=
  match ioredirectIndex s.argv s.argc with
  | none => .done none
  | some none => .done (some s)
  | some (some index) =>
      match (s.entry index).bind Op.ofWord with
      -- no comparison holds, which does not happen at `index`
      | none => .again (s.remove index)
      | some op =>
          let s := s.open result op index
          if op = .inp ∧ s.fd .inp = none then
            .done (some { s with printed := s.printed ++ ["file not found\n"] })
          else .again (s.remove index)

/-- Where the loop starts: the words of the string at place `command` of a
buffer. -/
def argvStart (buf : List Char) (command : ℕ) : Option Redir :=
  (tokenize " \t".toList buf command).map fun r => ⟨r.strings, r.argc, fun _ => none, [], []⟩

/-- What `argv_cmd` does behind the loop: a comparison with `NULL`, the
builtin `bg` with `argv[1]`, or `execvp` with the entries before `NULL`. -/
inductive Ending where
  | fault
  | bg (arg : Option (List Char))
  | execvp (file : List Char) (argv : List (List Char))
deriving Repr, DecidableEq

def Redir.ending (s : Redir) : Ending :=
  match s.entry 0 with
  | none => .fault
  | some file =>
      if file = "bg".toList then .bg (s.entry 1)
      else .execvp file (s.argv.takeWhile Option.isSome).reduceOption

/-! ## The redirections of a list of words -/

/-- The redirections from left to right, each with the word behind it, and
the words that are left. -/
def scan : List (List Char) → List (Op × Option (List Char)) × List (List Char)
  | [] => ([], [])
  | [w] =>
      match Op.ofWord w with
      | none => ([], [w])
      | some op => ([(op, none)], [])
  | w :: name :: ws =>
      match Op.ofWord w with
      | none => ((scan (name :: ws)).1, w :: (scan (name :: ws)).2)
      | some op => ((op, some name) :: (scan ws).1, (scan ws).2)

def redirects (ws : List (List Char)) : List (Op × Option (List Char)) := (scan ws).1

def remaining (ws : List (List Char)) : List (List Char) := (scan ws).2

/-- No word is an operator. -/
def Plain (ws : List (List Char)) : Prop := ∀ w ∈ ws, Op.ofWord w = none

section Scan

variable {w name : List Char} {ws front : List (List Char)} {op : Op}

theorem scan_cons (h : Op.ofWord w = none) :
    scan (w :: ws) = (redirects ws, w :: remaining ws) := by
  cases ws with
  | nil => simp [scan, h, redirects, remaining]
  | cons name ws => simp [scan, h, redirects, remaining]

theorem scan_pair (h : Op.ofWord w = some op) :
    scan (w :: name :: ws) = ((op, some name) :: redirects ws, remaining ws) := by
  simp [scan, h, redirects, remaining]

theorem scan_bare (h : Op.ofWord w = some op) : scan [w] = ([(op, none)], []) := by
  simp [scan, h]

theorem scan_front (h : Plain front) (ws : List (List Char)) :
    scan (front ++ ws) = (redirects ws, front ++ remaining ws) := by
  induction front with
  | nil => rfl
  | cons w front ih =>
      obtain ⟨hw, hfront⟩ := List.forall_mem_cons.mp h
      rw [List.cons_append, scan_cons hw, redirects, remaining, ih hfront]
      rfl

theorem scan_plain (h : Plain ws) : scan ws = ([], ws) := by
  have hfront := scan_front h []
  rw [List.append_nil] at hfront
  rw [hfront]
  simp [redirects, remaining, scan]

/-- The first operator takes the word behind it, if there is one. -/
theorem scan_operator (hfront : Plain front) (hw : Op.ofWord w = some op)
    (rest : List (List Char)) :
    scan (front ++ w :: rest)
      = ((op, rest.head?) :: redirects (front ++ rest.tail), remaining (front ++ rest.tail)) := by
  rw [redirects, remaining, scan_front hfront, scan_front hfront]
  cases rest with
  | nil =>
      rw [redirects, remaining, scan_bare hw]
      rfl
  | cons name rest =>
      rw [redirects, remaining, scan_pair hw]
      rfl

/-- Words have no operator, or a first one. -/
theorem plain_or_exists (ws : List (List Char)) :
    Plain ws ∨ ∃ front w rest op, ws = front ++ w :: rest ∧ Plain front ∧
      Op.ofWord w = some op := by
  induction ws with
  | nil => exact .inl nofun
  | cons v ws ih =>
      cases hv : Op.ofWord v with
      | some op => exact .inr ⟨[], v, ws, op, rfl, nofun, hv⟩
      | none =>
          rcases ih with hplain | ⟨front, w, rest, op, rfl, hfront, hw⟩
          · exact .inl (List.forall_mem_cons.mpr ⟨hv, hplain⟩)
          · exact .inr ⟨v :: front, w, rest, op, rfl, List.forall_mem_cons.mpr ⟨hv, hfront⟩, hw⟩

/-- Only the last redirection can lack its name. -/
theorem isSome_of_mem_dropLast (ws : List (List Char)) :
    ∀ x ∈ (redirects ws).dropLast, x.2.isSome = true := by
  induction ws using scan.induct with
  | case1 => simp [redirects, scan]
  | case2 w h => simp [redirects, scan, h]
  | case3 w op h => simp [redirects, scan, h]
  | case4 w name ws h ih => simpa [redirects, scan_cons h] using ih
  | case5 w name ws op h ih =>
      rw [redirects, scan_pair h]
      cases hrest : redirects ws with
      | nil => simp
      | cons x rest =>
          rw [hrest] at ih
          rw [List.dropLast_cons_cons]
          exact List.forall_mem_cons.mpr ⟨rfl, ih⟩

/-- The words that a redirection takes. -/
theorem length_scan (ws : List (List Char)) :
    ws.length + 1 ≥ 2 * (redirects ws).length + (remaining ws).length ∧
      ((∀ x ∈ redirects ws, x.2.isSome = true) →
        ws.length = 2 * (redirects ws).length + (remaining ws).length) := by
  induction ws using scan.induct with
  | case1 => simp [redirects, remaining, scan]
  | case2 w h => simp [redirects, remaining, scan, h]
  | case3 w op h => simp [redirects, remaining, scan, h]
  | case4 w name ws h ih =>
      simp only [redirects, remaining, scan_cons h, List.length_cons] at ih ⊢
      exact ⟨by omega, fun hall => by have := ih.2 hall; omega⟩
  | case5 w name ws op h ih =>
      simp only [redirects, remaining, scan_pair h, List.length_cons, List.forall_mem_cons] at ih ⊢
      exact ⟨by omega, fun hall => by have := ih.2 hall.2; omega⟩

end Scan

/-! ## The plan -/

/-- The redirections still to be made, the descriptors, and what the calls
of `open` have returned. -/
structure Plan where
  todo : List (Op × Option (List Char))
  fd : Op → Option ℕ
  opens : List (Option ℕ)

/-- The call of `open` for an operator. -/
def Plan.open (result : ℕ → Option ℕ) (a : Plan) (op : Op) (name : Option (List Char)) : Plan :=
  let r := openFile result a.opens name
  { a with fd := Function.update a.fd op r, opens := a.opens ++ [r] }

/-- A turn: the first redirection is taken off only while some descriptor
is open, whichever it is. -/
def planTurn (result : ℕ → Option ℕ) (a : Plan) : Loop.Turn Plan Plan :=
  match a.todo with
  | [] => .done a
  | (op, name) :: todo =>
      let a := a.open result op name
      if op = .inp ∧ a.fd .inp = none then .done a
      else if anyOpen a.fd then .again { a with todo := todo }
      else .again a

/-- Calls of `open`: those for `>`, `>>` and `&>` that fail while none of the
four descriptors is open, and those behind which a redirection is taken
out. -/
structure Tally where
  wasted : ℕ
  made : ℕ
deriving Repr, DecidableEq

/-- The first `n` calls of `open`, counted from call `k` on. A `<` whose file
does not open is the end. -/
def tally (result : ℕ → Option ℕ) :
    ℕ → ℕ → (Op → Option ℕ) → List (Op × Option (List Char)) → Tally
  | 0, _, _, _ => ⟨0, 0⟩
  | _ + 1, _, _, [] => ⟨0, 0⟩
  | n + 1, k, fd, (op, name) :: todo =>
      let fd := Function.update fd op (name.bind fun _ => result k)
      if op = .inp ∧ fd .inp = none then ⟨0, 0⟩
      else if anyOpen fd then
        let rest := tally result n (k + 1) fd todo
        { rest with made := rest.made + 1 }
      else
        let rest := tally result n (k + 1) fd ((op, name) :: todo)
        { rest with wasted := rest.wasted + 1 }

/-- `argv` holds the words `ws` with `NULL`s behind them, and `argc` their
number; it is one less after an operator at the end has been taken out. -/
structure HasWords (s : Redir) (ws : List (List Char)) : Prop where
  argv : ∃ k, s.argv = ws.map some ++ none :: List.replicate k none
  argc : s.argc = ws.length ∨ Plain ws ∧ s.argc = ws.length - 1 ∧ none ∈ s.opens

/-- The loop is where the plan is, and will leave the words `left`. -/
def Tracks (left : List (List Char)) (s : Redir) (a : Plan) : Prop :=
  ∃ ws, HasWords s ws ∧ a = ⟨redirects ws, s.fd, s.opens⟩ ∧ remaining ws = left

section Sim

variable {result : ℕ → Option ℕ} {w : List Char} {ws front left : List (List Char)} {op : Op}
  {s : Redir} {a : Plan}

theorem ioredirectIndexFrom_plain (h : Plain ws) (i : ℕ) :
    ioredirectIndexFrom (ws.map some) i = some none := by
  induction ws generalizing i with
  | nil => rfl
  | cons w ws ih =>
      obtain ⟨hw, hws⟩ := List.forall_mem_cons.mp h
      simp [ioredirectIndexFrom, hw, ih hws]

theorem ioredirectIndexFrom_front (h : Plain front) (hw : Op.ofWord w = some op)
    (argv : List (Option (List Char))) (i : ℕ) :
    ioredirectIndexFrom (front.map some ++ some w :: argv) i = some (some (i + front.length)) := by
  induction front generalizing i with
  | nil => simp [ioredirectIndexFrom, hw]
  | cons v front ih =>
      obtain ⟨hv, hfront⟩ := List.forall_mem_cons.mp h
      simp [ioredirectIndexFrom, hv, ih hfront, Nat.add_comm, Nat.add_left_comm]

/-- Taking two entries out. -/
theorem shift_append (u m v : List (Option (List Char))) :
    shift ((u ++ m).length : ℕ) u.length m.length (u ++ m ++ v)
      = u ++ (m.drop 2 ++ List.replicate (min 2 m.length) none) ++ v := by
  induction m generalizing u with
  | nil => simp [shift]
  | cons x m ih =>
      rw [List.length_cons, shift]
      generalize hentry : (if (((u ++ x :: m).length : ℕ) : ℤ) ≤ (u.length : ℤ) + 2 then none
        else (u ++ x :: m ++ v)[u.length + 2]?.join) = y
      have hset : (u ++ x :: m ++ v).set u.length y = u ++ [y] ++ m ++ v := by simp
      have hlen : (u ++ x :: m).length = (u ++ [y] ++ m).length := by simp
      rw [hset, hlen, show u.length + 1 = (u ++ [y]).length by simp, ih (u ++ [y])]
      rcases m with - | ⟨m₀, - | ⟨m₁, m⟩⟩
      · have hy : none = y := by simpa using hentry
        simp [← hy]
      · have hy : none = y := by simpa using hentry
        simp [← hy]
      · have hlt : ¬ (((u ++ x :: m₀ :: m₁ :: m).length : ℕ) : ℤ) ≤ (u.length : ℤ) + 2 := by
          simp only [List.length_append, List.length_cons]
          omega
        rw [if_neg hlt] at hentry
        have hy : m₁ = y := by simpa using hentry
        simp [← hy]

theorem hasWords_plain (h : HasWords s ws) (hplain : Plain ws) :
    ioredirectIndex s.argv s.argc = some none := by
  obtain ⟨k, hargv⟩ := h.argv
  have hle : s.argc.toNat ≤ ws.length := by
    rcases h.argc with hargc | ⟨-, hargc, -⟩ <;> omega
  have htake : s.argv.take s.argc.toNat = (ws.take s.argc.toNat).map some := by
    rw [hargv, List.take_append_of_le_length (by simpa using hle), List.map_take]
  rw [ioredirectIndex, htake]
  exact ioredirectIndexFrom_plain (fun w hw => hplain w (List.mem_of_mem_take hw)) 0

/-- What a turn finds at an operator: the words from `front` on are
`w :: rest`. -/
theorem hasWords_front {rest : List (List Char)} (h : HasWords s (front ++ w :: rest))
    (hfront : Plain front) (hw : Op.ofWord w = some op) :
    s.argc = ((front ++ w :: rest).length : ℕ) ∧
    ioredirectIndex s.argv s.argc = some (some front.length) ∧
    s.entry front.length = some w ∧ s.entry (front.length + 1) = rest.head? := by
  obtain ⟨k, hargv⟩ := h.argv
  have hargc : s.argc = ((front ++ w :: rest).length : ℕ) := by
    refine h.argc.resolve_right fun hbare => ?_
    have hplain := hbare.1 w (by simp)
    rw [hw] at hplain
    exact nomatch hplain
  refine ⟨hargc, ?_, ?_, ?_⟩
  · rw [ioredirectIndex, hargc, Int.toNat_natCast, hargv, ← List.length_map some, List.take_left,
      List.map_append, List.map_cons, ioredirectIndexFrom_front hfront hw, Nat.zero_add]
  · rw [Redir.entry, hargv]
    simp
  · rw [Redir.entry, hargv]
    cases rest <;> simp

/-- The words after a turn that takes the operator out. -/
theorem hasWords_remove {rest : List (List Char)} (h : HasWords s (front ++ w :: rest))
    (hfront : Plain front) (hw : Op.ofWord w = some op) (hopen : anyOpen s.fd = true)
    (hbare : rest = [] → none ∈ s.opens) :
    HasWords (s.remove front.length) (front ++ rest.tail) := by
  obtain ⟨k, hargv⟩ := h.argv
  obtain ⟨hargc, -⟩ := hasWords_front h hfront hw
  have hcount : (s.argc - front.length).toNat = ((w :: rest).map some).length := by
    rw [hargc, List.length_map, List.length_append]
    omega
  have hshift := shift_append (front.map some) ((w :: rest).map some)
    (none :: List.replicate k none)
  rw [← List.map_append, List.length_map, List.length_map, ← hargc, ← hargv, ← hcount] at hshift
  rw [Redir.remove, if_pos hopen]
  rw [List.length_append, List.length_cons] at hargc
  rcases rest with - | ⟨name, rest⟩
  · refine ⟨⟨k + 1, ?_⟩, .inr ⟨?_, ?_, hbare rfl⟩⟩
    · rw [hshift, hcount]
      simp [List.replicate_succ]
    · simpa using hfront
    · simp only [List.tail_nil, List.append_nil, List.length_nil] at hargc ⊢
      omega
  · refine ⟨⟨k + 2, ?_⟩, .inl ?_⟩
    · rw [hshift, hcount]
      simp [List.replicate_succ]
    · simp only [List.tail_cons, List.length_append, List.length_cons] at hargc ⊢
      omega

/-- A turn at an operator. -/
theorem redirectTurn_operator {rest : List (List Char)} (h : HasWords s (front ++ w :: rest))
    (hfront : Plain front) (hw : Op.ofWord w = some op) (result : ℕ → Option ℕ) :
    redirectTurn result s =
      if op = .inp ∧ (s.open result op front.length).fd .inp = none then
        .done (some { s.open result op front.length with
          printed := s.printed ++ ["file not found\n"] })
      else .again ((s.open result op front.length).remove front.length) := by
  obtain ⟨-, hindex, hentry, -⟩ := hasWords_front h hfront hw
  rw [redirectTurn, hindex]
  simp only [hentry, Option.bind_some, hw]
  rfl

/-- A turn of the loop is a turn of the plan. -/
theorem redirectTurn_sim (h : Tracks left s a) :
    (∃ s' a', redirectTurn result s = .again s' ∧ planTurn result a = .again a' ∧
      Tracks left s' a') ∨
    ∃ r a', redirectTurn result s = .done r ∧ planTurn result a = .done a' ∧
      ∃ s', r = some s' ∧ Tracks left s' a' := by
  obtain ⟨ws, hs, rfl, rfl⟩ := h
  rcases plain_or_exists ws with hplain | ⟨front, w, rest, op, rfl, hfront, hw⟩
  · refine .inr ⟨some s, _, ?_, ?_, s, rfl, ws, hs, rfl, rfl⟩
    · rw [redirectTurn, hasWords_plain hs hplain]
    · rw [planTurn, redirects, scan_plain hplain]
  obtain ⟨hargc, -, -, hnext⟩ := hasWords_front hs hfront hw
  have hscan := scan_operator hfront hw rest
  have hturn := redirectTurn_operator hs hfront hw result
  generalize hs' : s.open result op front.length = s' at hturn
  -- `open` changes neither `argv` nor `argc`
  have hopened : HasWords s' (front ++ w :: rest) := hs' ▸ ⟨hs.argv, .inl hargc⟩
  have hplan : planTurn result ⟨redirects (front ++ w :: rest), s.fd, s.opens⟩ =
      if op = .inp ∧ s'.fd .inp = none then .done ⟨redirects (front ++ w :: rest), s'.fd, s'.opens⟩
      else if anyOpen s'.fd then .again ⟨redirects (front ++ rest.tail), s'.fd, s'.opens⟩
      else .again ⟨redirects (front ++ w :: rest), s'.fd, s'.opens⟩ := by
    rw [planTurn, ← hs', redirects, hscan, ← hnext]
    rfl
  rw [hturn, hplan]
  by_cases hfail : op = .inp ∧ s'.fd .inp = none
  · rw [if_pos hfail, if_pos hfail]
    exact .inr ⟨_, _, rfl, rfl, _, rfl, front ++ w :: rest, ⟨hopened.argv, hopened.argc⟩, rfl, rfl⟩
  rw [if_neg hfail, if_neg hfail]
  by_cases hopen : anyOpen s'.fd = true
  · have hbare : rest = [] → none ∈ s'.opens := by
      rintro rfl
      rw [← hs']
      simp [Redir.open, openFile, hnext]
    have hremove := hasWords_remove hopened hfront hw hopen hbare
    rw [if_pos hopen]
    refine .inl ⟨_, _, rfl, rfl, front ++ rest.tail, hremove, ?_, ?_⟩
    · rw [Redir.remove, if_pos hopen]
    · rw [remaining, remaining, hscan]
      rfl
  · have hkeep : s'.remove front.length = s' := by rw [Redir.remove, if_neg hopen]
    rw [if_neg hopen, hkeep]
    exact .inl ⟨_, _, rfl, rfl, front ++ w :: rest, hopened, rfl, rfl⟩

/-- The loop ends when the plan does, and where it does. -/
theorem run_tracks (h : Tracks left s a) (n : ℕ) :
    (Loop.run (redirectTurn result) n s = none ∧ Loop.run (planTurn result) n a = none) ∨
    ∃ s' a', Loop.run (redirectTurn result) n s = some (some s') ∧
      Loop.run (planTurn result) n a = some a' ∧ Tracks left s' a' := by
  rcases Loop.run_sim (fun _ _ => redirectTurn_sim) h n with hnone | ⟨r, a', hr, ha, s', rfl, h'⟩
  · exact .inl hnone
  · exact .inr ⟨s', a', hr, ha, h'⟩

end Sim

/-! ## Runs of the plan -/

section Plan

variable {result : ℕ → Option ℕ} {op : Op} {name : Option (List Char)}
  {todo l m : List (Op × Option (List Char))} {fd : Op → Option ℕ} {opens : List (Option ℕ)}
  {a a' : Plan}

theorem anyOpen_iff : anyOpen fd = true ↔ ∃ op, (fd op).isSome = true := by
  simp only [anyOpen, Bool.or_eq_true]
  constructor
  · rintro (((h | h) | h) | h)
    · exact ⟨_, h⟩
    · exact ⟨_, h⟩
    · exact ⟨_, h⟩
    · exact ⟨_, h⟩
  · rintro ⟨op, h⟩
    cases op <;> simp [h]

theorem planTurn_cons : planTurn result ⟨(op, name) :: todo, fd, opens⟩ =
    if op = .inp ∧ Function.update fd op (openFile result opens name) .inp = none then
      .done ⟨(op, name) :: todo, Function.update fd op (openFile result opens name),
        opens ++ [openFile result opens name]⟩
    else if anyOpen (Function.update fd op (openFile result opens name)) then
      .again ⟨todo, Function.update fd op (openFile result opens name),
        opens ++ [openFile result opens name]⟩
    else .again ⟨(op, name) :: todo, Function.update fd op (openFile result opens name),
        opens ++ [openFile result opens name]⟩ := rfl

theorem planTurn_nil : planTurn result ⟨[], fd, opens⟩ = .done ⟨[], fd, opens⟩ := rfl

/-- An `open` that succeeds takes the redirection off. -/
theorem planTurn_opened {v : ℕ} (h : openFile result opens name = some v) :
    planTurn result ⟨(op, name) :: todo, fd, opens⟩
      = .again ⟨todo, Function.update fd op (some v), opens ++ [some v]⟩ := by
  have hopen : anyOpen (Function.update fd op (some v)) = true :=
    anyOpen_iff.mpr ⟨op, by simp⟩
  rw [planTurn_cons, h, if_neg, if_pos hopen]
  rintro ⟨rfl, hnone⟩
  simp at hnone

/-- `<` whose file does not open gives up. -/
theorem planTurn_inp (h : openFile result opens name = none) :
    planTurn result ⟨(.inp, name) :: todo, fd, opens⟩
      = .done ⟨(.inp, name) :: todo, Function.update fd .inp none, opens ++ [none]⟩ := by
  rw [planTurn_cons, h, if_pos ⟨rfl, by simp⟩]

/-- Another operator whose file does not open stays, where no descriptor is
open. -/
theorem planTurn_failed (hop : op ≠ .inp) (h : openFile result opens name = none) :
    planTurn result ⟨(op, name) :: todo, fun _ => none, opens⟩
      = .again ⟨(op, name) :: todo, fun _ => none, opens ++ [none]⟩ := by
  have hfd : Function.update (fun _ : Op => (none : Option ℕ)) op none = fun _ => none :=
    Function.update_eq_self_iff.mpr rfl
  rw [planTurn_cons, h, hfd, if_neg (fun hfail => hop hfail.1), if_neg (by decide)]

/-- A run over redirections that have names and whose files open. -/
theorem run_named (result : ℕ → Option ℕ) (opens : List (Option ℕ))
    (hnamed : ∀ x ∈ l, x.2.isSome = true)
    (hok : ∀ k, opens.length ≤ k → k < opens.length + l.length → (result k).isSome = true)
    (fd : Op → Option ℕ) (m : List (Op × Option (List Char))) (n : ℕ) :
    ∃ fd' got, Loop.run (planTurn result) (l.length + n) ⟨l ++ m, fd, opens⟩
        = Loop.run (planTurn result) n ⟨m, fd', opens ++ got⟩ ∧
      got.length = l.length ∧ none ∉ got ∧ (∀ x ∈ l, (fd' x.1).isSome = true) ∧
      ∀ op, (fd op).isSome = true → (fd' op).isSome = true := by
  induction l generalizing opens fd with
  | nil => exact ⟨fd, [], by simp, rfl, nofun, nofun, fun _ h => h⟩
  | cons x l ih =>
      obtain ⟨op, name⟩ := x
      obtain ⟨hname, hl⟩ := List.forall_mem_cons.mp hnamed
      obtain ⟨file, rfl⟩ := Option.isSome_iff_exists.mp hname
      obtain ⟨v, hv⟩ := Option.isSome_iff_exists.mp (hok opens.length (Nat.le_refl _) (by simp))
      have hfile : openFile result opens (some file) = some v := hv
      obtain ⟨fd', got, hrun, hlen, hgot, hset, hkeep⟩ :=
        ih (opens ++ [some v]) hl (fun k hk hlt => hok k
          (by rw [List.length_append, List.length_singleton] at hk; omega)
          (by rw [List.length_append, List.length_singleton] at hlt
              rw [List.length_cons]
              omega)) (Function.update fd op (some v))
      have hnew : ∀ o, (Function.update fd op (some v) o).isSome = true →
          (fd' o).isSome = true := hkeep
      refine ⟨fd', some v :: got, ?_, by simp [hlen], by simpa using hgot, ?_, fun o ho => ?_⟩
      · rw [List.length_cons, Nat.add_right_comm, List.cons_append,
          Loop.run_again (planTurn_opened hfile), hrun, List.append_assoc]
        rfl
      · exact List.forall_mem_cons.mpr ⟨hnew op (by simp), hset⟩
      · refine hnew o ?_
        by_cases hop : o = op
        · simp [hop]
        · rwa [Function.update_of_ne hop]

/-- What a turn that goes round has done. -/
theorem planTurn_again (h : planTurn result a = .again a') :
    ∃ op name todo, a.todo = (op, name) :: todo ∧
      a'.fd = Function.update a.fd op (openFile result a.opens name) ∧
      ¬ (op = .inp ∧ a'.fd .inp = none) ∧
      (anyOpen a'.fd = true ∧ a'.todo = todo ∨ anyOpen a'.fd = false ∧ a'.todo = a.todo) := by
  obtain ⟨todo, fd, opens⟩ := a
  rcases todo with - | ⟨⟨op, name⟩, todo⟩
  · exact nomatch h
  rw [planTurn_cons] at h
  split at h
  · exact nomatch h
  · next hfail =>
      refine ⟨op, name, todo, rfl, ?_⟩
      split at h
      · next hopen =>
          obtain rfl := Loop.Turn.again.inj h
          exact ⟨rfl, hfail, .inl ⟨hopen, rfl⟩⟩
      · next hopen =>
          obtain rfl := Loop.Turn.again.inj h
          exact ⟨rfl, hfail, .inr ⟨Bool.eq_false_iff.mpr hopen, rfl⟩⟩

/-- The last turn has nothing to do, or is at a `<`. -/
theorem planTurn_done (h : planTurn result a = .done a') :
    a.todo = [] ∧ a' = a ∨ ∃ name todo, a.todo = (.inp, name) :: todo := by
  obtain ⟨todo, fd, opens⟩ := a
  rcases todo with - | ⟨⟨op, name⟩, todo⟩
  · exact .inl ⟨rfl, (Loop.Turn.done.inj h).symm⟩
  rw [planTurn_cons] at h
  split at h
  · next hfail => exact .inr ⟨name, todo, by rw [hfail.1]⟩
  · split at h
    · exact nomatch h
    · exact nomatch h

/-- The calls of `open` add up to the turns that go round. -/
theorem run_iff_tally (n : ℕ) :
    (∃ a, Loop.run (planTurn result) n ⟨todo, fd, opens⟩ = some a) ↔
      (tally result n opens.length fd todo).wasted + (tally result n opens.length fd todo).made
        < n := by
  induction n generalizing todo fd opens with
  | zero => simp [Loop.run]
  | succ n ih =>
      rcases todo with - | ⟨⟨op, name⟩, todo⟩
      · rw [Loop.run_done planTurn_nil]
        simp [tally]
      rw [tally]
      have hturn : planTurn result ⟨(op, name) :: todo, fd, opens⟩ = _ := planTurn_cons
      unfold openFile at hturn
      split_ifs at hturn ⊢ with hfail hopen
      · rw [Loop.run_done hturn]
        simp
      · rw [Loop.run_again hturn, ih, List.length_append, List.length_singleton]
        dsimp only
        omega
      · rw [Loop.run_again hturn, ih, List.length_append, List.length_singleton]
        dsimp only
        omega

theorem made_le (result : ℕ → Option ℕ) (n k : ℕ) (fd : Op → Option ℕ)
    (todo : List (Op × Option (List Char))) : (tally result n k fd todo).made ≤ todo.length := by
  induction n generalizing k fd todo with
  | zero => exact Nat.zero_le _
  | succ n ih =>
      rcases todo with - | ⟨⟨op, name⟩, todo⟩
      · exact Nat.zero_le _
      rw [tally]
      split_ifs
      · exact Nat.zero_le _
      · exact Nat.succ_le_succ (ih ..)
      · exact ih ..

/-- Without a wasted call fewer redirections are taken out than there are
words: each has two, but for an operator at the end. -/
theorem made_lt {ws : List (List Char)} (hne : ws ≠ [])
    (hzero : (tally result ws.length 0 (fun _ => none) (redirects ws)).wasted = 0) :
    (tally result ws.length 0 (fun _ => none) (redirects ws)).made < ws.length := by
  have hlen := length_scan ws
  have hmade := made_le result ws.length 0 (fun _ => none) (redirects ws)
  have hpos := List.length_pos_of_ne_nil hne
  rcases htodo : redirects ws with - | ⟨⟨op, - | name⟩, - | ⟨y, todo⟩⟩
  · exact (htodo ▸ hmade).trans_lt hpos
  · -- the stage is one operator
    rw [htodo] at hzero
    obtain ⟨n, hn⟩ := Nat.exists_eq_add_one_of_ne_zero hpos.ne'
    have hfd : Function.update (fun _ : Op => (none : Option ℕ)) op none = fun _ => none :=
      Function.update_eq_self_iff.mpr rfl
    rw [hn, tally, Option.bind_none, hfd] at hzero ⊢
    by_cases hop : op = .inp
    · rw [if_pos ⟨hop, rfl⟩]
      exact Nat.succ_pos n
    · rw [if_neg fun h => hop h.1, if_neg (by decide)] at hzero
      exact absurd hzero (Nat.succ_ne_zero _)
  · have hle := hlen.1
    rw [htodo] at hmade hle
    simp only [List.length_cons] at hmade hle
    omega
  · have hexact := hlen.2 (by simp [htodo])
    rw [htodo] at hmade hexact
    simp only [List.length_cons, List.length_nil] at hmade hexact
    omega
  · have hle := hlen.1
    rw [htodo] at hmade hle
    simp only [List.length_cons] at hmade hle
    omega

/-- An operator other than `<` whose file never opens is tried for ever. -/
theorem run_failing (hop : op ≠ .inp) (n : ℕ) :
    Loop.run (planTurn fun _ => none) n ⟨(op, name) :: todo, fun _ => none, opens⟩ = none := by
  refine Loop.run_eq_none
    (I := fun b : Plan => ∃ opens, b = ⟨(op, name) :: todo, fun _ => none, opens⟩) ?_
    ⟨opens, rfl⟩ n
  rintro b ⟨opens, rfl⟩
  have hfile : openFile (fun _ => none) opens name = none := by
    cases name <;> rfl
  exact ⟨_, planTurn_failed hop hfile, opens ++ [none], rfl⟩

/-- An operator without a name is tried for ever where no other descriptor
than its own can be open. -/
theorem run_bare (hop : op ≠ .inp) (hl : ∀ x ∈ l, x.1 = op) (hfd : ∀ o, o ≠ op → fd o = none)
    (n : ℕ) : Loop.run (planTurn result) n ⟨l ++ [(op, none)], fd, opens⟩ = none := by
  refine Loop.run_eq_none (I := fun b : Plan => ∃ l, b.todo = l ++ [(op, none)] ∧
    (∀ x ∈ l, x.1 = op) ∧ ∀ o, o ≠ op → b.fd o = none) ?_ ⟨l, rfl, hl, hfd⟩ n
  rintro ⟨todo, fd, opens⟩ ⟨l, rfl, hl, hfd⟩
  have hset : ∀ r o, o ≠ op → Function.update fd op r o = none := by
    intro r o ho
    rw [Function.update_of_ne ho]
    exact hfd o ho
  rcases l with - | ⟨⟨op', name⟩, l⟩
  · have hnone : anyOpen (Function.update fd op none) = false := by
      rw [Bool.eq_false_iff]
      intro hany
      obtain ⟨o, ho⟩ := anyOpen_iff.mp hany
      by_cases h : o = op
      · simp [h] at ho
      · simp [hset none o h] at ho
    refine ⟨⟨[(op, none)], Function.update fd op none, opens ++ [none]⟩, ?_, [], rfl, nofun,
      hset none⟩
    rw [List.nil_append, planTurn_cons, if_neg (fun h => hop h.1)]
    exact if_neg (by simp [openFile, hnone])
  · obtain ⟨rfl, hl⟩ := List.forall_mem_cons.mp hl
    rw [List.cons_append, planTurn_cons, if_neg (fun h => hop h.1)]
    split
    · exact ⟨_, rfl, l, rfl, hl, hset _⟩
    · exact ⟨_, rfl, (op', name) :: l, rfl, List.forall_mem_cons.mpr ⟨rfl, hl⟩, hset _⟩

/-- Only `<` gives up. -/
theorem todo_eq_nil {n : ℕ} (h : ∀ x ∈ a.todo, x.1 ≠ .inp)
    (hrun : Loop.run (planTurn result) n a = some a') : a'.todo = [] := by
  have hkeep : ∀ b b' : Plan, (∀ x ∈ b.todo, x.1 ≠ .inp) → planTurn result b = .again b' →
      ∀ x ∈ b'.todo, x.1 ≠ .inp := by
    intro b b' hb hturn
    obtain ⟨op, name, todo, htodo, -, -, ⟨-, hrest⟩ | ⟨-, hrest⟩⟩ := planTurn_again hturn
    · rw [htodo] at hb
      rw [hrest]
      exact (List.forall_mem_cons.mp hb).2
    · rw [hrest]
      exact hb
  obtain ⟨t, ht, hdone⟩ := Loop.exists_done hkeep h hrun
  rcases planTurn_done hdone with ⟨hnil, rfl⟩ | ⟨name, todo, htodo⟩
  · exact hnil
  · exact absurd rfl (ht _ (htodo ▸ List.mem_cons_self ..))

/-- A plan that ends after a call of `open` has failed: a `<` is reached. -/
theorem ends_at_inp (hnamed : ∀ x ∈ l, x.2.isSome = true) (name : Option (List Char))
    (m : List (Op × Option (List Char))) :
    ∃ result n a, Loop.run (planTurn result) n ⟨l ++ (.inp, name) :: m, fun _ => none, []⟩
      = some a ∧ none ∈ a.opens ∧ a.todo ≠ [] := by
  refine ⟨fun k => if k < l.length then some 3 else none, l.length + 1, ?_⟩
  obtain ⟨fd', got, hrun, hlen, -⟩ := run_named
    (fun k => if k < l.length then some 3 else none) [] hnamed
    (fun k _ hk => by
      rw [List.length_nil, Nat.zero_add] at hk
      simp [hk]) (fun _ => none) ((.inp, name) :: m) 1
  have hfile : openFile (fun k => if k < l.length then some 3 else none) ([] ++ got) name
      = none := by
    cases name with
    | none => rfl
    | some file => simp [openFile, hlen]
  rw [hrun, Loop.run_done (planTurn_inp hfile)]
  exact ⟨_, rfl, by simp, List.cons_ne_nil _ _⟩

/-- The first file opens at the second call only. -/
theorem ends_after_retry (hne : l ≠ []) (hinp : ∀ x ∈ l, x.1 ≠ .inp)
    (hnamed : ∀ x ∈ l, x.2.isSome = true) :
    ∃ result n a, Loop.run (planTurn result) n ⟨l, fun _ => none, []⟩ = some a ∧
      none ∈ a.opens := by
  refine ⟨fun k => if k = 0 then none else some 3, l.length + 1 + 1, ?_⟩
  obtain ⟨⟨op, name⟩, todo, rfl⟩ := List.exists_cons_of_ne_nil hne
  have hturn : planTurn (fun k => if k = 0 then none else some 3)
      ⟨(op, name) :: todo, fun _ => none, []⟩
      = .again ⟨(op, name) :: todo, fun _ => none, [none]⟩ := by
    have hfile : openFile (fun k => if k = 0 then none else some 3) [] name = none := by
      cases name <;> rfl
    exact planTurn_failed (List.forall_mem_cons.mp hinp).1 hfile
  obtain ⟨fd', got, hrun, -⟩ := run_named (fun k => if k = 0 then none else some 3)
    [none] hnamed (fun k hk _ => by
      rw [List.length_singleton] at hk
      simp [Nat.pos_iff_ne_zero.mp hk]) (fun _ => none) [] 1
  rw [List.append_nil] at hrun
  rw [Loop.run_again hturn, hrun, Loop.run_done planTurn_nil]
  exact ⟨_, rfl, by simp⟩

/-- An operator without a name is taken off while the descriptor of
another one is open. -/
theorem ends_at_bare (hnamed : ∀ x ∈ l, x.2.isSome = true) (hop : op ≠ .inp)
    (hother : ∃ x ∈ l, x.1 ≠ op) :
    ∃ result n a, Loop.run (planTurn result) n ⟨l ++ [(op, none)], fun _ => none, []⟩ = some a ∧
      none ∈ a.opens := by
  obtain ⟨x, hx, hne⟩ := hother
  refine ⟨fun _ => some 3, l.length + 2, ?_⟩
  obtain ⟨fd', got, hrun, -, -, hset, -⟩ := run_named (fun _ => some 3) [] hnamed
    (fun _ _ _ => rfl) (fun _ => none) [(op, none)] 2
  have hopen : anyOpen (Function.update fd' op none) = true :=
    anyOpen_iff.mpr ⟨x.1, by rw [Function.update_of_ne hne]; exact hset x hx⟩
  have hturn : planTurn (fun _ => some 3) ⟨[(op, none)], fd', [] ++ got⟩
      = .again ⟨[], Function.update fd' op none, [] ++ got ++ [none]⟩ := by
    rw [planTurn_cons, if_neg fun h => hop h.1]
    exact if_pos hopen
  rw [hrun, Loop.run_again hturn, Loop.run_done planTurn_nil]
  exact ⟨_, rfl, by simp⟩

end Plan

/-! ## Stages -/

/-- The words of a stage. -/
def stageWords (stage : List Char) : List (List Char) := words (· ∈ " \t".toList) stage

/-- At most `n` turns of the loop of `argv_cmd`, for the string at place
`command` of a buffer. -/
def redirectLoop (result : ℕ → Option ℕ) (n : ℕ) (buf : List Char) (command : ℕ) :
    Option (Option Redir) :=
  (argvStart buf command).bind (Loop.run (redirectTurn result) n)

section Stage

variable {result : ℕ → Option ℕ} {stage : List Char} {ws : List (List Char)} {s : Redir}

/-- `argv_cmd` starts with the words of the stage. -/
theorem argvStart_words (hne : stageWords stage ≠ []) (hnul : nul ∉ stage)
    (hfew : (stageWords stage).length < maxArg) (before rest : List Char) :
    ∃ s, argvStart (before ++ stage ++ nul :: rest) before.length = some s ∧
      Tracks (remaining (stageWords stage)) s
        ⟨redirects (stageWords stage), fun _ => none, []⟩ := by
  obtain ⟨w, ws, hwords⟩ := List.exists_cons_of_ne_nil hne
  obtain ⟨toks, line', htokens, -, hplaced⟩ :=
    tokenize_words hwords hnul (hwords ▸ hfew) before rest
  refine ⟨_, by rw [argvStart, htokens, Option.map_some], w :: ws, ⟨⟨0, ?_⟩, .inl rfl⟩, ?_, ?_⟩
  · exact Tokens.strings_of_placed hplaced
  · rw [hwords]
  · rw [hwords]

/-- The loop on the words of a stage, and the plan. -/
theorem run_stage (hne : stageWords stage ≠ []) (hnul : nul ∉ stage)
    (hfew : (stageWords stage).length < maxArg) (before rest : List Char) (n : ℕ) :
    (redirectLoop result n (before ++ stage ++ nul :: rest) before.length = none ∧
      Loop.run (planTurn result) n ⟨redirects (stageWords stage), fun _ => none, []⟩ = none) ∨
    ∃ s a, redirectLoop result n (before ++ stage ++ nul :: rest) before.length = some (some s) ∧
      Loop.run (planTurn result) n ⟨redirects (stageWords stage), fun _ => none, []⟩ = some a ∧
      Tracks (remaining (stageWords stage)) s a := by
  obtain ⟨s, hstart, htracks⟩ := argvStart_words hne hnul hfew before rest
  rw [redirectLoop, hstart, Option.bind_some]
  exact run_tracks htracks n

theorem redirectLoop_zero (buf : List Char) (command : ℕ) :
    redirectLoop result 0 buf command = none := by
  cases h : argvStart buf command <;> simp [redirectLoop, h, Loop.run]

/-- Without a word the first turn compares with `NULL`. -/
theorem redirectLoop_blank (hblank : ∀ c ∈ stage, c ∈ " \t".toList) (hnul : nul ∉ stage)
    (before rest : List Char) (n : ℕ) :
    redirectLoop result (n + 1) (before ++ stage ++ nul :: rest) before.length = some none := by
  rw [redirectLoop, argvStart, tokenize_delimiters hblank hnul]
  rfl

theorem stageWords_eq_nil_iff : stageWords stage = [] ↔ ∀ c ∈ stage, c ∈ " \t".toList := by
  simp [stageWords, words_eq_nil_iff]

theorem ending_eq_fault_iff (h : HasWords s ws) : s.ending = .fault ↔ ws = [] := by
  obtain ⟨k, hargv⟩ := h.argv
  cases ws with
  | nil =>
      refine iff_of_true ?_ rfl
      simp [Redir.ending, Redir.entry, hargv]
  | cons w ws =>
      refine iff_of_false ?_ nofun
      have hentry : s.entry 0 = some w := by simp [Redir.entry, hargv]
      rw [Redir.ending, hentry]
      split
      · next hnone => exact nomatch hnone
      · split
        · exact nofun
        · exact nofun

theorem plain_of_redirects (h : redirects ws = []) : Plain ws := by
  rcases plain_or_exists ws with hplain | ⟨front, w, rest, op, rfl, hfront, hw⟩
  · exact hplain
  · rw [redirects, scan_operator hfront hw] at h
    exact nomatch h

/-- The words are those that are left when the plan is at its end. -/
theorem Tracks.hasWords_left {left : List (List Char)} {fd : Op → Option ℕ}
    {opens : List (Option ℕ)} (h : Tracks left s ⟨[], fd, opens⟩) :
    HasWords s left ∧ s.opens = opens := by
  obtain ⟨ws, hs, ha, rfl⟩ := h
  obtain ⟨hnil, -, hopens⟩ := Plan.mk.inj ha
  have hscan := scan_plain (plain_of_redirects hnil.symm)
  rw [remaining, hscan]
  exact ⟨hs, hopens.symm⟩

/-- The loop goes round `n` times and ends in the next turn. It leaves
`argv` with the words `ws`, `NULL` behind them, and `argc` their number. -/
def Leaves (result : ℕ → Option ℕ) (n : ℕ) (buf : List Char) (command : ℕ)
    (ws : List (List Char)) : Prop :=
  redirectLoop result n buf command = none ∧
    ∃ s k, redirectLoop result (n + 1) buf command = some (some s) ∧
      s.argv = ws.map some ++ none :: List.replicate k none ∧ s.argc = ws.length

/-- Where each operator has a name and each file opens, the loop takes the
redirections out of the words of a stage, one in each turn, just when the
stage has a word. -/
theorem redirections_removed_iff (stage : List Char) (result : ℕ → Option ℕ) (hnul : nul ∉ stage)
    (hfew : (stageWords stage).length < maxArg)
    (hok : ∀ k, (result k).isSome = true)
    (hnamed : ∀ x ∈ redirects (stageWords stage), x.2.isSome = true) (before rest : List Char) :
    Leaves result (redirects (stageWords stage)).length (before ++ stage ++ nul :: rest)
        before.length (remaining (stageWords stage)) ↔
      ∃ c ∈ stage, c ∉ " \t".toList := by
  by_cases hblank : ∀ c ∈ stage, c ∈ " \t".toList
  · refine iff_of_false ?_ fun ⟨c, hc, hno⟩ => hno (hblank c hc)
    rintro ⟨-, s, k, hrun, -⟩
    rw [redirectLoop_blank hblank hnul] at hrun
    exact nomatch Option.some.inj hrun
  refine iff_of_true ?_ (by simpa only [not_forall, exists_prop] using hblank)
  have hne : stageWords stage ≠ [] := fun hnil => hblank (stageWords_eq_nil_iff.mp hnil)
  have hplan := run_named result [] hnamed (fun k _ _ => hok k) (fun _ => none) []
  simp only [List.append_nil, List.nil_append] at hplan
  constructor
  · obtain ⟨fd', got, hrun, -⟩ := hplan 0
    rw [Nat.add_zero] at hrun
    rcases run_stage hne hnul hfew before rest _ with hnone | ⟨s, a, -, ha, -⟩
    · exact hnone.1
    · rw [hrun] at ha
      exact nomatch ha
  · obtain ⟨fd', got, hrun, -, hgot, -⟩ := hplan 1
    rcases run_stage hne hnul hfew before rest _ with hnone | ⟨s, a, hs, ha, hend⟩
    · rw [hrun] at hnone
      exact nomatch hnone.2
    · rw [hrun] at ha
      obtain rfl : _ = a := Option.some.inj ha
      obtain ⟨hwords, hopens⟩ := hend.hasWords_left
      obtain ⟨k, hargv⟩ := hwords.argv
      refine ⟨s, k, hs, hargv, hwords.argc.resolve_right fun hbare => ?_⟩
      exact hgot (hopens ▸ hbare.2.2)

theorem redirections_removed_iff_cat : Leaves (fun k => some (3 + k)) 2
    ("< a cat >> > -n".toList ++ [nul]) 0 ["cat".toList, "-n".toList] := by
  have hwords : stageWords "< a cat >> > -n".toList
      = ["<".toList, "a".toList, "cat".toList, ">>".toList, ">".toList, "-n".toList] := by
    decide
  have hiff := redirections_removed_iff "< a cat >> > -n".toList (fun k => some (3 + k))
    (by decide) (by rw [hwords]; decide) (fun _ => rfl) (by rw [hwords]; decide) [] []
  rw [hwords] at hiff
  exact hiff.mpr ⟨'<', by simp, by decide⟩

/-- A stage that is a blank. -/
theorem blank_stage_faults : redirectLoop (fun k => some (3 + k)) 1 [' ', nul] 0 = some none ∧
    ¬ Leaves (fun k => some (3 + k)) 0 [' ', nul] 0 [] := by
  have hloop : redirectLoop (fun k => some (3 + k)) 1 ([] ++ [' '] ++ nul :: []) [].length
      = some none := redirectLoop_blank (by simp) (by decide) [] [] 0
  refine ⟨hloop, ?_⟩
  rintro ⟨-, s, k, hrun, -⟩
  exact nomatch Option.some.inj (hloop.symm.trans hrun)

/-- The loop makes at most `argc` turns just when no call of `open` for `>`,
`>>` or `&>` fails while none of the descriptors is open, or so few that
with the redirections taken out they are below `argc`. -/
theorem redirect_loop_bounded_iff (stage : List Char) (result : ℕ → Option ℕ) (hnul : nul ∉ stage)
    (hne : stageWords stage ≠ []) (hfew : (stageWords stage).length < maxArg)
    (before rest : List Char) :
    let argc := (stageWords stage).length
    let opens := tally result argc 0 (fun _ => none) (redirects (stageWords stage))
    (∃ s, redirectLoop result argc (before ++ stage ++ nul :: rest) before.length =
        some (some s)) ↔
      opens.wasted = 0 ∨ opens.wasted + opens.made < argc := by
  intro argc opens
  have hends : (∃ s, redirectLoop result argc (before ++ stage ++ nul :: rest) before.length =
      some (some s)) ↔ ∃ a, Loop.run (planTurn result) argc
        ⟨redirects (stageWords stage), fun _ => none, []⟩ = some a := by
    rcases run_stage hne hnul hfew before rest argc with ⟨hs, ha⟩ | ⟨s, a, hs, ha, -⟩
    · rw [hs, ha]
      simp
    · rw [hs, ha]
      simp
  rw [hends, run_iff_tally]
  refine ⟨.inr, fun h => h.elim (fun hzero => ?_) id⟩
  have hmade : opens.made < argc := made_lt hne hzero
  change opens.wasted + opens.made < argc
  rw [hzero, Nat.zero_add]
  exact hmade

/-- `ls > f` where `f` can be opened at the second call. -/
theorem redirect_loop_bounded_iff_retry :
    stageWords "ls > f".toList = ["ls".toList, ">".toList, "f".toList] ∧
    ∃ s, redirectLoop (fun k => if k = 0 then none else some 3) 3 ("ls > f".toList ++ [nul]) 0 =
      some (some s) := by
  have hwords : stageWords "ls > f".toList = ["ls".toList, ">".toList, "f".toList] := by
    decide
  have hiff := redirect_loop_bounded_iff "ls > f".toList (fun k => if k = 0 then none else some 3)
    (by decide) (by rw [hwords]; exact List.cons_ne_nil _ _) (by rw [hwords]; decide) [] []
  rw [hwords] at hiff
  exact ⟨hwords, hiff.mpr (.inr (by decide))⟩

/-- `ls > f` where `f` cannot be opened. -/
theorem output_failure_loops :
    (¬ ∃ n r, redirectLoop (fun _ => none) n ("ls > f".toList ++ [nul]) 0 = some r) ∧
    ¬ ∀ result, ∃ s, redirectLoop result 3 ("ls > f".toList ++ [nul]) 0 = some (some s) := by
  have hwords : stageWords "ls > f".toList = ["ls".toList, ">".toList, "f".toList] := by
    decide
  have hplan : redirects (stageWords "ls > f".toList) = [(.out, some "f".toList)] := by
    rw [hwords]
    decide
  have hnever : ∀ n, redirectLoop (fun _ => none) n ("ls > f".toList ++ [nul]) 0 = none := by
    intro n
    have hne : stageWords "ls > f".toList ≠ [] := by
      rw [hwords]
      exact List.cons_ne_nil _ _
    rcases @run_stage (fun _ => none) "ls > f".toList hne (by decide) (by rw [hwords]; decide)
      [] [] n with hnone | ⟨s, a, -, ha, -⟩
    · exact hnone.1
    · rw [hplan, run_failing (by decide)] at ha
      exact nomatch ha
  refine ⟨?_, fun hall => ?_⟩
  · rintro ⟨n, r, hr⟩
    rw [hnever] at hr
    exact nomatch hr
  · obtain ⟨s, hs⟩ := hall fun _ => none
    rw [hnever] at hs
    exact nomatch hs

theorem Tracks.opens_eq {left : List (List Char)} {a : Plan} (h : Tracks left s a) :
    s.opens = a.opens := by
  obtain ⟨ws, -, rfl, -⟩ := h
  rfl

/-- `argv_cmd` reaches neither `execvp` nor `bg` just when no word is left
and the loop has not given up. -/
theorem Tracks.ending_iff {left : List (List Char)} {a : Plan} (h : Tracks left s a) :
    s.ending = .fault ↔ a.todo = [] ∧ left = [] := by
  obtain ⟨ws, hs, rfl, rfl⟩ := h
  rw [ending_eq_fault_iff hs]
  constructor
  · rintro rfl
    exact ⟨rfl, rfl⟩
  · rintro ⟨htodo, hleft⟩
    rw [remaining, scan_plain (plain_of_redirects htodo)] at hleft
    exact hleft

/-- No redirection; or none of `<` and either no word besides them, or an
operator at the end that lacks its name and is that of all of them. -/
def Stops (ws : List (List Char)) : Prop :=
  redirects ws = [] ∨
    (∀ x ∈ redirects ws, x.1 ≠ .inp) ∧
      (remaining ws = [] ∨
        ∃ op, (redirects ws).getLast? = some (op, none) ∧ ∀ x ∈ redirects ws, x.1 = op)

theorem stops_of_stops {a : Plan} {n : ℕ} (h : Stops ws)
    (hrun : Loop.run (planTurn result) n ⟨redirects ws, fun _ => none, []⟩ = some a)
    (hfail : none ∈ a.opens) : a.todo = [] ∧ remaining ws = [] := by
  rcases h with hnil | ⟨hinp, hleft | ⟨op, hlast, hsame⟩⟩
  · rw [hnil] at hrun
    cases n with
    | zero => exact nomatch hrun
    | succ n =>
        rw [Loop.run_done planTurn_nil] at hrun
        rw [← Option.some.inj hrun] at hfail
        exact nomatch hfail
  · exact ⟨todo_eq_nil hinp hrun, hleft⟩
  · obtain ⟨l, hl⟩ := List.getLast?_eq_some_iff.mp hlast
    rw [hl] at hrun hinp hsame
    have hop := hinp (op, none) (by simp)
    rw [run_bare hop (fun x hx => hsame x (by simp [hx])) fun _ _ => rfl] at hrun
    exact nomatch hrun

theorem exists_of_not_stops (h : ¬ Stops ws) :
    ∃ result n a, Loop.run (planTurn result) n ⟨redirects ws, fun _ => none, []⟩ = some a ∧
      none ∈ a.opens ∧ ¬ (a.todo = [] ∧ remaining ws = []) := by
  simp only [Stops, not_or, not_and_or] at h
  obtain ⟨hne, hcases⟩ := h
  have hnamed := isSome_of_mem_dropLast ws
  by_cases hinp : ∀ x ∈ redirects ws, x.1 ≠ .inp
  · obtain ⟨hleft, hbare⟩ := hcases.resolve_left (fun hno => hno hinp)
    obtain ⟨l, ⟨op, name⟩, hl⟩ := (List.eq_nil_or_concat' (redirects ws)).resolve_left hne
    rw [hl, List.dropLast_concat] at hnamed
    cases name with
    | some file =>
        have hall : ∀ x ∈ redirects ws, x.2.isSome = true := by
          rw [hl]
          simpa [or_imp, forall_and] using hnamed
        obtain ⟨result, n, a, hrun, hfail⟩ := ends_after_retry hne hinp hall
        exact ⟨result, n, a, hrun, hfail, fun hend => hleft hend.2⟩
    | none =>
        have hother : ∃ x ∈ l, x.1 ≠ op := by
          by_contra hsame
          simp only [ne_eq, not_exists, not_and, not_not] at hsame
          refine hbare ⟨op, by simp [hl], ?_⟩
          rw [hl, List.forall_mem_append]
          exact ⟨hsame, by simp⟩
        have hop : op ≠ .inp := hinp (op, none) (by simp [hl])
        obtain ⟨result, n, a, hrun, hfail⟩ := ends_at_bare hnamed hop hother
        exact ⟨result, n, a, by rw [hl, hrun], hfail, fun hend => hleft hend.2⟩
  · simp only [ne_eq, not_forall, not_not] at hinp
    obtain ⟨⟨op, name⟩, hmem, rfl⟩ := hinp
    obtain ⟨l, m, hl⟩ := List.append_of_mem hmem
    rw [hl, List.dropLast_append_of_ne_nil (List.cons_ne_nil _ _)] at hnamed
    obtain ⟨result, n, a, hrun, hfail, htodo⟩ :=
      ends_at_inp (fun x hx => hnamed x (List.mem_append_left _ hx)) name m
    exact ⟨result, n, a, by rw [hl, hrun], hfail, fun hend => htodo hend.1⟩

/-- Whatever `open` returns, a stage with a redirection that failed does
not come to `execvp` or `bg` just when it is one of those. -/
theorem failed_redirection_stops_iff (stage : List Char) (hnul : nul ∉ stage)
    (hfew : (stageWords stage).length < maxArg) (before rest : List Char) :
    (∀ result n s, redirectLoop result n (before ++ stage ++ nul :: rest) before.length
        = some (some s) → none ∈ s.opens → s.ending = .fault) ↔
      Stops (stageWords stage) := by
  by_cases hne : stageWords stage = []
  · refine iff_of_true (fun result n s hrun => ?_) (.inl (by rw [hne]; rfl))
    cases n with
    | zero =>
        rw [redirectLoop_zero] at hrun
        exact nomatch hrun
    | succ n =>
        rw [redirectLoop_blank (stageWords_eq_nil_iff.mp hne) hnul] at hrun
        exact nomatch Option.some.inj hrun
  constructor
  · intro hall
    by_contra hstops
    obtain ⟨result, n, a, hrun, hfail, hend⟩ := exists_of_not_stops hstops
    rcases run_stage hne hnul hfew before rest n with ⟨-, hnone⟩ | ⟨s, a', hs, ha', htracks⟩
    · rw [hrun] at hnone
      exact nomatch hnone
    · rw [hrun] at ha'
      obtain rfl := Option.some.inj ha'
      rw [← htracks.opens_eq] at hfail
      exact hend (htracks.ending_iff.mp (hall result n s hs hfail))
  · intro hstops result n s hrun hfail
    rcases run_stage hne hnul hfew before rest n with ⟨hnone, -⟩ | ⟨s', a, hs, ha, htracks⟩
    · rw [hrun] at hnone
      exact nomatch hnone
    · rw [hrun] at hs
      obtain rfl := Option.some.inj (Option.some.inj hs)
      rw [htracks.opens_eq] at hfail
      exact htracks.ending_iff.mpr (stops_of_stops hstops ha hfail)

theorem failed_redirection_stops_iff_ls :
    stageWords "ls > f >".toList = ["ls".toList, ">".toList, "f".toList, ">".toList] ∧
    ∀ result n s, redirectLoop result n ("ls > f >".toList ++ [nul]) 0 = some (some s) →
      none ∈ s.opens → s.ending = .fault := by
  have hwords : stageWords "ls > f >".toList
      = ["ls".toList, ">".toList, "f".toList, ">".toList] := by
    decide
  have hscan : redirects (stageWords "ls > f >".toList)
      = [(.out, some "f".toList), (.out, none)] := by
    rw [hwords]
    decide
  have hiff := failed_redirection_stops_iff "ls > f >".toList (by decide)
    (by rw [hwords]; decide) [] []
  refine ⟨hwords, hiff.mpr (.inr ?_)⟩
  rw [hscan]
  exact ⟨by decide, .inr ⟨.out, rfl, by decide⟩⟩

/-- `cat < f` where `f` cannot be opened. -/
theorem input_failure_runs :
    (∃ s, redirectLoop (fun _ => none) 1 ("cat < f".toList ++ [nul]) 0 = some (some s) ∧
      none ∈ s.opens ∧
      s.ending = .execvp "cat".toList ["cat".toList, "<".toList, "f".toList]) ∧
    ¬ ∀ result n s, redirectLoop result n ("cat < f".toList ++ [nul]) 0 = some (some s) →
      none ∈ s.opens → s.ending = .fault := by
  have htokens : tokenize " \t".toList ("cat < f".toList ++ [nul]) 0
      = some ⟨[some 0, some 4, some 6, none], 3,
          "cat".toList ++ nul :: '<' :: nul :: "f".toList ++ [nul]⟩ := by
    decide
  have hruns : ∃ s, redirectLoop (fun _ => none) 1 ("cat < f".toList ++ [nul]) 0
      = some (some s) ∧ none ∈ s.opens ∧
      s.ending = .execvp "cat".toList ["cat".toList, "<".toList, "f".toList] := by
    rw [redirectLoop, argvStart, htokens]
    exact ⟨_, rfl, by decide, by decide⟩
  refine ⟨hruns, fun hall => ?_⟩
  obtain ⟨s, hs, hfail, hending⟩ := hruns
  have hfault := hall _ _ s hs hfail
  rw [hending] at hfault
  exact nomatch hfault

end Stage

end Sh3

end Comp4511
