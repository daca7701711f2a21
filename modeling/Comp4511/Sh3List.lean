import Comp4511.Blocks
import Comp4511.Sh3Jobs

/-!
# The list of jobs in memory

The jobs of the third shell as the linked list that they are: `append`
allocates a node and puts it behind the last one, `jobs` prints the nodes
one after the other, and `clear` frees them at the end of each turn of
`main`.

`append_refines` says that a node in memory is a job in the list of
`Sh3Jobs`, and `jobs_listed` what comes of it over a session: what `jobs`
prints are the children there are, and no node outlives its turn.
-/

namespace Comp4511

open CStr Blocks

namespace Sh3

namespace Mem

/-- `struct job_list`: a job, and the address of the next. -/
abbrev Node : Type := Job × Option ℕ

/-- The memory, and the variable `jobs`. -/
structure Memory where
  heap : Blocks.Heap Node
  jobs : Option ℕ

/-! ## The functions -/

/-- The part of `append` that fills a node from a line. The number of the
job is not set yet. -/
def columns (buf : List Char) (line : ℕ) : Option (List Char × Job) := do
  let r ← tokenize " ".toList buf line
  let command ← catWords [] ((r.strings.take r.argc).drop 3)
  match r.strings with
  | some stat :: some pgid :: some pid :: _ =>
      if stat.length < statLen then some (r.buf, ⟨0, stat, atoi pid, atoi pgid, command⟩)
      else none
  | _ => none

/-- `append`. An access to a node that is not there has no result, nor has
a walk that does not end. -/
def append (m : Memory) (buf : List Char) (line : ℕ) : Option (List Char × Memory) := do
  let (buf, job) ← columns buf line
  let (node, heap) := m.heap.alloc (job, none)
  match m.jobs with
  | none =>
      let heap ← heap.store node ({ job with cnt := 1 }, none)
      some (buf, ⟨heap, some node⟩)
  | some head =>
      let last ← (Loop.run (walkTurn heap) (heap.next + 1) head).join
      let (lastJob, _) ← heap.get last
      let heap ← heap.store last (lastJob, some node)
      let heap ← heap.store node ({ job with cnt := lastJob.cnt + 1 }, none)
      some (buf, ⟨heap, some head⟩)

/-- The loop of `main` over the lines of `ps`. -/
def appendAll : Memory → List Char → List (Option ℕ) → Option Memory
  | m, _, [] => some m
  | _, _, none :: _ => none
  | m, buf, some line :: argv => do
      let (buf, m) ← append m buf line
      appendAll m buf argv

def snapshot (m : Memory) (output : List Char) : Option Memory := do
  let r ← tokenize "\n\t".toList (readBuffer output) 0
  let stop ← r.argv.findIdx? Option.isNone
  appendAll m r.buf ((r.argv.take (stop - 1)).drop 1)

/-- What `jobs` prints for a job. -/
def row (j : Job) : String :=
  "[" ++ toString j.cnt ++ "]\t" ++ toString j.pgid ++ "\t" ++ toString j.pid ++ "\t" ++
    String.ofList j.stat ++ "\t" ++ String.ofList j.command ++ "\n"

def header : String := "\tpgid\tpid\tstat\tcommand\n"

/-- One turn of the loop of `jobs`, with what has been printed. -/
def rowTurn (heap : Blocks.Heap Node) (s : Option ℕ × List String) :
    Loop.Turn (Option ℕ × List String) (Option (List String)) :=
  match s with
  | (none, printed) => .done (some printed)
  | (some ptr, printed) =>
      match heap.get ptr with
      | none => .done none
      | some (job, next) => .again (next, printed ++ [row job])

/-- The branch of `main` for `jobs`. -/
def table (m : Memory) : Option (List String) :=
  (Loop.run (rowTurn m.heap) (m.heap.next + 1) (m.jobs, [header])).join

def clear (m : Memory) : Option (Blocks.Heap Node) :=
  match m.jobs with
  | none => some m.heap
  | some ptr =>
      match m.heap.get ptr with
      | none => none
      | some (_, next) =>
          (Loop.run clearTurn (m.heap.next + 1) (m.heap, some ptr, next)).join

/-- What `main` does with the list for a line: the snapshot of what `ps`
prints, the answer to `jobs`, and `clear`. -/
def jobsTurn (m : Memory) (output cmdline : List Char) : Option (Memory × List String) := do
  let m ← snapshot m output
  let printed ← if cmdline = "jobs".toList then table m else some []
  let heap ← clear m
  some (⟨heap, none⟩, printed)

/-- A line, with what `ps` prints before it is looked at. -/
structure Entry where
  output : List Char
  cmdline : List Char

/-- Lines one after the other, with what each prints. -/
def jobsRun : Memory → List Entry → Option (Memory × List (List String))
  | m, [] => some (m, [])
  | m, x :: xs => do
      let (m, printed) ← jobsTurn m x.output x.cmdline
      let (m, more) ← jobsRun m xs
      some (m, printed :: more)

/-! ## The list in memory -/

/-- The live blocks are the nodes of a list that has these jobs. -/
def Held (m : Memory) (jobs : List Job) : Prop :=
  ∃ cells : List (ℕ × Job),
    Owns m.heap (chain none cells) ∧ m.jobs = first cells none ∧ cells.map Prod.snd = jobs

section Append

variable {m : Memory} {jobs : List Job} {buf : List Char} {line : ℕ}

theorem append_eq_columns (jobs : List Job) (buf : List Char) (line : ℕ) :
    Sh3.append jobs buf line =
      (columns buf line).map fun r => (r.1, jobs ++ [{ r.2 with cnt := nextCnt jobs }]) := by
  unfold Sh3.append columns
  cases tokenize " ".toList buf line with
  | none => rfl
  | some r =>
      simp only [Option.bind_eq_bind, Option.bind_some]
      cases catWords [] ((r.strings.take r.argc).drop 3) with
      | none => rfl
      | some command =>
          simp only [Option.bind_some]
          generalize r.strings = entries
          rcases entries with - | ⟨- | stat, - | ⟨- | pgid, - | ⟨- | pid, entries⟩⟩⟩ <;> try rfl
          by_cases hfits : stat.length < statLen
          · simp only [if_pos hfits]
            rfl
          · simp only [if_neg hfits]
            rfl

/-- A node behind the others is a job at the end of the list. -/
theorem append_refines (h : Held m jobs) (buf : List Char) (line : ℕ) :
    Option.Rel (fun r r' => r.1 = r'.1 ∧ Held r.2 r'.2) (append m buf line)
      (Sh3.append jobs buf line) := by
  obtain ⟨heap, head⟩ := m
  obtain ⟨cells, hown, hhead, rfl⟩ := h
  dsimp only at hown hhead
  subst hhead
  rw [append, append_eq_columns]
  cases columns buf line with
  | none => exact .none
  | some r =>
      obtain ⟨buf, job⟩ := r
      have hnew := hown.alloc (job, none)
      simp only [Option.bind_eq_bind, Option.bind_some, Option.map_some]
      rcases List.eq_nil_or_concat cells with rfl | ⟨cells, ⟨p, last⟩, rfl⟩
      · obtain ⟨heap', hstore, hown'⟩ := hnew.store ({ job with cnt := 1 }, none)
        simp only [first, List.head?_nil, Option.map_none, Option.or_none, hstore,
          Option.bind_some]
        exact .some ⟨rfl, [(_, { job with cnt := 1 })], hown', rfl, rfl⟩
      · rw [List.concat_eq_append] at hnew hown ⊢
        generalize halloc : heap.alloc (job, none) = r at hnew
        obtain ⟨node, heap₁⟩ := r
        dsimp only at hnew ⊢
        have hmiddle : Owns heap₁ (chain none (cells ++ [(p, last)]) ++ [(node, (job, none))]) :=
          hnew.perm (List.perm_append_singleton _ _).symm
        have hget : ∀ x ∈ chain none (cells ++ [(p, last)]), heap₁.get x.1 = some x.2 :=
          fun x hx => (hmiddle.get x.1 x.2).mpr (List.mem_append_left _ hx)
        have hfirst : first (cells ++ [(p, last)]) none =
            some ((cells.head?.map Prod.fst).getD p) := by
          cases cells <;> rfl
        have hfuel : cells.length < heap₁.next + 1 := by
          have hle := hmiddle.length_le
          rw [List.length_append, length_chain, List.length_append] at hle
          omega
        have hlast : heap₁.get p = some (last, none) := by
          refine hget (p, (last, none)) ?_
          rw [chain_append]
          exact List.mem_append_right _ (List.mem_singleton_self _)
        obtain ⟨heap₂, hlink, hown₂⟩ := hmiddle.link
        have hsplit : cells ++ [(p, last), (node, job)] = (cells ++ [(p, last)]) ++ [(node, job)] := by
          simp
        rw [hsplit] at hown₂
        obtain ⟨heap₃, hstore, hown₃⟩ := hown₂.storeLast { job with cnt := last.cnt + 1 }
        rw [List.append_nil] at hown₃
        simp only [hfirst, run_walkTurn hget hfuel, Option.join_some, hlast, hlink, hstore,
          Option.bind_some]
        refine .some ⟨rfl, _, hown₃, ?_, ?_⟩
        · rw [← hfirst]
          cases cells <;> rfl
        · simp [nextCnt]

theorem appendAll_refines (h : Held m jobs) (buf : List Char) (argv : List (Option ℕ)) :
    Option.Rel Held (appendAll m buf argv) (Sh3.appendAll jobs buf argv) := by
  induction argv generalizing m jobs buf with
  | nil => exact .some h
  | cons line argv ih =>
      cases line with
      | none => exact .none
      | some line =>
          have happend := append_refines h buf line
          rw [appendAll, Sh3.appendAll]
          generalize append m buf line = r at happend
          generalize Sh3.append jobs buf line = r' at happend
          cases happend with
          | none => exact .none
          | @some r r' hsame =>
              obtain ⟨buf₁, m₁⟩ := r
              obtain ⟨buf₂, jobs₁⟩ := r'
              obtain ⟨rfl, hheld⟩ := hsame
              exact ih hheld buf₁

theorem snapshot_refines (h : Held m []) (output : List Char) :
    Option.Rel Held (snapshot m output) (Sh3.snapshot output) := by
  unfold snapshot Sh3.snapshot
  cases tokenize "\n\t".toList (readBuffer output) 0 with
  | none => exact .none
  | some r =>
      simp only [Option.bind_eq_bind, Option.bind_some]
      cases r.argv.findIdx? Option.isNone with
      | none => exact .none
      | some stop => exact appendAll_refines h _ _

end Append

/-! ## A turn -/

section Turn

variable {m : Memory} {jobs : List Job}

/-- What `jobs` prints for a list. -/
def listing (jobs : List Job) : List String := header :: jobs.map row

theorem run_rowTurn {heap : Blocks.Heap Node} {cells : List (ℕ × Job)}
    (hget : ∀ x ∈ chain none cells, heap.get x.1 = some x.2) {n : ℕ} (hn : cells.length < n)
    (printed : List String) :
    Loop.run (rowTurn heap) n (first cells none, printed) =
      some (some (printed ++ cells.map fun x => row x.2)) := by
  induction cells generalizing n printed with
  | nil =>
      obtain ⟨n, rfl⟩ : ∃ m, n = m + 1 := ⟨n - 1, by omega⟩
      rw [List.map_nil, List.append_nil]
      exact Loop.run_done rfl
  | cons x cells ih =>
      obtain ⟨n, rfl⟩ : ∃ m, n = m + 1 := ⟨n - 1, by omega⟩
      obtain ⟨p, job⟩ := x
      rw [chain, List.forall_mem_cons] at hget
      have hturn : rowTurn heap (some p, printed) = .again (first cells none, printed ++ [row job]) := by
        simp only [rowTurn, hget.1]
      show Loop.run (rowTurn heap) (n + 1) (some p, printed) = _
      rw [Loop.run_again hturn, ih hget.2 (by rw [List.length_cons] at hn; omega)]
      simp

theorem table_eq (h : Held m jobs) : table m = some (listing jobs) := by
  obtain ⟨cells, hown, hhead, rfl⟩ := h
  have hfuel : cells.length < m.heap.next + 1 := by
    have hle := hown.length_le
    rw [length_chain] at hle
    omega
  rw [table, hhead, run_rowTurn (fun x hx => (hown.get x.1 x.2).mpr hx) hfuel, listing, List.map_map]
  rfl

/-- `clear` frees all nodes. -/
theorem clear_refines (h : Held m jobs) : ∃ heap, clear m = some heap ∧ Owns heap [] := by
  obtain ⟨heap, head⟩ := m
  obtain ⟨cells, hown, hhead, rfl⟩ := h
  dsimp only at hown hhead
  subst hhead
  have hfuel : cells.length < heap.next + 1 := by
    have hle := hown.length_le
    rw [length_chain] at hle
    omega
  have hall : Owns heap (chain none cells ++ []) := by simpa using hown
  obtain ⟨heap', hrun, hown'⟩ := run_clearTurn hall hfuel
  refine ⟨heap', ?_, hown'⟩
  cases cells with
  | nil =>
      obtain rfl : heap = heap' := by
        have hone : Loop.run clearTurn (heap.next + 1) (heap, none, none) = some (some heap) :=
          Loop.run_done rfl
        exact Option.some.inj (Option.some.inj (hone.symm.trans hrun))
      rfl
  | cons x cells =>
      have hget : heap.get x.1 = some (x.2, first cells none) := hown.get_head
      show (match heap.get x.1 with | none => none | some (_, next) => _) = _
      rw [hget]
      show (Loop.run clearTurn (heap.next + 1) (heap, some x.1, first cells none)).join = _
      have hrun' : Loop.run clearTurn (heap.next + 1) (heap, some x.1, first cells none) =
          some (some heap') := hrun
      rw [hrun', Option.join_some]

theorem jobsTurn_refines (h : Held m []) (x : Entry) :
    Option.Rel (fun r jobs => Held r.1 [] ∧
        r.2 = if x.cmdline = "jobs".toList then listing jobs else [])
      (jobsTurn m x.output x.cmdline) (Sh3.snapshot x.output) := by
  have hsnapshot := snapshot_refines h x.output
  rw [jobsTurn]
  generalize snapshot m x.output = r at hsnapshot
  generalize Sh3.snapshot x.output = r' at hsnapshot
  cases hsnapshot with
  | none => exact .none
  | @some m₁ jobs hheld =>
      obtain ⟨heap, hclear, hown⟩ := clear_refines hheld
      have hempty : Held ⟨heap, none⟩ [] := ⟨[], hown, rfl, rfl⟩
      simp only [Option.bind_eq_bind, Option.bind_some]
      by_cases hjobs : x.cmdline = "jobs".toList
      · simp only [if_pos hjobs, table_eq hheld, hclear, Option.bind_some]
        exact .some ⟨hempty, rfl⟩
      · simp only [if_neg hjobs, hclear, Option.bind_some]
        exact .some ⟨hempty, rfl⟩

end Turn

theorem jobsRun_listed {m : Memory} (h : Held m []) {xs : List Entry}
    {children : Entry → List Child} (hps : ∀ x ∈ xs, PsOutput (children x) x.output) :
    ∃ m', jobsRun m xs = some (m', xs.map fun x =>
        if x.cmdline = "jobs".toList then listing (numbered 1 (children x)) else []) ∧
      Held m' [] := by
  induction xs generalizing m with
  | nil => exact ⟨m, rfl, h⟩
  | cons x xs ih =>
      obtain ⟨hx, hxs⟩ := List.forall_mem_cons.mp hps
      have hturn := jobsTurn_refines h x
      rw [snapshot_eq hx] at hturn
      rw [jobsRun]
      generalize jobsTurn m x.output x.cmdline = r at hturn
      cases hturn with
      | @some r jobs hsame =>
          obtain ⟨m₁, printed⟩ := r
          obtain ⟨hheld, rfl⟩ := hsame
          obtain ⟨m₂, hrun, hheld₂⟩ := ih hheld hxs
          refine ⟨m₂, ?_, hheld₂⟩
          simp only [Option.bind_eq_bind, Option.bind_some, hrun]
          rfl

/-- Over a session in which `ps` prints the children as it does (fewer than
255 lines, at most 4095 bytes, states of fewer than 10 characters and
commands of at most 254), `jobs` prints them in their order, numbered from
1, and for no line is a node left in memory, freed twice or used after it
was freed. -/
theorem jobs_listed {xs : List Entry} {children : Entry → List Child}
    (hps : ∀ x ∈ xs, PsOutput (children x) x.output) :
    ∃ m, jobsRun ⟨.empty, none⟩ xs = some (m, xs.map fun x =>
        if x.cmdline = "jobs".toList then listing (numbered 1 (children x)) else []) ∧
      m.jobs = none ∧ ∀ p, m.heap.get p = none := by
  have hstart : Held ⟨.empty, none⟩ [] := ⟨[], owns_empty, rfl, rfl⟩
  obtain ⟨m, hrun, cells, hown, hhead, hjobs⟩ := jobsRun_listed hstart hps
  obtain rfl := List.map_eq_nil_iff.mp hjobs
  exact ⟨m, hrun, hhead, hown.get_none⟩

/-- `jobs` between two other lines. -/
theorem jobs_listed_sample : ∃ m, jobsRun ⟨.empty, none⟩
      [⟨sampleOutput, "ls".toList⟩, ⟨sampleOutput, "jobs".toList⟩, ⟨sampleOutput, "ls".toList⟩] =
        some (m, [[], ["\tpgid\tpid\tstat\tcommand\n", "[1]\t101\t101\tT\tvi a.c \n",
          "[2]\t102\t103\tS\tcat \n"], []]) ∧
      m.jobs = none ∧ ∀ p, m.heap.get p = none := by
  obtain ⟨m, hrun, hjobs, hheap⟩ := @jobs_listed
    [⟨sampleOutput, "ls".toList⟩, ⟨sampleOutput, "jobs".toList⟩, ⟨sampleOutput, "ls".toList⟩]
    (fun _ => sampleChildren) (by simpa using psOutput_sample)
  have hlisting : listing (numbered 1 sampleChildren) =
      ["\tpgid\tpid\tstat\tcommand\n", "[1]\t101\t101\tT\tvi a.c \n",
        "[2]\t102\t103\tS\tcat \n"] := by
    decide +kernel
  refine ⟨m, hrun.trans ?_, hjobs, hheap⟩
  simp [hlisting]

end Mem

end Sh3

end Comp4511
