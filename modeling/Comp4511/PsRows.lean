import Mathlib.Data.List.Perm.Basic
import Mathlib.Data.List.Sort
import Comp4511.PsTime

/-!
# The table of `myps`

`main` takes its options, lists `/proc` with one of the two filters, reads
every process and sorts the rows with `qsort` if it was asked to. Of
`qsort` only what is documented is used (`Sorts`): for a consistent
comparison its result is sorted, and it is a permutation of what it was
given. Rows that compare equal may come in any order.

The comparison is consistent (`compareBy_consistent`); what the order is
worth depends on the keys. `VIRT` is the low 32 bits of the size, so
`main_m_iff` has the condition that sizes fit an `int`.
-/

namespace Comp4511

open CStr Scanf

namespace Ps

/-! ## The program -/

/-- What the system supplies: the files, the entries of `/proc`, the users
and the sorting of the library. -/
structure System where
  files : Files
  entries : List (List Char)
  getpwuid : Int32 → Option (List Char)
  getpwnam : List Char → Option UInt32
  qsort : (Required → Required → ℤ) → List Required → List Required

/-- `(oa->KEY < ob->KEY) - (oa->KEY > ob->KEY)`. -/
def compareBy (key : Required → Int32) (a b : Required) : ℤ :=
  (if key a < key b then 1 else 0) - (if key b < key a then 1 else 0)

def compareMem : Required → Required → ℤ := compareBy (·.virt)

def compareTime : Required → Required → ℤ := compareBy (·.time)

/-- The places of the options, `0` for none. -/
structure Flags where
  u : ℕ
  m : ℕ
  p : ℕ
deriving Repr, DecidableEq

/-- The loop over the arguments, from number `x`. -/
def findFlags (x : ℕ) (argv : List (List Char)) (f : Flags) : Flags :=
  match argv with
  | [] => f
  | a :: argv => findFlags (x + 1) argv
      (if a = "-u".toList then { f with u := x }
       else if a = "-m".toList then { f with m := x }
       else if a = "-p".toList then { f with p := x }
       else f)

def flags (argv : List (List Char)) : Flags := findFlags 0 argv ⟨0, 0, 0⟩

/-- `scandir` without a comparison. -/
def scandir (filter : List Char → Option (Except Fault Bool)) :
    List (List Char) → Option (Except Fault (List (List Char)))
  | [] => some (.ok [])
  | d :: ds =>
      match filter d with
      | none => none
      | some (.error e) => some (.error e)
      | some (.ok keep) =>
          (scandir filter ds).map fun r => r.map fun names => if keep then d :: names else names

/-- The loop that fills `all`. -/
def readAll (process : List Char → Option (Except Fault Required)) :
    List (List Char) → Option (Except Fault (List Required))
  | [] => some (.ok [])
  | d :: ds =>
      match process d with
      | none => none
      | some (.error e) => some (.error e)
      | some (.ok a) => (readAll process ds).map fun r => r.map (a :: ·)

/-- The arguments of the last `printf`. -/
structure Row where
  pid : Int32
  user : List Char
  time : Clock
  virt : Int32
  cmd : List Char
deriving Repr, DecidableEq

def Required.row (a : Required) : Row :=
  ⟨a.pid, a.user, clock a.time, a.virt / 1024, a.cmd⟩

inductive Output where
  | invalidUser (name : List Char)
  | table (rows : List Row)
deriving Repr, DecidableEq

section Main

variable (sys : System) (junk : List Char → Junk) (fuel : ℕ)

def arrange (f : Flags) (all : List Required) : List Required :=
  if f.m ≠ 0 then sys.qsort compareMem all
  else if f.p ≠ 0 then sys.qsort compareTime all
  else all

/-- The table of the processes that a filter keeps. -/
def table (f : Flags) (filter : List Char → Option (Except Fault Bool)) :
    Option (Except Fault Output) :=
  match scandir filter sys.entries with
  | none => none
  | some (.error e) => some (.error e)
  | some (.ok namelist) =>
      (readAll (fun d => process sys.files (junk d) fuel sys.getpwuid d) namelist).map fun r =>
        r.map fun all => .table ((arrange sys f all).map Required.row)

def main (argv : List (List Char)) : Option (Except Fault Output) :=
  let f := flags argv
  if f.u ≠ 0 then
    if f.u + 1 = argv.length then some (.ok (.invalidUser []))
    else
      let name := argv.getD (f.u + 1) []
      match sys.getpwnam name with
      | none => some (.ok (.invalidUser name))
      | some uid => table sys junk fuel f fun d => filterU sys.files (junk d) fuel uid.toInt32 d
  else table sys junk fuel f fun d => some (.ok (filterA d))

end Main

/-! ## What the system shows -/

/-- A process, with its files and the name of its user. -/
structure Proc where
  dir : List Char
  stat : Stat
  status : Status
  user : List Char

/-- The processes of the system, in the order of `/proc`; no name has a
blank. -/
structure Sees (sys : System) (ps : List Proc) : Prop where
  entries : sys.entries.filter isPid = ps.map (·.dir)
  stat : ∀ p ∈ ps, sys.files (statPath p.dir) = some p.stat.line
  status : ∀ p ∈ ps, sys.files (statusPath p.dir) = some p.status.contents
  user : ∀ p ∈ ps, sys.getpwuid (Int32.ofNat p.status.uid) = some p.user
  plain : ∀ p ∈ ps, p.stat.Plain

/-- The processes that are asked for, if the arguments name a user at most
and one that exists. -/
def listed (sys : System) (argv : List (List Char)) (ps : List Proc) : Option (List Proc) :=
  if (flags argv).u = 0 then some ps
  else if (flags argv).u + 1 = argv.length then none
  else (sys.getpwnam (argv.getD ((flags argv).u + 1) [])).map fun uid =>
    ps.filter fun p => Int32.ofNat p.status.uid = uid.toInt32

/-- What is documented of `qsort`. -/
structure Sorts (qsort : (Required → Required → ℤ) → List Required → List Required) : Prop where
  perm : ∀ cmp l, (qsort cmp l).Perm l
  sorted : ∀ cmp l, (∀ a b, cmp a b ≤ 0 ∨ cmp b a ≤ 0) →
    (∀ a b c, cmp a b ≤ 0 → cmp b c ≤ 0 → cmp a c ≤ 0) →
    (qsort cmp l).Pairwise fun a b => cmp a b ≤ 0

/-- The row is that of the process, with its size in kilobytes. -/
structure Proc.Shown (p : Proc) (r : Row) : Prop where
  pid : r.pid.toInt = p.stat.pid
  user : r.user = p.user
  cmd : r.cmd = p.stat.comm
  virt : r.virt.toInt = (p.stat.vsize / 1024 : ℕ)

/-- The rows are those of the processes, the largest first. -/
def InOrder (ps : List Proc) (rows : List Row) : Prop :=
  ∃ qs : List Proc, qs.Perm ps ∧ qs.Pairwise (fun p q => q.stat.vsize ≤ p.stat.vsize) ∧
    List.Forall₂ Proc.Shown qs rows

/-! ## Comparisons -/

theorem compareBy_le_zero (key : Required → Int32) (a b : Required) :
    compareBy key a b ≤ 0 ↔ (key b).toInt ≤ (key a).toInt := by
  simp only [compareBy, Int32.lt_iff_toInt_lt]
  split <;> split <;> omega

/-- Any key gives a consistent comparison. -/
theorem compareBy_consistent (key : Required → Int32) :
    (∀ a b, compareBy key a b ≤ 0 ∨ compareBy key b a ≤ 0) ∧
      ∀ a b c, compareBy key a b ≤ 0 → compareBy key b c ≤ 0 → compareBy key a c ≤ 0 := by
  simp only [compareBy_le_zero]
  exact ⟨fun a b => Int.le_total .., fun a b c hab hbc => Int.le_trans hbc hab⟩

/-! ## The run -/

theorem process_mono {files : Files} {junk : Junk} {getpwuid : Int32 → Option (List Char)}
    {dir : List Char} {n m : ℕ} {r : Except Fault Required}
    (h : process files junk n getpwuid dir = some r) (hnm : n ≤ m) :
    process files junk m getpwuid dir = some r := by
  unfold process at h ⊢
  cases hstat : files (statPath dir) with
  | none =>
      rw [hstat] at h
      exact h
  | some stat =>
      cases hstatus : files (statusPath dir) with
      | none =>
          rw [hstat, hstatus] at h
          exact h
      | some status =>
          rw [hstat, hstatus] at h
          obtain ⟨buffer, hrun, hr⟩ := Option.map_eq_some_iff.mp h
          exact Option.map_eq_some_iff.mpr ⟨buffer, Loop.run_mono hrun hnm, hr⟩

theorem filterU_mono {files : Files} {junk : Junk} {uid : Int32} {d : List Char} {n m : ℕ}
    {r : Except Fault Bool} (h : filterU files junk n uid d = some r) (hnm : n ≤ m) :
    filterU files junk m uid d = some r := by
  unfold filterU at h ⊢
  split
  · next hpid =>
      rw [if_pos hpid] at h
      cases hstatus : files (statusPath d) with
      | none =>
          rw [hstatus] at h
          exact h
      | some status =>
          rw [hstatus] at h
          obtain ⟨buffer, hrun, hr⟩ := Option.map_eq_some_iff.mp h
          exact Option.map_eq_some_iff.mpr ⟨buffer, Loop.run_mono hrun hnm, hr⟩
  · next hpid =>
      rw [if_neg hpid] at h
      exact h

/-- The filter of a user reads the user of a process. -/
theorem filterU_eq {files : Files} {d : List Char} {t : Status} (hpid : isPid d = true)
    (hstatus : files (statusPath d) = some t.contents) (junk : Junk) (uid : Int32) :
    ∃ N, ∀ n, N ≤ n → filterU files junk n uid d = some (.ok (Int32.ofNat t.uid = uid)) := by
  obtain ⟨N, rest, hrun⟩ := keyScan_status t junk.buffer
  have hfilter : filterU files junk N uid d = some (.ok (Int32.ofNat t.uid = uid)) := by
    simp only [filterU, hpid, hstatus, hrun, if_true, Option.map_some, sscanf_uid t.uid t.uid_lt]
  exact ⟨N, fun n hn => filterU_mono hfilter hn⟩

theorem readAll_eq (f : ℕ → List Char → Option (Except Fault Required)) (g : Proc → Required)
    {ps : List Proc} (h : ∀ p ∈ ps, ∃ N, ∀ n, N ≤ n → f n p.dir = some (.ok (g p))) :
    ∃ N, ∀ n, N ≤ n → readAll (f n) (ps.map (·.dir)) = some (.ok (ps.map g)) := by
  induction ps with
  | nil => exact ⟨0, fun _ _ => rfl⟩
  | cons p ps ih =>
      obtain ⟨N, hN⟩ := h p (List.mem_cons_self ..)
      obtain ⟨M, hM⟩ := ih fun q hq => h q (List.mem_cons_of_mem _ hq)
      refine ⟨max N M, fun n hn => ?_⟩
      rw [List.map_cons, readAll, hN n (by omega), hM n (by omega)]
      rfl

/-- The list of the processes that a filter keeps. -/
theorem scandir_eq {filter : ℕ → List Char → Option (Except Fault Bool)} {keep : Proc → Bool}
    (hother : ∀ n d, isPid d = false → filter n d = some (.ok false))
    {entries : List (List Char)} {ps : List Proc} (hentries : entries.filter isPid = ps.map (·.dir))
    (h : ∀ p ∈ ps, ∃ N, ∀ n, N ≤ n → filter n p.dir = some (.ok (keep p))) :
    ∃ N, ∀ n, N ≤ n → scandir (filter n) entries = some (.ok ((ps.filter keep).map (·.dir))) := by
  induction entries generalizing ps with
  | nil =>
      obtain rfl : ps = [] := by
        rw [List.filter_nil] at hentries
        exact List.map_eq_nil_iff.mp hentries.symm
      exact ⟨0, fun _ _ => rfl⟩
  | cons d entries ih =>
      cases hpid : isPid d with
      | false =>
          rw [List.filter_cons_of_neg (by simp [hpid])] at hentries
          obtain ⟨N, hN⟩ := ih hentries h
          refine ⟨N, fun n hn => ?_⟩
          rw [scandir, hother n d hpid, hN n hn]
          rfl
      | true =>
          rw [List.filter_cons_of_pos hpid] at hentries
          obtain ⟨p, ps, rfl⟩ : ∃ p qs, ps = p :: qs := by
            cases ps with
            | nil => exact nomatch hentries
            | cons p qs => exact ⟨p, qs, rfl⟩
          rw [List.map_cons, List.cons.injEq] at hentries
          obtain ⟨rfl, hentries⟩ := hentries
          obtain ⟨N, hN⟩ := h p (List.mem_cons_self ..)
          obtain ⟨M, hM⟩ := ih hentries fun q hq => h q (List.mem_cons_of_mem _ hq)
          refine ⟨max N M, fun n hn => ?_⟩
          rw [scandir, hN n (by omega), hM n (by omega), List.filter_cons]
          cases keep p <;> rfl

section Run

variable {sys : System} {ps : List Proc} {argv : List (List Char)}

theorem Sees.isPid (h : Sees sys ps) {p : Proc} (hp : p ∈ ps) : isPid p.dir = true := by
  have hmem : p.dir ∈ sys.entries.filter Ps.isPid := by
    rw [h.entries]
    exact List.mem_map_of_mem hp
  exact (List.mem_filter.mp hmem).2

/-- What is read of a process. -/
def Proc.required (p : Proc) : Required := p.stat.row p.user

theorem table_eq (h : Sees sys ps) (junk : List Char → Junk) (f : Flags)
    (filter : ℕ → List Char → Option (Except Fault Bool)) (keep : Proc → Bool)
    (hother : ∀ n d, Ps.isPid d = false → filter n d = some (.ok false))
    (hkeep : ∀ p ∈ ps, ∃ N, ∀ n, N ≤ n → filter n p.dir = some (.ok (keep p))) :
    ∃ fuel, table sys junk fuel f (filter fuel) = some (.ok (.table
      ((arrange sys f ((ps.filter keep).map Proc.required)).map Required.row))) := by
  obtain ⟨N, hN⟩ := scandir_eq hother h.entries hkeep
  have hread : ∀ p ∈ ps.filter keep, ∃ N, ∀ n, N ≤ n →
      process sys.files (junk p.dir) n sys.getpwuid p.dir = some (.ok p.required) := by
    intro p hp
    replace hp := List.mem_of_mem_filter hp
    obtain ⟨fuel, hfuel⟩ := process_eq (junk p.dir) (h.plain p hp) (h.stat p hp)
      (h.status p hp) (h.user p hp)
    exact ⟨fuel, fun n hn => process_mono hfuel hn⟩
  obtain ⟨M, hM⟩ := readAll_eq (fun n d => process sys.files (junk d) n sys.getpwuid d)
    Proc.required hread
  refine ⟨max N M, ?_⟩
  rw [table, hN _ (by omega)]
  dsimp only
  rw [hM _ (by omega)]
  rfl

/-- `main` prints the table of the processes asked for. -/
theorem main_eq (h : Sees sys ps) (junk : List Char → Junk) {qs : List Proc}
    (hlisted : listed sys argv ps = some qs) :
    ∃ fuel, main sys junk fuel argv = some (.ok (.table
      ((arrange sys (flags argv) (qs.map Proc.required)).map Required.row))) := by
  unfold listed at hlisted
  by_cases hu : (flags argv).u = 0
  · rw [if_pos hu] at hlisted
    obtain rfl := Option.some.inj hlisted
    obtain ⟨fuel, hfuel⟩ := table_eq h junk (flags argv)
      (fun _ d => some (.ok (filterA d))) (fun _ => true)
      (fun _ d hd => by rw [filterA, hd]) (fun p hp => ⟨0, fun _ _ => by
        rw [filterA, h.isPid hp]⟩)
    rw [List.filter_true] at hfuel
    exact ⟨fuel, by rw [main, if_neg (not_not_intro hu), hfuel]⟩
  · rw [if_neg hu] at hlisted
    by_cases hlast : (flags argv).u + 1 = argv.length
    · rw [if_pos hlast] at hlisted
      exact nomatch hlisted
    · rw [if_neg hlast] at hlisted
      obtain ⟨uid, huid, rfl⟩ := Option.map_eq_some_iff.mp hlisted
      obtain ⟨fuel, hfuel⟩ := table_eq h junk (flags argv)
        (fun n d => filterU sys.files (junk d) n uid.toInt32 d)
        (fun p => Int32.ofNat p.status.uid = uid.toInt32)
        (fun n d hd => by rw [filterU, hd]; rfl)
        (fun p hp => filterU_eq (h.isPid hp) (h.status p hp) (junk p.dir) uid.toInt32)
      refine ⟨fuel, ?_⟩
      rw [main, if_pos hu, if_neg hlast]
      dsimp only
      rw [huid]
      exact hfuel

end Run

/-! ## The order -/

/-- A column of kilobytes is below `2 ^ 21`. -/
theorem toInt_virt_lt (a : Required) : a.row.virt.toInt < 2 ^ 21 := by
  have hlt := a.virt.toInt_lt
  show (a.virt / 1024).toInt < 2 ^ 21
  rw [toInt_div_of_nat a.virt (d := 1024) rfl]
  by_cases hneg : a.virt.toInt < 0
  · have hpos := Int.tdiv_nonneg (a := -a.virt.toInt) (b := (1024 : ℕ)) (by omega) (by decide)
    rw [Int.neg_tdiv] at hpos
    omega
  · rw [Int.tdiv_eq_ediv_of_nonneg (by omega)]
    omega

theorem exists_of_forall₂ {α β : Type*} {R : α → β → Prop} {l : List α} {l' : List β}
    (h : List.Forall₂ R l l') {a : α} (ha : a ∈ l) : ∃ b ∈ l', R a b := by
  induction h with
  | nil => exact nomatch ha
  | cons hR _ ih =>
      rcases List.mem_cons.mp ha with rfl | ha
      · exact ⟨_, List.mem_cons_self .., hR⟩
      · obtain ⟨b, hb, hab⟩ := ih ha
        exact ⟨b, List.mem_cons_of_mem _ hb, hab⟩

theorem Proc.toInt_virt {p : Proc} (h : p.stat.vsize < 2 ^ 31) :
    p.required.virt.toInt = p.stat.vsize := by
  show (Int32.ofInt (clamp p.stat.vsize)).toInt = p.stat.vsize
  rw [ofInt_clamp (by omega), Int32.toInt_ofNat_of_lt h]

theorem Proc.shown_row {p : Proc} (h : p.stat.vsize < 2 ^ 31) : p.Shown p.required.row := by
  refine ⟨Int32.toInt_ofNat_of_lt p.stat.pid_lt, rfl, rfl, ?_⟩
  show (p.required.virt / 1024).toInt = _
  rw [toInt_div_of_nat _ (d := 1024) rfl, p.toInt_virt h, ← Int.ofNat_tdiv]

/-- Sizes that fit are sorted, and others are not shown. -/
theorem inOrder_iff {qsort : (Required → Required → ℤ) → List Required → List Required}
    (hsort : Sorts qsort) (ps : List Proc) :
    InOrder ps ((qsort compareMem (ps.map Proc.required)).map Required.row) ↔
      ∀ p ∈ ps, p.stat.vsize < 2 ^ 31 := by
  constructor
  · rintro ⟨qs, hperm, -, hshown⟩ p hp
    obtain ⟨r, hr, hshows⟩ := exists_of_forall₂ hshown (hperm.mem_iff.mpr hp)
    obtain ⟨a, -, rfl⟩ := List.mem_map.mp hr
    have hlt := toInt_virt_lt a
    rw [hshows.virt] at hlt
    omega
  · intro hsize
    obtain ⟨qs, hqs, hperm⟩ : ∃ qs : List Proc,
        qsort compareMem (ps.map Proc.required) = qs.map Proc.required ∧ qs.Perm ps := by
      have hback := List.eq_map_comp_perm Proc.required
      exact (congrFun₂ hback _ _).mpr (hsort.perm compareMem _)
    have hsmall : ∀ p ∈ qs, p.stat.vsize < 2 ^ 31 := fun p hp => hsize p (hperm.mem_iff.mp hp)
    refine ⟨qs, hperm, ?_, ?_⟩
    · obtain ⟨htotal, htrans⟩ := compareBy_consistent (·.virt)
      have hsorted := hsort.sorted compareMem (ps.map Proc.required) htotal htrans
      rw [hqs, List.pairwise_map] at hsorted
      refine hsorted.imp_of_mem fun {p q} hp hq hcompare => ?_
      have hle := (compareBy_le_zero (·.virt) _ _).mp hcompare
      rw [p.toInt_virt (hsmall p hp), q.toInt_virt (hsmall q hq)] at hle
      omega
    · rw [hqs, List.map_map, List.forall₂_map_right_iff, List.forall₂_same]
      exact fun p hp => p.shown_row (hsmall p hp)

/-- With `-m` the table of the processes asked for is in order, with their
sizes, exactly when all of these are below `2 ^ 31`. -/
theorem main_m_iff {sys : System} {ps qs : List Proc} {argv : List (List Char)}
    (hsort : Sorts sys.qsort) (hsees : Sees sys ps) (hlisted : listed sys argv ps = some qs)
    (hm : (flags argv).m ≠ 0) (junk : List Char → Junk) :
    ∃ fuel rows, main sys junk fuel argv = some (.ok (.table rows)) ∧
      (InOrder qs rows ↔ ∀ p ∈ qs, p.stat.vsize < 2 ^ 31) := by
  obtain ⟨fuel, hmain⟩ := main_eq hsees junk hlisted
  refine ⟨fuel, _, hmain, ?_⟩
  rw [arrange, if_pos hm]
  exact inOrder_iff hsort qs

/-! ## A system -/

/-- A `qsort` that can be run. -/
def insertionQsort (cmp : Required → Required → ℤ) (l : List Required) : List Required :=
  l.insertionSort fun a b => cmp a b ≤ 0

theorem sorts_insertionQsort : Sorts insertionQsort := by
  refine ⟨fun cmp l => List.perm_insertionSort _ l, fun cmp l htotal htrans => ?_⟩
  have : Std.Total fun a b => cmp a b ≤ 0 := ⟨htotal⟩
  have : IsTrans Required fun a b => cmp a b ≤ 0 := ⟨htrans⟩
  exact List.pairwise_insertionSort _ l

/-- A process of a given size. -/
def sizedProc (dir : String) (pid vsize : ℕ) (hpid : pid < 2 ^ 31) (hvsize : vsize < 2 ^ 64) :
    Proc where
  dir := dir.toList
  stat := { sampleStat "sh" (by decide) (by decide) (by decide) with
    pid := pid, pid_lt := hpid, vsize := vsize, vsize_lt := hvsize }
  status := sampleStatus
  user := "root".toList

/-- A system with the processes `ps`. -/
def systemOf (ps : List Proc) : System where
  files := fun path => ps.findSome? fun p =>
    if path = statPath p.dir then some p.stat.line
    else if path = statusPath p.dir then some p.status.contents
    else none
  entries := "self".toList :: ps.map (·.dir)
  getpwuid := fun _ => some "root".toList
  getpwnam := fun _ => some 0
  qsort := insertionQsort

theorem seven_lt : 7 < 2 ^ 31 := by decide

/-- Two processes, of 4 kilobytes and of `vsize` bytes. -/
def twoProcs (vsize : ℕ) (h : vsize < 2 ^ 64) : List Proc :=
  [sizedProc "7" 7 4096 seven_lt (by decide), sizedProc "8" 8 vsize (by decide) h]

theorem sees_twoProcs (vsize : ℕ) (h : vsize < 2 ^ 64) :
    Sees (systemOf (twoProcs vsize h)) (twoProcs vsize h) := by
  have hplain : ∀ c ∈ "sh".toList, isSpace c = false := by simp [isSpace]
  have hall : ∀ {P : Proc → Prop}, P (sizedProc "7" 7 4096 (by decide) (by decide)) →
      P (sizedProc "8" 8 vsize (by decide) h) → ∀ p ∈ twoProcs vsize h, P p := by
    intro P h₇ h₈ p hp
    rcases List.mem_pair.mp hp with rfl | rfl
    · exact h₇
    · exact h₈
  constructor
  · rfl
  · exact hall rfl rfl
  · exact hall rfl rfl
  · exact hall rfl rfl
  · exact hall hplain hplain

def argvM : List (List Char) := ["myps".toList, "-m".toList]

/-- Two processes of 4 kilobytes and of 8 megabytes. -/
theorem main_m_iff_small : ∃ fuel rows,
    main (systemOf (twoProcs 8388608 (by decide))) (fun _ => blankJunk) fuel argvM
      = some (.ok (.table rows)) ∧ InOrder (twoProcs 8388608 (by decide)) rows := by
  have hsmall : ∀ p ∈ twoProcs 8388608 (by decide), p.stat.vsize < 2 ^ 31 := by
    intro p hp
    rcases List.mem_pair.mp hp with rfl | rfl
    · exact (by decide : 4096 < 2 ^ 31)
    · exact (by decide : 8388608 < 2 ^ 31)
  have hlisted : listed (systemOf (twoProcs 8388608 (by decide))) argvM
      (twoProcs 8388608 (by decide)) = some (twoProcs 8388608 (by decide)) := rfl
  obtain ⟨fuel, rows, hmain, hiff⟩ := main_m_iff sorts_insertionQsort
    (sees_twoProcs 8388608 (by decide)) hlisted (by decide) fun _ => blankJunk
  exact ⟨fuel, rows, hmain, hiff.mpr hsmall⟩

/-- The rows when the other process has 3 gigabytes. -/
def largeRows : List Row :=
  [⟨7, "root".toList, ⟨0, 0, 13⟩, 4, "sh".toList⟩,
    ⟨8, "root".toList, ⟨0, 0, 13⟩, -1048576, "sh".toList⟩]

/-- It comes last, with a negative size. -/
theorem large_process_last :
    main (systemOf (twoProcs 3221225472 (by decide))) (fun _ => blankJunk) 3 argvM
      = some (.ok (.table largeRows)) ∧
    ¬ InOrder (twoProcs 3221225472 (by decide)) largeRows := by
  constructor
  · decide +kernel
  · rintro ⟨qs, hperm, -, hshown⟩
    have hmem : sizedProc "8" 8 3221225472 (by decide) (by decide) ∈ qs :=
      hperm.mem_iff.mpr (by simp [twoProcs])
    obtain ⟨r, hr, hshows⟩ := exists_of_forall₂ hshown hmem
    have hvirt : r.virt.toInt = 3145728 := hshows.virt
    rcases List.mem_pair.mp hr with rfl | rfl
    · exact absurd hvirt (by decide)
    · exact absurd hvirt (by decide)

end Ps

end Comp4511
