import Comp4511.Loops
import Comp4511.Scanf

/-!
# Reading `/proc`

`filter_u` and `process` of `myps.c` and `core` of `info.c`. Each looks
for the line that begins with a key in a `while (1)` that tests what
`fgets` has left in its buffer, and not what `fgets` returned.

What the locals of a function hold before it assigns them is a parameter
(`Junk`): a conversion of `sscanf` that does not match leaves them so,
and `fgets` at the end of a file leaves the buffer so. A null pointer that
is followed ends the program with a `Fault`.

`keyScan_ends_iff` says when such a loop ends: when the key begins one of
the pieces in which the file is read or, if there is nothing to read, the
buffer as it was.
-/

namespace Comp4511

open CStr Scanf

/-- The files that `fopen` can open, with their contents. -/
abbrev Files := List Char → Option (List Char)

/-- A null pointer that is followed: from `fopen` or from `getpwuid`. -/
inductive Fault where
  | file
  | passwd
deriving Repr, DecidableEq

/-- The size of the buffers. -/
def bufferSize : ℕ := 1024

/-! ## The loops -/

/-- One turn of the loop that looks for `key`, on the buffer and the rest of
the file: `fgets`, `memcpy` of as many characters as `key` has to `check`,
`strcmp`. -/
def keyTurn (key : List Char) (s : List Char × List Char) :
    Loop.Turn (List Char × List Char) (List Char) :=
  let (buffer, fp) := fgetsInto bufferSize s.1 s.2
  let check := buffer.take key.length ++ [nul]
  if text check = key then .done buffer else .again (buffer, fp)

/-- The key stands where the loop can find it. -/
def Found (key buffer contents : List Char) : Prop :=
  (∃ k, key <+: piece bufferSize k contents) ∨ contents = [] ∧ key <+: buffer

section Loop

variable {key : List Char}

/-- The test of the loop. -/
theorem text_check (hkey : nul ∉ key) (buffer : List Char) :
    text (buffer.take key.length ++ [nul]) = key ↔ key <+: buffer := by
  constructor
  · intro h
    obtain ⟨rest, hrest⟩ := exists_text_append (buffer.take key.length)
    have hprefix : key <+: buffer.take key.length ++ [nul] := by
      rw [hrest] at h ⊢
      rw [text_append_nul (nul_notMem_text _)] at h
      exact ⟨nul :: rest, by rw [h]⟩
    -- the key is no longer than what was copied, and it does not contain the end
    rcases List.prefix_concat_iff.mp hprefix with hall | hpart
    · exact absurd (hall ▸ List.mem_append_right _ (List.mem_singleton_self _)) hkey
    · exact hpart.trans (List.take_prefix _ _)
  · intro h
    rw [← List.prefix_iff_eq_take.mp h]
    exact text_append_nul hkey []

theorem keyTurn_done (hkey : nul ∉ key) {s : List Char × List Char}
    (h : key <+: (fgetsInto bufferSize s.1 s.2).1) :
    keyTurn key s = .done (fgetsInto bufferSize s.1 s.2).1 :=
  if_pos ((text_check hkey _).mpr h)

theorem keyTurn_again (hkey : nul ∉ key) {s : List Char × List Char}
    (h : ¬ key <+: (fgetsInto bufferSize s.1 s.2).1) :
    keyTurn key s = .again (fgetsInto bufferSize s.1 s.2) :=
  if_neg fun heq => h ((text_check hkey _).mp heq)

/-- A key that begins the buffer begins what was read into it. -/
theorem prefix_fgetsInto (hkey : nul ∉ key) (buffer : List Char) {fp : List Char} (h : fp ≠ []) :
    key <+: (fgetsInto bufferSize buffer fp).1 ↔ key <+: takeLine (bufferSize - 1) fp := by
  rw [fgetsInto_of_ne_nil _ _ h]
  constructor
  · intro hkeys
    generalize takeLine (bufferSize - 1) fp = chunk at hkeys ⊢
    have hend : nul ∈ chunk ++ [nul] := List.mem_append_right _ (List.mem_singleton_self _)
    have hchunk : chunk ++ [nul] <+: chunk ++ nul :: buffer.drop (chunk.length + 1) :=
      ⟨buffer.drop (chunk.length + 1), by simp⟩
    rcases List.prefix_or_prefix_of_prefix hkeys hchunk with hpart | hlong
    · rcases List.prefix_concat_iff.mp hpart with rfl | hpart
      · exact absurd hend hkey
      · exact hpart
    · exact absurd (hlong.subset hend) hkey
  · intro hkeys
    exact hkeys.trans (List.prefix_append _ _)

/-- The loop ends exactly when there is something to find. -/
theorem keyScan_ends_iff (hkey : nul ∉ key) (hne : key ≠ []) (buffer contents : List Char) :
    (∃ fuel found, Loop.run (keyTurn key) fuel (buffer, contents) = some found) ↔
      Found key buffer contents := by
  constructor
  · rintro ⟨fuel, found, hrun⟩
    by_contra hnot
    have hnone : Loop.run (keyTurn key) fuel (buffer, contents) = none := by
      refine Loop.run_eq_none (I := fun s => ¬ Found key s.1 s.2) (fun s hs => ?_) hnot fuel
      obtain ⟨buffer, fp⟩ := s
      by_cases hfp : fp = []
      · subst hfp
        have hold : ¬ key <+: buffer := fun h => hs (.inr ⟨rfl, h⟩)
        exact ⟨_, keyTurn_again hkey hold, hs⟩
      · have hhere : ¬ key <+: (fgetsInto bufferSize buffer fp).1 := by
          rw [prefix_fgetsInto hkey buffer hfp]
          exact fun h => hs (.inl ⟨0, h⟩)
        refine ⟨_, keyTurn_again hkey hhere, ?_⟩
        rintro (⟨k, hk⟩ | ⟨-, hstale⟩)
        · rw [fgetsInto_of_ne_nil _ _ hfp] at hk
          exact hs (.inl ⟨k + 1, hk⟩)
        · exact hhere hstale
    rw [hnone] at hrun
    exact nomatch hrun
  · rintro (⟨k, hk⟩ | ⟨rfl, hstale⟩)
    · induction k generalizing buffer contents with
      | zero =>
          have hfp : contents ≠ [] := by
            rintro rfl
            exact hne (List.prefix_nil.mp (piece_nil bufferSize 0 ▸ hk))
          exact ⟨1, _, Loop.run_done (keyTurn_done hkey ((prefix_fgetsInto hkey _ hfp).mpr hk))⟩
      | succ k ih =>
          have hfp : contents ≠ [] := by
            rintro rfl
            exact hne (List.prefix_nil.mp (piece_nil bufferSize (k + 1) ▸ hk))
          by_cases hhere : key <+: (fgetsInto bufferSize buffer contents).1
          · exact ⟨1, _, Loop.run_done (keyTurn_done hkey hhere)⟩
          · obtain ⟨fuel, found, hrun⟩ := ih (fgetsInto bufferSize buffer contents).1
              (fgetsInto bufferSize buffer contents).2 (by
                rw [fgetsInto_of_ne_nil _ _ hfp]
                exact hk)
            exact ⟨fuel + 1, found, (Loop.run_again (keyTurn_again hkey hhere)).trans hrun⟩
    · exact ⟨1, buffer, Loop.run_done (keyTurn_done hkey hstale)⟩

end Loop

/-! ## The functions -/

namespace Ps

/-- What the locals of `filter_u` and `process` hold at first. -/
structure Junk where
  buffer : List Char
  name : List Char
  pid : Int32
  utime : Int32
  ktime : Int32
  virt : Int32
  id : Int32
deriving Repr, DecidableEq

/-- `struct required`. -/
structure Required where
  pid : Int32
  user : List Char
  time : Int32
  virt : Int32
  cmd : List Char
deriving Repr, DecidableEq

/-- `fnmatch` with the pattern `[1-9]*`. -/
def isPid (dName : List Char) : Bool := dName.head?.any fun c => '1' ≤ c ∧ c ≤ '9'

def statPath (dir : List Char) : List Char := "/proc/".toList ++ dir ++ "/stat".toList

def statusPath (dir : List Char) : List Char := "/proc/".toList ++ dir ++ "/status".toList

def uidKey : List Char := "Uid".toList

section Functions

variable (files : Files) (junk : Junk) (fuel : ℕ)

/-- The filter that keeps the processes of the user `uid`. -/
def filterU (uid : Int32) (dName : List Char) : Option (Except Fault Bool) :=
  if isPid dName then
    match files (statusPath dName) with
    | none => some (.error .file)
    | some fp =>
        (Loop.run (keyTurn uidKey) fuel (junk.buffer, fp)).map fun buffer =>
          let id := intAt (sscanf buffer "%*s %d") 0 junk.id
          .ok (id = uid)
  else some (.ok false)

/-- The filter that keeps all processes. -/
def filterA (dName : List Char) : Bool := isPid dName

/-- `char *cmd = name + 1; name[strlen(cmd)] = 0`, and the copy of `cmd`. -/
def stripBrackets (name : List Char) : List Char :=
  text ((name.set (strlen (name.drop 1)) nul).drop 1)

def statFormat : String :=
  "%d %s %*s %*s %*s %*s %*s %*s %*s %*s %*s %*s %*s %d %d %*s %*s %*s %*s %*s %*s %*s %d"

/-- What is known of the process `dir`. The sum of the times is that of two
`int`. -/
def process (getpwuid : Int32 → Option (List Char)) (dir : List Char) :
    Option (Except Fault Required) :=
  match files (statPath dir) with
  | none => some (.error .file)
  | some fp =>
      let buffer := (fgetsInto bufferSize junk.buffer fp).1
      let vs := sscanf buffer statFormat
      let pid := intAt vs 0 junk.pid
      let name := wordAt vs 1 junk.name
      let utime := intAt vs 2 junk.utime
      let ktime := intAt vs 3 junk.ktime
      let virt := intAt vs 4 junk.virt
      match files (statusPath dir) with
      | none => some (.error .file)
      | some fp =>
          (Loop.run (keyTurn uidKey) fuel (buffer, fp)).map fun buffer =>
            let id := intAt (sscanf buffer "%*s %d") 0 junk.id
            match getpwuid id with
            | none => .error .passwd
            | some user => .ok
                { pid := pid, user := user, time := (utime + ktime) / 100, virt := virt
                  cmd := stripBrackets name }

end Functions

end Ps

namespace Info

/-- What the locals of a function hold at first. -/
structure Junk where
  buffer : List Char
  num : Int32
deriving Repr, DecidableEq

def cpuinfoPath : List Char := "/proc/cpuinfo".toList

def coreKey : List Char := "cpu cores".toList

/-- The number of cores. -/
def core (files : Files) (junk : Junk) (fuel : ℕ) : Option (Except Fault Int32) :=
  match files cpuinfoPath with
  | none => some (.error .file)
  | some fp =>
      (Loop.run (keyTurn coreKey) fuel (junk.buffer, fp)).map fun buffer =>
        .ok (intAt (sscanf buffer "%*s %*s %*s %d") 0 junk.num)

end Info

/-! ## The result -/

/-- A function that does something after its loop ends when the loop
does. -/
theorem ends_map_iff {α β : Type*} {run : ℕ → Option α} {f : α → β} :
    (∃ fuel r, (run fuel).map f = some r) ↔ ∃ fuel a, run fuel = some a := by
  constructor
  · rintro ⟨fuel, r, hr⟩
    obtain ⟨a, ha, -⟩ := Option.map_eq_some_iff.mp hr
    exact ⟨fuel, a, ha⟩
  · rintro ⟨fuel, a, ha⟩
    exact ⟨fuel, f a, by rw [ha, Option.map_some]⟩

/-- The three scans end exactly when the key begins one of the pieces that
are read of the file or, if it is empty, what is left in the buffer. -/
theorem scans_end_iff (files : Files) (junk : Ps.Junk) (junk' : Info.Junk) :
    (∀ uid dName contents, Ps.isPid dName = true → files (Ps.statusPath dName) = some contents →
      ((∃ fuel r, Ps.filterU files junk fuel uid dName = some r) ↔
        Found Ps.uidKey junk.buffer contents)) ∧
    (∀ getpwuid dir stat contents, files (Ps.statPath dir) = some stat →
      files (Ps.statusPath dir) = some contents →
      ((∃ fuel r, Ps.process files junk fuel getpwuid dir = some r) ↔
        Found Ps.uidKey (fgetsInto bufferSize junk.buffer stat).1 contents)) ∧
    ∀ contents, files Info.cpuinfoPath = some contents →
      ((∃ fuel r, Info.core files junk' fuel = some r) ↔
        Found Info.coreKey junk'.buffer contents) := by
  have huid : nul ∉ Ps.uidKey := by decide
  refine ⟨fun uid dName contents hpid hopen => ?_,
    fun getpwuid dir stat contents hstat hopen => ?_, fun contents hopen => ?_⟩
  · simp only [Ps.filterU, hpid, hopen, if_true]
    rw [ends_map_iff]
    exact keyScan_ends_iff huid (by decide) junk.buffer contents
  · simp only [Ps.process, hstat, hopen]
    rw [ends_map_iff]
    exact keyScan_ends_iff huid (by decide) _ contents
  · simp only [Info.core, hopen]
    rw [ends_map_iff]
    exact keyScan_ends_iff (by decide) (by decide) junk'.buffer contents

/-- A directory of one process, with its two files. -/
def oneProcess (stat status : List Char) : Files := fun path =>
  if path = Ps.statPath "7".toList then some stat
  else if path = Ps.statusPath "7".toList then some status
  else none

def blankJunk : Ps.Junk := ⟨[nul], [nul], 0, 0, 0, 0, 0⟩

/-- The second line of a status file has the key. -/
theorem scans_end_iff_second : ∃ fuel r,
    Ps.filterU (oneProcess [] "Name:\tsh\nUid:\t0\n".toList) blankJunk fuel 0 "7".toList
      = some r := by
  refine ((scans_end_iff (oneProcess [] "Name:\tsh\nUid:\t0\n".toList) blankJunk ⟨[nul], 0⟩).1
    0 "7".toList "Name:\tsh\nUid:\t0\n".toList (by decide) (by decide)).mpr ?_
  exact .inl ⟨1, by decide⟩

theorem not_found_nil {key buffer : List Char} (hne : key ≠ []) (h : ¬ key <+: buffer) :
    ¬ Found key buffer [] := by
  rintro (⟨k, hk⟩ | ⟨-, hstale⟩)
  · rw [piece_nil] at hk
    exact hne (List.prefix_nil.mp hk)
  · exact h hstale

theorem keyScan_eq_none {key buffer contents : List Char} (hkey : nul ∉ key) (hne : key ≠ [])
    (h : ¬ Found key buffer contents) (fuel : ℕ) :
    Loop.run (keyTurn key) fuel (buffer, contents) = none := by
  by_contra hsome
  obtain ⟨found, hfound⟩ := Option.ne_none_iff_exists'.mp hsome
  exact h ((keyScan_ends_iff hkey hne buffer contents).mp ⟨fuel, found, hfound⟩)

/-- A process has gone when its status file is read, so `fgets` finds
nothing; or the file has one line, and not the key. -/
theorem scans_never_end :
    (∀ fuel, Ps.filterU (oneProcess [] []) blankJunk fuel 0 "7".toList = none) ∧
    ∀ fuel, Ps.process (oneProcess "7 (sh) S".toList "Name:\tsh\n".toList) blankJunk fuel
      (fun _ => none) "7".toList = none := by
  have huid : nul ∉ Ps.uidKey := by decide
  have hline : ¬ Found Ps.uidKey
      (fgetsInto bufferSize blankJunk.buffer "7 (sh) S".toList).1 "Name:\tsh\n".toList := by
    rintro (⟨k, hk⟩ | ⟨hnil, -⟩)
    · cases k with
      | zero => exact absurd hk (by decide)
      | succ k =>
          have hrest : "Name:\tsh\n".toList.drop
              (takeLine (bufferSize - 1) "Name:\tsh\n".toList).length = [] := by decide
          rw [piece, hrest, piece_nil] at hk
          exact absurd hk (by decide)
    · exact absurd hnil (by decide)
  have hpid : Ps.isPid "7".toList = true := by decide
  have hgone : oneProcess [] [] (Ps.statusPath "7".toList) = some [] := by decide
  have hstat : oneProcess "7 (sh) S".toList "Name:\tsh\n".toList (Ps.statPath "7".toList)
      = some "7 (sh) S".toList := by decide
  have hstatus : oneProcess "7 (sh) S".toList "Name:\tsh\n".toList (Ps.statusPath "7".toList)
      = some "Name:\tsh\n".toList := by decide
  constructor
  · intro fuel
    simp only [Ps.filterU, hpid, hgone, if_true]
    rw [keyScan_eq_none huid (by decide) (not_found_nil (by decide) (by decide)), Option.map_none]
  · intro fuel
    simp only [Ps.process, hstat, hstatus]
    rw [keyScan_eq_none huid (by decide) hline, Option.map_none]

end Comp4511
