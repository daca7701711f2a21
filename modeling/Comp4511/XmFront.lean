import Comp4511.CStr
import Comp4511.XmCall

/-!
# The front end of `xmerge`

`main` of `test_xmerge.c`. The loop takes options, one word or two, until
the first word that is none: that is the output file, and the rest are the
inputs. Flags and mode have defaults when none were given.

`xp` is a local that the loop fills only at an output file, and `-m` takes
the next element of `argv` whether there is one or not. So `main` has two
outcomes, a system call with what is in `xp` and the use of `argv[argc]`,
and there is no argument vector that it refuses (`front_end_iff`).

`State.after` is the state after a list of options, said without the order
in which they came; `options_words` says that the loop gets there.
-/

namespace Comp4511

open CStr

namespace Xm

namespace Front

/-! ## The program -/

/-- `argv`: its address, and its elements with the addresses of their
texts. `argc` is an `int`. -/
structure Argv where
  base : Addr
  words : List (Addr × List Char)
  argc_lt : words.length < 2 ^ 31

/-- `argv + i`. -/
def Argv.slot (argv : Argv) (i : ℕ) : Addr := argv.base + UInt64.ofInt (8 * i)

/-- The variables that the loop sets. -/
structure State where
  mode : UInt32
  oflags : Int32
  checkm : Bool
  checkf : Bool
deriving Repr, DecidableEq

/-- How the loop ends. -/
inductive Parsed where
  /-- `argv[argc]` is handed to `strtol`. -/
  | overrun
  | done (s : State)
  | found (s : State) (x : ℕ)
deriving Repr, DecidableEq

def State.flag (s : State) (flag : Int32) : State :=
  { s with checkf := true, oflags := s.oflags ||| flag }

/-- The loop over the arguments, from number `x`. -/
def options : ℕ → List (List Char) → State → Parsed
  | _, [], s => .done s
  | x, w :: ws, s =>
      if w = "-m".toList then
        match ws with
        | [] => .overrun
        | mode :: ws =>
            options (x + 2) ws { s with checkm := true, mode := UInt32.ofInt (strtolOctal mode) }
      else if w = "-a".toList then options (x + 1) ws (s.flag oAppend)
      else if w = "-c".toList then options (x + 1) ws (s.flag oCreat)
      else if w = "-t".toList then options (x + 1) ws (s.flag oTrunc)
      else if w = "-e".toList then options (x + 1) ws (s.flag oExcl)
      else .found s x

/-- What becomes of the program: it ends without the system call, uses
`argv[argc]`, or makes the call. -/
inductive Outcome where
  | exit
  | overrun
  | call (xp : XmergeParams)
deriving Repr, DecidableEq

/-- The last assignments before the call. -/
def State.fill (s : State) (xp : XmergeParams) (ofileCount : Addr) : XmergeParams :=
  { xp with
    ofileCount := ofileCount
    oflags := if s.checkf then s.oflags else oCreat ||| oWronly ||| oAppend
    mode := if s.checkm then s.mode else 0o600 }

/-- `main`, where `xp` is what the local holds at first. -/
def main (argv : Argv) (xp : XmergeParams) (ofileCount : Addr) : Outcome :=
  match options 1 ((argv.words.drop 1).map (·.2)) ⟨0, oWronly, false, false⟩ with
  | .overrun => .overrun
  | .done s => .call (s.fill xp ofileCount)
  | .found s x => .call (s.fill
      { xp with
        outfile := (argv.words.getD x (0, [])).1
        infiles := argv.slot (x + 1)
        numFiles := UInt32.ofNat (argv.words.length - x - 1) } ofileCount)

/-! ## The grammar -/

inductive Opt where
  | a
  | c
  | t
  | e
  | m (mode : List Char)
deriving Repr, DecidableEq

def Opt.words : Opt → List (List Char)
  | .a => ["-a".toList]
  | .c => ["-c".toList]
  | .t => ["-t".toList]
  | .e => ["-e".toList]
  | .m mode => ["-m".toList, mode]

def optionNames : List (List Char) :=
  ["-a".toList, "-c".toList, "-t".toList, "-e".toList, "-m".toList]

/-- An octal number that a `mode_t` can hold. -/
structure IsMode (mode : List Char) : Prop where
  ne_nil : mode ≠ []
  octal : ∀ c ∈ mode, isOctal c = true
  fits : Nat.ofDigitChars 8 mode 0 < 2 ^ 32

/-- An argument vector taken apart. -/
structure Parse where
  name : Addr × List Char
  opts : List Opt
  before : List (Addr × List Char)
  outfile : Addr × List Char
  infiles : List (Addr × List Char)

/-- The vector is `options* outfile infile*`. -/
structure Parse.Of (p : Parse) (argv : Argv) : Prop where
  words : argv.words = p.name :: (p.before ++ p.outfile :: p.infiles)
  before : p.before.map (·.2) = p.opts.flatMap Opt.words
  modes : ∀ mode, .m mode ∈ p.opts → IsMode mode
  outfile : p.outfile.2 ∉ optionNames

/-- The flags of the options given. -/
def joined (opts : List Opt) : Int32 :=
  oWronly ||| (if .a ∈ opts then oAppend else 0) ||| (if .c ∈ opts then oCreat else 0)
    ||| (if .t ∈ opts then oTrunc else 0) ||| (if .e ∈ opts then oExcl else 0)

def Opt.mode? : Opt → Option (List Char)
  | .m mode => some mode
  | .a | .c | .t | .e => none

/-- One of `-a`, `-c`, `-t` and `-e` is given. -/
def flagged (opts : List Opt) : Bool := opts.any fun o => o.mode? = none

/-- The last mode given. -/
def lastMode (opts : List Opt) : Option (List Char) := (opts.filterMap Opt.mode?).getLast?

/-- The call passes on what the arguments say. -/
structure Parse.Passes (p : Parse) (argv : Argv) (xp : XmergeParams) : Prop where
  outfile : xp.outfile = p.outfile.1
  infiles : ∀ i, i < p.infiles.length → xp.nameAt i = argv.slot (p.before.length + 2 + i)
  numFiles : xp.numFiles.toNat = p.infiles.length
  oflags : xp.oflags = if flagged p.opts then joined p.opts else oCreat ||| oWronly ||| oAppend
  mode : xp.mode.toNat = ((lastMode p.opts).map fun m => Nat.ofDigitChars 8 m 0).getD 0o600

/-! ## The loop -/

/-- The state after the options `opts`. -/
def State.after (opts : List Opt) : State where
  mode := ((lastMode opts).map fun m => UInt32.ofInt (strtolOctal m)).getD 0
  oflags := joined opts
  checkm := (lastMode opts).isSome
  checkf := flagged opts

/-- The flag that an option adds. -/
def Opt.bits : Opt → Int32
  | .a => oAppend
  | .c => oCreat
  | .t => oTrunc
  | .e => oExcl
  | .m _ => 0

theorem joined_concat (opts : List Opt) (o : Opt) :
    joined (opts ++ [o]) = joined opts ||| o.bits := by
  by_cases ha : Opt.a ∈ opts <;> by_cases hc : Opt.c ∈ opts <;> by_cases ht : Opt.t ∈ opts <;>
    by_cases he : Opt.e ∈ opts <;> cases o <;> simp [joined, Opt.bits, ha, hc, ht, he] <;> decide

theorem flagged_concat (opts : List Opt) (o : Opt) :
    flagged (opts ++ [o]) = (flagged opts || decide (o.mode? = none)) := by
  simp [flagged]

theorem lastMode_concat (opts : List Opt) (o : Opt) :
    lastMode (opts ++ [o]) = o.mode?.or (lastMode opts) := by
  cases o <;> simp [lastMode, List.filterMap_append, Opt.mode?]

/-- A word that is not `-m`. -/
theorem options_cons {w : List Char} (h : w ≠ "-m".toList) (x : ℕ) (ws : List (List Char))
    (s : State) : options x (w :: ws) s =
      if w = "-a".toList then options (x + 1) ws (s.flag oAppend)
      else if w = "-c".toList then options (x + 1) ws (s.flag oCreat)
      else if w = "-t".toList then options (x + 1) ws (s.flag oTrunc)
      else if w = "-e".toList then options (x + 1) ws (s.flag oExcl)
      else .found s x := by
  rw [options.eq_def]
  exact if_neg h

theorem after_flag (opts : List Opt) {o : Opt} (h : o.mode? = none) :
    State.after (opts ++ [o]) = (State.after opts).flag o.bits := by
  simp [State.after, State.flag, joined_concat, flagged_concat, lastMode_concat, h]

theorem after_mode (opts : List Opt) (mode : List Char) :
    State.after (opts ++ [.m mode]) = { State.after opts with
      checkm := true, mode := UInt32.ofInt (strtolOctal mode) } := by
  simp [State.after, joined_concat, flagged_concat, lastMode_concat, Opt.mode?, Opt.bits]

/-- One option. -/
theorem options_step (x : ℕ) (opts : List Opt) (o : Opt) (rest : List (List Char)) :
    options x (o.words ++ rest) (State.after opts)
      = options (x + o.words.length) rest (State.after (opts ++ [o])) := by
  cases o with
  | a =>
      rw [after_flag opts rfl]
      exact options_cons (by decide) ..
  | c =>
      rw [after_flag opts rfl]
      exact options_cons (by decide) ..
  | t =>
      rw [after_flag opts rfl]
      exact options_cons (by decide) ..
  | e =>
      rw [after_flag opts rfl]
      exact options_cons (by decide) ..
  | m mode =>
      rw [after_mode]
      rfl

/-- All of them. -/
theorem options_words (x : ℕ) (before opts : List Opt) (rest : List (List Char)) :
    options x (opts.flatMap Opt.words ++ rest) (State.after before)
      = options (x + (opts.flatMap Opt.words).length) rest (State.after (before ++ opts)) := by
  induction opts generalizing x before with
  | nil => rw [List.append_nil]; rfl
  | cons o opts ih =>
      rw [List.flatMap_cons, List.append_assoc, options_step, ih, List.length_append,
        Nat.add_assoc, List.append_assoc]
      rfl

theorem options_outfile (x : ℕ) {w : List Char} (h : w ∉ optionNames) (ws : List (List Char))
    (s : State) : options x (w :: ws) s = .found s x := by
  simp only [optionNames, List.mem_cons, List.not_mem_nil, or_false, not_or] at h
  obtain ⟨ha, hc, ht, he, hm⟩ := h
  rw [options_cons hm, if_neg ha, if_neg hc, if_neg ht, if_neg he]

/-! ## The result -/

/-- The loop stops at the output file. -/
theorem Parse.Of.parsed {p : Parse} {argv : Argv} (h : p.Of argv) :
    options 1 ((argv.words.drop 1).map (·.2)) ⟨0, oWronly, false, false⟩
      = .found (State.after p.opts) (p.before.length + 1) := by
  have hwords : (argv.words.drop 1).map (·.2)
      = p.opts.flatMap Opt.words ++ p.outfile.2 :: p.infiles.map (·.2) := by
    rw [h.words, List.drop_succ_cons, List.drop_zero, List.map_append, h.before, List.map_cons]
  have hstart : (⟨0, oWronly, false, false⟩ : State) = State.after [] := by decide
  have hlen : (p.opts.flatMap Opt.words).length = p.before.length := by
    rw [← h.before, List.length_map]
  rw [hwords, hstart, options_words, options_outfile _ h.outfile, List.nil_append, hlen,
    Nat.add_comm]

/-- The mode that is passed is the last one given. -/
theorem Parse.Of.toNat_mode {p : Parse} {argv : Argv} (h : p.Of argv) :
    (if (State.after p.opts).checkm then (State.after p.opts).mode else 0o600 : UInt32).toNat
      = ((lastMode p.opts).map fun m => Nat.ofDigitChars 8 m 0).getD 0o600 := by
  unfold State.after
  cases hlast : lastMode p.opts with
  | none => rfl
  | some mode =>
      have hmem : Opt.m mode ∈ p.opts := by
        obtain ⟨o, ho, hmode⟩ := List.mem_filterMap.mp (List.mem_of_getLast? hlast)
        cases o with
        | m mode' =>
            obtain rfl : mode' = mode := Option.some.inj hmode
            exact ho
        | _ => exact nomatch hmode
      obtain ⟨hne, hoctal, hfits⟩ := h.modes mode hmem
      have hvalue : strtolOctal mode = (Nat.ofDigitChars 8 mode 0 : ℤ) := by
        rw [strtolOctal_digits hne hoctal]
        omega
      show (UInt32.ofInt (strtolOctal mode)).toNat = Nat.ofDigitChars 8 mode 0
      rw [hvalue, UInt32.ofInt, UInt32.toNat_ofNat_of_lt' (by show _ < 2 ^ 32; omega)]
      omega

theorem Parse.Of.passes {p : Parse} {argv : Argv} (h : p.Of argv) (xp : XmergeParams)
    (ofileCount : Addr) : ∃ xp', main argv xp ofileCount = .call xp' ∧ p.Passes argv xp' := by
  have hargc := argv.argc_lt
  have hlen : argv.words.length = p.before.length + p.infiles.length + 2 := by
    rw [h.words, List.length_cons, List.length_append, List.length_cons]
    omega
  have hnumber : argv.words.length - (p.before.length + 1) - 1 = p.infiles.length := by omega
  have houtfile : argv.words.getD (p.before.length + 1) (0, []) = p.outfile := by
    rw [List.getD_eq_getElem?_getD, h.words, List.getElem?_cons_succ, getElem?_length_append]
    rfl
  refine ⟨_, by rw [main, h.parsed], ?_, fun i hi => ?_, ?_, rfl, h.toNat_mode⟩
  · exact congrArg Prod.fst houtfile
  · show argv.slot (p.before.length + 1 + 1) + UInt64.ofInt (8 * (Int32.ofNat i).toInt) = _
    rw [Int32.toInt_ofNat_of_lt (by omega), Argv.slot, Argv.slot, UInt64.add_assoc,
      ← UInt64.ofInt_add]
    congr 2
    omega
  · show (UInt32.ofNat (argv.words.length - (p.before.length + 1) - 1)).toNat = _
    rw [hnumber, UInt32.toNat_ofNat_of_lt' (by show _ < 2 ^ 32; omega)]

theorem main_ne_exit (argv : Argv) (xp : XmergeParams) (ofileCount : Addr) :
    main argv xp ofileCount ≠ .exit := by
  unfold main
  split <;> exact nofun

/-- Without an output file the call is made with what is in `xp`. -/
theorem main_no_outfile {argv : Argv} {opts : List Opt}
    (h : (argv.words.drop 1).map (·.2) = opts.flatMap Opt.words) (xp : XmergeParams)
    (ofileCount : Addr) :
    main argv xp ofileCount = .call ((State.after opts).fill xp ofileCount) := by
  have hstart : (⟨0, oWronly, false, false⟩ : State) = State.after [] := by decide
  have hloop := options_words 1 [] opts []
  rw [List.append_nil] at hloop
  rw [main, h, hstart, hloop, List.nil_append]
  rfl

/-- With `-m` at the end `argv[argc]` is used. -/
theorem main_trailing_m {argv : Argv} {opts : List Opt}
    (h : (argv.words.drop 1).map (·.2) = opts.flatMap Opt.words ++ ["-m".toList])
    (xp : XmergeParams) (ofileCount : Addr) : main argv xp ofileCount = .overrun := by
  have hstart : (⟨0, oWronly, false, false⟩ : State) = State.after [] := by decide
  rw [main, h, hstart, options_words]
  rfl

/-- The call passes on what an argument vector of the grammar says, and no
other vector is refused: so the front end does what it should for the
vectors of the grammar only. Without an output file it makes the call with
what its local holds, and a trailing `-m` makes it use `argv[argc]`. -/
theorem front_end_iff (argv : Argv) (xp : XmergeParams) (ofileCount : Addr) :
    (((∀ p : Parse, p.Of argv → ∃ xp', main argv xp ofileCount = .call xp' ∧ p.Passes argv xp') ∧
      ((∀ p : Parse, ¬ p.Of argv) → main argv xp ofileCount = .exit)) ↔
      ∃ p : Parse, p.Of argv) ∧
    (∀ opts : List Opt, (argv.words.drop 1).map (·.2) = opts.flatMap Opt.words →
      ∃ xp', main argv xp ofileCount = .call xp' ∧ xp'.outfile = xp.outfile ∧
        xp'.infiles = xp.infiles ∧ xp'.numFiles = xp.numFiles) ∧
    ∀ opts : List Opt,
      (argv.words.drop 1).map (·.2) = opts.flatMap Opt.words ++ ["-m".toList] →
      main argv xp ofileCount = .overrun := by
  refine ⟨⟨?_, ?_⟩, fun opts h => ?_, fun opts h => main_trailing_m h xp ofileCount⟩
  · rintro ⟨-, hother⟩
    by_contra hnone
    exact main_ne_exit argv xp ofileCount (hother fun p hp => hnone ⟨p, hp⟩)
  · rintro ⟨p, hp⟩
    exact ⟨fun q hq => hq.passes xp ofileCount, fun hnone => absurd hp (hnone p)⟩
  · exact ⟨_, main_no_outfile h xp ofileCount, rfl, rfl, rfl⟩

/-- An `argv` with the given texts. -/
def sampleArgv (texts : List (List Char)) (h : texts.length < 2 ^ 31) : Argv where
  base := 0x7000
  words := texts.mapIdx fun i t => (0x8000 + 16 * UInt64.ofNat i, t)
  argc_lt := by rwa [List.length_mapIdx]

def appendTexts : List (List Char) :=
  ["test_xmerge".toList, "-a".toList, "-m".toList, "0644".toList, "-a".toList, "out".toList,
    "in".toList]

def appendParse : Parse where
  name := (0x8000, "test_xmerge".toList)
  opts := [.a, .m "0644".toList, .a]
  before := [(0x8010, "-a".toList), (0x8020, "-m".toList), (0x8030, "0644".toList),
    (0x8040, "-a".toList)]
  outfile := (0x8050, "out".toList)
  infiles := [(0x8060, "in".toList)]

/-- `-a`, a mode, and `-a` again. -/
theorem front_end_iff_append : ∃ xp',
    main (sampleArgv appendTexts (by decide)) ⟨9, 9, 9, 9, 9, 9⟩ 0x300 = .call xp' ∧
      xp'.outfile = 0x8050 ∧ xp'.numFiles.toNat = 1 ∧ xp'.oflags = 0x401 ∧
      xp'.mode.toNat = 0o644 := by
  have hof : appendParse.Of (sampleArgv appendTexts (by decide)) := by
    refine ⟨by decide, by decide, fun mode hmode => ?_, by decide⟩
    have hmode : mode = "0644".toList := by simpa [appendParse] using hmode
    subst hmode
    exact ⟨by decide, by simp [isOctal], by decide⟩
  obtain ⟨xp', hmain, hpasses⟩ :=
    ((front_end_iff (sampleArgv appendTexts (by decide)) ⟨9, 9, 9, 9, 9, 9⟩ 0x300).1.mpr
      ⟨appendParse, hof⟩).1 appendParse hof
  exact ⟨xp', hmain, hpasses.outfile, hpasses.numFiles, hpasses.oflags.trans (by decide),
    hpasses.mode.trans (by decide)⟩

/-- The program is called without arguments, and with `-m` only: no vector
of the grammar, and neither is refused. -/
theorem missing_outfile_calls :
    (∀ p : Parse, ¬ p.Of (sampleArgv ["test_xmerge".toList] (by decide))) ∧
    main (sampleArgv ["test_xmerge".toList] (by decide)) ⟨9, 9, 9, 9, 9, 9⟩ 0x300
      = .call ⟨9, 9, 9, 0x441, 0o600, 0x300⟩ ∧
    (∀ p : Parse, ¬ p.Of (sampleArgv ["test_xmerge".toList, "-m".toList] (by decide))) ∧
    main (sampleArgv ["test_xmerge".toList, "-m".toList] (by decide)) ⟨9, 9, 9, 9, 9, 9⟩ 0x300
      = .overrun := by
  refine ⟨fun p hp => ?_, by decide, fun p hp => ?_, by decide⟩
  · have hlen := congrArg List.length hp.words
    simp [sampleArgv] at hlen
  · have hlen := congrArg List.length hp.words
    simp only [sampleArgv, List.length_mapIdx, List.length_cons, List.length_append,
      List.length_nil] at hlen
    have hbefore : p.before = [] := List.eq_nil_of_length_eq_zero (by omega)
    have hinfiles : p.infiles = [] := List.eq_nil_of_length_eq_zero (by omega)
    have hwords := congrArg (List.map (·.2)) hp.words
    rw [hbefore, hinfiles] at hwords
    have hname : "-m".toList = p.outfile.2 := (List.cons.inj (List.cons.inj hwords).2).1
    exact hp.outfile (hname ▸ by decide)

end Front

end Xm

end Comp4511
