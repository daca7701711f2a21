import Mathlib.Algebra.BigOperators.Group.List.Basic
import Comp4511.RtStep

/-!
# The counts of a real-time runqueue

Eight fields of `rt_rq` and of the root domain are counts over the tasks
that are queued: how many there are, how many of them are round robin or
can migrate, the best priority, and what other CPUs are told of it. A
`Tally` is all of them together, `tallyOf rq C` what they are for the tasks
`C`; `inc_rt_tasks` and `dec_rt_tasks` go from the tally of some tasks to
that of one more or one less.

The best priority comes from the bitmap, also in the middle of a change,
when the task is not counted while it stays on its list. So the two lemmas
ask only how the first bit that is set and the best priority so far belong
together.
-/

namespace Comp4511

namespace Rt

open Sched (Pid SchedClass Policy)

/-! ## The counts -/

/-- The counts of a runqueue with its share in the root domain. -/
structure Tally where
  rtNrRunning : ℕ
  rrNrRunning : ℕ
  highestCurr : ℤ
  rtNrMigratory : ℕ
  rtNrTotal : ℕ
  overloaded : Bool
  rtoMask : Bool
  rtoCount : ℕ
  cpupri : ℤ

def Rq.tally (rq : Rq) : Tally where
  rtNrRunning := rq.rt.rtNrRunning
  rrNrRunning := rq.rt.rrNrRunning
  highestCurr := rq.rt.highestCurr
  rtNrMigratory := rq.rt.rtNrMigratory
  rtNrTotal := rq.rt.rtNrTotal
  overloaded := rq.rt.overloaded
  rtoMask := rq.rtoMask
  rtoCount := rq.rtoCount
  cpupri := rq.cpupri

def Rq.withTally (rq : Rq) (t : Tally) : Rq :=
  { rq with
    rt := { rq.rt with
      rtNrRunning := t.rtNrRunning
      rrNrRunning := t.rrNrRunning
      highestCurr := t.highestCurr
      rtNrMigratory := t.rtNrMigratory
      rtNrTotal := t.rtNrTotal
      overloaded := t.overloaded }
    rtoMask := t.rtoMask
    rtoCount := t.rtoCount
    cpupri := t.cpupri }

/-- The counts for the tasks `C` with `h` as the best priority. -/
def tallyAt (rq : Rq) (C : List Pid) (h : ℤ) : Tally :=
  let migr := (C.map fun p => migratory (rq.task p)).sum
  let overload : Bool := migr ≠ 0 ∧ 1 < C.length
  { rtNrRunning := C.length
    rrNrRunning := (C.map fun p => rtSeRrNrRunning (rq.task p)).sum
    highestCurr := h
    rtNrMigratory := migr
    rtNrTotal := C.length
    overloaded := overload
    rtoMask := rq.online && overload
    rtoCount := if rq.online && overload then 1 else 0
    cpupri := if rq.online then h else cpupriInvalid }

/-- The best priority, from the array. -/
def bestOf (rq : Rq) (C : List Pid) : ℤ :=
  if C = [] then maxRtPrio else schedFindFirstBit rq.rt.active

def tallyOf (rq : Rq) (C : List Pid) : Tally := tallyAt rq C (bestOf rq C)

section Tally

variable {rq : Rq} {p : Pid} {C : List Pid} {h : ℤ}

theorem updateRtMigration_eq (rq : Rq) {t : Tally} (hmask : t.rtoMask = (rq.online && t.overloaded))
    (hcount : t.rtoCount = if rq.online && t.overloaded then 1 else 0) :
    updateRtMigration (rq.withTally t) =
      let overload : Bool := t.rtNrMigratory ≠ 0 ∧ 1 < t.rtNrTotal
      rq.withTally { t with
        overloaded := overload
        rtoMask := rq.online && overload
        rtoCount := if rq.online && overload then 1 else 0 } := by
  obtain ⟨nrRunning, rr, highest, nrMigratory, nrTotal, overloaded, rtoMask, rtoCount, cpupri⟩ := t
  dsimp only at hmask hcount
  by_cases hmigr : nrMigratory = 0 <;> by_cases htotal : 1 < nrTotal <;>
    cases honline : rq.online <;> cases overloaded <;>
    simp [updateRtMigration, rtSetOverload, rtClearOverload, Rq.modRt, Rq.withTally, hmask, hcount,
      hmigr, htotal, honline]

theorem incRtPrio_eq (rq : Rq) {t : Tally}
    (hpri : t.cpupri = if rq.online then t.highestCurr else cpupriInvalid) (prio : ℤ) :
    incRtPrio (rq.withTally t) prio =
      let best := min prio t.highestCurr
      rq.withTally { t with
        highestCurr := best
        cpupri := if rq.online then best else cpupriInvalid } := by
  rcases lt_or_ge prio t.highestCurr with hlt | hge <;> cases honline : rq.online
  · simp [incRtPrio, incRtPrioSmp, Rq.modRt, Rq.withTally, honline, hpri, hlt, min_eq_left hlt.le]
  · simp [incRtPrio, incRtPrioSmp, Rq.modRt, Rq.withTally, honline, hlt, min_eq_left hlt.le]
  · simp [incRtPrio, incRtPrioSmp, Rq.withTally, honline, hpri, min_eq_right hge, not_lt.mpr hge]
  · simp [incRtPrio, incRtPrioSmp, Rq.withTally, honline, hpri, min_eq_right hge, not_lt.mpr hge]

theorem decRtPrio_eq (rq : Rq) {t : Tally}
    (hpri : t.cpupri = if rq.online then t.highestCurr else cpupriInvalid) (prio : ℤ) :
    decRtPrio (rq.withTally t) prio =
      let best : ℤ :=
        if t.rtNrRunning = 0 then maxRtPrio
        else if prio = t.highestCurr then schedFindFirstBit rq.rt.active
        else t.highestCurr
      rq.withTally { t with
        highestCurr := best
        cpupri := if rq.online then best else cpupriInvalid } := by
  by_cases hrun : t.rtNrRunning = 0 <;> by_cases hprio : prio = t.highestCurr <;>
    cases honline : rq.online <;>
    simp [decRtPrio, decRtPrioSmp, Rq.modRt, Rq.withTally, hpri, hrun, hprio, honline] <;>
    grind

theorem incRtGroup_eq (b : Bandwidth) (rq : Rq) : incRtGroup b rq = { rq with
    rtPeriodActive := rq.rtPeriodActive || (b.enabled && b.rtRuntime ≠ runtimeInf) } := by
  by_cases hb : b.enabled = true <;> by_cases hinf : b.rtRuntime = runtimeInf <;>
    simp [incRtGroup, hb, hinf]

/-- The counts with one task more. -/
theorem incRtTasks_eq (b : Bandwidth) (htally : rq.tally = tallyAt rq C h)
    (hbest : schedFindFirstBit rq.rt.active = min (rq.prio p) h) :
    incRtTasks b rq p =
      { rq.withTally (tallyOf rq (p :: C)) with
        rtPeriodActive := rq.rtPeriodActive || (b.enabled && b.rtRuntime ≠ runtimeInf) } := by
  have hrun : rq.modRt (fun rt => { rt with
      rtNrRunning := rt.rtNrRunning + 1
      rrNrRunning := rt.rrNrRunning + rtSeRrNrRunning (rq.task p) }) =
      rq.withTally { tallyAt rq C h with
        rtNrRunning := C.length + 1
        rrNrRunning := (tallyAt rq C h).rrNrRunning + rtSeRrNrRunning (rq.task p) } := by
    rw [← htally]
    exact congrArg (fun n => rq.modRt fun rt => { rt with
      rtNrRunning := n + 1, rrNrRunning := rt.rrNrRunning + rtSeRrNrRunning (rq.task p) })
        (congrArg Tally.rtNrRunning htally)
  have hmigr : ∀ t : Tally, (rq.withTally t).modRt (fun rt => { rt with
      rtNrTotal := rt.rtNrTotal + 1
      rtNrMigratory := rt.rtNrMigratory + migratory ((rq.withTally t).task p) }) =
      rq.withTally { t with
        rtNrTotal := t.rtNrTotal + 1
        rtNrMigratory := t.rtNrMigratory + migratory (rq.task p) } := fun _ => rfl
  have hbestOf : bestOf rq (p :: C) = min (rq.prio p) h := by rw [bestOf, if_neg (List.cons_ne_nil _ _), hbest]
  rw [incRtTasks, hrun, incRtPrio_eq rq rfl, incRtMigration, hmigr, updateRtMigration_eq rq rfl rfl,
    incRtGroup_eq]
  simp [tallyOf, tallyAt, hbestOf, Nat.add_comm, Rq.withTally]

/-- The counts with one task less. -/
theorem decRtTasks_eq (htally : rq.tally = tallyAt rq C h) (hp : p ∈ C)
    (hbest : rq.prio p ≠ h → schedFindFirstBit rq.rt.active = h) :
    decRtTasks rq p = rq.withTally (tallyOf rq (C.erase p)) := by
  have hrun : rq.modRt (fun rt => { rt with
      rtNrRunning := rt.rtNrRunning - 1
      rrNrRunning := rt.rrNrRunning - rtSeRrNrRunning (rq.task p) }) =
      rq.withTally { tallyAt rq C h with
        rtNrRunning := C.length - 1
        rrNrRunning := (tallyAt rq C h).rrNrRunning - rtSeRrNrRunning (rq.task p) } := by
    rw [← htally]
    exact congrArg (fun n => rq.modRt fun rt => { rt with
      rtNrRunning := n - 1, rrNrRunning := rt.rrNrRunning - rtSeRrNrRunning (rq.task p) })
        (congrArg Tally.rtNrRunning htally)
  have hmigr : ∀ t : Tally, (rq.withTally t).modRt (fun rt => { rt with
      rtNrTotal := rt.rtNrTotal - 1
      rtNrMigratory := rt.rtNrMigratory - migratory ((rq.withTally t).task p) }) =
      rq.withTally { t with
        rtNrTotal := t.rtNrTotal - 1
        rtNrMigratory := t.rtNrMigratory - migratory (rq.task p) } := fun _ => rfl
  have hlen : (C.erase p).length = C.length - 1 := List.length_erase_of_mem hp
  have hsum : ∀ f : Pid → ℕ, (C.map f).sum - f p = ((C.erase p).map f).sum := by
    intro f
    rw [← List.sum_map_erase f hp, Nat.add_sub_cancel_left]
  have hbestOf : bestOf rq (C.erase p) =
      if C.length - 1 = 0 then (maxRtPrio : ℤ)
      else if rq.prio p = h then schedFindFirstBit rq.rt.active else h := by
    have hnil : C.erase p = [] ↔ C.length - 1 = 0 := by rw [← hlen, List.length_eq_zero_iff]
    simp only [bestOf, hnil]
    split
    · rfl
    · split
      · rfl
      · next hne => exact hbest hne
  rw [decRtTasks, hrun, decRtPrio_eq rq rfl, decRtMigration, hmigr, updateRtMigration_eq rq rfl rfl]
  simp only [tallyOf, tallyAt, hbestOf, hlen, ← hsum]
  rfl

end Tally

end Rt

end Comp4511
