import Mathlib.Data.Fintype.EquivFin
import Comp4511.Sh3Wiring

/-!
# Process groups of the third shell

A pipeline is to be one process group, named after its first stage. Both
the shell and the stage itself call `setpgid`, so a stage that comes to
`argv_cmd` has been through a call of its own; the call fails only when
the group has no member.

A stage belongs to the shell's group or to that of its pipeline
(`Shaped`), and a process leaves a group only by being waited for. So the
group can only be lost to a run of the handler that takes its last member
while a stage is still to join. `Keeps` excludes just that, and then every
stage joins (`Joined.step`). After a step that is not so, the next stage
can only stay in the group of the shell (`exists_stranded`).
-/

namespace Comp4511

namespace Sh3

/-! ## What a step does to groups -/

/-- The group a `setpgid` of process `q` is for. -/
def groupFor (q pgid : ℕ) : ℕ := if pgid = 0 then q else pgid

/-- The group `g` has a member, or is to be made by the process `q`. -/
def Joins (s : State) (q g : ℕ) : Prop :=
  g = q ∨ g = s.pgrp ∨ ∃ r c, s.kids.child r = some c ∧ c.data.pgrp = g

/-- `setpgid` takes a process from group `g` to `g'`. -/
def Moves (s : State) (q pgid g g' : ℕ) : Prop :=
  Joins s q (groupFor q pgid) ∧ g' = groupFor q pgid ∨ ¬ Joins s q (groupFor q pgid) ∧ g' = g

theorem groupExists_iff {shell g : ℕ} {k : Wait.Kids Proc} :
    groupExists shell k g = true ↔
      g = shell ∨ ∃ r c, k.child r = some c ∧ c.data.pgrp = g := by
  simp only [groupExists, Bool.or_eq_true, decide_eq_true_eq, List.any_eq_true]
  constructor
  · rintro (hg | ⟨⟨r, c⟩, hmem, hg⟩)
    · exact .inl hg
    · exact .inr ⟨r, c, AList.mem_lookup_iff.mpr hmem, hg⟩
  · rintro (hg | ⟨r, c, hc, hg⟩)
    · exact .inl hg
    · exact .inr ⟨⟨r, c⟩, AList.mem_lookup_iff.mp hc, hg⟩

/-- `setpgid` moves the process it is for and no other. -/
theorem child_setpgid {s : State} {k : Wait.Kids Proc} {p pgid q : ℕ} {c' : Wait.Child Proc}
    (hgroups : ∀ g, (∃ r c, k.child r = some c ∧ c.data.pgrp = g) ↔
      ∃ r c, s.kids.child r = some c ∧ c.data.pgrp = g)
    (hc' : (setpgid s.pgrp k p pgid).child q = some c') :
    ∃ c, k.child q = some c ∧
      ((q ≠ p ∧ c' = c) ∨ q = p ∧ ∃ g', Moves s q pgid c.data.pgrp g' ∧
        c' = { c with data := { c.data with pgrp := g' } }) := by
  have hiff : (groupFor p pgid = p ∨ groupExists s.pgrp k (groupFor p pgid) = true) ↔
      Joins s p (groupFor p pgid) := by
    rw [groupExists_iff, hgroups]
    rfl
  have heq : setpgid s.pgrp k p pgid = if groupFor p pgid = p ∨
      groupExists s.pgrp k (groupFor p pgid) = true then
        k.modify p fun proc => { proc with pgrp := groupFor p pgid } else k := rfl
  rw [heq] at hc'
  by_cases hjoin : Joins s p (groupFor p pgid)
  · rw [if_pos (hiff.mpr hjoin), Wait.Kids.child_modify] at hc'
    split at hc'
    · next hq =>
        subst hq
        obtain ⟨c, hc, rfl⟩ := Option.map_eq_some_iff.mp hc'
        exact ⟨c, hc, .inr ⟨rfl, _, .inl ⟨hjoin, rfl⟩, rfl⟩⟩
    · next hq => exact ⟨c', hc', .inl ⟨hq, rfl⟩⟩
  · rw [if_neg (hiff.not.mpr hjoin)] at hc'
    refine ⟨c', hc', ?_⟩
    by_cases hq : q = p
    · subst hq
      exact .inr ⟨rfl, _, .inr ⟨hjoin, rfl⟩, rfl⟩
    · exact .inl ⟨hq, rfl⟩

/-- The child whose group the shell is about to set, and the group. -/
def placing : Pc → Option (ℕ × ℕ)
  | .setpgid c | .setpgidOne c => some (c.pid.getD c.x 0, c.pgid)
  | _ => none

def Alive (c : Wait.Child Proc) : Prop := ∀ status, c.life ≠ .zombie status

/-- What becomes of the child `q` in a step: nothing as far as its group
and its code go, its next call, or a `setpgid` of the shell. -/
inductive Becomes (s : State) (a : Act) (q : ℕ) (c c' : Wait.Child Proc) : Prop
  | same : c'.data.role = c.data.role → c'.data.pgrp = c.data.pgrp →
      c'.data.code = c.data.code → (Alive c' → Alive c) →
      (a = .main → ∀ pgid, placing s.pc = some (q, pgid) → c.data.code = []) →
      Becomes s a q c c'
  | call {i : Instr} : a = .child q → c.life = .running → c'.life = .running →
      c'.data.role = c.data.role → c.data.code = i :: c'.data.code →
      (∀ pgid, i ≠ .setpgid pgid) → c'.data.pgrp = c.data.pgrp → Becomes s a q c c'
  | join {pgid : ℕ} : a = .child q → c.life = .running → c'.life = .running →
      c'.data.role = c.data.role → c.data.code = .setpgid pgid :: c'.data.code →
      Moves s q pgid c.data.pgrp c'.data.pgrp → Becomes s a q c c'
  | placed {pgid : ℕ} : a = .main → placing s.pc = some (q, pgid) → c'.life = c.life →
      c'.data.role = c.data.role → c'.data.code = c.data.code → c.data.code ≠ [] →
      Moves s q pgid c.data.pgrp c'.data.pgrp → Becomes s a q c c'

section Becomes

variable {s s' : State} {a : Act} {q : ℕ} {c' : Wait.Child Proc}

theorem Becomes.of_goes {c c' : Wait.Child Proc} (h : Wait.Kids.Goes c c')
    (hnot : a = .main → placing s.pc = none) : Becomes s a q c c' := by
  obtain ⟨hdata, hlife⟩ := h
  refine .same (by rw [hdata]) (by rw [hdata]) (by rw [hdata]) hlife fun ha pgid hplace => ?_
  rw [hnot ha] at hplace
  exact nomatch hplace

/-- The child is not concerned. -/
theorem Becomes.refl (c : Wait.Child Proc) (hnot : a = .main → placing s.pc = none) :
    Becomes s a q c c :=
  .of_goes (.refl c) hnot

theorem becomes_kids {b : Wait.Act} {k : Wait.Kids Proc}
    (hk : Wait.Kids.Change Proc.exit s.kids b k) (hc' : k.child q = some c') :
    ∃ c, s.kids.child q = some c ∧ Becomes s (.kids b) q c c' := by
  obtain ⟨c, hc, hgoes | ⟨hdata, status, hlife⟩⟩ := hk.child hc'
  · exact ⟨c, hc, .of_goes hgoes nofun⟩
  · refine ⟨c, hc, .same ?_ ?_ ?_ (fun halive => absurd hlife (halive status)) nofun⟩ <;>
      rw [hdata] <;> rfl

theorem becomes_called {p g : ℕ} {role : Role} {t : Fd.Table Fd.End} {i : Instr}
    {code : List Instr} (hp : s.kids.child p = some ⟨.running, ⟨role, t, g, i :: code⟩⟩)
    (hc' : (called s.pgrp s.kids p role t g i code).child q = some c') :
    ∃ c, s.kids.child q = some c ∧ Becomes s (.child p) q c c' := by
  have hset : ∀ t' {q c'}, (s.kids.set p ⟨.running, ⟨role, t', g, code⟩⟩).child q = some c' →
      (q = p ∧ c' = ⟨.running, ⟨role, t', g, code⟩⟩) ∨ q ≠ p ∧ s.kids.child q = some c' := by
    intro t' q c' hc
    rw [Wait.Kids.child_set] at hc
    split at hc
    · next hq => exact .inl ⟨hq, (Option.some.inj hc).symm⟩
    · next hq => exact .inr ⟨hq, hc⟩
  have hplain : (s.kids.set p ⟨.running, ⟨role, i.onTable t, g, code⟩⟩).child q = some c' →
      (∀ pgid, i ≠ .setpgid pgid) → ∃ c, s.kids.child q = some c ∧ Becomes s (.child p) q c c' := by
    intro hc hi
    rcases hset _ hc with ⟨rfl, rfl⟩ | ⟨-, hc⟩
    · exact ⟨_, hp, .call rfl rfl rfl rfl rfl hi rfl⟩
    · exact ⟨c', hc, .refl c' nofun⟩
  cases i with
  | setpgid pgid =>
      -- the call itself does not change who is in which group
      have hgroups : ∀ g', (∃ r c, (s.kids.set p ⟨.running, ⟨role, t, g, code⟩⟩).child r = some c ∧
          c.data.pgrp = g') ↔ ∃ r c, s.kids.child r = some c ∧ c.data.pgrp = g' := by
        intro g'
        constructor
        · rintro ⟨r, c, hc, rfl⟩
          rcases hset _ hc with ⟨rfl, rfl⟩ | ⟨-, hc⟩
          · exact ⟨r, _, hp, rfl⟩
          · exact ⟨r, c, hc, rfl⟩
        · rintro ⟨r, c, hc, rfl⟩
          by_cases hr : r = p
          · subst hr
            obtain rfl := Option.some.inj (hp.symm.trans hc)
            exact ⟨r, ⟨.running, ⟨role, t, g, code⟩⟩, by rw [Wait.Kids.child_set, if_pos rfl], rfl⟩
          · exact ⟨r, c, by rw [Wait.Kids.child_set, if_neg hr, hc], rfl⟩
      obtain ⟨c, hc, ⟨hq, rfl⟩ | ⟨rfl, g', hmoves, rfl⟩⟩ := child_setpgid hgroups hc'
      · rcases hset _ hc with ⟨hq', -⟩ | ⟨-, hc⟩
        · exact absurd hq' hq
        · exact ⟨c', hc, .refl c' nofun⟩
      · rcases hset _ hc with ⟨-, rfl⟩ | ⟨hq', -⟩
        · exact ⟨_, hp, .join rfl rfl rfl rfl rfl hmoves⟩
        · exact absurd rfl hq'
  | dup2 old new => exact hplain hc' nofun
  | close fd => exact hplain hc' nofun
  | execlp => exact hplain hc' nofun
  | argvCmd => exact hplain hc' nofun

theorem becomes_placed {p pgid : ℕ} (hplace : placing s.pc = some (p, pgid))
    (hc' : (setpgidChild s.pgrp s.kids p pgid).child q = some c') :
    ∃ c, s.kids.child q = some c ∧ Becomes s .main q c c' := by
  -- a child that the shell does not place, or no longer can
  have hleft : (q = p → c'.data.code = []) → Becomes s .main q c' c' := by
    intro hcode
    refine .same rfl rfl rfl (fun h => h) fun _ pgid' hplace' => ?_
    rw [hplace] at hplace'
    exact hcode (Prod.mk.inj (Option.some.inj hplace')).1.symm
  unfold setpgidChild at hc'
  split at hc'
  · next life proc hp =>
      split at hc'
      · next hcode =>
          refine ⟨c', hc', hleft fun hq => ?_⟩
          rw [hq, hp] at hc'
          obtain rfl := Option.some.inj hc'
          exact hcode
      · next hcode =>
          obtain ⟨c, hc, ⟨hq, rfl⟩ | ⟨rfl, g', hmoves, rfl⟩⟩ :=
            child_setpgid (fun _ => Iff.rfl) hc'
          · exact ⟨c', hc, hleft fun heq => absurd heq hq⟩
          · obtain rfl := Option.some.inj (hp.symm.trans hc)
            exact ⟨_, hc, .placed rfl hplace rfl rfl rfl hcode hmoves⟩
  · next hp =>
      refine ⟨c', hc', hleft fun hq => ?_⟩
      rw [hq, hp] at hc'
      exact nomatch hc'

/-- A child at its `fork` in state `s`. -/
inductive Started (s : State) : Proc → Prop
  | ps {t : Todo} {fd₀ fd₁ : ℕ} : s.pc = .psFork t fd₀ fd₁ →
      Started s ⟨.ps, s.table, s.pgrp, psCode fd₀ fd₁⟩
  | stage {c : Cmd} : s.pc = .fork c → Started s ⟨.stage c, s.table, s.pgrp, stageCode c⟩
  | single {c : Cmd} : s.pc = .forkOne c → Started s ⟨.stage c, s.table, s.pgrp, singleCode⟩

theorem becomes_fork {p : ℕ} {proc : Proc} {k : Wait.Kids Proc}
    (hk : s.kids.fork p proc = some k) (hproc : Started s proc) (hc' : k.child q = some c') :
    (∃ c, s.kids.child q = some c ∧ Becomes s (.fork p) q c c') ∨
      Act.fork p = .fork q ∧ c'.life = .running ∧ Started s c'.data := by
  obtain ⟨-, rfl⟩ := Wait.Kids.fork_eq hk
  rw [Wait.Kids.child_set] at hc'
  split at hc'
  · next hq =>
      obtain rfl := Option.some.inj hc'
      exact .inr ⟨congrArg _ hq.symm, rfl, hproc⟩
  · exact .inl ⟨c', hc', .refl c' nofun⟩

/-- Every child comes from one that was there before the step, or is
forked in it. -/
theorem becomes_step (hstep : Step s a s') (hc' : s'.kids.child q = some c') :
    (∃ c, s.kids.child q = some c ∧ Becomes s a q c c') ∨
      a = .fork q ∧ c'.life = .running ∧ Started s c'.data := by
  have hkept : s'.kids = s.kids → placing s.pc = none →
      ∃ c, s.kids.child q = some c ∧ Becomes s a q c c' := by
    intro hkids hnone
    rw [hkids] at hc'
    exact ⟨c', hc', .refl c' fun _ => hnone⟩
  cases hstep with
  | kids hk => exact .inl (becomes_kids (Wait.Kids.step_cases hk) hc')
  | child hp => exact .inl (becomes_called hp hc')
  | psFork hpc hk => exact becomes_fork hk (.ps hpc) hc'
  | fork hpc hk => exact becomes_fork hk (.stage hpc) hc'
  | forkOne hpc hk => exact becomes_fork hk (.single hpc) hc'
  | setpgid hpc => exact .inl (becomes_placed (by rw [hpc]; rfl) hc')
  | setpgidOne hpc => exact .inl (becomes_placed (by rw [hpc]; rfl) hc')
  | psWait hpc hwait =>
      obtain ⟨c, hc, hgoes⟩ := Wait.Kids.child_waitpid hwait hc'
      exact .inl ⟨c, hc, .of_goes hgoes fun _ => by rw [hpc]; rfl⟩
  | wait hpc hx hwait =>
      obtain ⟨c, hc, hgoes⟩ := Wait.Kids.child_waitpid hwait hc'
      exact .inl ⟨c, hc, .of_goes hgoes fun _ => by rw [hpc]; rfl⟩
  | blank hpc | exit hpc | run hpc | psPipe hpc | psClose hpc | psRead hpc | pipe hpc
  | loopEnd hpc | close hpc | lastStage hpc | waitEnd hpc | closeAll hpc | closeEnd hpc =>
      exact .inl (hkept rfl (by rw [hpc]; rfl))

theorem Becomes.role {c c' : Wait.Child Proc} (h : Becomes s a q c c') :
    c'.data.role = c.data.role := by
  cases h <;> assumption

end Becomes

/-! ## Where a stage belongs -/

/-- The pid of stage 0 of the pipeline, where `q` is the pid of the stage
itself. -/
def Cmd.leader (c : Cmd) (q : ℕ) : ℕ := c.pid.getD 0 q

def Role.leader (role : Role) (q : ℕ) : ℕ :=
  match role with
  | .ps => q
  | .stage c => c.leader q

/-- A child calls `setpgid` once, at its beginning and for the group of its
pipeline, and a stage comes to `argv_cmd` in the end. It is in this group
or in that of the shell. -/
structure Fits (shell q : ℕ) (proc : Proc) : Prop where
  aims : ∀ pgid, .setpgid pgid ∈ proc.code → groupFor q pgid = proc.role.leader q
  once : ∀ pgid, .setpgid pgid ∉ proc.code.tail
  ends : proc.role ≠ .ps → proc.code = [] ∨ ∃ code, proc.code = code ++ [.argvCmd]
  pgrp : proc.pgrp = shell ∨ proc.pgrp = proc.role.leader q

/-- The child `q`, if there is one, is a stage of the pipeline with group
`g`. -/
def StageOf (s : State) (g q : ℕ) : Prop :=
  ∀ ch, s.kids.child q = some ch → ∃ cmd, ch.data.role = .stage cmd ∧ cmd.leader q = g

/-- The variables of `process_cmd`: `pgid` is the pid of stage 0, once
there is one, and the child that the shell is about to place is one for
this group. -/
def Placed (s : State) : Pc → Prop
  | .pipe c => c.pid.length = c.x ∧ (0 < c.x → c.pgid = c.pid.getD 0 0 ∧ c.pgid ≠ 0)
  | .fork c =>
      c.pid.length = c.x ∧ (0 < c.x → c.pgid = c.pid.getD 0 0 ∧ c.pgid ≠ 0) ∧ c.x < c.numPipe
  | .setpgid c =>
      (c.pid.length = c.x + 1 ∧ c.pgid = c.pid.getD 0 0 ∧ c.pgid ≠ 0) ∧
        StageOf s c.pgid (c.pid.getD c.x 0)
  | .close c => c.pid.length = c.x + 1 ∧ c.pgid = c.pid.getD 0 0 ∧ c.pgid ≠ 0
  | .forkOne c => c.pid = [] ∧ c.x = 0
  | .setpgidOne c =>
      (c.pid = [c.pgid] ∧ c.x = 0 ∧ c.pgid ≠ 0) ∧ StageOf s c.pgid c.pgid
  | _ => True

structure Shaped (s : State) : Prop where
  placed : Placed s s.pc
  fits : ∀ q c, s.kids.child q = some c → Fits s.pgrp q c.data

section Shaped

variable {s s' : State} {a : Act} {q : ℕ}

/-- The shell places a stage in the group of its pipeline. -/
theorem placing_leader {pgid : ℕ} {c : Wait.Child Proc} (h : Placed s s.pc)
    (hplace : placing s.pc = some (q, pgid)) (hc : s.kids.child q = some c) :
    groupFor q pgid = c.data.role.leader q := by
  cases hpc : s.pc with
  | setpgid cmd =>
      rw [hpc] at h hplace
      obtain ⟨rfl, rfl⟩ := Prod.mk.inj (Option.some.inj hplace)
      obtain ⟨cmd', hrole, hlead⟩ := h.2 c hc
      rw [groupFor, if_neg h.1.2.2, hrole]
      exact hlead.symm
  | setpgidOne cmd =>
      rw [hpc] at h hplace
      obtain ⟨⟨hpid, hx, hpos⟩, hlead⟩ := h
      obtain ⟨rfl, rfl⟩ := Prod.mk.inj (Option.some.inj hplace)
      rw [hpid, hx] at hc ⊢
      obtain ⟨cmd', hrole, hlead⟩ := hlead c hc
      rw [groupFor, if_neg hpos, hrole]
      exact hlead.symm
  | _ =>
      rw [hpc] at hplace
      exact nomatch hplace

theorem Moves.pgrp {pgid g g' : ℕ} (h : Moves s q pgid g g') : g' = g ∨ g' = groupFor q pgid := by
  rcases h with ⟨-, rfl⟩ | ⟨-, rfl⟩
  · exact .inr rfl
  · exact .inl rfl

theorem Fits.becomes {c c' : Wait.Child Proc} (h : Fits s.pgrp q c.data) (hplaced : Placed s s.pc)
    (hc : s.kids.child q = some c) (hb : Becomes s a q c c') : Fits s.pgrp q c'.data := by
  obtain ⟨haims, honce, hends, hpgrp⟩ := h
  rw [← hb.role] at hends
  -- the call is the last one or is not
  have htail : ∀ {i : Instr}, c.data.code = i :: c'.data.code → c'.data.role ≠ .ps →
      c'.data.code = [] ∨ ∃ code, c'.data.code = code ++ [.argvCmd] := by
    intro i hcode hrole
    rcases hends hrole with hnil | ⟨code, heq⟩
    · exact nomatch hcode.symm.trans hnil
    · rw [hcode] at heq
      cases code with
      | nil => exact .inl (List.cons.inj heq).2
      | cons j code => exact .inr ⟨code, (List.cons.inj heq).2⟩
  cases hb with
  | same hrole hg hcode _ _ =>
      refine ⟨?_, ?_, ?_, ?_⟩
      · rw [hcode, hrole]
        exact haims
      · rw [hcode]
        exact honce
      · rw [hcode]
        exact hends
      · rw [hg, hrole]
        exact hpgrp
  | call _ _ _ hrole hcode _ hg =>
      rw [hcode, List.tail_cons] at honce
      refine ⟨fun pgid hmem => absurd hmem (honce pgid), ?_, htail hcode, ?_⟩
      · exact fun pgid hmem => honce pgid (List.mem_of_mem_tail hmem)
      · rw [hg, hrole]
        exact hpgrp
  | @join pgid _ _ _ hrole hcode hmoves =>
      have haim : groupFor q pgid = c.data.role.leader q :=
        haims pgid (by rw [hcode]; exact List.mem_cons_self ..)
      rw [hcode, List.tail_cons] at honce
      refine ⟨fun pgid hmem => absurd hmem (honce pgid), ?_, htail hcode, ?_⟩
      · exact fun pgid hmem => honce pgid (List.mem_of_mem_tail hmem)
      · rw [hrole]
        rcases hmoves.pgrp with hg | hg
        · rw [hg]
          exact hpgrp
        · exact .inr (hg.trans haim)
  | @placed pgid _ hplace _ hrole hcode _ hmoves =>
      refine ⟨?_, ?_, ?_, ?_⟩
      · rw [hcode, hrole]
        exact haims
      · rw [hcode]
        exact honce
      · rw [hcode]
        exact hends
      · rw [hrole]
        rcases hmoves.pgrp with hg | hg
        · rw [hg]
          exact hpgrp
        · exact .inr (hg.trans (placing_leader hplaced hplace hc))

/-- Where a stage is forked, `pgid` is the group of the pipeline. -/
theorem leader_fork {c : Cmd} (h : Placed s (.fork c)) (q : ℕ) :
    c.leader q = if c.x = 0 then q else c.pgid := by
  obtain ⟨hlen, hpgid, -⟩ := h
  unfold Cmd.leader
  split
  · next hx =>
      rw [hx] at hlen
      rw [List.eq_nil_of_length_eq_zero hlen]
      rfl
  · next hx =>
      obtain ⟨p, pid, hpid⟩ := List.exists_cons_of_length_pos (l := c.pid) (by omega)
      rw [(hpgid (by omega)).1, hpid]
      rfl

theorem fits_started {proc : Proc} (hplaced : Placed s s.pc) (h : Started s proc) :
    Fits s.pgrp q proc := by
  cases h with
  | ps => exact ⟨by simp [psCode], by simp [psCode], fun h => absurd rfl h, .inl rfl⟩
  | @stage c hpc =>
      rw [hpc] at hplaced
      refine ⟨fun pgid hmem => ?_, ?_, fun _ => .inr ?_, .inl rfl⟩
      · have hpgid : pgid = if c.x = 0 then 0 else c.pgid := by
          by_cases hx : c.x + 1 < c.numPipe
          · simpa [stageCode, hx] using hmem
          · simpa [stageCode, hx] using hmem
        show groupFor q pgid = c.leader q
        rw [leader_fork hplaced, hpgid, groupFor]
        split
        · rfl
        · next hx => rw [if_neg (hplaced.2.1 (by omega)).2]
      · simp only [stageCode]
        split <;> simp
      · exact ⟨_, (List.append_assoc _ [Instr.close (c.fd.getD (c.x * 2) 0)] [.argvCmd]).symm⟩
  | @single c hpc =>
      rw [hpc] at hplaced
      refine ⟨fun pgid hmem => ?_, by simp [singleCode], fun _ => .inr ⟨[.setpgid 0], rfl⟩,
        .inl rfl⟩
      obtain rfl : pgid = 0 := by simpa [singleCode] using hmem
      show groupFor q 0 = c.leader q
      rw [Cmd.leader, hplaced.1]
      rfl

theorem placed_afterFork (c : Cmd) : Placed s (afterFork c) := by
  unfold afterFork
  split <;> trivial

theorem placed_afterPs (pipes : ℕ) (t : Todo) : Placed s (afterPs pipes t) := by
  cases t with
  | jobs => trivial
  | command background numPipe =>
      unfold afterPs
      dsimp only
      split
      · exact ⟨rfl, fun hx => absurd hx (Nat.not_lt_zero 0)⟩
      · split
        · exact ⟨rfl, rfl⟩
        · exact placed_afterFork _

/-- Steps that leave the shell where it is keep the children's roles. -/
theorem Placed.aside (h : Placed s s.pc) (hstep : Step s a s') (hpc : s'.pc = s.pc)
    (hfork : ∀ q, a ≠ .fork q) : Placed s' s'.pc := by
  have hrole : ∀ q g, StageOf s g q → StageOf s' g q := by
    intro q g hs ch' hch'
    rcases becomes_step hstep hch' with ⟨ch, hch, hb⟩ | ⟨heq, -⟩
    · rw [hb.role]
      exact hs ch hch
    · exact absurd heq (hfork q)
  rw [hpc]
  cases hplace : s.pc with
  | setpgid c =>
      rw [hplace] at h
      exact ⟨h.1, hrole _ _ h.2⟩
  | setpgidOne c =>
      rw [hplace] at h
      exact ⟨h.1, hrole _ _ h.2⟩
  | pipe c | fork c | close c | forkOne c =>
      rw [hplace] at h
      exact h
  | _ => trivial

/-- `fork` in the loop. -/
theorem placed_forked {c : Cmd} {p : ℕ} {k : Wait.Kids Proc} (h : Placed s (.fork c)) (hp : p ≠ 0)
    (hk : s.kids.fork p ⟨.stage c, s.table, s.pgrp, stageCode c⟩ = some k) :
    Placed { s with kids := k, pc := .setpgid (c.forked p) } (.setpgid (c.forked p)) := by
  have hlead := leader_fork h
  obtain ⟨hlen, hpgid, -⟩ := h
  obtain ⟨-, rfl⟩ := Wait.Kids.fork_eq hk
  have hself : (c.forked p).pid.getD c.x 0 = p := by
    show (c.pid ++ [p]).getD c.x 0 = p
    rw [← hlen]
    simp
  have hgroup : (c.forked p).pgid = if c.x = 0 then p else c.pgid := rfl
  refine ⟨⟨?_, ?_, ?_⟩, fun ch hch => ?_⟩
  · show (c.pid ++ [p]).length = c.x + 1
    rw [List.length_append, hlen]
    rfl
  · rw [hgroup, ← hlead p, Cmd.leader]
    show c.pid.getD 0 p = (c.pid ++ [p]).getD 0 0
    cases c.pid <;> rfl
  · rw [hgroup]
    split
    · exact hp
    · exact (hpgid (by omega)).2
  · have hch : (s.kids.set p ⟨.running, ⟨.stage c, s.table, s.pgrp, stageCode c⟩⟩).child
        ((c.forked p).pid.getD c.x 0) = some ch := hch
    rw [hself, Wait.Kids.child_set, if_pos rfl] at hch
    obtain rfl := Option.some.inj hch
    refine ⟨c, rfl, ?_⟩
    show c.leader ((c.forked p).pid.getD c.x 0) = _
    rw [hself, hgroup, hlead]

theorem Shaped.step (h : Shaped s) (hstep : Step s a s') (hpos : ∀ p, a = .fork p → p ≠ 0) :
    Shaped s' := by
  have hpgrp : s'.pgrp = s.pgrp := by cases hstep <;> rfl
  constructor
  · have hplaced := h.placed
    have hcase := hstep
    cases hcase with
    | kids | child | blank => exact hplaced.aside hstep rfl nofun
    | psRead => exact placed_afterPs _ _
    | loopEnd | setpgidOne => exact placed_afterFork _
    | pipe hpc hx =>
        rw [hpc] at hplaced
        exact ⟨hplaced.1, hplaced.2, hx⟩
    | fork hpc hk =>
        rw [hpc] at hplaced
        exact placed_forked hplaced (hpos _ rfl) hk
    | setpgid hpc =>
        rw [hpc] at hplaced
        exact hplaced.1
    | close hpc =>
        rw [hpc] at hplaced
        exact ⟨hplaced.1, fun _ => hplaced.2⟩
    | lastStage hpc =>
        rw [hpc] at hplaced
        exact ⟨hplaced.1, fun _ => hplaced.2⟩
    | @forkOne c p k hpc hk =>
        rw [hpc] at hplaced
        obtain ⟨hpid, hx⟩ := hplaced
        refine ⟨⟨by rw [hpid]; rfl, hx, hpos p rfl⟩, fun ch hch => ?_⟩
        obtain ⟨-, rfl⟩ := Wait.Kids.fork_eq hk
        have hch : (s.kids.set p ⟨.running, ⟨.stage c, s.table, s.pgrp, singleCode⟩⟩).child p
            = some ch := hch
        rw [Wait.Kids.child_set, if_pos rfl] at hch
        obtain rfl := Option.some.inj hch
        refine ⟨c, rfl, ?_⟩
        show c.pid.getD 0 p = p
        rw [hpid]
        rfl
    | _ => trivial
  · intro q c' hc'
    rw [hpgrp]
    rcases becomes_step hstep hc' with ⟨c, hc, hb⟩ | ⟨-, -, hstarted⟩
    · exact (h.fits q c hc).becomes h.placed hc hb
    · exact fits_started h.placed hstarted

end Shaped

/-! ## Members of the group -/

/-- A stage of the pipeline with group `g` is still to be forked, or has
been and is not in the group. -/
def Awaits (s : State) (g : ℕ) : Pc → Prop
  | .pipe c | .fork c => 0 < c.x ∧ c.x < c.numPipe ∧ c.pgid = g
  | .setpgid c => c.pgid = g ∧ (c.x + 1 < c.numPipe ∨
      ∃ ch, s.kids.child (c.pid.getD c.x 0) = some ch ∧ Alive ch ∧ ch.data.pgrp ≠ g)
  | .close c => c.x + 1 < c.numPipe ∧ c.pgid = g
  | _ => False

/-- The process `r` is in the group `g`, or will make it: it is the one that
the shell is about to place, and the group has its pid. -/
def Keeper (s : State) (g r : ℕ) (c : Wait.Child Proc) : Prop :=
  c.data.pgrp = g ∨ r = g ∧ ∃ pgid, placing s.pc = some (g, pgid)

/-- A step that leaves a group its last member while a stage is to join:
the handler does not take the only process that keeps it. -/
def Keeps (s : State) (a : Act) : Prop :=
  ∀ q g, a = .kids (.reap (some q)) → Awaits s g s.pc →
    g = s.pgrp ∨ ∃ r c, r ≠ q ∧ s.kids.child r = some c ∧ Keeper s g r c

/-- Stages that have called `setpgid` are in their group; those that have
not are yet to be placed, or make their group themselves; and the group
that is waited for is kept. -/
structure Joined (s : State) : Prop where
  called : ∀ q c cmd, s.kids.child q = some c → c.data.role = .stage cmd →
    (∀ pgid, .setpgid pgid ∉ c.data.code) → c.data.pgrp = cmd.leader q
  waiting : ∀ q c cmd, s.kids.child q = some c → c.data.role = .stage cmd → Alive c →
    c.data.pgrp ≠ cmd.leader q → cmd.leader q = q ∨ ∃ pgid, placing s.pc = some (q, pgid)
  held : ∀ g, Awaits s g s.pc → g = s.pgrp ∨ ∃ r c, s.kids.child r = some c ∧ Keeper s g r c

section Joined

variable {s s' : State} {a : Act} {q g : ℕ} {c : Wait.Child Proc} {cmd : Cmd}

/-- A call of `setpgid` for a living stage succeeds. -/
theorem Joined.joins (h : Joined s) (hshape : Shaped s) (hc : s.kids.child q = some c)
    (hrole : c.data.role = .stage cmd) (halive : Alive c) : Joins s q (cmd.leader q) := by
  by_cases hin : c.data.pgrp = cmd.leader q
  · exact .inr (.inr ⟨q, c, hc, hin⟩)
  rcases h.waiting q c cmd hc hrole halive hin with hself | ⟨pgid, hplace⟩
  · exact .inl hself
  have hlead := placing_leader hshape.placed hplace hc
  rw [hrole] at hlead
  have hlead : groupFor q pgid = cmd.leader q := hlead
  have hplaced := hshape.placed
  cases hpc : s.pc with
  | setpgid cmd' =>
      rw [hpc] at hplace hplaced
      obtain ⟨rfl, rfl⟩ := Prod.mk.inj (Option.some.inj hplace)
      rw [groupFor, if_neg hplaced.1.2.2] at hlead
      have hawaits : Awaits s cmd'.pgid s.pc := by
        rw [hpc]
        refine ⟨rfl, .inr ⟨c, hc, halive, ?_⟩⟩
        rw [hlead]
        exact hin
      rw [← hlead]
      rcases h.held _ hawaits with hg | ⟨r, ch, hch, hg | ⟨rfl, pgid', hplace'⟩⟩
      · exact .inr (.inl hg)
      · exact .inr (.inr ⟨r, ch, hch, hg⟩)
      · rw [hpc] at hplace'
        exact .inl (Prod.mk.inj (Option.some.inj hplace')).1.symm
  | setpgidOne cmd' =>
      rw [hpc] at hplace hplaced
      obtain ⟨⟨hpid, hx, hpos⟩, -⟩ := hplaced
      obtain ⟨rfl, rfl⟩ := Prod.mk.inj (Option.some.inj hplace)
      rw [groupFor, if_neg hpos] at hlead
      rw [← hlead, hpid, hx]
      exact .inl rfl
  | _ =>
      rw [hpc] at hplace
      exact nomatch hplace

/-- A child whose next call is not `setpgid` has called it. -/
theorem Fits.notIn_code {shell : ℕ} {proc : Proc} {i : Instr} {code : List Instr}
    (h : Fits shell q proc) (hcode : proc.code = i :: code) (hi : ∀ pgid, i ≠ .setpgid pgid)
    (pgid : ℕ) : .setpgid pgid ∉ proc.code := by
  have honce := h.once pgid
  rw [hcode] at honce ⊢
  intro hmem
  rcases List.mem_cons.mp hmem with heq | hmem
  · exact hi pgid heq.symm
  · exact honce hmem

theorem Moves.of_joins {pgid g' : ℕ} (h : Moves s q pgid g g')
    (hjoins : Joins s q (groupFor q pgid)) : g' = groupFor q pgid := by
  rcases h with ⟨-, heq⟩ | ⟨hnot, -⟩
  · exact heq
  · exact absurd hjoins hnot

theorem Joined.called_step (h : Joined s) (hshape : Shaped s) (hstep : Step s a s') {q : ℕ}
    {c' : Wait.Child Proc} (hc' : s'.kids.child q = some c') (hrole : c'.data.role = .stage cmd)
    (hcode' : ∀ pgid, .setpgid pgid ∉ c'.data.code) : c'.data.pgrp = cmd.leader q := by
  rcases becomes_step hstep hc' with ⟨c, hc, hb⟩ | ⟨-, -, hstarted⟩
  · have hfits := hshape.fits q c hc
    have hrole₀ := hb.role.symm.trans hrole
    cases hb with
    | same _ hg hcode _ _ =>
        rw [hg]
        exact h.called q c cmd hc hrole₀ fun pgid => hcode ▸ hcode' pgid
    | call _ _ _ _ hcode hi hg =>
        rw [hg]
        exact h.called q c cmd hc hrole₀ (hfits.notIn_code hcode hi)
    | @join pgid _ hlife _ _ hcode hmoves =>
        have haim := hfits.aims pgid (by rw [hcode]; exact List.mem_cons_self ..)
        rw [hrole₀] at haim
        have halive : Alive c := fun status => hlife ▸ nofun
        have hjoins := h.joins hshape hc hrole₀ halive
        exact (hmoves.of_joins (haim ▸ hjoins)).trans haim
    | @placed pgid _ hplace _ _ hcode _ hmoves =>
        have hlead := placing_leader hshape.placed hplace hc
        rw [hrole₀] at hlead
        have hold := h.called q c cmd hc hrole₀ fun pgid => hcode ▸ hcode' pgid
        rcases hmoves.pgrp with hg | hg
        · exact hg.trans hold
        · exact hg.trans hlead
  · -- a stage that has just been forked has not called it
    obtain ⟨life, proc⟩ := c'
    cases hstarted with
    | ps => exact nomatch hrole
    | @stage c =>
        exact absurd (List.mem_cons_self ..) (hcode' (if c.x = 0 then 0 else c.pgid))
    | single => exact absurd (List.mem_cons_self ..) (hcode' 0)

/-- The shell goes on from where it places a child by placing it. -/
theorem pc_of_placing {x : ℕ × ℕ} (hplace : placing s.pc = some x) (hstep : Step s a s') :
    a = .main ∨ s'.pc = s.pc := by
  cases hstep with
  | kids | child => exact .inr rfl
  | psFork hpc | fork hpc | forkOne hpc | exit hpc | run hpc | blank hpc =>
      rw [hpc] at hplace
      exact nomatch hplace
  | _ => exact .inl rfl

theorem Joined.waiting_step (h : Joined s) (hshape : Shaped s) (hstep : Step s a s') {q : ℕ}
    {c' : Wait.Child Proc} (hc' : s'.kids.child q = some c') (hrole : c'.data.role = .stage cmd)
    (halive : Alive c') (hout : c'.data.pgrp ≠ cmd.leader q) :
    cmd.leader q = q ∨ ∃ pgid, placing s'.pc = some (q, pgid) := by
  rcases becomes_step hstep hc' with ⟨c, hc, hb⟩ | ⟨rfl, -, hstarted⟩
  · have hfits := hshape.fits q c hc
    have hrole₀ := hb.role.symm.trans hrole
    cases hb with
    | same _ hg _ hlife hmissed =>
        rw [hg] at hout
        rcases h.waiting q c cmd hc hrole₀ (hlife halive) hout with hself | ⟨pgid, hplace⟩
        · exact .inl hself
        rcases pc_of_placing hplace hstep with rfl | hpc
        · -- the shell came too late, after the stage's own call
          have hcode := hmissed rfl pgid hplace
          exact absurd (h.called q c cmd hc hrole₀ (by simp [hcode])) hout
        · rw [hpc]
          exact .inr ⟨pgid, hplace⟩
    | call _ _ _ _ hcode hi hg =>
        rw [hg] at hout
        exact absurd (h.called q c cmd hc hrole₀ (hfits.notIn_code hcode hi)) hout
    | @join pgid _ hlife _ _ hcode hmoves =>
        have haim := hfits.aims pgid (by rw [hcode]; exact List.mem_cons_self ..)
        rw [hrole₀] at haim
        have hjoins := h.joins hshape hc hrole₀ fun status => hlife ▸ nofun
        exact absurd ((hmoves.of_joins (haim ▸ hjoins)).trans haim) hout
    | @placed pgid _ hplace hlife _ _ _ hmoves =>
        have hlead := placing_leader hshape.placed hplace hc
        rw [hrole₀] at hlead
        have hjoins := h.joins hshape hc hrole₀ fun status => hlife ▸ halive status
        exact absurd ((hmoves.of_joins (hlead ▸ hjoins)).trans hlead) hout
  · have hplaced := hshape.placed
    obtain ⟨life, proc⟩ := c'
    cases hstarted with
    | ps => exact nomatch hrole
    | @stage c hpc =>
        obtain rfl : c = cmd := Role.stage.inj hrole
        rw [hpc] at hplaced
        refine .inr ⟨(c.forked q).pgid, ?_⟩
        cases hstep with
        | fork hpc' =>
            obtain rfl := Pc.fork.inj (hpc.symm.trans hpc')
            show some ((c.pid ++ [q]).getD c.x 0, _) = _
            rw [← hplaced.1]
            simp
        | psFork hpc' => exact nomatch hpc.symm.trans hpc'
        | forkOne hpc' => exact nomatch hpc.symm.trans hpc'
    | @single c hpc =>
        obtain rfl : c = cmd := Role.stage.inj hrole
        rw [hpc] at hplaced
        refine .inl ?_
        rw [Cmd.leader, hplaced.1]
        rfl

theorem child_of_fork {p : ℕ} (hstep : Step s (.fork p) s') : s.kids.child p = none := by
  cases hstep with
  | psFork _ hk => exact (Wait.Kids.fork_eq hk).1
  | fork _ hk => exact (Wait.Kids.fork_eq hk).1
  | forkOne _ hk => exact (Wait.Kids.fork_eq hk).1

/-- While a stage is to join, a process goes only when the handler takes
it. -/
theorem remains (hawaits : Awaits s g s.pc) (hstep : Step s a s') (hc : s.kids.child q = some c)
    (hreap : a ≠ .kids (.reap (some q))) :
    ∃ c', s'.kids.child q = some c' ∧ Becomes s a q c c' := by
  have hsome : ∃ c', s'.kids.child q = some c' := by
    cases hstep with
    | kids hk => exact (Wait.Kids.step_cases hk).remains hc fun heq => hreap (congrArg _ heq)
    | @child p g' role t i code hp =>
        obtain ⟨g'', heq⟩ := called_eq s.pgrp s.kids p role t g' i code
        rw [heq, Wait.Kids.child_set]
        split
        · exact ⟨_, rfl⟩
        · exact ⟨c, hc⟩
    | psFork _ hk | fork _ hk | forkOne _ hk =>
        obtain ⟨-, rfl⟩ := Wait.Kids.fork_eq hk
        rw [Wait.Kids.child_set]
        split
        · exact ⟨_, rfl⟩
        · exact ⟨c, hc⟩
    | @setpgid cmd _ | @setpgidOne cmd _ =>
        rcases setpgidChild_cases s.pgrp s.kids (cmd.pid.getD cmd.x 0) cmd.pgid with
          heq | ⟨g', heq⟩
        · exact ⟨c, by rw [heq]; exact hc⟩
        · rw [heq, Wait.Kids.child_modify]
          split
          · next hq => exact ⟨_, by rw [← hq, hc]; rfl⟩
          · exact ⟨c, hc⟩
    | psWait hpc | wait hpc =>
        rw [hpc] at hawaits
        exact hawaits.elim
    | _ => exact ⟨c, hc⟩
  obtain ⟨c', hc'⟩ := hsome
  refine ⟨c', hc', ?_⟩
  rcases becomes_step hstep hc' with ⟨c₀, hc₀, hb⟩ | ⟨rfl, -⟩
  · obtain rfl := Option.some.inj (hc.symm.trans hc₀)
    exact hb
  · exact nomatch hc.symm.trans (child_of_fork hstep)

theorem Becomes.alive {c' : Wait.Child Proc} (hb : Becomes s a q c c') (h : Alive c') :
    Alive c := by
  cases hb with
  | same _ _ _ hlife _ => exact hlife h
  | call _ hlife => exact fun status => hlife ▸ nofun
  | join _ hlife => exact fun status => hlife ▸ nofun
  | placed _ _ hlife => exact fun status => hlife ▸ h status

/-- A child moves to the group of its pipeline, if at all. -/
theorem Becomes.pgrp {c' : Wait.Child Proc} (hb : Becomes s a q c c') (hshape : Shaped s)
    (hc : s.kids.child q = some c) :
    c'.data.pgrp = c.data.pgrp ∨ c'.data.pgrp = c.data.role.leader q := by
  cases hb with
  | same _ hg _ _ _ => exact .inl hg
  | call _ _ _ _ _ _ hg => exact .inl hg
  | @join pgid _ _ _ _ hcode hmoves =>
      have haim := (hshape.fits q c hc).aims pgid (by rw [hcode]; exact List.mem_cons_self ..)
      exact hmoves.pgrp.imp id fun hg => hg.trans haim
  | placed _ hplace _ _ _ _ hmoves =>
      exact hmoves.pgrp.imp id fun hg => hg.trans (placing_leader hshape.placed hplace hc)

theorem not_awaits_afterFork (c : Cmd) : ¬ Awaits s g (afterFork c) := by
  unfold afterFork
  split <;> exact id

theorem not_awaits_afterPs (pipes : ℕ) (t : Todo) : ¬ Awaits s g (afterPs pipes t) := by
  cases t with
  | jobs => exact id
  | command background numPipe =>
      unfold afterPs
      dsimp only
      split
      · exact fun h => absurd h.1 (Nat.not_lt_zero 0)
      · split
        · exact id
        · exact not_awaits_afterFork _

/-- A stage that is to join after a step was to join before it, or is the
first and has just been forked. -/
theorem Awaits.back (hshape : Shaped s) (hstep : Step s a s') (h : Awaits s' g s'.pc) :
    Awaits s g s.pc ∨ a = .fork g ∧ ∃ pgid, placing s'.pc = some (g, pgid) := by
  have hplaced := hshape.placed
  -- a child or the handler moves while the shell is about to place a stage
  have haside : s'.pc = s.pc → (∀ q, a ≠ .fork q) → Awaits s g s.pc := by
    intro hpc hfork
    rw [hpc] at h
    cases hplace : s.pc with
    | setpgid c =>
        rw [hplace] at h hplaced
        obtain ⟨rfl, hmore | ⟨ch', hch', halive, hout⟩⟩ := h
        · exact ⟨rfl, .inl hmore⟩
        rcases becomes_step hstep hch' with ⟨ch, hch, hb⟩ | ⟨heq, -⟩
        · refine ⟨rfl, .inr ⟨ch, hch, hb.alive halive, fun hin => ?_⟩⟩
          rcases hb.pgrp hshape hch with hg | hg
          · exact hout (hg.trans hin)
          · obtain ⟨cmd, hrole, hlead⟩ := hplaced.2 ch hch
            rw [hrole] at hg
            exact hout (hg.trans hlead)
        · exact absurd heq (hfork _)
    | _ =>
        rw [hplace] at h
        exact h
  cases hstep with
  | kids => exact .inl (haside rfl nofun)
  | child => exact .inl (haside rfl nofun)
  | blank => exact .inl h
  | pipe hpc =>
      rw [hpc]
      exact .inl h
  | @fork c p k hpc hk =>
      rw [hpc] at hplaced ⊢
      have hgroup : (c.forked p).pgid = g := h.1
      by_cases hx : c.x = 0
      · have hp : p = g := by
          rw [← hgroup]
          exact (if_pos hx).symm
        have hpid : c.pid = [] := List.eq_nil_of_length_eq_zero (hplaced.1.trans hx)
        refine .inr ⟨congrArg _ hp, (c.forked p).pgid, ?_⟩
        show some ((c.pid ++ [p]).getD c.x 0, _) = _
        rw [hpid, hx, ← hp]
        rfl
      · refine .inl ⟨Nat.pos_of_ne_zero hx, hplaced.2.2, ?_⟩
        rw [← hgroup]
        exact (if_neg hx).symm
  | setpgid hpc =>
      rw [hpc]
      exact .inl ⟨h.2, .inl h.1⟩
  | close hpc =>
      rw [hpc]
      exact .inl h.2
  | lastStage hpc hx => exact absurd h.2.1 hx
  | psRead => exact absurd h (not_awaits_afterPs _ _)
  | loopEnd | setpgidOne => exact absurd h (not_awaits_afterFork _)
  | _ => exact h.elim

/-- Where the shell places the process that the group is named after, this
process is in the group afterwards. -/
theorem Joined.placed_self (h : Joined s) (hshape : Shaped s) {c' : Wait.Child Proc} {pgid : ℕ}
    (hplace : placing s.pc = some (q, pgid)) (hrole : c.data.role = .stage cmd)
    (hlead : cmd.leader q = q) (hc : s.kids.child q = some c) (hb : Becomes s .main q c c') :
    c'.data.pgrp = q := by
  have haim := placing_leader hshape.placed hplace hc
  rw [hrole] at haim
  have haim : groupFor q pgid = q := haim.trans hlead
  cases hb with
  | same _ hg _ _ hmissed =>
      have hcode := hmissed rfl pgid hplace
      rw [hg, h.called q c cmd hc hrole (by simp [hcode]), hlead]
  | call heq => exact nomatch heq
  | join heq => exact nomatch heq
  | @placed pgid' _ hplace' _ _ _ _ hmoves =>
      obtain rfl : pgid = pgid' := (Prod.mk.inj (Option.some.inj (hplace.symm.trans hplace'))).2
      exact (hmoves.of_joins (.inl haim)).trans haim

theorem Joined.held_step (h : Joined s) (hshape : Shaped s) (hkeeps : Keeps s a)
    (hstep : Step s a s') (hawaits' : Awaits s' g s'.pc) :
    g = s'.pgrp ∨ ∃ r c, s'.kids.child r = some c ∧ Keeper s' g r c := by
  have hpgrp : s'.pgrp = s.pgrp := by cases hstep <;> rfl
  rcases hawaits'.back hshape hstep with hawaits | ⟨rfl, pgid, hplace⟩
  · -- somebody keeps the group and is not taken in this step
    have hkeeper : g = s.pgrp ∨ ∃ r c, a ≠ .kids (.reap (some r)) ∧ s.kids.child r = some c ∧
        Keeper s g r c := by
      by_cases hreap : ∃ q, a = .kids (.reap (some q))
      · obtain ⟨q, rfl⟩ := hreap
        rcases hkeeps q g rfl hawaits with hg | ⟨r, c, hr, hc, hkeep⟩
        · exact .inl hg
        · refine .inr ⟨r, c, fun heq => hr ?_, hc, hkeep⟩
          exact (Option.some.inj (Wait.Act.reap.inj (Act.kids.inj heq))).symm
      · rcases h.held g hawaits with hg | ⟨r, c, hc, hkeep⟩
        · exact .inl hg
        · exact .inr ⟨r, c, fun heq => hreap ⟨r, heq⟩, hc, hkeep⟩
    rw [hpgrp]
    by_cases hshell : g = s.pgrp
    · exact .inl hshell
    obtain hg | ⟨r, c, hreap, hc, hkeep⟩ := hkeeper
    · exact .inl hg
    obtain ⟨c', hc', hb⟩ := remains hawaits hstep hc hreap
    refine .inr ⟨r, c', hc', ?_⟩
    rcases hkeep with rfl | ⟨rfl, pgid, hplace⟩
    · refine .inl ?_
      rcases hb.pgrp hshape hc with hg | hg
      · exact hg
      · rw [hg]
        exact ((hshape.fits r c hc).pgrp.resolve_left hshell).symm
    · rcases pc_of_placing hplace hstep with rfl | hpc
      · -- the shell places this process now
        refine .inl ?_
        have hplaced := hshape.placed
        cases hplace' : s.pc with
        | setpgid cmd =>
            rw [hplace'] at hplace hplaced hawaits
            obtain ⟨hr, rfl⟩ := Prod.mk.inj (Option.some.inj hplace)
            have hstage := hplaced.2
            rw [hr] at hstage
            obtain ⟨cmd', hrole, hlead⟩ := hstage c hc
            have hplace : placing s.pc = some (r, cmd.pgid) := by
              rw [hplace', ← hr]
              rfl
            exact h.placed_self hshape hplace hrole (hlead.trans hawaits.1) hc hb
        | _ =>
            rw [hplace'] at hawaits hplace
            first
              | exact hawaits.elim
              | exact nomatch hplace
      · exact .inr ⟨rfl, pgid, by rw [hpc]; exact hplace⟩
  · -- the first stage has just been forked
    obtain ⟨c, hc⟩ : ∃ c, s'.kids.child g = some c := by
      cases hstep with
      | psFork _ hk | fork _ hk | forkOne _ hk =>
          obtain ⟨-, rfl⟩ := Wait.Kids.fork_eq hk
          exact ⟨_, by rw [Wait.Kids.child_set, if_pos rfl]⟩
    exact .inr ⟨g, c, hc, .inr ⟨rfl, pgid, hplace⟩⟩

theorem Joined.step (h : Joined s) (hshape : Shaped s) (hkeeps : Keeps s a)
    (hstep : Step s a s') : Joined s' where
  called _ _ _ := h.called_step hshape hstep
  waiting _ _ _ := h.waiting_step hshape hstep
  held _ := h.held_step hshape hkeeps hstep

end Joined

/-! ## Whole runs -/

/-- Every stage that has come to `argv_cmd` is in the group with the pid of
stage 0. -/
def Grouped (s : State) : Prop :=
  ∀ p life cmd t g, s.kids.child p = some ⟨life, ⟨.stage cmd, t, g, [.argvCmd]⟩⟩ →
    g = cmd.leader p

theorem shaped_boot (table : Fd.Table Fd.End) (pipes pgrp : ℕ) :
    Shaped (boot table pipes pgrp) := by
  refine ⟨trivial, fun q c hc => ?_⟩
  exact nomatch (AList.lookup_empty q).symm.trans hc

theorem joined_boot (table : Fd.Table Fd.End) (pipes pgrp : ℕ) :
    Joined (boot table pipes pgrp) where
  called q _ _ hc := nomatch (AList.lookup_empty q).symm.trans hc
  waiting q _ _ hc := nomatch (AList.lookup_empty q).symm.trans hc
  held _ h := h.elim

theorem Joined.grouped {s : State} (h : Joined s) : Grouped s := by
  intro p life cmd t g hc
  exact h.called p _ cmd hc rfl (by simp)

/-! ## When the group is lost -/

section Lost

variable {s : State} {g q : ℕ}

/-- Nobody keeps the group `g`. -/
def Lost (s : State) (g : ℕ) : Prop :=
  g ≠ s.pgrp ∧ ∀ r c, s.kids.child r = some c → ¬ Keeper s g r c

theorem Lost.not_joins (h : Lost s g) (hq : g ≠ q) : ¬ Joins s q g := by
  rintro (heq | heq | ⟨r, c, hc, hg⟩)
  · exact hq heq
  · exact h.1 heq
  · exact h.2 r c hc (.inl hg)

/-- A child outside a group does not keep it. -/
theorem not_joins_of_child {s' : State} {p : ℕ} {c : Wait.Child Proc} (hjoins : ¬ Joins s q g)
    (hpgrp : s'.pgrp = s.pgrp) (hout : c.data.pgrp ≠ g)
    (hchild : ∀ r, s'.kids.child r = if r = p then some c else s.kids.child r) :
    ¬ Joins s' q g := by
  rintro (heq | heq | ⟨r, ch, hch, hg⟩)
  · exact hjoins (.inl heq)
  · exact hjoins (.inr (.inl (heq.trans hpgrp)))
  · rw [hchild] at hch
    split at hch
    · obtain rfl := Option.some.inj hch
      exact hout hg
    · exact hjoins (.inr (.inr ⟨r, ch, hch, hg⟩))

theorem stranded_of_step {s' : State} {a : Act} (hstep : step s a = some s')
    (h : ∃ t, Lts.Reaches step s' t ∧ ¬ Grouped t) : ∃ t, Lts.Reaches step s t ∧ ¬ Grouped t := by
  obtain ⟨t, hreach, hnot⟩ := h
  exact ⟨t, hreach.head hstep, hnot⟩

/-- The shell goes on and places nobody. -/
theorem Lost.next {s' : State} (h : Lost s g) (hpgrp : s'.pgrp = s.pgrp) (hkids : s'.kids = s.kids)
    (hplace : placing s'.pc = none) : Lost s' g := by
  refine ⟨hpgrp ▸ h.1, fun r c hc hkeep => ?_⟩
  rw [hkids] at hc
  rcases hkeep with hg | ⟨-, pgid, hplace'⟩
  · exact h.2 r c hc (.inl hg)
  · exact nomatch hplace.symm.trans hplace'

theorem step_child {p g : ℕ} {role : Role} {t : Fd.Table Fd.End} {i : Instr} {code : List Instr}
    (hpc : s.pc ≠ .exited) (hc : s.kids.child p = some ⟨.running, ⟨role, t, g, i :: code⟩⟩) :
    step s (.child p) = some { s with kids := called s.pgrp s.kids p role t g i code } := by
  have hstep : step s (.child p) = childStep s p := if_neg hpc
  rw [hstep, childStep, hc]
  cases i <;> rfl

/-- A running stage that has called `setpgid` comes to `argv_cmd`. -/
theorem reaches_argvCmd {code : List Instr} {role : Role} {t : Fd.Table Fd.End} {p g : ℕ}
    (hpc : s.pc ≠ .exited) (hcode : ∀ pgid, .setpgid pgid ∉ code)
    (hc : s.kids.child p = some ⟨.running, ⟨role, t, g, code ++ [.argvCmd]⟩⟩) :
    ∃ s' t', Lts.Reaches step s s' ∧
      s'.kids.child p = some ⟨.running, ⟨role, t', g, [.argvCmd]⟩⟩ := by
  induction code generalizing s t with
  | nil => exact ⟨s, t, ⟨[], .nil s⟩, hc⟩
  | cons i code ih =>
      have hcalled : called s.pgrp s.kids p role t g i (code ++ [.argvCmd])
          = s.kids.set p ⟨.running, ⟨role, i.onTable t, g, code ++ [.argvCmd]⟩⟩ := by
        cases i with
        | setpgid pgid => exact absurd (List.mem_cons_self ..) (hcode pgid)
        | _ => rfl
      obtain ⟨s₁, hs₁⟩ : ∃ s₁ : State, s₁ = { s with
          kids := called s.pgrp s.kids p role t g i (code ++ [.argvCmd]) } := ⟨_, rfl⟩
      have hstep : step s (.child p) = some s₁ := (step_child hpc hc).trans (congrArg _ hs₁.symm)
      have hc₁ : s₁.kids.child p
          = some ⟨.running, ⟨role, i.onTable t, g, code ++ [.argvCmd]⟩⟩ := by
        rw [hs₁]
        dsimp only
        rw [hcalled, Wait.Kids.child_set, if_pos rfl]
      have hpc₁ : s₁.pc ≠ .exited := by
        rw [hs₁]
        exact hpc
      obtain ⟨s', t', hreach, hc'⟩ := ih hpc₁
        (fun pgid hmem => hcode pgid (List.mem_cons_of_mem _ hmem)) hc₁
      exact ⟨s', t', hreach.head hstep, hc'⟩

/-- A running stage whose group is lost comes to `argv_cmd` in the group it
was in before. -/
theorem reaches_outside {c : Wait.Child Proc} {cmd : Cmd} {pgid : ℕ} {code : List Instr}
    (hpc : s.pc ≠ .exited) (hc : s.kids.child q = some c) (hlife : c.life = .running)
    (hrole : c.data.role = .stage cmd) (hcode : c.data.code = .setpgid pgid :: (code ++ [.argvCmd]))
    (hrest : ∀ pgid, .setpgid pgid ∉ code) (hjoins : ¬ Joins s q (groupFor q pgid))
    (hout : c.data.pgrp ≠ cmd.leader q) :
    ∃ t, Lts.Reaches step s t ∧ ¬ Grouped t := by
  obtain ⟨life, role, t, g, code'⟩ := c
  obtain rfl : life = .running := hlife
  obtain rfl : role = .stage cmd := hrole
  obtain rfl : code' = .setpgid pgid :: (code ++ [.argvCmd]) := hcode
  obtain ⟨k, hk⟩ : ∃ k, k = called s.pgrp s.kids q (.stage cmd) t g (.setpgid pgid)
      (code ++ [.argvCmd]) := ⟨_, rfl⟩
  have hstep : step s (.child q) = some { s with kids := k } := by
    rw [hk]
    exact step_child hpc hc
  -- the call fails, so the stage stays where it is
  obtain ⟨g', hcalled⟩ := called_eq s.pgrp s.kids q (.stage cmd) t g (.setpgid pgid)
    (code ++ [.argvCmd])
  have hc₁ : k.child q = some ⟨.running, ⟨.stage cmd, t, g', code ++ [.argvCmd]⟩⟩ := by
    rw [hk, hcalled, Wait.Kids.child_set, if_pos rfl]
    rfl
  have hg : g' = g := by
    obtain ⟨c, hc', hb⟩ := becomes_called hc (hk ▸ hc₁)
    obtain rfl := Option.some.inj (hc.symm.trans hc')
    cases hb with
    | same _ hg => exact hg
    | call _ _ _ _ _ _ hg => exact hg
    | join _ _ _ _ hcode hmoves =>
        obtain rfl := Instr.setpgid.inj (List.cons.inj hcode).1
        rcases hmoves with ⟨hyes, -⟩ | ⟨-, hg⟩
        · exact absurd hyes hjoins
        · exact hg
    | placed heq => exact nomatch heq
  subst hg
  obtain ⟨s', t', hreach, hc'⟩ :=
    reaches_argvCmd (s := { s with kids := k }) hpc hrest hc₁
  exact ⟨s', hreach.head hstep, fun hgrouped => hout (hgrouped _ _ _ _ _ hc')⟩

theorem step_main {s' : State} (hpc : s.pc ≠ .exited) (hidle : s.kids.handler = .idle)
    (h : mainStep s = some s') : step s .main = some s' := by
  have hstep : step s .main = if s.kids.handler = .idle then mainStep s else none := if_neg hpc
  rw [hstep, if_pos hidle, h]

theorem exists_fresh (k : Wait.Kids Proc) (g : ℕ) : ∃ p, k.child p = none ∧ p ≠ 0 ∧ g ≠ p := by
  obtain ⟨p, hp⟩ := Infinite.exists_notMem_finset (insert 0 (insert g k.procs.keys.toFinset))
  simp only [Finset.mem_insert, List.mem_toFinset, not_or] at hp
  obtain ⟨hp₀, hpg, hkeys⟩ := hp
  exact ⟨p, AList.lookup_eq_none.mpr hkeys, hp₀, Ne.symm hpg⟩

/-- A stage other than stage 0 begins with `setpgid`. -/
theorem stageCode_of_pos {c : Cmd} (hx : 0 < c.x) :
    ∃ code, stageCode c = .setpgid c.pgid :: (code ++ [.argvCmd]) ∧
      ∀ pgid, .setpgid pgid ∉ code := by
  unfold stageCode
  rw [if_neg (by omega)]
  split
  · exact ⟨[_, _, _], rfl, by simp⟩
  · exact ⟨[_, _], rfl, by simp⟩

/-- A stage that is forked when its group is lost. -/
theorem stranded_fork {c : Cmd} (hpc : s.pc = .fork c) (hplaced : Placed s (.fork c))
    (hidle : s.kids.handler = .idle) (hx : 0 < c.x) (hlost : Lost s c.pgid) :
    ∃ t, Lts.Reaches step s t ∧ ¬ Grouped t := by
  obtain ⟨p, hfree, -, hp⟩ := exists_fresh s.kids c.pgid
  have hne : s.pc ≠ .exited := by rw [hpc]; exact nofun
  have hfork : step s (.fork p) = some { s with
      kids := s.kids.set p ⟨.running, ⟨.stage c, s.table, s.pgrp, stageCode c⟩⟩
      pc := .setpgid (c.forked p) } := by
    have hstep : step s (.fork p) = if s.kids.handler = .idle then forkStep s p else none :=
      if_neg hne
    rw [hstep, if_pos hidle, forkStep, hpc]
    dsimp only
    rw [Wait.Kids.fork, hfree]
    rfl
  have hgroup : groupFor p c.pgid = c.leader p := by
    rw [leader_fork hplaced, if_neg (by omega), groupFor, if_neg (hplaced.2.1 hx).2]
  have hlead : c.leader p = c.pgid := by
    rw [leader_fork hplaced, if_neg (by omega)]
  obtain ⟨code, hcode, hrest⟩ := stageCode_of_pos hx
  obtain ⟨k, hk⟩ : ∃ k, k = s.kids.set p
      ⟨.running, ⟨.stage c, s.table, s.pgrp, stageCode c⟩⟩ := ⟨_, rfl⟩
  have hchild : ∀ r, k.child r
      = if r = p then some ⟨.running, ⟨.stage c, s.table, s.pgrp, stageCode c⟩⟩
        else s.kids.child r := by
    intro r
    rw [hk, Wait.Kids.child_set]
  rw [← hk] at hfork
  have hnot : ¬ Joins { s with kids := k, pc := .setpgid (c.forked p) } p
      (groupFor p c.pgid) := by
    rw [hgroup, hlead]
    exact not_joins_of_child (hlost.not_joins hp) rfl (Ne.symm hlost.1) hchild
  exact stranded_of_step hfork (reaches_outside nofun ((hchild p).trans (if_pos rfl)) rfl rfl
    hcode hrest hnot fun heq => hlost.1 (hlead.symm.trans heq.symm))

/-- Where the group is lost and a stage is to be forked. -/
theorem stranded_pipe {c : Cmd} (hpc : s.pc = .pipe c) (hplaced : Placed s (.pipe c))
    (hidle : s.kids.handler = .idle) (hx : 0 < c.x) (hn : c.x < c.numPipe)
    (hlost : Lost s c.pgid) : ∃ t, Lts.Reaches step s t ∧ ¬ Grouped t := by
  obtain ⟨fd₀, fd₁, t', hpipe⟩ : ∃ fd₀ fd₁ t', Fd.pipe s.table (.readEnd s.pipes)
      (.writeEnd s.pipes) = ((fd₀, fd₁), t') := ⟨_, _, _, rfl⟩
  have hstep : step s .main = some { s with
      table := t', pipes := s.pipes + 1, pc := .fork (c.piped fd₀ fd₁) } := by
    refine step_main (by rw [hpc]; exact nofun) hidle ?_
    rw [mainStep, hpc]
    dsimp only
    rw [if_pos hn, hpipe]
    rfl
  exact stranded_of_step hstep (stranded_fork (c := c.piped fd₀ fd₁) rfl
    ⟨hplaced.1, hplaced.2, hn⟩ hidle hx (hlost.next rfl rfl rfl))

theorem stranded_close {c : Cmd} (hpc : s.pc = .close c) (hplaced : Placed s (.close c))
    (hidle : s.kids.handler = .idle) (hn : c.x + 1 < c.numPipe) (hlost : Lost s c.pgid) :
    ∃ t, Lts.Reaches step s t ∧ ¬ Grouped t := by
  have hstep : step s .main = some { s with
      table := Fd.close s.table (c.fd.getD (c.x * 2 + 1) 0), pc := .pipe c.next } := by
    refine step_main (by rw [hpc]; exact nofun) hidle ?_
    rw [mainStep, hpc]
    dsimp only
    rw [if_pos hn]
    rfl
  exact stranded_of_step hstep (stranded_pipe (c := c.next) rfl
    ⟨hplaced.1, fun _ => hplaced.2⟩ hidle (Nat.succ_pos _) hn (hlost.next rfl rfl rfl))

/-- The shell cannot place a stage in a group that is lost. -/
theorem stranded_setpgid {c : Cmd} (hpc : s.pc = .setpgid c) (hplaced : Placed s (.setpgid c))
    (hidle : s.kids.handler = .idle) (hn : c.x + 1 < c.numPipe) (hlost : Lost s c.pgid) :
    ∃ t, Lts.Reaches step s t ∧ ¬ Grouped t := by
  have hgroup : groupFor (c.pid.getD c.x 0) c.pgid = c.pgid := if_neg hplaced.1.2.2
  have hkids : setpgidChild s.pgrp s.kids (c.pid.getD c.x 0) c.pgid = s.kids := by
    unfold setpgidChild
    split
    · next life proc hc =>
        split
        · rfl
        · have hne : c.pgid ≠ c.pid.getD c.x 0 := by
            intro heq
            refine hlost.2 _ _ hc (.inr ⟨heq.symm, c.pgid, ?_⟩)
            rw [hpc]
            show some (c.pid.getD c.x 0, c.pgid) = some (c.pgid, c.pgid)
            rw [← heq]
          refine if_neg fun hjoin => hlost.not_joins hne ?_
          change groupFor (c.pid.getD c.x 0) c.pgid = _ ∨
            groupExists s.pgrp s.kids (groupFor (c.pid.getD c.x 0) c.pgid) = true at hjoin
          rwa [hgroup, groupExists_iff] at hjoin
    · rfl
  have hstep : step s .main = some { s with pc := .close c } := by
    refine step_main (by rw [hpc]; exact nofun) hidle ?_
    rw [mainStep, hpc]
    dsimp only
    rw [hkids]
  exact stranded_of_step hstep (stranded_close rfl hplaced.1 hidle hn (hlost.next rfl rfl rfl))

/-- The call of `setpgid` is the first that is left. -/
theorem Fits.first_call {shell pgid : ℕ} {proc : Proc} (h : Fits shell q proc)
    (hrole : proc.role ≠ .ps) (hmem : .setpgid pgid ∈ proc.code) :
    ∃ code, proc.code = .setpgid pgid :: (code ++ [.argvCmd]) ∧
      ∀ pgid, .setpgid pgid ∉ code := by
  have hends := h.ends hrole
  have honce := h.once
  cases hsplit : proc.code with
  | nil =>
      rw [hsplit] at hmem
      exact nomatch hmem
  | cons i rest =>
      rw [hsplit] at hmem hends honce
      rw [List.tail_cons] at honce
      obtain rfl : i = .setpgid pgid := ((List.mem_cons.mp hmem).resolve_right (honce pgid)).symm
      obtain hnil | ⟨code, heq⟩ := hends
      · exact nomatch hnil
      cases code with
      | nil => exact nomatch (List.cons.inj heq).1
      | cons j code =>
          obtain ⟨-, rfl⟩ := List.cons.inj heq
          exact ⟨code, rfl, fun pgid hin => honce pgid (List.mem_append_left _ hin)⟩

/-- A stage that has been forked and has not called `setpgid` when the
group is lost. -/
theorem stranded_child {c : Wait.Child Proc} {cmd : Cmd} (hpc : s.pc ≠ .exited)
    (hc : s.kids.child q = some c) (hrole : c.data.role = .stage cmd) (halive : Alive c)
    (hfits : Fits s.pgrp q c.data) (hcode : ∃ pgid, .setpgid pgid ∈ c.data.code)
    (hjoins : ¬ Joins s q (cmd.leader q)) (hout : c.data.pgrp ≠ cmd.leader q) :
    ∃ t, Lts.Reaches step s t ∧ ¬ Grouped t := by
  obtain ⟨pgid, hmem⟩ := hcode
  have haim := hfits.aims pgid hmem
  rw [hrole] at haim
  have haim : groupFor q pgid = cmd.leader q := haim
  obtain ⟨code, hcode, hrest⟩ := hfits.first_call (by rw [hrole]; exact nofun) hmem
  cases hlife : c.life with
  | zombie status => exact absurd hlife (halive status)
  | running => exact reaches_outside hpc hc hlife hrole hcode hrest (haim ▸ hjoins) hout
  | stopped reported =>
      -- it goes on first
      obtain ⟨life, proc⟩ := c
      obtain rfl : life = .stopped reported := hlife
      have hstep : step s (.kids (.cont q))
          = some { s with kids := (s.kids.set q ⟨.running, proc⟩).signal } := by
        refine step_kids hpc ?_
        rw [Wait.Kids.step, hc]
      have hchild : ∀ r, (s.kids.set q ⟨.running, proc⟩).signal.child r
          = if r = q then some ⟨.running, proc⟩ else s.kids.child r := by
        intro r
        rw [Wait.Kids.child_signal, Wait.Kids.child_set]
      have hjoins' : ¬ Joins { s with kids := (s.kids.set q ⟨.running, proc⟩).signal } q
          (groupFor q pgid) := by
        rw [haim]
        exact not_joins_of_child (c := ⟨.running, proc⟩) hjoins rfl hout hchild
      exact stranded_of_step hstep (reaches_outside hpc ((hchild q).trans (if_pos rfl)) rfl hrole
        hcode hrest hjoins' hout)

/-- A stage is to join, the handler is not running, and the group is
lost. -/
theorem exists_stranded (hshape : Shaped s)
    (hcalled : ∀ q c cmd, s.kids.child q = some c → c.data.role = .stage cmd →
      (∀ pgid, .setpgid pgid ∉ c.data.code) → c.data.pgrp = cmd.leader q)
    (hidle : s.kids.handler = .idle) (hawaits : Awaits s g s.pc) (hlost : Lost s g) :
    ∃ t, Lts.Reaches step s t ∧ ¬ Grouped t := by
  have hplaced := hshape.placed
  cases hpc : s.pc with
  | pipe c =>
      rw [hpc] at hawaits hplaced
      obtain ⟨hx, hn, rfl⟩ := hawaits
      exact stranded_pipe hpc hplaced hidle hx hn hlost
  | fork c =>
      rw [hpc] at hawaits hplaced
      obtain ⟨hx, hn, rfl⟩ := hawaits
      exact stranded_fork hpc hplaced hidle hx hlost
  | close c =>
      rw [hpc] at hawaits hplaced
      obtain ⟨hn, rfl⟩ := hawaits
      exact stranded_close hpc hplaced hidle hn hlost
  | setpgid c =>
      rw [hpc] at hawaits hplaced
      obtain ⟨rfl, hn | ⟨ch, hch, halive, hout⟩⟩ := hawaits
      · exact stranded_setpgid hpc hplaced hidle hn hlost
      · obtain ⟨cmd, hrole, hlead⟩ := hplaced.2 ch hch
        rw [← hlead] at hout hlost
        have hne : cmd.leader (c.pid.getD c.x 0) ≠ c.pid.getD c.x 0 := by
          intro heq
          refine hlost.2 _ _ hch (.inr ⟨heq.symm, c.pgid, ?_⟩)
          rw [hpc, heq]
          rfl
        refine stranded_child (by rw [hpc]; exact nofun) hch hrole halive
          (hshape.fits _ ch hch) ?_ (hlost.not_joins hne) hout
        by_contra hno
        exact hout (hcalled _ ch cmd hch hrole fun pgid hmem => hno ⟨pgid, hmem⟩)
  | _ =>
      rw [hpc] at hawaits
      exact hawaits.elim

/-- After a run of the handler that takes the last process that keeps a
group while a stage is to join, the stage can come to `argv_cmd` outside
the group. -/
theorem stranded_of_not_keeps {s' : State} {a : Act} (hshape : Shaped s) (hjoined : Joined s)
    (hstep : step s a = some s') (hnot : ¬ Keeps s a) :
    ∃ t, Lts.Reaches step s' t ∧ ¬ Grouped t := by
  simp only [Keeps, not_forall, not_or, not_exists, not_and] at hnot
  obtain ⟨q, g, rfl, hawaits, hshell, hnone⟩ := hnot
  obtain ⟨hpc, hreap⟩ := step_cases hstep
  have hzombie : q ∈ s.kids.zombies ∧
      s' = { s with kids := { s.kids.remove q with handler := .leaving } } := by
    cases hreap with
    | kids hk =>
        cases Wait.Kids.step_cases hk with
        | reap _ hq => exact ⟨hq, rfl⟩
  obtain ⟨hq, rfl⟩ := hzombie
  have hleave : step { s with kids := { s.kids.remove q with handler := .leaving } }
      (.kids .leave) = some { s with kids := { s.kids.remove q with handler := .idle } } :=
    step_kids hpc (by simp [Wait.Kids.step])
  have hchild : ∀ {r c}, Wait.Kids.child { s.kids.remove q with handler := .idle } r = some c →
      r ≠ q ∧ s.kids.child r = some c := by
    intro r c hc
    have hc : (s.kids.remove q).child r = some c := hc
    rw [Wait.Kids.child_remove] at hc
    split at hc
    · cases hc
    · next hr => exact ⟨hr, hc⟩
  have hshape' : Shaped { s with kids := { s.kids.remove q with handler := .idle } } :=
    (hshape.step hreap (by simp)).step (step_cases hleave).2 (by simp)
  have hawaits' : Awaits { s with kids := { s.kids.remove q with handler := .idle } } g s.pc := by
    cases hplace : s.pc with
    | setpgid c =>
        rw [hplace] at hawaits
        obtain ⟨rfl, hn | ⟨ch, hch, halive, hout⟩⟩ := hawaits
        · exact ⟨rfl, .inl hn⟩
        · -- a living stage is not the one that was taken
          have hne : c.pid.getD c.x 0 ≠ q := by
            rintro heq
            rw [heq] at hch
            have hlive := Wait.Kids.exitStatus_eq_none_of_child hch halive
            rw [Wait.Kids.mem_zombies, hlive] at hq
            simp at hq
          refine ⟨rfl, .inr ⟨ch, ?_, halive, hout⟩⟩
          show (s.kids.remove q).child _ = some ch
          rw [Wait.Kids.child_remove, if_neg hne, hch]
    | _ =>
        rw [hplace] at hawaits
        exact hawaits
  exact stranded_of_step hleave (exists_stranded hshape'
    (fun r c cmd hc => hjoined.called r c cmd (hchild hc).2) rfl hawaits'
    ⟨hshell, fun r c hc => hnone r c (hchild hc).1 (hchild hc).2⟩)

end Lost

/-- In every run of the shell in which no run of the handler takes the last
process that keeps the group of a pipeline while a stage is to join, every
stage that comes to `argv_cmd` is in the group with the pid of stage 0.
And after the first step that is not so, some stage may not be. -/
theorem pipeline_group {table : Fd.Table Fd.End} {pipes pgrp : ℕ} {h : List (State × Act)}
    {s : State} (hrun : Lts.Run step (boot table pipes pgrp) h s)
    (hpids : ∀ x ∈ h, ∀ p, x.2 = .fork p → p ≠ 0) (hkeeps : ∀ x ∈ h, Keeps x.1 x.2) :
    Grouped s ∧ ∀ a s', step s a = some s' → ¬ Keeps s a →
      ∃ t, Lts.Reaches step s' t ∧ ¬ Grouped t := by
  have hs : Shaped s ∧ Joined s := by
    refine hrun.inv_where (P := fun s a => (∀ p, a = .fork p → p ≠ 0) ∧ Keeps s a)
      (I := fun s => Shaped s ∧ Joined s) ?_ (fun x hx => ⟨hpids x hx, hkeeps x hx⟩)
      ⟨shaped_boot table pipes pgrp, joined_boot table pipes pgrp⟩
    rintro s a t ⟨hshape, hjoined⟩ ⟨hpos, hkeep⟩ hstep
    have hstep' := (step_cases hstep).2
    exact ⟨hshape.step hstep' hpos, hjoined.step hshape hkeep hstep'⟩
  exact ⟨hs.2.grouped, fun a s' hstep => stranded_of_not_keeps hs.1 hs.2 hstep⟩

/-- A pipeline of two stages, `7` and `8`. -/
def groupRun : List Act :=
  [.line (.run (.command false 2)), .main, .fork 6, .main, .kids (.exit 6 0), .main,
   .kids .deliver, .kids (.reap none), .kids .leave, .main, .main, .fork 7, .main, .main,
   .main, .fork 8, .child 8, .child 8, .child 8]

theorem pipeline_group_two : ∃ s c, Lts.exec step (boot Fd.standard 0 5) groupRun = some s ∧
    s.kids.child 8 = some c ∧ c.data.role = .stage secondStage ∧ c.data.code = [.argvCmd] ∧
    c.data.pgrp = 7 := by
  have hseen : (Lts.exec step (boot Fd.standard 0 5) groupRun).map (fun s => s.kids.child 8)
      = some (some ⟨.running, ⟨.stage secondStage, [some (.readEnd 1), some (.file 1),
        some (.file 2), some (.readEnd 0), some (.readEnd 1), none, some (.writeEnd 2)], 7,
        [.argvCmd]⟩⟩) := by
    decide +kernel
  obtain ⟨s, hexec, hs⟩ := Option.map_eq_some_iff.mp hseen
  have hacts : ∀ a ∈ groupRun, (∀ p, a = .fork p → p ≠ 0) ∧ ∀ q, a ≠ .kids (.reap (some q)) := by
    simp [groupRun]
  have hgroup := (pipeline_group (Lts.exec_run hexec)
    (fun x hx => (hacts x.2 (Lts.mem_trace hx)).1)
    (fun x hx q g hreap _ => absurd hreap ((hacts x.2 (Lts.mem_trace hx)).2 q))).1
  exact ⟨s, _, hexec, hs, rfl, rfl, hgroup _ _ _ _ _ hs⟩

/-- The first stage exits at once, and the handler takes it before the
second stage is forked. -/
def strandedRun : List Act :=
  [.line (.run (.command false 2)), .main, .fork 6, .main, .kids (.exit 6 0), .main,
   .kids .deliver, .kids (.reap none), .kids .leave, .main, .main, .fork 7, .main, .main,
   .child 7, .kids (.exit 7 0), .kids .deliver, .kids (.reap (some 7)), .kids .leave,
   .main, .fork 8, .main, .child 8, .child 8, .child 8]

theorem stage_left_in_shell_group : ∃ h s, Lts.Run step (boot Fd.standard 0 5) h s ∧
    ¬ Grouped s := by
  have hseen : (Lts.exec step (boot Fd.standard 0 5) strandedRun).map (fun s => s.kids.child 8)
      = some (some ⟨.running, ⟨.stage secondStage, [some (.readEnd 1), some (.file 1),
        some (.file 2), some (.readEnd 0), some (.readEnd 1), none, some (.writeEnd 2)], 5,
        [.argvCmd]⟩⟩) := by
    decide +kernel
  obtain ⟨s, hexec, hs⟩ := Option.map_eq_some_iff.mp hseen
  refine ⟨_, s, Lts.exec_run hexec, fun hgrouped => ?_⟩
  have hgroup : 5 = secondStage.leader 8 := hgrouped _ _ _ _ _ hs
  exact absurd hgroup (by decide)

end Sh3

end Comp4511
