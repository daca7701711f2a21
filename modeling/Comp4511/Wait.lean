import Mathlib.Data.Finset.Card
import Mathlib.Data.List.AList
import Comp4511.Runs

/-!
# Children, zombies and one pending signal

The children of a process, as the process's own system calls and its
handler of the child signal see them. A child that has exited stays a
zombie, with its wait status, until a `waitpid` takes it. Every change of
a child makes the child signal pending; it is one bit, so changes that
happen while it is set leave no further trace. The handler takes at most
one zombie each time it runs (`waitpid(-1, NULL, WNOHANG)`), and the
signal is held back while it runs.

`Kids.step` is what can happen between two steps of the process. A
process that keeps no further account of its children is right when the
handler runs still to come are at least as many as the zombies nobody
waits for (`Covered`). `Covered.step` says which changes keep it so,
`Covered.mono` is the rule for the process's own steps, and
`exists_unattended` says that nothing else will do: once there are more
zombies than handler runs to come, the handler may finish and leave one.
-/

namespace Wait

variable {α : Type*}

/-- What a child is doing. A stop is reported once to who asks for it. -/
inductive Life where
  | running
  | stopped (reported : Bool)
  | zombie (status : ℕ)
deriving Repr, DecidableEq

structure Child (α : Type*) where
  life : Life
  data : α
deriving Repr, DecidableEq

/-- The handler of the child signal: not running, before its `waitpid`,
after it. -/
inductive Handler where
  | idle
  | entered
  | leaving
deriving Repr, DecidableEq

/-- The children of a process that have not been waited for, and the
child signal. -/
structure Kids (α : Type*) where
  procs : AList fun _ : ℕ => Child α
  pending : Bool
  handler : Handler

/-- What can happen to the children and in the handler. -/
inductive Act where
  | exit (p status : ℕ)
  | stop (p : ℕ)
  | cont (p : ℕ)
  | deliver
  | reap (p : Option ℕ)
  | leave
deriving Repr, DecidableEq

/-- What `waitpid` on one child returns. -/
inductive Result where
  | ended (status : ℕ)
  | stopped
  | noChild
deriving Repr, DecidableEq

namespace Kids

/-- No children, no signal. -/
def empty : Kids α := { procs := ∅, pending := false, handler := .idle }

def child (k : Kids α) (p : ℕ) : Option (Child α) := k.procs.lookup p

def set (k : Kids α) (p : ℕ) (c : Child α) : Kids α :=
  { k with procs := k.procs.insert p c }

def remove (k : Kids α) (p : ℕ) : Kids α :=
  { k with procs := k.procs.erase p }

def signal (k : Kids α) : Kids α := { k with pending := true }

/-- The wait status of a child that has exited. -/
def exitStatus (k : Kids α) (p : ℕ) : Option ℕ :=
  match k.child p with
  | some ⟨.zombie status, _⟩ => some status
  | _ => none

def zombies (k : Kids α) : Finset ℕ :=
  k.procs.keys.toFinset.filter fun p => (k.exitStatus p).isSome = true

/-- A new child. -/
def fork (k : Kids α) (p : ℕ) (a : α) : Option (Kids α) :=
  match k.child p with
  | none => some (k.set p ⟨.running, a⟩)
  | some _ => none

/-- Change the data of a child. -/
def modify (k : Kids α) (p : ℕ) (f : α → α) : Kids α :=
  match k.child p with
  | some c => k.set p { c with data := f c.data }
  | none => k

/-- `waitpid` on one child, `none` while it blocks. -/
def waitpid (k : Kids α) (p : ℕ) (untraced : Bool) : Option (Result × Kids α) :=
  match k.child p with
  | none => some (.noChild, k)
  | some ⟨.zombie status, _⟩ => some (.ended status, k.remove p)
  | some ⟨.stopped false, a⟩ =>
      if untraced then some (.stopped, k.set p ⟨.stopped true, a⟩) else none
  | some _ => none

/-- `wait`: any zombie is taken; without a child it fails. -/
def waitAny (k : Kids α) : Option ℕ → Option (Kids α)
  | some p => if (k.exitStatus p).isSome then some (k.remove p) else none
  | none => if k.procs.keys = [] then some k else none

/-- One change. `onExit` is what exiting does to a child's data. -/
def step (onExit : α → α) (k : Kids α) : Act → Option (Kids α)
  | .exit p status =>
      match k.child p with
      | some ⟨.zombie _, _⟩ => none
      | some ⟨_, a⟩ => some (k.set p ⟨.zombie status, onExit a⟩).signal
      | none => none
  | .stop p =>
      match k.child p with
      | some ⟨.running, a⟩ => some (k.set p ⟨.stopped false, a⟩).signal
      | _ => none
  | .cont p =>
      match k.child p with
      | some ⟨.stopped _, a⟩ => some (k.set p ⟨.running, a⟩).signal
      | _ => none
  | .deliver =>
      if k.pending = true ∧ k.handler = .idle then
        some { k with pending := false, handler := .entered }
      else none
  | .reap (some p) =>
      if k.handler = .entered ∧ (k.exitStatus p).isSome = true then
        some { k.remove p with handler := .leaving }
      else none
  | .reap none =>
      if k.handler = .entered ∧ k.zombies = ∅ then some { k with handler := .leaving } else none
  | .leave => if k.handler = .leaving then some { k with handler := .idle } else none

/-! ## One child -/

section Child

variable (k : Kids α) (p q : ℕ) (c : Child α)

theorem child_set : (k.set p c).child q = if q = p then some c else k.child q := by
  unfold child set
  by_cases h : q = p
  · subst h
    rw [if_pos rfl, AList.lookup_insert]
  · rw [if_neg h, AList.lookup_insert_ne h]

theorem child_remove : (k.remove p).child q = if q = p then none else k.child q := by
  unfold child remove
  by_cases h : q = p
  · subst h
    rw [if_pos rfl, AList.lookup_erase]
  · rw [if_neg h, AList.lookup_erase_ne h]

theorem set_set (c' : Child α) : (k.set p c).set p c' = k.set p c' := by
  unfold set
  rw [AList.insert_insert]

theorem child_modify (f : α → α) : (k.modify p f).child q
    = if q = p then (k.child p).map fun c => { c with data := f c.data } else k.child q := by
  unfold modify
  split
  · next c hc => rw [child_set, hc, Option.map_some]
  · next hc =>
      by_cases hq : q = p
      · rw [if_pos hq, hq, hc, Option.map_none]
      · rw [if_neg hq]

@[simp] theorem child_signal : k.signal.child q = k.child q := rfl

theorem exitStatus_eq_some {k : Kids α} {p status : ℕ} :
    k.exitStatus p = some status ↔ ∃ a, k.child p = some ⟨.zombie status, a⟩ := by
  unfold exitStatus
  constructor
  · intro h
    split at h
    · next status' a hc =>
        obtain rfl := Option.some.inj h
        exact ⟨a, hc⟩
    · exact nomatch h
  · rintro ⟨a, hc⟩
    rw [hc]

theorem exitStatus_eq_none_of_child {k : Kids α} {p : ℕ} {c : Child α} (hc : k.child p = some c)
    (hlife : ∀ status, c.life ≠ .zombie status) : k.exitStatus p = none := by
  rw [Option.eq_none_iff_forall_ne_some]
  intro status hstatus
  obtain ⟨a, ha⟩ := exitStatus_eq_some.mp hstatus
  rw [hc] at ha
  obtain rfl := Option.some.inj ha
  exact hlife status rfl

theorem exitStatus_eq_none_of_no_child {k : Kids α} {p : ℕ} (hc : k.child p = none) :
    k.exitStatus p = none := by
  unfold exitStatus
  rw [hc]

theorem exitStatus_congr {k k' : Kids α} {p : ℕ} (h : k'.child p = k.child p) :
    k'.exitStatus p = k.exitStatus p := by
  unfold exitStatus
  rw [h]

theorem exitStatus_remove_self : (k.remove p).exitStatus p = none := by
  unfold exitStatus
  rw [child_remove, if_pos rfl]

theorem exitStatus_remove_of_ne {p q : ℕ} (h : q ≠ p) :
    (k.remove p).exitStatus q = k.exitStatus q := by
  refine exitStatus_congr ?_
  rw [child_remove, if_neg h]

theorem exitStatus_set_of_ne {p q : ℕ} (h : q ≠ p) :
    (k.set p c).exitStatus q = k.exitStatus q := by
  refine exitStatus_congr ?_
  rw [child_set, if_neg h]

end Child

/-! ## Zombies -/

section Zombies

variable {k k' : Kids α} {p q : ℕ}

theorem mem_zombies : q ∈ k.zombies ↔ (k.exitStatus q).isSome = true := by
  unfold zombies
  rw [Finset.mem_filter, List.mem_toFinset, and_iff_right_iff_imp]
  intro h
  obtain ⟨status, hstatus⟩ := Option.isSome_iff_exists.mp h
  obtain ⟨a, hchild⟩ := exitStatus_eq_some.mp hstatus
  have hsome : (k.procs.lookup q).isSome := by
    rw [← child, hchild]
    rfl
  exact AList.lookup_isSome.mp hsome

theorem zombies_congr (h : ∀ q, k'.exitStatus q = k.exitStatus q) : k'.zombies = k.zombies := by
  ext q
  rw [mem_zombies, mem_zombies, h]

/-- A child that is not a zombie, and does not become one, does not
matter. -/
theorem zombies_set {c : Child α} (hp : k.exitStatus p = none)
    (hc : ∀ status, c.life ≠ .zombie status) : (k.set p c).zombies = k.zombies := by
  refine zombies_congr fun q => ?_
  by_cases hq : q = p
  · subst hq
    rw [hp]
    refine exitStatus_eq_none_of_child ?_ hc
    rw [child_set, if_pos rfl]
  · exact exitStatus_set_of_ne _ _ hq

theorem zombies_set_zombie (status : ℕ) (a : α) :
    (k.set p ⟨.zombie status, a⟩).zombies = insert p k.zombies := by
  ext q
  rw [Finset.mem_insert, mem_zombies, mem_zombies]
  by_cases hq : q = p
  · subst hq
    have hself : (k.set q ⟨.zombie status, a⟩).exitStatus q = some status := by
      refine exitStatus_eq_some.mpr ⟨a, ?_⟩
      rw [child_set, if_pos rfl]
    rw [hself]
    exact iff_of_true rfl (.inl rfl)
  · rw [exitStatus_set_of_ne _ _ hq]
    exact (or_iff_right hq).symm

theorem zombies_remove : (k.remove p).zombies = k.zombies.erase p := by
  ext q
  rw [Finset.mem_erase, mem_zombies, mem_zombies]
  by_cases hq : q = p
  · subst hq
    rw [exitStatus_remove_self]
    exact iff_of_false Bool.false_ne_true fun h => h.1 rfl
  · rw [exitStatus_remove_of_ne _ hq]
    exact (and_iff_right hq).symm

theorem fork_eq {a : α} (h : k.fork p a = some k') :
    k.child p = none ∧ k' = k.set p ⟨.running, a⟩ := by
  unfold fork at h
  split at h
  · next hnone => exact ⟨hnone, (Option.some.inj h).symm⟩
  · exact nomatch h

theorem zombies_fork {a : α} (h : k.fork p a = some k') : k'.zombies = k.zombies := by
  obtain ⟨hnone, rfl⟩ := fork_eq h
  exact zombies_set (exitStatus_eq_none_of_no_child hnone) fun status => nofun

theorem zombies_modify (f : α → α) : (k.modify p f).zombies = k.zombies := by
  unfold modify
  split
  · next c hc =>
      refine zombies_congr fun q => ?_
      by_cases hq : q = p
      · subst hq
        unfold exitStatus
        rw [child_set, if_pos rfl, hc]
        obtain ⟨life, a⟩ := c
        cases life <;> rfl
      · exact exitStatus_set_of_ne _ _ hq
  · rfl

end Zombies

/-! ## Changes -/

/-- What a change does, one case for each. -/
inductive Change (onExit : α → α) (k : Kids α) : Act → Kids α → Prop
  | exit {p status : ℕ} {life : Life} {a : α} : k.child p = some ⟨life, a⟩ →
      (∀ status, life ≠ .zombie status) →
      Change onExit k (.exit p status) (k.set p ⟨.zombie status, onExit a⟩).signal
  | stop {p : ℕ} {a : α} : k.child p = some ⟨.running, a⟩ →
      Change onExit k (.stop p) (k.set p ⟨.stopped false, a⟩).signal
  | cont {p : ℕ} {reported : Bool} {a : α} : k.child p = some ⟨.stopped reported, a⟩ →
      Change onExit k (.cont p) (k.set p ⟨.running, a⟩).signal
  | deliver : k.pending = true → k.handler = .idle →
      Change onExit k .deliver { k with pending := false, handler := .entered }
  | reap {p : ℕ} : k.handler = .entered → p ∈ k.zombies →
      Change onExit k (.reap (some p)) { k.remove p with handler := .leaving }
  | reapNone : k.handler = .entered → k.zombies = ∅ →
      Change onExit k (.reap none) { k with handler := .leaving }
  | leave : k.handler = .leaving → Change onExit k .leave { k with handler := .idle }

theorem step_cases {onExit : α → α} {k k' : Kids α} {b : Act} (h : k.step onExit b = some k') :
    Change onExit k b k' := by
  cases b with
  | exit p status =>
      simp only [step] at h
      split at h
      · exact nomatch h
      · next life a hlife hc =>
          obtain rfl := Option.some.inj h
          exact .exit hc hlife
      · exact nomatch h
  | stop p =>
      simp only [step] at h
      split at h
      · next a hc =>
          obtain rfl := Option.some.inj h
          exact .stop hc
      · exact nomatch h
  | cont p =>
      simp only [step] at h
      split at h
      · next reported a hc =>
          obtain rfl := Option.some.inj h
          exact .cont hc
      · exact nomatch h
  | deliver =>
      obtain ⟨⟨hpending, hhandler⟩, hk⟩ := Option.ite_none_right_eq_some.mp h
      obtain rfl := Option.some.inj hk
      exact .deliver hpending hhandler
  | reap p =>
      cases p with
      | some p =>
          obtain ⟨⟨hhandler, hp⟩, hk⟩ := Option.ite_none_right_eq_some.mp h
          obtain rfl := Option.some.inj hk
          exact .reap hhandler (mem_zombies.mpr hp)
      | none =>
          obtain ⟨⟨hhandler, hnone⟩, hk⟩ := Option.ite_none_right_eq_some.mp h
          obtain rfl := Option.some.inj hk
          exact .reapNone hhandler hnone
  | leave =>
      obtain ⟨hhandler, hk⟩ := Option.ite_none_right_eq_some.mp h
      obtain rfl := Option.some.inj hk
      exact .leave hhandler

/-- The child a change is about. -/
def target : Act → Option ℕ
  | .exit p _ | .stop p | .cont p => some p
  | .reap p => p
  | .deliver | .leave => none

/-- The other children stay as they are. -/
theorem Change.child_of_ne {onExit : α → α} {k k' : Kids α} {b : Act} {q : ℕ}
    (h : Change onExit k b k') (hq : target b ≠ some q) : k'.child q = k.child q := by
  have hset : ∀ {p : ℕ} (c : Child α), some p ≠ some q →
      (k.set p c).signal.child q = k.child q := by
    intro p c hne
    rw [child_signal, child_set, if_neg fun heq => hne (congrArg some heq.symm)]
  cases h with
  | exit => exact hset _ hq
  | stop => exact hset _ hq
  | cont => exact hset _ hq
  | deliver => rfl
  | @reap p _ _ =>
      show (k.remove p).child q = k.child q
      rw [child_remove, if_neg fun heq => hq (congrArg some heq.symm)]
  | reapNone => rfl
  | leave => rfl

/-- A child goes only when the handler takes it. -/
theorem Change.remains {onExit : α → α} {k k' : Kids α} {b : Act} {q : ℕ} {c : Child α}
    (h : Change onExit k b k') (hc : k.child q = some c) (hb : b ≠ .reap (some q)) :
    ∃ c', k'.child q = some c' := by
  by_cases hq : target b = some q
  case neg => exact ⟨c, (h.child_of_ne hq).trans hc⟩
  have hset : ∀ c' : Child α, (k.set q c').signal.child q = some c' := by
    intro c'
    rw [child_signal, child_set, if_pos rfl]
  cases h with
  | exit | stop | cont =>
      obtain rfl := Option.some.inj hq
      exact ⟨_, hset _⟩
  | reap => exact absurd (congrArg Act.reap hq) hb
  | deliver | reapNone | leave => exact nomatch hq

/-- `c'` is what has become of the child `c`, apart from exiting: it has the
same data, and is a zombie if `c` was. -/
def Goes (c c' : Child α) : Prop :=
  c'.data = c.data ∧ ((∀ status, c'.life ≠ .zombie status) → ∀ status, c.life ≠ .zombie status)

theorem Goes.refl (c : Child α) : Goes c c := ⟨rfl, fun h => h⟩

/-- Where a child comes from: it was there before, and has exited if its
data is not the same. -/
theorem Change.child {onExit : α → α} {k k' : Kids α} {b : Act} {q : ℕ} {c' : Child α}
    (h : Change onExit k b k') (hc' : k'.child q = some c') :
    ∃ c, k.child q = some c ∧
      (Goes c c' ∨ c'.data = onExit c.data ∧ ∃ status, c'.life = .zombie status) := by
  by_cases hq : target b = some q
  case neg => exact ⟨c', (h.child_of_ne hq).symm.trans hc', .inl (Goes.refl c')⟩
  have hset : ∀ {c : Child α}, (k.set q c).signal.child q = some c' → c = c' := by
    intro c hc
    rw [child_signal, child_set, if_pos rfl] at hc
    exact Option.some.inj hc
  cases h with
  | @exit p status life a hc hlife =>
      obtain rfl := Option.some.inj hq
      obtain rfl := hset hc'
      exact ⟨_, hc, .inr ⟨rfl, status, rfl⟩⟩
  | @stop p a hc =>
      obtain rfl := Option.some.inj hq
      obtain rfl := hset hc'
      exact ⟨_, hc, .inl ⟨rfl, fun _ => nofun⟩⟩
  | @cont p reported a hc =>
      obtain rfl := Option.some.inj hq
      obtain rfl := hset hc'
      exact ⟨_, hc, .inl ⟨rfl, fun _ => nofun⟩⟩
  | deliver => exact nomatch hq
  | @reap p hhandler hp =>
      obtain rfl := Option.some.inj hq
      have hgone : (k.remove p).child p = some c' := hc'
      rw [child_remove, if_pos rfl] at hgone
      exact nomatch hgone
  | reapNone => exact nomatch hq
  | leave => exact nomatch hq

/-- The signal and the handler are as before. -/
def SameSignal (k k' : Kids α) : Prop :=
  k'.pending = k.pending ∧ k'.handler = k.handler

section SameSignal

variable {k k' : Kids α} {p : ℕ}

theorem sameSignal_fork {a : α} (h : k.fork p a = some k') : SameSignal k k' := by
  obtain ⟨-, rfl⟩ := fork_eq h
  exact ⟨rfl, rfl⟩

theorem sameSignal_modify (f : α → α) : SameSignal k (k.modify p f) := by
  unfold modify
  split <;> exact ⟨rfl, rfl⟩

end SameSignal

/-! ## Handler runs to come -/

/-- The runs of the handler that have not reached their `waitpid`. -/
def underWay (k : Kids α) : ℕ := if k.handler = .entered then 1 else 0

def pendingRuns (k : Kids α) : ℕ := if k.pending = true then 1 else 0

/-- The zombies that nobody waits for. -/
def unattended (awaited : Finset ℕ) (k : Kids α) : ℕ := (k.zombies \ awaited).card

/-- For every zombie that nobody waits for the handler will run. -/
def Covered (awaited : Finset ℕ) (k : Kids α) : Prop :=
  k.unattended awaited ≤ k.pendingRuns + k.underWay

/-- A change that leaves every zombie its handler run: a child that nobody
waits for exits only when the pending signal, if there is one, is not for
another such zombie, and the handler takes a child that is waited for
only when it is not needed for another. -/
def Attended (awaited : Finset ℕ) (k : Kids α) : Act → Prop
  | .exit p _ => p ∈ awaited ∨ k.unattended awaited ≤ k.underWay
  | .reap (some p) => p ∈ awaited → k.unattended awaited ≤ k.pendingRuns
  | _ => True

instance (awaited : Finset ℕ) (k : Kids α) (b : Act) : Decidable (k.Attended awaited b) :=
  match b with
  | .exit _ _ => inferInstanceAs (Decidable (_ ∨ _))
  | .reap (some _) => inferInstanceAs (Decidable (_ → _))
  | .stop _ | .cont _ | .deliver | .reap none | .leave => .isTrue trivial

/-- No signal is pending and the handler does not run. -/
def Quiet (k : Kids α) : Prop := k.pending = false ∧ k.handler = .idle

theorem pendingRuns_le (k : Kids α) : k.pendingRuns ≤ 1 := by
  unfold pendingRuns
  split <;> omega

section Covered

variable {awaited awaited' : Finset ℕ} {k k' : Kids α} {p : ℕ}

theorem Covered.quiet (h : k.Covered awaited) (hq : k.Quiet) : k.zombies ⊆ awaited := by
  obtain ⟨hpending, hhandler⟩ := hq
  have hzero : (k.zombies \ awaited).card = 0 := by
    have hruns : k.pendingRuns + k.underWay = 0 := by
      simp [pendingRuns, underWay, hpending, hhandler]
    exact Nat.le_zero.mp (hruns ▸ h)
  exact Finset.sdiff_eq_empty_iff_subset.mp (Finset.card_eq_zero.mp hzero)

/-- The rule for the steps of the process itself: they raise no signal, so
the zombies nobody waits for must not become more. -/
theorem Covered.mono (h : k.Covered awaited) (hsame : SameSignal k k')
    (hle : k'.unattended awaited' ≤ k.unattended awaited) : k'.Covered awaited' := by
  unfold Covered pendingRuns underWay at h ⊢
  rw [hsame.1, hsame.2]
  exact Nat.le_trans hle h

theorem unattended_of_subset (h : k'.zombies \ awaited' ⊆ k.zombies \ awaited) :
    k'.unattended awaited' ≤ k.unattended awaited :=
  Finset.card_le_card h

theorem unattended_congr (h : k'.zombies = k.zombies) :
    k'.unattended awaited = k.unattended awaited := by
  unfold unattended
  rw [h]

/-- To take a child that nobody waits for leaves one zombie less. -/
theorem unattended_remove (hp : p ∈ k.zombies) (hnot : p ∉ awaited) :
    (k.remove p).unattended awaited + 1 = k.unattended awaited := by
  unfold unattended
  rw [zombies_remove, Finset.erase_sdiff_comm]
  exact Finset.card_erase_add_one (Finset.mem_sdiff.mpr ⟨hp, hnot⟩)

theorem unattended_remove_le : (k.remove p).unattended awaited ≤ k.unattended awaited := by
  refine unattended_of_subset ?_
  rw [zombies_remove]
  exact Finset.sdiff_subset_sdiff (Finset.erase_subset ..) (Finset.Subset.refl _)

theorem unattended_set_zombie (k : Kids α) (p status : ℕ) (a : α) :
    (k.set p ⟨.zombie status, a⟩).unattended awaited ≤ k.unattended awaited + 1 := by
  unfold unattended
  rw [zombies_set_zombie]
  refine Nat.le_trans (Finset.card_le_card fun q hq => ?_) (Finset.card_insert_le p _)
  obtain ⟨hmem, hnot⟩ := Finset.mem_sdiff.mp hq
  rcases Finset.mem_insert.mp hmem with rfl | hmem
  · exact Finset.mem_insert_self ..
  · exact Finset.mem_insert_of_mem (Finset.mem_sdiff.mpr ⟨hmem, hnot⟩)

theorem unattended_set_awaited (hp : p ∈ awaited) (status : ℕ) (a : α) :
    (k.set p ⟨.zombie status, a⟩).unattended awaited = k.unattended awaited := by
  unfold unattended
  rw [zombies_set_zombie, Finset.insert_sdiff_of_mem _ hp]

theorem Covered.exit {status : ℕ} (h : k.Covered awaited)
    (hatt : p ∈ awaited ∨ k.unattended awaited ≤ k.underWay) (a : α) :
    (k.set p ⟨.zombie status, a⟩).signal.Covered awaited := by
  show (k.set p ⟨.zombie status, a⟩).unattended awaited ≤ 1 + k.underWay
  rcases hatt with hp | hle
  · rw [unattended_set_awaited hp]
    exact Nat.le_trans h (Nat.add_le_add_right k.pendingRuns_le _)
  · have hadd := @unattended_set_zombie _ awaited k p status a
    omega

theorem Covered.reap (h : k.Covered awaited) (hhandler : k.handler = .entered)
    (hp : p ∈ k.zombies) (hatt : p ∈ awaited → k.unattended awaited ≤ k.pendingRuns) :
    Covered awaited { k.remove p with handler := .leaving } := by
  show (k.remove p).unattended awaited ≤ k.pendingRuns + 0
  have hruns : k.underWay = 1 := if_pos hhandler
  by_cases hmem : p ∈ awaited
  · exact Nat.le_trans unattended_remove_le (hatt hmem)
  · have hone := unattended_remove hp hmem
    unfold Covered at h
    omega

/-- A signal more, and no zombie. -/
theorem Covered.notify {life life' : Life} {a : α} (h : k.Covered awaited)
    (hc : k.child p = some ⟨life, a⟩) (hlife : ∀ status, life ≠ .zombie status)
    (hlife' : ∀ status, life' ≠ .zombie status) :
    (k.set p ⟨life', a⟩).signal.Covered awaited := by
  have hz : (k.set p ⟨life', a⟩).zombies = k.zombies :=
    zombies_set (exitStatus_eq_none_of_child hc hlife) hlife'
  show (k.set p ⟨life', a⟩).unattended awaited ≤ 1 + k.underWay
  rw [unattended_congr hz]
  exact Nat.le_trans h (Nat.add_le_add_right k.pendingRuns_le _)

/-- What may happen between two steps of the process keeps every zombie
its handler run, if it is attended. -/
theorem Covered.step {onExit : α → α} {b : Act} (h : k.Covered awaited)
    (hatt : k.Attended awaited b) (hstep : k.step onExit b = some k') : k'.Covered awaited := by
  cases step_cases hstep with
  | exit hc hlife => exact h.exit hatt _
  | stop hc => exact h.notify hc nofun nofun
  | cont hc => exact h.notify hc nofun nofun
  | deliver hpending hhandler =>
      unfold Covered pendingRuns underWay at h ⊢
      rw [if_pos hpending, hhandler] at h
      exact h
  | reap hhandler hp => exact h.reap hhandler hp hatt
  | reapNone hhandler hnone =>
      have hzero : k.unattended awaited = 0 := by
        unfold unattended
        rw [hnone, Finset.empty_sdiff, Finset.card_empty]
      exact Nat.le_trans (Nat.le_of_eq hzero) (Nat.zero_le _)
  | leave hhandler =>
      unfold Covered pendingRuns underWay at h ⊢
      rw [hhandler] at h
      exact h

/-! ### The process's own steps -/

/-- A step that takes no child and gives up none that was waited for. -/
theorem Covered.same (h : k.Covered awaited) (hsame : SameSignal k k')
    (hz : k'.zombies = k.zombies) (hsub : awaited ⊆ awaited') : k'.Covered awaited' := by
  refine h.mono hsame (unattended_of_subset ?_)
  rw [hz]
  exact Finset.sdiff_subset_sdiff (Finset.Subset.refl _) hsub

theorem waitpid_cases {untraced : Bool} {r : Result} (h : k.waitpid p untraced = some (r, k')) :
    (r = .noChild ∧ k.child p = none ∧ k' = k) ∨
    (∃ status, r = .ended status ∧ k.exitStatus p = some status ∧ k' = k.remove p) ∨
    (untraced = true ∧ r = .stopped ∧
      ∃ a, k.child p = some ⟨.stopped false, a⟩ ∧ k' = k.set p ⟨.stopped true, a⟩) := by
  unfold waitpid at h
  split at h
  · next hc =>
      obtain ⟨rfl, rfl⟩ := Prod.mk.inj (Option.some.inj h)
      exact .inl ⟨rfl, hc, rfl⟩
  · next status a hc =>
      obtain ⟨rfl, rfl⟩ := Prod.mk.inj (Option.some.inj h)
      exact .inr (.inl ⟨status, rfl, exitStatus_eq_some.mpr ⟨a, hc⟩, rfl⟩)
  · next a hc =>
      obtain ⟨htraced, hr⟩ := Option.ite_none_right_eq_some.mp h
      obtain ⟨rfl, rfl⟩ := Prod.mk.inj (Option.some.inj hr)
      exact .inr (.inr ⟨htraced, rfl, a, hc, rfl⟩)
  · exact nomatch h

theorem child_waitpid {untraced : Bool} {r : Result} {q : ℕ} {c' : Child α}
    (h : k.waitpid p untraced = some (r, k')) (hc' : k'.child q = some c') :
    ∃ c, k.child q = some c ∧ Goes c c' := by
  rcases waitpid_cases h with ⟨-, -, rfl⟩ | ⟨status, -, -, rfl⟩ | ⟨-, -, a, hc, rfl⟩
  · exact ⟨c', hc', Goes.refl c'⟩
  · rw [child_remove] at hc'
    split at hc'
    · exact nomatch hc'
    · exact ⟨c', hc', Goes.refl c'⟩
  · rw [child_set] at hc'
    split at hc'
    · next hq =>
        subst hq
        obtain rfl := Option.some.inj hc'
        exact ⟨_, hc, rfl, fun _ => nofun⟩
    · exact ⟨c', hc', Goes.refl c'⟩

/-- A child that has been waited for is no zombie afterwards, whoever is
waited for next. -/
theorem Covered.waitpid {untraced : Bool} {r : Result} (h : k.Covered {p})
    (hwait : k.waitpid p untraced = some (r, k')) : k'.Covered awaited := by
  have hall : k'.zombies ⊆ k.zombies.erase p ∧ SameSignal k k' := by
    rcases waitpid_cases hwait with ⟨-, hc, rfl⟩ | ⟨status, -, -, rfl⟩ | ⟨-, -, a, hc, rfl⟩
    · have hp : p ∉ k'.zombies := by
        rw [mem_zombies, exitStatus_eq_none_of_no_child hc]
        exact Bool.false_ne_true
      rw [Finset.erase_eq_of_notMem hp]
      exact ⟨Finset.Subset.refl _, rfl, rfl⟩
    · rw [zombies_remove]
      exact ⟨Finset.Subset.refl _, rfl, rfl⟩
    · have hnone : k.exitStatus p = none := exitStatus_eq_none_of_child hc fun _ => nofun
      have hp : p ∉ k.zombies := by
        rw [mem_zombies, hnone]
        exact Bool.false_ne_true
      have hset : (k.set p ⟨.stopped true, a⟩).zombies = k.zombies :=
        zombies_set hnone fun _ => nofun
      rw [hset, Finset.erase_eq_of_notMem hp]
      exact ⟨Finset.Subset.refl _, rfl, rfl⟩
  obtain ⟨hsub, hsame⟩ := hall
  refine h.mono hsame (unattended_of_subset ?_)
  rw [Finset.sdiff_singleton_eq_erase]
  exact Finset.Subset.trans Finset.sdiff_subset hsub

/-- The same when any child will do: the one waited for may be left in
place of the one taken. -/
theorem Covered.waitAny {choice : Option ℕ} (h : k.Covered {p})
    (hwait : k.waitAny choice = some k') : k'.Covered awaited := by
  cases choice with
  | none =>
      obtain ⟨hkeys, hk⟩ := Option.ite_none_right_eq_some.mp hwait
      obtain rfl := Option.some.inj hk
      have hempty : k.zombies = ∅ := by
        unfold zombies
        rw [hkeys]
        rfl
      refine h.mono ⟨rfl, rfl⟩ (unattended_of_subset ?_)
      rw [hempty, Finset.empty_sdiff]
      exact Finset.empty_subset _
  | some q =>
      obtain ⟨hq, hk⟩ := Option.ite_none_right_eq_some.mp hwait
      obtain rfl := Option.some.inj hk
      refine h.mono ⟨rfl, rfl⟩ ?_
      have hone := Finset.card_erase_add_one (mem_zombies.mpr hq)
      have hless : k.zombies.card ≤ (k.zombies \ {p}).card + 1 := by
        rw [Finset.sdiff_singleton_eq_erase]
        exact Nat.sub_le_iff_le_add.mp Finset.pred_card_le_card_erase
      have hsub : (k.remove q).unattended awaited ≤ (k.zombies.erase q).card := by
        unfold unattended
        rw [zombies_remove]
        exact Finset.card_le_card Finset.sdiff_subset
      unfold unattended at hsub ⊢
      omega

end Covered

/-! ## Too few handler runs -/

section Uncovered

variable {awaited : Finset ℕ} {k k' : Kids α}

theorem exists_unattended_zombie (h : ¬ k.Covered awaited) : ∃ p ∈ k.zombies, p ∉ awaited := by
  unfold Covered at h
  have hpos : 0 < (k.zombies \ awaited).card := by
    unfold unattended at h
    omega
  obtain ⟨p, hp⟩ := Finset.card_pos.mp hpos
  exact ⟨p, Finset.mem_sdiff.mp hp⟩

/-- The handler returns, having taken a zombie that nobody waits for if it
had not reached its `waitpid`. -/
theorem exists_returned (onExit : α → α) (h : ¬ k.Covered awaited) :
    ∃ k', Lts.Reaches (step onExit) k k' ∧ k'.pending = k.pending ∧ k'.handler = .idle ∧
      ¬ k'.Covered awaited := by
  cases hhandler : k.handler with
  | idle => exact ⟨k, ⟨[], .nil k⟩, rfl, hhandler, h⟩
  | leaving =>
      have hleave : k.step onExit .leave = some { k with handler := .idle } := if_pos hhandler
      refine ⟨{ k with handler := .idle }, ⟨_, .cons hleave (.nil _)⟩, rfl, rfl, ?_⟩
      unfold Covered pendingRuns underWay at h ⊢
      rw [hhandler] at h
      exact h
  | entered =>
      obtain ⟨p, hp, hnot⟩ := exists_unattended_zombie h
      have hreap : k.step onExit (.reap (some p)) = some { k.remove p with handler := .leaving } :=
        if_pos ⟨hhandler, mem_zombies.mp hp⟩
      have hleave : step onExit { k.remove p with handler := .leaving } .leave
          = some { k.remove p with handler := .idle } := rfl
      refine ⟨{ k.remove p with handler := .idle }, ⟨_, .cons hreap (.cons hleave (.nil _))⟩,
        rfl, rfl, ?_⟩
      have hone := unattended_remove hp hnot
      have hruns : k.underWay = 1 := if_pos hhandler
      unfold Covered at h ⊢
      show ¬ (k.remove p).unattended awaited ≤ k.pendingRuns + 0
      omega

/-- With more zombies than handler runs to come, the handler may run to
its end and leave one behind. -/
theorem exists_unattended (onExit : α → α) (h : ¬ k.Covered awaited) :
    ∃ k', Lts.Reaches (step onExit) k k' ∧ k'.Quiet ∧ ∃ p ∈ k'.zombies, p ∉ awaited := by
  obtain ⟨k₁, hreach₁, -, hidle₁, h₁⟩ := exists_returned onExit h
  cases hpending : k₁.pending with
  | false => exact ⟨k₁, hreach₁, ⟨hpending, hidle₁⟩, exists_unattended_zombie h₁⟩
  | true =>
      have hdeliver : k₁.step onExit .deliver
          = some { k₁ with pending := false, handler := .entered } :=
        if_pos ⟨hpending, hidle₁⟩
      have hentered : ¬ Covered awaited { k₁ with pending := false, handler := .entered } := by
        unfold Covered pendingRuns underWay at h₁ ⊢
        rw [if_pos hpending, hidle₁] at h₁
        exact h₁
      obtain ⟨k₂, hreach₂, hpending₂, hidle₂, h₂⟩ := exists_returned onExit hentered
      obtain ⟨hs, hrun⟩ := hreach₂
      exact ⟨k₂, Lts.Run.reaches (hreach₁.tail hdeliver) hrun, ⟨hpending₂, hidle₂⟩,
        exists_unattended_zombie h₂⟩

/-- A change that is not attended leaves more zombies than handler runs to
come. -/
theorem not_covered_step {onExit : α → α} {b : Act} (hatt : ¬ k.Attended awaited b)
    (hstep : k.step onExit b = some k') : ¬ k'.Covered awaited := by
  cases step_cases hstep with
  | @exit p status life a hc hlife =>
      obtain ⟨hp, hlt⟩ := not_or.mp hatt
      have hnot : p ∉ k.zombies \ awaited := by
        intro hmem
        have hz := mem_zombies.mp (Finset.mem_sdiff.mp hmem).1
        rw [exitStatus_eq_none_of_child hc hlife] at hz
        exact nomatch hz
      have hcount : (k.set p ⟨.zombie status, onExit a⟩).unattended awaited
          = k.unattended awaited + 1 := by
        unfold unattended
        rw [zombies_set_zombie, Finset.insert_sdiff_of_notMem _ hp,
          Finset.card_insert_of_notMem hnot]
      intro hcov
      have hle : (k.set p ⟨.zombie status, onExit a⟩).unattended awaited ≤ 1 + k.underWay := hcov
      omega
  | @reap p hhandler hz =>
      obtain ⟨hp, hlt⟩ := Classical.not_imp.mp hatt
      have hcount : (k.remove p).unattended awaited = k.unattended awaited := by
        unfold unattended
        rw [zombies_remove, Finset.erase_sdiff_comm, Finset.erase_eq_of_notMem]
        exact fun hmem => (Finset.mem_sdiff.mp hmem).2 hp
      intro hcov
      have hle : (k.remove p).unattended awaited ≤ k.pendingRuns + 0 := hcov
      omega
  | stop => exact absurd trivial hatt
  | cont => exact absurd trivial hatt
  | deliver => exact absurd trivial hatt
  | reapNone => exact absurd trivial hatt
  | leave => exact absurd trivial hatt

end Uncovered

end Kids

end Wait
