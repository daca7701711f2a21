import Comp4511.XmLoop
import Comp4511.XmReport

/-!
# The memory of the caller

A user copy succeeds if its addresses are mapped and below the address
limit; `ksys_open` reads the name it is given under the same rule, and
`printk` with `%s` without any (but for the first page, where it prints
`(null)`). `xmerge` lifts the limit before its first copy, so the rule
lets every mapped address through.

`Confined` is what should hold of a call: it touches only the caller's
range, it takes no more parameters than there are, and what it is refused
it answers with `-EFAULT` at once. `confined_iff` says for which pointers
it does. One direction follows the stages of the call (`Stage`); for the
other a kernel is built that obeys the memory and lets everything else
succeed (`Memory.kernel`), whose run follows every pointer that can be
reached (`Visited`).
-/

namespace Comp4511

namespace Xm

/-! ## Memory -/

/-- The address space as the caller has it. The user range ends at
`userTop`; `nameLen` is the length of the string at an address, with its
end. -/
structure Memory where
  mapped : Addr → Bool
  userTop : Nat
  nameLen : Addr → Nat
  userTop_le : userTop ≤ 2 ^ 64

namespace Memory

variable (m : Memory)

/-- Addresses that a limit lets through are below this. -/
def top : AddrLimit → Nat
  | .user => m.userTop
  | .kernel => 2 ^ 64

/-- A user copy of `len` bytes at `a` succeeds under the limit. -/
def Accessible (limit : AddrLimit) (a : Addr) (len : Nat) : Prop :=
  a.toNat + len ≤ m.top limit ∧ ∀ i, i < len → m.mapped (a + UInt64.ofNat i) = true

instance (limit : AddrLimit) (a : Addr) (len : Nat) : Decidable (m.Accessible limit a len) :=
  inferInstanceAs (Decidable (_ ∧ _))

/-- The bytes exist, in the kernel's range or in the caller's. -/
def Mapped (a : Addr) (len : Nat) : Prop := m.Accessible .kernel a len

/-- The bytes are the caller's. -/
def Own (a : Addr) (len : Nat) : Prop := m.Accessible .user a len

/-- If the bytes exist they are the caller's. -/
def Safe (a : Addr) (len : Nat) : Prop := m.Mapped a len → m.Own a len

theorem Own.mapped {m : Memory} {a : Addr} {len : Nat} (h : m.Own a len) : m.Mapped a len :=
  ⟨Nat.le_trans h.1 m.userTop_le, h.2⟩

end Memory

/-- `sizeof(struct xmerge_params)`. -/
def paramsSize : Nat := 40

/-! ## Calls on memory -/

section Events

variable (m : Memory)

/-- The event follows the rule for user copies. A name that cannot be read
makes the open fail. -/
def Event.Obeys : Event → Prop
  | .copyFromUser limit src len left => left = 0 ↔ m.Accessible limit src len
  | .copyToUser limit dst len left => left = 0 ↔ m.Accessible limit dst len
  | .ksysOpen limit name result =>
      ¬ m.Accessible limit name (m.nameLen name) → result = efault.code
  | .printk _ | .ksysRead .. | .ksysWrite .. | .ksysClose _ => True

instance : DecidablePred (Event.Obeys m) := fun e =>
  match e with
  | .copyFromUser .. | .copyToUser .. => inferInstanceAs (Decidable (_ ↔ _))
  | .ksysOpen .. => inferInstanceAs (Decidable (_ → _))
  | .printk _ | .ksysRead .. | .ksysWrite .. | .ksysClose _ => .isTrue trivial

/-- What the event touches is the caller's. -/
def Event.Confined : Event → Prop
  | .copyFromUser _ src len left => left = 0 → m.Own src len
  | .copyToUser _ dst len left => left = 0 → m.Own dst len
  | .ksysOpen limit name _ => m.Accessible limit name (m.nameLen name) →
      m.Own name (m.nameLen name)
  | .printk name => pageSize ≤ name.toNat → m.Own name (m.nameLen name)
  | .ksysRead .. | .ksysWrite .. | .ksysClose _ => True

/-- The access was refused. -/
def Event.Refused : Event → Prop
  | .copyFromUser _ _ _ left | .copyToUser _ _ _ left => left ≠ 0
  | .ksysOpen limit name _ => ¬ m.Accessible limit name (m.nameLen name)
  | .printk _ | .ksysRead .. | .ksysWrite .. | .ksysClose _ => False

/-- What a call with the result `r` and the history `hs` should be. -/
structure Confined (args : Addr) (argslen : Nat) (r : Int) (hs : List Event) : Prop where
  events : ∀ e ∈ hs, e.Confined m
  params : ∀ limit, .copyFromUser limit args argslen 0 ∈ hs → argslen ≤ paramsSize
  refused : Reports (Event.Refused m) r hs

end Events

/-! ## The pointers -/

section Pointers

variable (m : Memory) (env : Env) (args : Addr) (argslen : Nat)

/-- The call can come to input `x`: all it reads before exists. -/
structure ComesTo (x : Nat) : Prop where
  params : m.Mapped args argslen
  outfile : m.Mapped env.params.outfile (m.nameLen env.params.outfile)
  inputs : ∀ y, y < x → m.Mapped (env.params.nameAt y) 8 ∧
    m.Mapped (inputName env y) (m.nameLen (inputName env y))

/-- Every pointer that the call can come to is the caller's or leads
nowhere; the names that are printed and the file count are the caller's. -/
structure WellPlaced : Prop where
  params : m.Safe args argslen
  length : m.Mapped args argslen → argslen ≤ paramsSize
  outfile : m.Mapped args argslen → m.Safe env.params.outfile (m.nameLen env.params.outfile)
  pointer : ∀ x, x < env.params.numFiles.toNat → ComesTo m env args argslen x →
    m.Safe (env.params.nameAt x) 8
  name : ∀ x, x < env.params.numFiles.toNat → ComesTo m env args argslen x →
    m.Mapped (env.params.nameAt x) 8 →
    m.Safe (inputName env x) (m.nameLen (inputName env x)) ∧
      (pageSize ≤ (inputName env x).toNat → m.Own (inputName env x) (m.nameLen (inputName env x)))
  count : ∀ x, x < env.params.numFiles.toNat → ComesTo m env args argslen x →
    m.Mapped (env.params.nameAt x) 8 →
    m.Mapped (inputName env x) (m.nameLen (inputName env x)) → m.Own env.params.ofileCount 4

/-- The caller has passed the same; files and answers may differ. -/
structure SameCaller (env env' : Env) : Prop where
  params : env'.params = env.params
  word : env'.word = env.word

end Pointers

/-! ## Well placed pointers are enough -/

section Enough

variable {m : Memory} {env : Env} {args : Addr} {argslen : Nat}

/-- What exists when the call is at a place. -/
def Stage (m : Memory) (env : Env) (args : Addr) (argslen : Nat) : Pc → Prop
  | .params | .leave .. | .returned _ => True
  | .openOut => m.Mapped args argslen
  | .head _ x => ComesTo m env args argslen x
  | .name _ x | .openIn _ x => x < env.params.numFiles.toNat ∧ ComesTo m env args argslen x ∧
      m.Mapped (env.params.nameAt x) 8
  | .read _ _ x | .write _ _ x _ | .count _ _ x | .closeIn _ _ x =>
      x < env.params.numFiles.toNat ∧ ComesTo m env args argslen x ∧
      m.Mapped (env.params.nameAt x) 8 ∧ m.Mapped (inputName env x) (m.nameLen (inputName env x))

/-- The event is as it should be, and if it stores the file count it
succeeds. -/
structure Event.Fine (m : Memory) (args : Addr) (argslen : Nat) (e : Event) : Prop where
  confined : e.Confined m
  params : ∀ limit, e = .copyFromUser limit args argslen 0 → argslen ≤ paramsSize
  stored : ¬ e.CountFailed

theorem ComesTo.succ {x : Nat} (h : ComesTo m env args argslen x)
    (hpointer : m.Mapped (env.params.nameAt x) 8)
    (hname : m.Mapped (inputName env x) (m.nameLen (inputName env x))) :
    ComesTo m env args argslen (x + 1) := by
  refine ⟨h.params, h.outfile, fun y hy => ?_⟩
  rcases Nat.lt_succ_iff_lt_or_eq.mp hy with hy | rfl
  · exact h.inputs y hy
  · exact ⟨hpointer, hname⟩

/-- The copy of a pointer to a name. -/
theorem fine_pointer {left : Nat} {a : Addr} (h : left = 0 → m.Own a 8) (limit : AddrLimit) :
    Event.Fine m args argslen (.copyFromUser limit a 8 left) := by
  refine ⟨h, fun _ heq => ?_, id⟩
  obtain ⟨-, -, rfl, -⟩ := Event.copyFromUser.inj heq
  decide

theorem fine_open {name : Addr} {result : Int}
    (h : m.Safe name (m.nameLen name)) :
    Event.Fine m args argslen (.ksysOpen .kernel name result) :=
  ⟨h, nofun, id⟩

/-- An open whose name is not there fails. -/
theorem mapped_of_opened {name : Addr} {fd : Nat}
    (h : Event.Obeys m (.ksysOpen .kernel name fd)) : m.Mapped name (m.nameLen name) := by
  by_contra hno
  have hcode : (fd : Int) = efault.code := h hno
  have hneg := efault.neg
  omega

/-- A step under the lifted limit. -/
theorem step_fine {oldFs : AddrLimit} {c c' : Config} (h : WellPlaced m env args argslen)
    (hlimit : c.world.limit = .kernel) (hstage : Stage m env args argslen c.pc)
    (hstep : Step env args argslen oldFs c c') :
    (c'.world.history = c.world.history ∧ Stage m env args argslen c'.pc) ∨
      ∃ e, c'.world.history = c.world.history ++ [e] ∧
        (e.Obeys m → e.Fine m args argslen ∧ Stage m env args argslen c'.pc) := by
  cases hstep with
  | paramsFault _ hleft hq =>
      refine .inr ⟨_, hq.history, fun _ => ⟨⟨fun h => absurd h hleft, ?_, id⟩, trivial⟩⟩
      intro _ heq
      exact absurd (Event.copyFromUser.inj heq).2.2.2 hleft
  | params _ hq =>
      refine .inr ⟨_, hq.history, fun hobey => ?_⟩
      rw [hlimit] at hobey
      have hmapped : m.Mapped args argslen := hobey.mp rfl
      exact ⟨⟨fun _ => h.params hmapped, fun _ _ => h.length hmapped, id⟩, hmapped⟩
  | openOutFail _ hq =>
      refine .inr ⟨_, hq.history, fun _ => ⟨?_, trivial⟩⟩
      rw [hlimit]
      exact fine_open (h.outfile hstage)
  | openOut _ ho =>
      refine .inr ⟨_, ho.history, fun hobey => ?_⟩
      rw [hlimit] at hobey ⊢
      refine ⟨fine_open (h.outfile hstage), hstage, mapped_of_opened hobey, ?_⟩
      exact fun y hy => absurd hy (Nat.not_lt_zero y)
  | last => exact .inl ⟨rfl, trivial⟩
  | nameFault hx _ hleft hq =>
      exact .inr ⟨_, hq.history, fun _ => ⟨fine_pointer (fun h => absurd h hleft) _, trivial⟩⟩
  | @head _ _ _ x _ hx _ hq =>
      refine .inr ⟨_, hq.history, fun hobey => ?_⟩
      rw [hlimit] at hobey ⊢
      have hmapped : m.Mapped (env.params.nameAt x) 8 := hobey.mp rfl
      exact ⟨fine_pointer (fun _ => h.pointer x hx hstage hmapped) _, hx, hstage, hmapped⟩
  | @name _ _ _ x _ hq =>
      obtain ⟨hx, hcomes, hmapped⟩ := hstage
      refine .inr ⟨_, hq.history, fun _ => ⟨⟨?_, nofun, id⟩, hx, hcomes, hmapped⟩⟩
      exact (h.name x hx hcomes hmapped).2
  | @openInFail _ _ _ x _ _ _ hq =>
      obtain ⟨hx, hcomes, hmapped⟩ := hstage
      refine .inr ⟨_, hq.history, fun _ => ⟨?_, trivial⟩⟩
      rw [hlimit]
      exact fine_open (h.name x hx hcomes hmapped).1
  | @openIn _ _ _ _ x _ _ ho =>
      obtain ⟨hx, hcomes, hmapped⟩ := hstage
      refine .inr ⟨_, ho.history, fun hobey => ?_⟩
      rw [hlimit] at hobey ⊢
      exact ⟨fine_open (h.name x hx hcomes hmapped).1, hx, hcomes, hmapped,
        mapped_of_opened hobey⟩
  | eof hq => exact .inr ⟨_, hq.history, fun _ => ⟨⟨trivial, nofun, id⟩, hstage⟩⟩
  | readFail _ hq => exact .inr ⟨_, hq.history, fun _ => ⟨⟨trivial, nofun, id⟩, trivial⟩⟩
  | read _ _ hq => exact .inr ⟨_, hq.history, fun _ => ⟨⟨trivial, nofun, id⟩, hstage⟩⟩
  | writeFail _ hq => exact .inr ⟨_, hq.history, fun _ => ⟨⟨trivial, nofun, id⟩, trivial⟩⟩
  | write hq => exact .inr ⟨_, hq.history, fun _ => ⟨⟨trivial, nofun, id⟩, hstage⟩⟩
  | @count _ _ _ _ x left _ _ hq =>
      obtain ⟨hx, hcomes, hpointer, hname⟩ := hstage
      have hown := h.count x hx hcomes hpointer hname
      refine .inr ⟨_, hq.history, fun hobey => ⟨⟨fun _ => hown, nofun, fun hfail => hfail ?_⟩,
        hx, hcomes, hpointer, hname⟩⟩
      rw [hlimit] at hobey
      exact hobey.mpr hown.mapped
  | closeIn hc =>
      obtain ⟨-, hcomes, hpointer, hname⟩ := hstage
      exact .inr ⟨_, hc.history, fun _ => ⟨⟨trivial, nofun, id⟩, hcomes.succ hpointer hname⟩⟩
  | close hc => exact .inr ⟨_, hc.history, fun _ => ⟨⟨trivial, nofun, id⟩, trivial⟩⟩
  | restore => exact .inl ⟨rfl, trivial⟩

/-- The limit stays lifted until the call returns. -/
theorem step_limit {oldFs : AddrLimit} {c c' : Config} (h : c.world.limit = .kernel)
    (hstep : Step env args argslen oldFs c c') :
    c'.world.limit = .kernel ∨ ∃ r, c'.pc = .returned r := by
  cases hstep with
  | paramsFault _ _ hq => exact .inl (hq.limit.trans h)
  | params _ hq => exact .inl (hq.limit.trans h)
  | openOutFail _ hq => exact .inl (hq.limit.trans h)
  | openOut _ ho => exact .inl (ho.limit.trans h)
  | last => exact .inl h
  | nameFault _ _ _ hq => exact .inl (hq.limit.trans h)
  | head _ _ hq => exact .inl (hq.limit.trans h)
  | name hq => exact .inl (hq.limit.trans h)
  | openInFail _ hq => exact .inl (hq.limit.trans h)
  | openIn _ ho => exact .inl (ho.limit.trans h)
  | eof hq => exact .inl (hq.limit.trans h)
  | readFail _ hq => exact .inl (hq.limit.trans h)
  | read _ _ hq => exact .inl (hq.limit.trans h)
  | writeFail _ hq => exact .inl (hq.limit.trans h)
  | write hq => exact .inl (hq.limit.trans h)
  | count _ hq => exact .inl (hq.limit.trans h)
  | closeIn hc => exact .inl (hc.limit.trans h)
  | close hc => exact .inl (hc.limit.trans h)
  | restore => exact .inr ⟨_, rfl⟩

/-- A call made in `w₀` has come to `c` with the history `hs`. -/
structure Placed (m : Memory) (env : Env) (args : Addr) (argslen : Nat) (w₀ : World) (c : Config)
    (hs : List Event) : Prop where
  history : c.world.history = w₀.history ++ hs
  limit : c.world.limit = .kernel ∨ ∃ r, c.pc = .returned r
  stage : (∀ e ∈ hs, e.Obeys m) → Stage m env args argslen c.pc
  fine : (∀ e ∈ hs, e.Obeys m) → ∀ e ∈ hs, e.Fine m args argslen

theorem placed_step {w₀ : World} {c c' : Config} {hs : List Event}
    (hwell : WellPlaced m env args argslen) (h : Placed m env args argslen w₀ c hs)
    (hstep : Step env args argslen w₀.limit c c') :
    ∃ hs', Placed m env args argslen w₀ c' hs' := by
  have hlimit : c.world.limit = .kernel := by
    refine h.limit.resolve_right fun ⟨r, hr⟩ => ?_
    cases hstep <;> exact nomatch hr
  by_cases hobeys : ∀ e ∈ hs, e.Obeys m
  · rcases step_fine hwell hlimit (h.stage hobeys) hstep with
      ⟨hsame, hstage⟩ | ⟨e, hnext, he⟩
    · exact ⟨hs, hsame.trans h.history, step_limit hlimit hstep, fun _ => hstage,
        h.fine⟩
    · refine ⟨hs ++ [e], ?_, step_limit hlimit hstep, fun hall => ?_, fun hall => ?_⟩
      · rw [hnext, h.history, List.append_assoc]
      · exact (he (hall e (by simp))).2
      · intro e' he'
        rw [List.mem_append, List.mem_singleton] at he'
        rcases he' with he' | rfl
        · exact h.fine hobeys e' he'
        · exact (he (hall e' (by simp))).1
  · -- nothing is asked of a history that breaks the rule
    obtain ⟨l, hl⟩ : ∃ l, c'.world.history = c.world.history ++ l := by
      rcases step_logs hstep with ⟨e, hlog⟩ | hsilent
      · exact ⟨[e], hlog.history⟩
      · exact ⟨[], by rw [hsilent.history, List.append_nil]⟩
    have hbreaks : ¬ ∀ e ∈ hs ++ l, e.Obeys m :=
      fun hall => hobeys fun e he => hall e (List.mem_append_left l he)
    refine ⟨hs ++ l, ?_, step_limit hlimit hstep, fun hall => absurd hall hbreaks,
      fun hall => absurd hall hbreaks⟩
    rw [hl, h.history, List.append_assoc]

theorem fine_of_steps {w₀ : World} {c : Config} {hs : List Event}
    (hwell : WellPlaced m env args argslen)
    (h : Steps env args argslen w₀.limit (start w₀) c) (hh : c.world.history = w₀.history ++ hs)
    (hobeys : ∀ e ∈ hs, e.Obeys m) : ∀ e ∈ hs, e.Fine m args argslen := by
  have hstart : Placed m env args argslen w₀ (start w₀) [] :=
    ⟨(List.append_nil _).symm, .inl rfl, fun _ => trivial, fun _ => nofun⟩
  obtain ⟨hs', hplaced⟩ := steps_inv (I := fun c => ∃ hs, Placed m env args argslen w₀ c hs)
    (fun _ _ ⟨_, h⟩ hstep => placed_step hwell h hstep) ⟨[], hstart⟩ h
  obtain rfl : hs = hs' := List.append_cancel_left (hh.symm.trans hplaced.history)
  exact hplaced.fine hobeys

/-- With well placed pointers the call is confined. -/
theorem confined_of_wellPlaced {w₀ w : World} {fuel : Nat} {r : Int} {hs : List Event}
    (hwell : WellPlaced m env args argslen) (h : xmerge env args argslen fuel w₀ = some (r, w))
    (hh : w.history = w₀.history ++ hs) (hobeys : ∀ e ∈ hs, e.Obeys m) :
    Confined m args argslen r hs := by
  obtain ⟨b, hb⟩ := xmerge_steps h
  have hfine := fine_of_steps hwell hb hh hobeys
  refine ⟨fun e he => (hfine e he).confined, fun limit he => (hfine _ he).params limit rfl, ?_⟩
  refine (xmerge_report h hh).reports fun e he hrefused => ?_
  cases e with
  | copyFromUser limit src len left => exact if_neg hrefused
  | copyToUser limit dst len left => exact absurd hrefused (hfine _ he).stored
  | ksysOpen limit name result =>
      have hcode : result = efault.code := hobeys _ he hrefused
      rw [hcode]
      rfl
  | _ => exact hrefused.elim

end Enough

/-! ## What a run visits -/

/-- The event follows the rule, and nothing else fails. -/
def Event.Exact (m : Memory) (e : Event) : Prop :=
  e.Obeys m ∧
    match e with
    | .ksysOpen limit name result =>
        result < 0 → ¬ m.Accessible limit name (m.nameLen name)
    | .ksysRead _ result | .ksysWrite _ _ result => 0 ≤ result
    | .copyFromUser .. | .printk _ | .copyToUser .. | .ksysClose _ => True

section Visits

variable (m : Memory) (env : Env) (args : Addr) (argslen : Nat)

/-- The pointer to name `x` was read. -/
def PointerRead (h : List Event) (x : Nat) : Prop :=
  ∃ left, .copyFromUser .kernel (env.params.nameAt x) 8 left ∈ h

/-- The name was handed to `ksys_open`. -/
def Opened (h : List Event) (name : Addr) : Prop := ∃ result, .ksysOpen .kernel name result ∈ h

/-- Name `x` was printed and handed to `ksys_open`. -/
def NameRead (h : List Event) (x : Nat) : Prop :=
  .printk (inputName env x) ∈ h ∧ Opened h (inputName env x)

/-- The file count was stored, or that was tried. -/
def Counted (h : List Event) : Prop :=
  ∃ left, .copyToUser .kernel env.params.ofileCount 4 left ∈ h

/-- Everything before input `x` has been followed. -/
structure Before (h : List Event) (x : Nat) : Prop where
  params : ∃ left, .copyFromUser .kernel args argslen left ∈ h
  outfile : Opened h env.params.outfile
  inputs : ∀ y, y < x → PointerRead env h y ∧ NameRead env h y ∧ Counted env h

/-- Everything that can be reached has been followed. -/
structure Visited (h : List Event) : Prop where
  params : ∃ left, .copyFromUser .kernel args argslen left ∈ h
  outfile : m.Mapped args argslen → Opened h env.params.outfile
  pointer : ∀ x, x < env.params.numFiles.toNat → ComesTo m env args argslen x → PointerRead env h x
  name : ∀ x, x < env.params.numFiles.toNat → ComesTo m env args argslen x →
    m.Mapped (env.params.nameAt x) 8 → NameRead env h x
  count : ∀ x, x < env.params.numFiles.toNat → ComesTo m env args argslen x →
    m.Mapped (env.params.nameAt x) 8 →
    m.Mapped (inputName env x) (m.nameLen (inputName env x)) → Counted env h

/-- What has been followed when the call is at a place. -/
def Seen (h : List Event) : Pc → Prop
  | .params => True
  | .openOut => ∃ left, .copyFromUser .kernel args argslen left ∈ h
  | .head _ x => Before env args argslen h x
  | .name _ x => Before env args argslen h x ∧ PointerRead env h x
  | .openIn _ x => Before env args argslen h x ∧ PointerRead env h x ∧
      .printk (inputName env x) ∈ h
  | .read _ _ x | .write _ _ x _ | .count _ _ x => Before env args argslen h x ∧
      PointerRead env h x ∧ NameRead env h x
  | .closeIn _ _ x => Before env args argslen h (x + 1)
  | .leave .. | .returned _ => Visited m env args argslen h

end Visits

section Visits

variable {m : Memory} {env : Env} {args : Addr} {argslen : Nat} {h h' : List Event} {x : Nat}

theorem PointerRead.mono (hp : PointerRead env h x) (hsub : h ⊆ h') : PointerRead env h' x := by
  obtain ⟨left, hleft⟩ := hp
  exact ⟨left, hsub hleft⟩

theorem Opened.mono {name : Addr} (ho : Opened h name) (hsub : h ⊆ h') : Opened h' name := by
  obtain ⟨result, hresult⟩ := ho
  exact ⟨result, hsub hresult⟩

theorem NameRead.mono (hn : NameRead env h x) (hsub : h ⊆ h') : NameRead env h' x :=
  ⟨hsub hn.1, hn.2.mono hsub⟩

theorem Counted.mono (hc : Counted env h) (hsub : h ⊆ h') : Counted env h' := by
  obtain ⟨left, hleft⟩ := hc
  exact ⟨left, hsub hleft⟩

theorem Before.mono (hb : Before env args argslen h x) (hsub : h ⊆ h') :
    Before env args argslen h' x := by
  obtain ⟨left, hleft⟩ := hb.params
  refine ⟨⟨left, hsub hleft⟩, hb.outfile.mono hsub, fun y hy => ?_⟩
  obtain ⟨hp, hn, hc⟩ := hb.inputs y hy
  exact ⟨hp.mono hsub, hn.mono hsub, hc.mono hsub⟩

theorem Visited.mono (hv : Visited m env args argslen h) (hsub : h ⊆ h') :
    Visited m env args argslen h' := by
  obtain ⟨left, hleft⟩ := hv.params
  exact ⟨⟨left, hsub hleft⟩, fun hm => (hv.outfile hm).mono hsub,
    fun x hx hc => (hv.pointer x hx hc).mono hsub,
    fun x hx hc hp => (hv.name x hx hc hp).mono hsub,
    fun x hx hc hp hn => (hv.count x hx hc hp hn).mono hsub⟩

/-- The call stops at input `x`, because there is no pointer or no name,
or because all inputs are done. -/
theorem Before.visited (hb : Before env args argslen h x)
    (hpointer : x < env.params.numFiles.toNat → PointerRead env h x)
    (hname : x < env.params.numFiles.toNat → m.Mapped (env.params.nameAt x) 8 → NameRead env h x)
    (hstop : x < env.params.numFiles.toNat → m.Mapped (env.params.nameAt x) 8 →
      ¬ m.Mapped (inputName env x) (m.nameLen (inputName env x))) :
    Visited m env args argslen h := by
  have hpast : ∀ y, y < env.params.numFiles.toNat → ComesTo m env args argslen y → y ≤ x := by
    intro y hy hcomes
    by_contra hlt
    obtain ⟨hp, hn⟩ := hcomes.inputs x (by omega)
    exact hstop (by omega) hp hn
  refine ⟨hb.params, fun _ => hb.outfile, fun y hy hcomes => ?_, fun y hy hcomes hp => ?_,
    fun y hy hcomes hp hn => ?_⟩
  · rcases Nat.lt_or_eq_of_le (hpast y hy hcomes) with hlt | rfl
    · exact (hb.inputs y hlt).1
    · exact hpointer hy
  · rcases Nat.lt_or_eq_of_le (hpast y hy hcomes) with hlt | rfl
    · exact (hb.inputs y hlt).2.1
    · exact hname hy hp
  · rcases Nat.lt_or_eq_of_le (hpast y hy hcomes) with hlt | rfl
    · exact (hb.inputs y hlt).2.2
    · exact absurd hn (hstop hy hp)

theorem Before.succ (hb : Before env args argslen h x) (hp : PointerRead env h x)
    (hn : NameRead env h x) (hc : Counted env h) : Before env args argslen h (x + 1) := by
  refine ⟨hb.params, hb.outfile, fun y hy => ?_⟩
  rcases Nat.lt_succ_iff_lt_or_eq.mp hy with hlt | rfl
  · exact hb.inputs y hlt
  · exact ⟨hp, hn, hc⟩

/-- A step of a run in which nothing fails but for the memory. -/
theorem step_seen {oldFs : AddrLimit} {c c' : Config} (hlimit : c.world.limit = .kernel)
    (hseen : Seen m env args argslen c.world.history c.pc)
    (hstep : Step env args argslen oldFs c c')
    (hexact : ∀ e ∈ c'.world.history, e.Exact m) :
    Seen m env args argslen c'.world.history c'.pc := by
  have hmem : ∀ {h : List Event} {e : Event}, e ∈ h ++ [e] := by simp
  have hsub : ∀ {h : List Event} {e : Event}, h ⊆ h ++ [e] :=
    fun {h e} => List.subset_append_left h [e]
  cases hstep with
  | @paramsFault w _ left _ _ hleft hq =>
      rw [hq.history] at hexact ⊢
      rw [hlimit] at hexact ⊢
      have hno : ¬ m.Mapped args argslen := fun hmapped =>
        hleft ((hexact _ hmem).1.mpr hmapped)
      exact ⟨⟨left, hmem⟩, fun hm => absurd hm hno, fun _ _ hc => absurd hc.params hno,
        fun _ _ hc => absurd hc.params hno, fun _ _ hc => absurd hc.params hno⟩
  | params _ hq =>
      rw [hq.history, hlimit]
      exact ⟨0, hmem⟩
  | @openOutFail _ _ e _ _ hq =>
      rw [hq.history] at hexact ⊢
      rw [hlimit] at hexact ⊢
      obtain ⟨left, hparams⟩ := hseen
      have hno : ¬ m.Mapped env.params.outfile (m.nameLen env.params.outfile) :=
        (hexact _ hmem).2 e.neg
      exact ⟨⟨left, List.mem_append_left _ hparams⟩, fun _ => ⟨_, hmem⟩,
        fun _ _ hc => absurd hc.outfile hno, fun _ _ hc => absurd hc.outfile hno,
        fun _ _ hc => absurd hc.outfile hno⟩
  | openOut _ ho =>
      rw [ho.history, hlimit]
      obtain ⟨left, hparams⟩ := hseen
      exact ⟨⟨left, List.mem_append_left _ hparams⟩, ⟨_, hmem⟩,
        fun y hy => absurd hy (Nat.not_lt_zero y)⟩
  | last =>
      exact Before.visited hseen (fun hx => absurd hx (Nat.lt_irrefl _))
        (fun hx => absurd hx (Nat.lt_irrefl _)) (fun hx => absurd hx (Nat.lt_irrefl _))
  | @nameFault _ _ _ x left _ hx _ hleft hq =>
      rw [hq.history] at hexact ⊢
      rw [hlimit] at hexact ⊢
      have hno : ¬ m.Mapped (env.params.nameAt x) 8 := fun hmapped =>
        hleft ((hexact _ hmem).1.mpr hmapped)
      exact (Before.mono hseen hsub).visited (fun _ => ⟨left, hmem⟩)
        (fun _ hm => absurd hm hno) (fun _ hm => absurd hm hno)
  | head _ _ hq =>
      rw [hq.history, hlimit]
      exact ⟨Before.mono hseen hsub, 0, hmem⟩
  | name hq =>
      rw [hq.history]
      exact ⟨hseen.1.mono hsub, hseen.2.mono hsub, hmem⟩
  | @openInFail _ _ _ x e _ _ hq =>
      rw [hq.history] at hexact ⊢
      rw [hlimit] at hexact ⊢
      obtain ⟨hb, hp, hprint⟩ := hseen
      have hno : ¬ m.Mapped (inputName env x) (m.nameLen (inputName env x)) :=
        (hexact _ hmem).2 e.neg
      exact (hb.mono hsub).visited (fun _ => hp.mono hsub)
        (fun _ _ => ⟨List.mem_append_left _ hprint, _, hmem⟩) (fun _ _ => hno)
  | openIn _ ho =>
      rw [ho.history, hlimit]
      obtain ⟨hb, hp, hprint⟩ := hseen
      exact ⟨hb.mono hsub, hp.mono hsub, List.mem_append_left _ hprint, _, hmem⟩
  | eof hq =>
      rw [hq.history]
      exact ⟨hseen.1.mono hsub, hseen.2.1.mono hsub, hseen.2.2.mono hsub⟩
  | @readFail _ _ _ _ _ e _ _ hq =>
      rw [hq.history] at hexact
      exact absurd (hexact _ hmem).2 (Int.not_le.mpr e.neg)
  | read _ _ hq =>
      rw [hq.history]
      exact ⟨hseen.1.mono hsub, hseen.2.1.mono hsub, hseen.2.2.mono hsub⟩
  | @writeFail _ _ _ _ _ _ e _ _ hq =>
      rw [hq.history] at hexact
      exact absurd (hexact _ hmem).2 (Int.not_le.mpr e.neg)
  | write hq =>
      rw [hq.history]
      exact ⟨hseen.1.mono hsub, hseen.2.1.mono hsub, hseen.2.2.mono hsub⟩
  | count _ hq =>
      rw [hq.history, hlimit]
      exact (hseen.1.mono hsub).succ (hseen.2.1.mono hsub) (hseen.2.2.mono hsub)
        ⟨_, hmem⟩
  | closeIn hc =>
      rw [hc.history]
      exact Before.mono hseen hsub
  | close hc =>
      rw [hc.history]
      exact Visited.mono hseen hsub
  | restore => exact hseen

end Visits

/-! ## A kernel for the memory -/

section Kernel

variable (m : Memory) (env : Env) (args : Addr) (argslen : Nat)

def Event.isCopyFromUser : Event → Bool
  | .copyFromUser .. => true
  | _ => false

def Event.isOpen : Event → Bool
  | .ksysOpen .. => true
  | _ => false

/-- What the user copies read, in their order: the parameters and the
pointers. -/
def source (env : Env) (args : Addr) (argslen : Nat) : Nat → Addr × Nat
  | 0 => (args, argslen)
  | x + 1 => (env.params.nameAt x, 8)

/-- The names that are opened, in their order. -/
def opening (env : Env) : Nat → Addr
  | 0 => env.params.outfile
  | x + 1 => inputName env x

/-- The answers of a kernel with the memory `m`, in which files are empty
and nothing fails but for the memory. -/
def Memory.kernel : Env where
  params := env.params
  word := env.word
  inode := env.inode
  copyFromUser := fun h =>
    let (a, len) := source env args argslen (h.countP Event.isCopyFromUser)
    if m.Accessible .kernel a len then 0 else len
  copyToUser := fun _ => if m.Accessible .kernel env.params.ofileCount 4 then 0 else 4
  ksysOpen := fun h =>
    let name := opening env (h.countP Event.isOpen)
    if m.Accessible .kernel name (m.nameLen name) then none else some efault
  ksysRead := fun _ => .count 1
  ksysWrite := fun _ => .count 1

def emptyWorld : World := { sampleWorld with data := fun _ => [] }

/-- How many user copies from the caller, and how many opens, there have
been at a place. -/
def Pc.copies : Pc → Nat
  | .params | .leave .. | .returned _ => 0
  | .openOut => 1
  | .head _ x => x + 1
  | .name _ x | .openIn _ x | .read _ _ x | .write _ _ x _ | .count _ _ x | .closeIn _ _ x => x + 2

def Pc.opens : Pc → Nat
  | .params | .openOut | .leave .. | .returned _ => 0
  | .head _ x | .name _ x | .openIn _ x => x + 1
  | .read _ _ x | .write _ _ x _ | .count _ _ x | .closeIn _ _ x => x + 2

/-- The run of the kernel has come to `c`. -/
structure Obedient (c : Config) : Prop where
  clean : Clean emptyWorld c
  limit : c.world.limit = .kernel ∨ ∃ r, c.pc = .returned r
  empty : ∀ i, c.world.data i = []
  pending : c.pc.pending = 0
  copies : c.pc.result = none → c.world.history.countP Event.isCopyFromUser = c.pc.copies
  opens : c.pc.result = none → c.world.history.countP Event.isOpen = c.pc.opens
  exact : ∀ e ∈ c.world.history, e.Exact m
  bytes : bytesRead c.world.history = 0

end Kernel

section Kernel

variable {m : Memory} {env : Env} {args : Addr} {argslen : Nat}

/-- A copy that leaves nothing over is one of bytes that exist. -/
theorem copy_exact {a : Addr} {len left : Nat}
    (h : left = min (if m.Accessible .kernel a len then 0 else len) len) :
    Event.Exact m (.copyFromUser .kernel a len left) := by
  refine ⟨?_, trivial⟩
  show left = 0 ↔ m.Accessible .kernel a len
  split at h
  · next hacc =>
      rw [Nat.zero_min] at h
      exact iff_of_true h hacc
  · next hacc =>
      rw [Nat.min_self] at h
      refine iff_of_false (fun hzero => hacc ?_) hacc
      -- no bytes at all can always be read
      obtain rfl : len = 0 := h.symm.trans hzero
      exact ⟨Nat.le_of_lt a.toNat_lt, fun i hi => absurd hi (Nat.not_lt_zero i)⟩

theorem openFail_exact {name : Addr} {e : Errno}
    (h : (if m.Accessible .kernel name (m.nameLen name) then none else some efault) = some e) :
    Event.Exact m (.ksysOpen .kernel name e.code) := by
  split at h
  · exact nomatch h
  · next hacc =>
      obtain rfl := Option.some.inj h
      exact ⟨fun _ => rfl, fun _ => hacc⟩

theorem open_exact {name : Addr} {fd : Nat}
    (h : (if m.Accessible .kernel name (m.nameLen name) then none else some efault) = none) :
    Event.Exact m (.ksysOpen .kernel name fd) := by
  split at h
  · next hacc => exact ⟨fun hno => absurd hacc hno, fun hneg => by omega⟩
  · exact nomatch h

/-- What a step of the kernel adds to the history. -/
structure Adds (m : Memory) (c c' : Config) (e : Event) : Prop where
  history : c'.world.history = c.world.history ++ [e]
  exact : e.Exact m
  read : e.read = 0
  empty : ∀ i, c'.world.data i = []
  pending : c'.pc.pending = 0
  going : c'.pc.result = none → c.pc.result = none ∧
    c.pc.copies + (if e.isCopyFromUser then 1 else 0) = c'.pc.copies ∧
    c.pc.opens + (if e.isOpen then 1 else 0) = c'.pc.opens

section Adds

variable {w w' : World} {pc pc' : Pc} {b b' : Int32}

theorem Quiet.adds {fds : List Nat} {e : Event} (hq : Quiet fds e w w')
    (hempty : ∀ i, w.data i = []) (hoffered : e.offered = []) (hexact : e.Exact m)
    (hread : e.read = 0) (hpending : pc'.pending = 0)
    (hgoing : pc'.result = none → pc.result = none ∧
      pc.copies + (if e.isCopyFromUser then 1 else 0) = pc'.copies ∧
      pc.opens + (if e.isOpen then 1 else 0) = pc'.opens) :
    Adds m ⟨pc, w, b⟩ ⟨pc', w', b'⟩ e := by
  refine ⟨hq.history, hexact, hread, fun i => ?_, hpending, hgoing⟩
  rw [hq.data hoffered]
  exact hempty i

theorem Opens.adds {fd : Nat} {name : Addr} (ho : Opens fd name w w')
    (hempty : ∀ i, w.data i = []) (hexact : Event.Exact m (.ksysOpen w.limit name fd))
    (hpending : pc'.pending = 0)
    (hgoing : pc.result = none ∧ pc.copies = pc'.copies ∧ pc.opens + 1 = pc'.opens) :
    Adds m ⟨pc, w, b⟩ ⟨pc', w', b'⟩ (.ksysOpen w.limit name fd) := by
  refine ⟨ho.history, hexact, rfl, fun i => ?_, hpending, fun _ => hgoing⟩
  rcases ho.data i with hsame | hnil
  · exact hsame.trans (hempty i)
  · exact hnil

theorem Closes.adds {fd : Nat} (hc : Closes fd w w') (hempty : ∀ i, w.data i = [])
    (hpending : pc'.pending = 0)
    (hgoing : pc'.result = none → pc.result = none ∧ pc.copies = pc'.copies ∧
      pc.opens = pc'.opens) :
    Adds m ⟨pc, w, b⟩ ⟨pc', w', b'⟩ (.ksysClose fd) := by
  refine ⟨hc.history, ⟨trivial, trivial⟩, rfl, fun i => ?_, hpending, hgoing⟩
  rw [hc.data]
  exact hempty i

end Adds

section Answers

variable (m env args argslen)

/-- The answer of the kernel to its user copy number `n`. -/
theorem kernel_copyFromUser {h : List Event} {n : Nat}
    (hn : h.countP Event.isCopyFromUser = n) :
    (m.kernel env args argslen).copyFromUser h
      = if m.Accessible .kernel (source env args argslen n).1 (source env args argslen n).2 then 0
        else (source env args argslen n).2 := by
  subst hn
  rfl

theorem kernel_ksysOpen {h : List Event} {n : Nat} (hn : h.countP Event.isOpen = n) :
    (m.kernel env args argslen).ksysOpen h
      = if m.Accessible .kernel (opening env n) (m.nameLen (opening env n)) then none
        else some efault := by
  subst hn
  rfl

end Answers

theorem kernel_adds {c c' : Config} (h : Obedient m c)
    (hstep : Step (m.kernel env args argslen) args argslen .user c c') :
    (∃ e, Adds m c c' e) ∨ c'.world.history = c.world.history ∧ c'.world.data = c.world.data ∧
      c'.pc.result ≠ none ∧ c'.pc.pending = 0 := by
  have hlimit : c.world.limit = .kernel := by
    refine h.limit.resolve_right fun ⟨r, hr⟩ => ?_
    cases hstep <;> exact nomatch hr
  have hempty := h.empty
  cases hstep with
  | paramsFault hleft _ hq =>
      rw [kernel_copyFromUser m env args argslen (h.copies rfl)] at hleft
      refine .inl ⟨_, hq.adds hempty rfl ?_ rfl rfl nofun⟩
      rw [hlimit]
      exact copy_exact hleft
  | params hleft hq =>
      rw [kernel_copyFromUser m env args argslen (h.copies rfl)] at hleft
      refine .inl ⟨_, hq.adds hempty rfl ?_ rfl rfl fun _ => ⟨rfl, rfl, rfl⟩⟩
      rw [hlimit]
      exact copy_exact hleft.symm
  | openOutFail hwhy hq =>
      rw [kernel_ksysOpen m env args argslen (h.opens rfl)] at hwhy
      refine .inl ⟨_, hq.adds hempty rfl ?_ rfl rfl nofun⟩
      rw [hlimit]
      exact openFail_exact hwhy
  | openOut hwhy ho =>
      rw [kernel_ksysOpen m env args argslen (h.opens rfl)] at hwhy
      refine .inl ⟨_, ho.adds hempty ?_ rfl ⟨rfl, rfl, rfl⟩⟩
      rw [hlimit]
      exact open_exact hwhy
  | last => exact .inr ⟨rfl, rfl, nofun, rfl⟩
  | nameFault _ hleft _ hq =>
      rw [kernel_copyFromUser m env args argslen (h.copies rfl)] at hleft
      refine .inl ⟨_, hq.adds hempty rfl ?_ rfl rfl nofun⟩
      rw [hlimit]
      exact copy_exact hleft
  | head _ hleft hq =>
      rw [kernel_copyFromUser m env args argslen (h.copies rfl)] at hleft
      refine .inl ⟨_, hq.adds hempty rfl ?_ rfl rfl fun _ => ⟨rfl, rfl, rfl⟩⟩
      rw [hlimit]
      exact copy_exact hleft.symm
  | name hq =>
      exact .inl ⟨_, hq.adds hempty rfl ⟨trivial, trivial⟩ rfl rfl fun _ => ⟨rfl, rfl, rfl⟩⟩
  | openInFail hwhy hq =>
      rw [kernel_ksysOpen m env args argslen (h.opens rfl)] at hwhy
      refine .inl ⟨_, hq.adds hempty rfl ?_ rfl rfl nofun⟩
      rw [hlimit]
      exact openFail_exact hwhy
  | openIn hwhy ho =>
      rw [kernel_ksysOpen m env args argslen (h.opens rfl)] at hwhy
      refine .inl ⟨_, ho.adds hempty ?_ rfl ⟨rfl, rfl, rfl⟩⟩
      rw [hlimit]
      exact open_exact hwhy
  | eof hq =>
      exact .inl ⟨_, hq.adds hempty rfl ⟨trivial, Int.le_refl 0⟩ rfl rfl
        fun _ => ⟨rfl, rfl, rfl⟩⟩
  | readFail hwhy hq =>
      have hopen := h.clean.get_ne_none (List.mem_cons_of_mem _ (List.mem_singleton_self _))
      exact nomatch hwhy.resolve_right hopen
  | read hne hpart hq =>
      obtain ⟨i, hi⟩ := hpart
      rw [hempty i, List.sublist_nil] at hi
      exact absurd hi hne
  | writeFail hwhy hq =>
      have hopen := h.clean.get_ne_none (List.mem_cons_self ..)
      exact nomatch hwhy.resolve_right hopen
  | write hq =>
      obtain rfl := List.length_eq_zero_iff.mp h.pending
      refine .inl ⟨_, hq.adds hempty ?_ ⟨trivial, Int.natCast_nonneg _⟩ rfl rfl
        fun _ => ⟨rfl, rfl, rfl⟩⟩
      unfold Event.offered
      exact ite_self _
  | count hleft hq =>
      refine .inl ⟨_, hq.adds hempty rfl ⟨?_, trivial⟩ rfl rfl fun _ => ⟨rfl, rfl, rfl⟩⟩
      rw [hlimit]
      exact (copy_exact hleft).1
  | closeIn hc => exact .inl ⟨_, hc.adds hempty rfl fun _ => ⟨rfl, rfl, rfl⟩⟩
  | close hc => exact .inl ⟨_, hc.adds hempty rfl nofun⟩
  | restore => exact .inr ⟨rfl, rfl, nofun, rfl⟩

theorem obedient_step {c c' : Config} (h : Obedient m c)
    (hstep : Step (m.kernel env args argslen) args argslen .user c c') : Obedient m c' := by
  have hclean : Clean emptyWorld c' := clean_step h.clean hstep
  have hlimit : c'.world.limit = .kernel ∨ ∃ r, c'.pc = .returned r := by
    refine step_limit (h.limit.resolve_right fun ⟨r, hr⟩ => ?_) hstep
    cases hstep <;> exact nomatch hr
  rcases kernel_adds h hstep with ⟨e, hadds⟩ | ⟨hh, hdata, hresult, hpending⟩
  · refine ⟨hclean, hlimit, hadds.empty, hadds.pending, fun hnone => ?_, fun hnone => ?_, ?_, ?_⟩
    · obtain ⟨hgo, hcopies, -⟩ := hadds.going hnone
      rw [hadds.history, List.countP_append, h.copies hgo, List.countP_singleton, hcopies]
    · obtain ⟨hgo, -, hopens⟩ := hadds.going hnone
      rw [hadds.history, List.countP_append, h.opens hgo, List.countP_singleton, hopens]
    · rw [hadds.history, List.forall_mem_append, List.forall_mem_singleton]
      exact ⟨h.exact, hadds.exact⟩
    · rw [hadds.history, bytesRead_append, h.bytes, hadds.read]
  · refine ⟨hclean, hlimit, ?_, hpending, fun hnone => absurd hnone hresult,
      fun hnone => absurd hnone hresult, ?_, ?_⟩
    · rw [hdata]
      exact h.empty
    · rw [hh]
      exact h.exact
    · rw [hh]
      exact h.bytes

theorem obedient_start (m : Memory) (env : Env) : Obedient m (start emptyWorld) := by
  refine ⟨(answered_start env emptyWorld).clean, .inl rfl, fun _ => rfl, rfl, fun _ => rfl,
    fun _ => rfl, ?_, rfl⟩
  exact nofun

/-- The run of the kernel returns, and it has been everywhere. -/
theorem kernel_run (m : Memory) (env : Env) (args : Addr) (argslen : Nat) :
    ∃ fuel r w, xmerge (m.kernel env args argslen) args argslen fuel emptyWorld = some (r, w) ∧
      (∀ e ∈ w.history, e.Exact m) ∧ bytesRead w.history = 0 ∧
      Visited m (m.kernel env args argslen) args argslen w.history := by
  have hcalm : ∀ k, ¬ Grows (m.kernel env args argslen) emptyWorld.data k := by
    rintro k ⟨-, j, -, hne⟩
    refine hne ?_
    unfold inputFile openedData
    split
    · by_cases hi : inputInode (m.kernel env args argslen) j
          = outputInode (m.kernel env args argslen)
      · rw [hi]
        exact Function.update_self ..
      · exact Function.update_of_ne hi ..
    · rfl
  obtain ⟨fuel, ⟨r, w⟩, hret⟩ := xmerge_ends (Nat.le_refl _) (fun k _ => hcalm k)
    (fun hlt => absurd hlt (Nat.lt_irrefl _)) args argslen
  obtain ⟨b, hobedient, hseen⟩ := returns_inv
    (I := fun c => Obedient m c ∧
      Seen m (m.kernel env args argslen) args argslen c.world.history c.pc)
    (fun c c' hc hstep => by
      have hnext := obedient_step hc.1 hstep
      have hlimit : c.world.limit = .kernel := by
        refine hc.1.limit.resolve_right fun ⟨r, hr⟩ => ?_
        cases hstep <;> exact nomatch hr
      exact ⟨hnext, step_seen hlimit hc.2 hstep hnext.exact⟩)
    ⟨obedient_start m env, trivial⟩ hret
  exact ⟨fuel, r, w, hret, hobedient.exact, hobedient.bytes, hseen⟩

end Kernel

/-! ## The result -/

section Result

variable {m : Memory} {env : Env} {args : Addr} {argslen : Nat}

/-- A confined call that has been everywhere shows the pointers well
placed. -/
theorem Visited.wellPlaced {r : Int} {hs : List Event} (hv : Visited m env args argslen hs)
    (hexact : ∀ e ∈ hs, e.Exact m) (hbytes : bytesRead hs = 0) (hreport : Report r hs)
    (hconf : Confined m args argslen r hs) : WellPlaced m env args argslen := by
  have hcopy : ∀ {a : Addr} {len left : Nat}, .copyFromUser .kernel a len left ∈ hs →
      m.Safe a len := by
    intro a len left hmem hmapped
    exact hconf.events _ hmem ((hexact _ hmem).1.mpr hmapped)
  have hopened : ∀ {name : Addr}, Opened hs name → m.Safe name (m.nameLen name) := by
    rintro name ⟨result, hmem⟩
    exact hconf.events _ hmem
  obtain ⟨left, hparams⟩ := hv.params
  refine ⟨hcopy hparams, fun hmapped => ?_, fun hmapped => hopened (hv.outfile hmapped),
    fun x hx hcomes => ?_, fun x hx hcomes hpointer => ?_, fun x hx hcomes hpointer hname => ?_⟩
  · obtain rfl : left = 0 := (hexact _ hparams).1.mpr hmapped
    exact hconf.params _ hparams
  · obtain ⟨left', hmem⟩ := hv.pointer x hx hcomes
    exact hcopy hmem
  · obtain ⟨hprint, hopen⟩ := hv.name x hx hcomes hpointer
    exact ⟨hopened hopen, hconf.events _ hprint⟩
  · obtain ⟨left', hmem⟩ := hv.count x hx hcomes hpointer hname
    by_cases hzero : left' = 0
    · exact hconf.events _ hmem hzero
    -- a count that is refused is ignored
    obtain ⟨pre, post, hsplit⟩ := List.append_of_mem hmem
    obtain ⟨hr, hpost⟩ := hconf.refused pre _ post hsplit hzero
    have htotal := hreport.total_of_closing hsplit hzero hpost
    rw [hbytes, hr] at htotal
    exact absurd htotal (by decide)

theorem SameCaller.inputName {env' : Env} (h : SameCaller env env') (x : Nat) :
    inputName env' x = inputName env x := by
  simp only [Xm.inputName, h.params, h.word]

theorem SameCaller.comesTo {env' : Env} (h : SameCaller env env') {x : Nat}
    (hcomes : ComesTo m env' args argslen x) : ComesTo m env args argslen x := by
  obtain ⟨hparams, houtfile, hinputs⟩ := hcomes
  simp only [h.params, h.inputName] at houtfile hinputs
  exact ⟨hparams, houtfile, hinputs⟩

theorem SameCaller.symm {env' : Env} (h : SameCaller env env') : SameCaller env' env :=
  ⟨h.params.symm, h.word.symm⟩

theorem SameCaller.wellPlaced {env' : Env} (h : SameCaller env env')
    (hwell : WellPlaced m env args argslen) : WellPlaced m env' args argslen := by
  constructor
  · exact hwell.params
  · exact hwell.length
  all_goals simp only [h.params, h.inputName]
  · exact hwell.outfile
  · exact fun x hx hcomes => hwell.pointer x hx (h.comesTo hcomes)
  · exact fun x hx hcomes => hwell.name x hx (h.comesTo hcomes)
  · exact fun x hx hcomes => hwell.count x hx (h.comesTo hcomes)

/-- The call is confined, whatever the files and the other answers of the
kernel, exactly when the caller's pointers are well placed. Then so is a
call that has not returned yet. -/
theorem confined_iff (m : Memory) (env : Env) (args : Addr) (argslen : Nat) :
    ((∀ env' w₀ fuel r w hs, SameCaller env env' → xmerge env' args argslen fuel w₀ = some (r, w) →
      w.history = w₀.history ++ hs → (∀ e ∈ hs, e.Obeys m) → Confined m args argslen r hs) ↔
      WellPlaced m env args argslen) ∧
    (WellPlaced m env args argslen → ∀ env' w₀ c hs, SameCaller env env' →
      Steps env' args argslen w₀.limit (start w₀) c → c.world.history = w₀.history ++ hs →
      (∀ e ∈ hs, e.Obeys m) → ∀ e ∈ hs, e.Fine m args argslen) := by
  refine ⟨⟨fun hall => ?_, fun hwell => ?_⟩, fun hwell => ?_⟩
  · obtain ⟨fuel, r, w, hret, hexact, hbytes, hvisited⟩ := kernel_run m env args argslen
    have hsame : SameCaller env (m.kernel env args argslen) := ⟨rfl, rfl⟩
    have hconf := hall _ _ _ _ _ w.history hsame hret rfl fun e he => (hexact e he).1
    exact hsame.symm.wellPlaced
      (hvisited.wellPlaced hexact hbytes (xmerge_report hret rfl) hconf)
  · intro env' w₀ fuel r w hs hsame hret hh hobeys
    exact confined_of_wellPlaced (hsame.wellPlaced hwell) hret hh hobeys
  · intro env' w₀ c hs hsame hsteps hh hobeys
    exact fine_of_steps (hsame.wellPlaced hwell) hsteps hh hobeys

end Result

/-! ## Two callers -/

/-- The caller's range is mapped. -/
def userMemory : Memory where
  mapped := fun a => a < 0x800000000000
  userTop := 2 ^ 47
  nameLen := fun _ => 2
  userTop_le := by decide

/-- So is the kernel's own. -/
def fullMemory : Memory :=
  { userMemory with mapped := fun a => a < 0x800000000000 ∨ 0xffff888000000000 ≤ a }

theorem sampleEnv_wellPlaced (ksysRead ksysWrite : List Event → Answer) :
    WellPlaced userMemory (sampleEnv ksysRead ksysWrite) 0x500 40 := by
  have hown : ∀ a : Addr, a.toNat + 40 ≤ 2 ^ 47 → ∀ len, len ≤ 40 → userMemory.Own a len := by
    intro a ha len hlen
    refine ⟨Nat.le_trans (Nat.add_le_add_left hlen _) ha, fun i hi => decide_eq_true ?_⟩
    show (a + UInt64.ofNat i).toNat < 2 ^ 47
    have hsmall : i < 2 ^ 64 := by omega
    have hi' : (UInt64.ofNat i).toNat = i := UInt64.toNat_ofNat_of_lt' hsmall
    rw [UInt64.toNat_add, hi', Nat.mod_eq_of_lt (by omega)]
    omega
  have hpointers : ∀ x, x < sampleParams.numFiles.toNat →
      (sampleParams.nameAt x).toNat + 40 ≤ 2 ^ 47 ∧
      (sampleParams.nameAt x + 0x200).toNat + 40 ≤ 2 ^ 47 := by
    decide
  constructor
  · exact fun _ => hown _ (by decide) _ (by decide)
  · exact fun _ => by decide
  · exact fun _ _ => hown 0x100 (by decide) 2 (by decide)
  · exact fun x hx _ _ => hown _ (hpointers x hx).1 _ (by decide)
  · intro x hx _ _
    have hname := hown _ (hpointers x hx).2 2 (by decide)
    exact ⟨fun _ => hname, fun _ => hname⟩
  · exact fun _ _ _ _ _ => hown 0x300 (by decide) 4 (by decide)

/-- Two files are merged for a caller whose pointers are its own. -/
theorem confined_iff_sample : ∃ w,
    xmerge (sampleEnv (fun _ => .count 2) fun _ => .count 4096) 0x500 40 4 sampleWorld
      = some (6, w) ∧ Confined userMemory 0x500 40 6 w.history := by
  have hseen : (xmerge (sampleEnv (fun _ => .count 2) fun _ => .count 4096) 0x500 40 4
      sampleWorld).map (fun p => (p.1, decide (∀ e ∈ p.2.history, e.Obeys userMemory)))
        = some (6, true) := by
    decide +kernel
  obtain ⟨⟨r, w⟩, hret, hw⟩ := Option.map_eq_some_iff.mp hseen
  obtain ⟨rfl, hobeys⟩ := Prod.mk.inj hw
  exact ⟨w, hret, (confined_iff _ _ _ _).1.mpr (sampleEnv_wellPlaced _ _) _ _ _ _ _ _ ⟨rfl, rfl⟩
    hret rfl (of_decide_eq_true hobeys)⟩

/-- The file count is to be stored at an address of the kernel, and it is:
the call returns the bytes merged. -/
theorem kernel_memory_written : ∃ w,
    xmerge { sampleEnv (fun _ => .count 2) (fun _ => .count 4096) with
      params := { sampleParams with ofileCount := 0xffff888000000000 } } 0x500 40 4 sampleWorld
      = some (6, w) ∧
    (∀ e ∈ w.history, e.Obeys fullMemory) ∧
    Event.copyToUser .kernel 0xffff888000000000 4 0 ∈ w.history ∧
    ¬ fullMemory.Own 0xffff888000000000 4 ∧
    ¬ Confined fullMemory 0x500 40 6 w.history := by
  have hseen : (xmerge { sampleEnv (fun _ => .count 2) (fun _ => .count 4096) with
      params := { sampleParams with ofileCount := 0xffff888000000000 } } 0x500 40 4
      sampleWorld).map (fun p => (p.1, decide ((∀ e ∈ p.2.history, e.Obeys fullMemory) ∧
        Event.copyToUser .kernel 0xffff888000000000 4 0 ∈ p.2.history))) = some (6, true) := by
    decide +kernel
  obtain ⟨⟨r, w⟩, hret, hw⟩ := Option.map_eq_some_iff.mp hseen
  obtain ⟨rfl, hboth⟩ := Prod.mk.inj hw
  obtain ⟨hobeys, hmem⟩ := of_decide_eq_true hboth
  have hnot : ¬ fullMemory.Own 0xffff888000000000 4 := fun hown => absurd hown.1 (by decide)
  exact ⟨w, hret, hobeys, hmem, hnot, fun hconf => hnot (hconf.events _ hmem rfl)⟩

end Xm

end Comp4511
