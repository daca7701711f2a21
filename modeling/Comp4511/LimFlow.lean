import Mathlib.Algebra.GroupWithZero.Nat
import Mathlib.Algebra.Ring.Int.Defs
import Mathlib.Logic.Function.Basic
import Comp4511.Runs

/-!
# The flow table and the hook of `rate_limit.c`

The netfilter module keeps 4096 `myflow` slots. The pre-routing hook
`rate_limit` hashes a TCP packet's tuple to a slot, claims the slot for
the tuple when it is unclaimed, counts the payload and returns a
verdict; a FIN prints a line and resets the slot.

The counters keep the widths of the source (64-bit `long`): `unsigned
int` is `UInt32`, `unsigned long` is `UInt64`, and the comparisons
convert as C does. `jiffies` is read once per packet. The two module
parameters and `HZ` are `Params`; header fields the hook does not read
are left out.

`Accounted` lists what the body of the hook can do with a flow, and
`rateLimit_hit`/`rateLimit_other` what a packet does to a slot it does,
or does not, land on; proofs about the hook go through these.
-/

namespace Comp4511

namespace Lim

/-! ## Data -/

/-- The module parameters `threshold` and `rate`, and `HZ`. -/
structure Params where
  threshold : Int32
  rate : Int32
  hz : UInt64
  hz_pos : 0 < hz

/-- `struct myflow`. -/
structure MyFlow where
  saddr : UInt32
  daddr : UInt32
  sport : UInt16
  dport : UInt16
  pktCount : UInt32
  dropCount : UInt32
  byteCount : UInt32
  byteDropCount : UInt32
  time : UInt64
  byte : UInt64
  start : UInt64
deriving Repr, DecidableEq

/-- `FLOW_TABLE_SIZE`. -/
abbrev flowTableSize : Nat := 4096

/-- An index into `flow_table`. -/
abbrev Slot := Fin flowTableSize

/-- `flow_table`. -/
abbrev FlowTable := Slot → MyFlow

/-- Header lengths are numbers of four bits. -/
instance neZeroSixteen : NeZero 16 := ⟨by decide⟩

/-- The fields of `struct iphdr` the hook reads, in network order. -/
structure Iphdr where
  ihl : Fin 16
  totLen : UInt16
  protocol : UInt8
  saddr : UInt32
  daddr : UInt32
deriving Repr, DecidableEq

/-- The fields of `struct tcphdr` the hook reads, in network order. -/
structure Tcphdr where
  source : UInt16
  dest : UInt16
  doff : Fin 16
  fin : Bool
deriving Repr, DecidableEq

/-- The packet: what `ip_hdr` and `tcp_hdr` point to. -/
structure SkBuff where
  iph : Iphdr
  tcph : Tcphdr
deriving Repr, DecidableEq

/-- `NF_ACCEPT` and `NF_DROP`. -/
inductive Verdict where
  | accept
  | drop
deriving Repr, DecidableEq

/-- The values `printk` gets at a FIN, as `%d` and `%ld` show them. -/
structure Finish where
  rate : Int32
  t : Int64
  accepted : Int32
  dropped : Int32
deriving Repr, DecidableEq

/-! ## The functions of the source -/

/-- `IPPROTO_TCP`. -/
def ipprotoTcp : UInt8 := 6

/-- `ntohs` on a little-endian machine. -/
def ntohs (x : UInt16) : UInt16 :=
  (x <<< 8) ||| (x >>> 8)

/-- `hash`: the product wraps at 32 bits before the last modulus. -/
def hash (saddr daddr : UInt32) (sport dport : UInt16) : UInt32 :=
  ((saddr % 4096 + 1) * (daddr % 4096 + 1) * (sport.toUInt32 % 4096 + 1)
    * (dport.toUInt32 % 4096 + 1)) % 4096

theorem hash_lt (saddr daddr : UInt32) (sport dport : UInt16) :
    (hash saddr daddr sport dport).toNat < flowTableSize := by
  rw [hash, UInt32.toNat_mod]
  exact Nat.mod_lt _ (by decide)

/-- `reset_flow`. -/
def resetFlow (jiffies : UInt64) : MyFlow where
  saddr := 0
  daddr := 0
  sport := 0
  dport := 0
  pktCount := 0
  dropCount := 0
  byteCount := 0
  byteDropCount := 0
  time := jiffies
  byte := 0
  start := 0

/-- `get_flow`: the slot of the tuple and the flow there, which takes the
tuple when its own is all zero. The tuple it holds is not compared. -/
def getFlow (table : FlowTable) (saddr daddr : UInt32) (sport dport : UInt16) :
    Slot × MyFlow :=
  let i : Slot := ⟨(hash saddr daddr sport dport).toNat, hash_lt ..⟩
  let flow := table i
  (i,
    if flow.saddr = 0 ∧ flow.daddr = 0 ∧ flow.sport = 0 ∧ flow.dport = 0 then
      { flow with saddr := saddr, daddr := daddr, sport := sport, dport := dport }
    else flow)

/-- `payload_len`: an `int` difference of header fields, stored in an
`unsigned int`. -/
def SkBuff.payloadLen (skb : SkBuff) : UInt32 :=
  UInt32.ofInt ((ntohs skb.iph.totLen).toNat
    - (skb.iph.ihl.val <<< 2 : Nat) - (skb.tcph.doff.val <<< 2 : Nat))

/-- The milliseconds from `since` to now, `(jiffies - since) * 1000 / HZ`
in `unsigned long`. -/
def elapsedMs (P : Params) (jiffies since : UInt64) : UInt64 :=
  (jiffies - since) * 1000 / P.hz

/-- The body of `rate_limit` from the `payload_len` test to the label
`out`. -/
def account (P : Params) (jiffies : UInt64) (payloadLen : UInt32) (flow : MyFlow) :
    Verdict × MyFlow :=
  if payloadLen = 0 then (.accept, flow)
  else
    let flow := if flow.start = 0 then { flow with start := jiffies } else flow
    -- an `unsigned int` against an `int`: the threshold is converted
    if flow.byteCount < P.threshold.toUInt32 then
      (.accept, { flow with
        pktCount := flow.pktCount + 1
        byteCount := flow.byteCount + payloadLen
        time := jiffies
        byte := flow.byte + payloadLen.toUInt64 })
    else
      let delta : Int64 := (elapsedMs P jiffies flow.time).toInt64
      -- an `unsigned long` against a `long`: the product is converted
      if flow.byteCount.toUInt64 - flow.byte > (delta * P.rate.toInt64).toUInt64 then
        (.drop, { flow with
          dropCount := flow.dropCount + 1
          byteDropCount := flow.byteDropCount + payloadLen })
      else
        (.accept, { flow with
          pktCount := flow.pktCount + 1
          byteCount := flow.byteCount + payloadLen })

/-- What a call of the hook returns, leaves in `flow_table` and prints. -/
structure Outcome where
  verdict : Verdict
  table : FlowTable
  finish : Option Finish

/-- `rate_limit`, the hook. -/
def rateLimit (P : Params) (jiffies : UInt64) (table : FlowTable) (skb : SkBuff) : Outcome :=
  if skb.iph.protocol ≠ ipprotoTcp then
    { verdict := .accept, table := table, finish := none }
  else
    let found := getFlow table skb.iph.saddr skb.iph.daddr
      (ntohs skb.tcph.source) (ntohs skb.tcph.dest)
    let counted := account P jiffies skb.payloadLen found.2
    if skb.tcph.fin then
      { verdict := counted.1
        table := Function.update table found.1 (resetFlow jiffies)
        finish := some {
          rate := P.rate
          t := (elapsedMs P jiffies counted.2.start).toInt64
          accepted := counted.2.byteCount.toInt32
          dropped := counted.2.byteDropCount.toInt32 } }
    else
      { verdict := counted.1
        table := Function.update table found.1 counted.2
        finish := none }

/-! ## Histories -/

/-- A packet and the time the hook sees it at. -/
structure Arrival where
  jiffies : UInt64
  skb : SkBuff
deriving Repr, DecidableEq

/-- The slot of a packet's tuple. -/
def SkBuff.slot (skb : SkBuff) : Slot :=
  ⟨(hash skb.iph.saddr skb.iph.daddr (ntohs skb.tcph.source) (ntohs skb.tcph.dest)).toNat,
    hash_lt ..⟩

/-- The packet is TCP and its tuple hashes to slot `i`. -/
def Arrival.lands (i : Slot) (a : Arrival) : Bool :=
  decide (a.skb.iph.protocol = ipprotoTcp ∧ a.skb.slot = i)

/-- The limiter as a transition system: one packet through the hook. -/
def step (P : Params) (table : FlowTable) (a : Arrival) : Option FlowTable :=
  some (rateLimit P a.jiffies table a.skb).table

/-- An entry of a history: a packet and the table it met. -/
abbrev Entry := FlowTable × Arrival

/-- The verdict the packet of an entry got. -/
def verdictOf (P : Params) (x : Entry) : Verdict :=
  (rateLimit P x.2.jiffies x.1 x.2.skb).verdict

/-- The part of a history that lands on slot `i`. -/
def hits (i : Slot) (h : List Entry) : List Entry :=
  h.filter fun x => x.2.lands i

/-! ## What a packet does to a slot -/

/-- `get_flow`'s effect on the flow it finds. -/
def claimed (skb : SkBuff) (flow : MyFlow) : MyFlow :=
  if flow.saddr = 0 ∧ flow.daddr = 0 ∧ flow.sport = 0 ∧ flow.dport = 0 then
    { flow with
      saddr := skb.iph.saddr
      daddr := skb.iph.daddr
      sport := ntohs skb.tcph.source
      dport := ntohs skb.tcph.dest }
  else flow

theorem getFlow_eq (table : FlowTable) (skb : SkBuff) :
    getFlow table skb.iph.saddr skb.iph.daddr (ntohs skb.tcph.source) (ntohs skb.tcph.dest)
      = (skb.slot, claimed skb (table skb.slot)) := rfl

/-- Claiming a slot touches the tuple only. -/
theorem claimed_counters (skb : SkBuff) (flow : MyFlow) :
    ∃ saddr daddr sport dport, claimed skb flow =
      { flow with saddr := saddr, daddr := daddr, sport := sport, dport := dport } := by
  unfold claimed
  split
  · exact ⟨_, _, _, _, rfl⟩
  · exact ⟨flow.saddr, flow.daddr, flow.sport, flow.dport, rfl⟩

@[simp] theorem claimed_byteCount (skb : SkBuff) (flow : MyFlow) :
    (claimed skb flow).byteCount = flow.byteCount := by
  obtain ⟨_, _, _, _, h⟩ := claimed_counters skb flow
  rw [h]

@[simp] theorem claimed_byte (skb : SkBuff) (flow : MyFlow) :
    (claimed skb flow).byte = flow.byte := by
  obtain ⟨_, _, _, _, h⟩ := claimed_counters skb flow
  rw [h]

@[simp] theorem claimed_time (skb : SkBuff) (flow : MyFlow) :
    (claimed skb flow).time = flow.time := by
  obtain ⟨_, _, _, _, h⟩ := claimed_counters skb flow
  rw [h]

/-- The test of the limited branch: the bytes counted past the mark
`byte` exceed what `rate` allows for the time since `time`. -/
def overRate (P : Params) (jiffies : UInt64) (flow : MyFlow) : Prop :=
  flow.byteCount.toUInt64 - flow.byte
    > ((elapsedMs P jiffies flow.time).toInt64 * P.rate.toInt64).toUInt64

/-- `start` once a payload has been seen. -/
def startAt (jiffies : UInt64) (flow : MyFlow) : UInt64 :=
  if flow.start = 0 then jiffies else flow.start

/-- The four ways through `account`. -/
inductive Accounted (P : Params) (jiffies : UInt64) (len : UInt32) (flow : MyFlow) :
    Verdict → MyFlow → Prop
  | idle : len = 0 → Accounted P jiffies len flow .accept flow
  | free : len ≠ 0 → flow.byteCount < P.threshold.toUInt32 →
      Accounted P jiffies len flow .accept { flow with
        start := startAt jiffies flow
        pktCount := flow.pktCount + 1
        byteCount := flow.byteCount + len
        time := jiffies
        byte := flow.byte + len.toUInt64 }
  | dropped : len ≠ 0 → ¬ flow.byteCount < P.threshold.toUInt32 → overRate P jiffies flow →
      Accounted P jiffies len flow .drop { flow with
        start := startAt jiffies flow
        dropCount := flow.dropCount + 1
        byteDropCount := flow.byteDropCount + len }
  | passed : len ≠ 0 → ¬ flow.byteCount < P.threshold.toUInt32 → ¬ overRate P jiffies flow →
      Accounted P jiffies len flow .accept { flow with
        start := startAt jiffies flow
        pktCount := flow.pktCount + 1
        byteCount := flow.byteCount + len }

theorem account_cases (P : Params) (jiffies : UInt64) (len : UInt32) (flow : MyFlow) :
    Accounted P jiffies len flow (account P jiffies len flow).1 (account P jiffies len flow).2 := by
  -- setting `start` changes nothing the branches read
  have hstart : (if flow.start = 0 then { flow with start := jiffies } else flow)
      = { flow with start := startAt jiffies flow } := by
    unfold startAt
    split <;> rfl
  unfold account
  by_cases hlen : len = 0
  · rw [if_pos hlen]
    exact .idle hlen
  rw [if_neg hlen, hstart]
  by_cases hfree : flow.byteCount < P.threshold.toUInt32
  · rw [if_pos hfree]
    exact .free hlen hfree
  rw [if_neg hfree]
  dsimp only
  split
  case isTrue hover => exact .dropped hlen hfree hover
  case isFalse hover => exact .passed hlen hfree hover

theorem lands_iff {i : Slot} {a : Arrival} :
    a.lands i = true ↔ a.skb.iph.protocol = ipprotoTcp ∧ a.skb.slot = i := by
  rw [Arrival.lands, decide_eq_true_eq]

/-- A packet leaves the slots it does not land on alone. -/
theorem rateLimit_other {P : Params} {T : FlowTable} {i : Slot} {a : Arrival}
    (h : ¬ a.lands i = true) : (rateLimit P a.jiffies T a.skb).table i = T i := by
  rw [lands_iff, not_and] at h
  unfold rateLimit
  by_cases hproto : a.skb.iph.protocol = ipprotoTcp
  · have hne : i ≠ a.skb.slot := fun heq => h hproto heq.symm
    rw [if_neg (not_not_intro hproto), getFlow_eq]
    split <;> exact Function.update_of_ne hne ..
  · rw [if_pos hproto]

/-- The verdict on a packet is `account`'s on the flow of its slot. -/
theorem verdictOf_hit {P : Params} {T : FlowTable} {i : Slot} {a : Arrival}
    (h : a.lands i = true) : verdictOf P (T, a)
      = (account P a.jiffies a.skb.payloadLen (claimed a.skb (T i))).1 := by
  obtain ⟨hproto, rfl⟩ := lands_iff.mp h
  simp only [verdictOf, rateLimit, if_neg (not_not_intro hproto), getFlow_eq]
  split <;> rfl

/-- A packet leaves the counted flow in its slot, or at a FIN a reset
one. -/
theorem rateLimit_slot {P : Params} {T : FlowTable} {i : Slot} {a : Arrival}
    (h : a.lands i = true) : (rateLimit P a.jiffies T a.skb).table i
      = if a.skb.tcph.fin then resetFlow a.jiffies
        else (account P a.jiffies a.skb.payloadLen (claimed a.skb (T i))).2 := by
  obtain ⟨hproto, rfl⟩ := lands_iff.mp h
  simp only [rateLimit, if_neg (not_not_intro hproto), getFlow_eq]
  split <;> exact Function.update_self ..

theorem verdict_cases {P : Params} {T : FlowTable} {i : Slot} {a : Arrival}
    (h : a.lands i = true) : ∃ flow', Accounted P a.jiffies a.skb.payloadLen
      (claimed a.skb (T i)) (verdictOf P (T, a)) flow' := by
  rw [verdictOf_hit h]
  exact ⟨_, account_cases ..⟩

theorem rateLimit_hit {P : Params} {T : FlowTable} {i : Slot} {a : Arrival}
    (h : a.lands i = true) (hfin : a.skb.tcph.fin = false) :
    Accounted P a.jiffies a.skb.payloadLen (claimed a.skb (T i))
      (verdictOf P (T, a)) ((rateLimit P a.jiffies T a.skb).table i) := by
  rw [verdictOf_hit h, rateLimit_slot h, hfin]
  exact account_cases ..

end Lim

end Comp4511
