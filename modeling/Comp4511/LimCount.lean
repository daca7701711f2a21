import Mathlib.Data.List.DropRight
import Comp4511.LimRate

/-!
# The books of the limiter

What the four counters of a slot hold, over any history from module
init: the packets with payload that landed on the slot since its last
FIN, split by the verdict they got, and their bytes. The counters are 32
bits wide, so each equation is one of `UInt32`: the number in the
history is taken modulo `2 ^ 32`.

`Booked` is the invariant, indexed by the packets since the last reset;
`Booked.count` carries it over one packet, case by case of `Accounted`,
and `booked_of_run` over a history.
-/

namespace Comp4511

namespace Lim

/-- `rate_limit_init_module`: every slot is reset, each at the `jiffies`
of its own turn of the loop; `err` is what `nf_register_net_hook`
returns. -/
def rateLimitInitModule (jiffies : Slot → UInt64) (err : Int32) : FlowTable × Int32 :=
  (fun i => resetFlow (jiffies i), if err < 0 then err else 0)

/-- The packets for slot `i` after the last FIN among them. -/
def sinceReset (i : Slot) (h : List Entry) : List Entry :=
  (hits i h).rtakeWhile fun x => !x.2.skb.tcph.fin

/-- The packet of an entry has payload. -/
def carriesPayload (x : Entry) : Bool :=
  x.2.skb.payloadLen ≠ 0

/-- The packets with payload among `l` that got verdict `v`. -/
def judged (P : Params) (v : Verdict) (l : List Entry) : List Entry :=
  l.filter fun x => carriesPayload x && verdictOf P x = v

/-- The payload bytes of a list of packets. -/
def payloadBytes (l : List Entry) : Nat :=
  (l.map fun x => x.2.skb.payloadLen.toNat).sum

/-- The flow a packet on slot `i` leaves before a FIN resets it. -/
def countedFlow (P : Params) (i : Slot) (x : Entry) : MyFlow :=
  (account P x.2.jiffies x.2.skb.payloadLen (claimed x.2.skb (x.1 i))).2

/-- A flow without its tuple: the counters and the times. -/
def MyFlow.counters (flow : MyFlow) : MyFlow :=
  { flow with saddr := 0, daddr := 0, sport := 0, dport := 0 }

theorem judged_append (P : Params) (v : Verdict) (l l' : List Entry) :
    judged P v (l ++ l') = judged P v l ++ judged P v l' :=
  List.filter_append ..

/-- Every packet with payload got one of the two verdicts. -/
theorem length_judged_add (P : Params) (l : List Entry) :
    (judged P .accept l).length + (judged P .drop l).length = l.countP carriesPayload := by
  induction l with
  | nil => rfl
  | cons x l ih =>
      rw [judged, judged, List.filter_cons, List.filter_cons, List.countP_cons]
      rw [judged, judged] at ih
      cases hp : carriesPayload x with
      | false => simpa using ih
      | true =>
          cases hv : verdictOf P x with
          | accept => simp at ih ⊢; omega
          | drop => simp at ih ⊢; omega

theorem payloadBytes_judged_add (P : Params) (l : List Entry) :
    payloadBytes (judged P .accept l) + payloadBytes (judged P .drop l) = payloadBytes l := by
  induction l with
  | nil => rfl
  | cons x l ih =>
      -- a packet without payload adds nothing on either side
      have hnone : carriesPayload x = false → x.2.skb.payloadLen.toNat = 0 := by
        intro hp
        have hlen : x.2.skb.payloadLen = 0 := by simpa [carriesPayload] using hp
        rw [hlen]
        rfl
      rw [judged, judged, List.filter_cons, List.filter_cons]
      rw [judged, judged] at ih
      cases hp : carriesPayload x with
      | false => simpa [payloadBytes, hnone hp] using ih
      | true =>
          cases hv : verdictOf P x with
          | accept => simp [payloadBytes] at ih ⊢; omega
          | drop => simp [payloadBytes] at ih ⊢; omega

/-! ## One packet -/

/-- What a packet with payload adds to the counters: one of the two
pairs moves, the one its verdict names. -/
structure Charged (v : Verdict) (len : UInt32) (flow flow' : MyFlow) : Prop where
  pkt : flow'.pktCount = flow.pktCount + if v = .accept then 1 else 0
  drop : flow'.dropCount = flow.dropCount + if v = .drop then 1 else 0
  byte : flow'.byteCount = flow.byteCount + if v = .accept then len else 0
  byteDrop : flow'.byteDropCount = flow.byteDropCount + if v = .drop then len else 0

theorem claimed_eq_counters (skb : SkBuff) (flow : MyFlow) :
    (claimed skb flow).counters = flow.counters := by
  obtain ⟨_, _, _, _, h⟩ := claimed_counters skb flow
  rw [h]
  rfl

theorem Accounted.charged {P : Params} {jiffies : UInt64} {len : UInt32} {flow flow' : MyFlow}
    {v : Verdict} (h : Accounted P jiffies len flow v flow') (hlen : len ≠ 0) :
    Charged v len flow flow' := by
  cases h with
  | idle hzero => exact absurd hzero hlen
  | free _ _ => exact ⟨rfl, (UInt32.add_zero _).symm, rfl, (UInt32.add_zero _).symm⟩
  | dropped _ _ _ => exact ⟨(UInt32.add_zero _).symm, rfl, (UInt32.add_zero _).symm, rfl⟩
  | passed _ _ _ => exact ⟨rfl, (UInt32.add_zero _).symm, rfl, (UInt32.add_zero _).symm⟩

/-- Claiming a slot does not change what is added to it. -/
theorem Charged.of_claimed {v : Verdict} {len : UInt32} {skb : SkBuff} {flow flow' : MyFlow}
    (h : Charged v len (claimed skb flow) flow') : Charged v len flow flow' := by
  obtain ⟨_, _, _, _, hclaim⟩ := claimed_counters skb flow
  rw [hclaim] at h
  exact ⟨h.pkt, h.drop, h.byte, h.byteDrop⟩

section Packet

variable {P : Params} {i : Slot} {T : FlowTable} {a : Arrival}

theorem charged_hit (hland : a.lands i = true) (hlen : a.skb.payloadLen ≠ 0) :
    Charged (verdictOf P (T, a)) a.skb.payloadLen (T i) (countedFlow P i (T, a)) := by
  rw [verdictOf_hit hland]
  exact ((account_cases ..).charged hlen).of_claimed

/-- A packet with payload is counted as dropped exactly when it is. -/
theorem countedFlow_dropped_iff (hland : a.lands i = true) (hlen : a.skb.payloadLen ≠ 0) :
    (countedFlow P i (T, a)).dropCount = (T i).dropCount + 1
      ↔ verdictOf P (T, a) = .drop := by
  have hdrop := (charged_hit (P := P) (T := T) hland hlen).drop
  constructor
  · intro hcount
    cases hv : verdictOf P (T, a) with
    | drop => rfl
    | accept =>
        rw [hcount, hv, if_neg (by decide)] at hdrop
        exact absurd (UInt32.add_right_inj _ |>.mp hdrop) (by decide)
  · intro hv
    rw [hdrop, hv]
    rfl

/-- Without payload `account` does nothing. -/
theorem account_idle (P : Params) (jiffies : UInt64) (flow : MyFlow) :
    account P jiffies 0 flow = (.accept, flow) := if_pos rfl

theorem countedFlow_idle (hlen : a.skb.payloadLen = 0) :
    countedFlow P i (T, a) = claimed a.skb (T i) := by
  rw [countedFlow, hlen, account_idle]

/-- A packet without payload, TCP or not, is accepted. -/
theorem verdictOf_idle (h : a.skb.iph.protocol ≠ ipprotoTcp ∨ a.skb.payloadLen = 0) :
    verdictOf P (T, a) = .accept := by
  by_cases hproto : a.skb.iph.protocol = ipprotoTcp
  · have hland : a.lands a.skb.slot = true := lands_iff.mpr ⟨hproto, rfl⟩
    have hlen : a.skb.payloadLen = 0 := h.resolve_left (not_not_intro hproto)
    rw [verdictOf_hit hland, hlen, account_idle]
  · rw [verdictOf, rateLimit, if_pos hproto]

/-- It changes no counter, unless it is a FIN that resets the slot. -/
theorem counters_idle (h : a.skb.iph.protocol ≠ ipprotoTcp ∨ a.skb.payloadLen = 0) (j : Slot) :
    (rateLimit P a.jiffies T a.skb).table j = resetFlow a.jiffies ∧
        a.lands j = true ∧ a.skb.tcph.fin = true ∨
      ((rateLimit P a.jiffies T a.skb).table j).counters = (T j).counters := by
  by_cases hland : a.lands j = true
  · have hlen : a.skb.payloadLen = 0 := h.resolve_left (not_not_intro (lands_iff.mp hland).1)
    rw [rateLimit_slot hland, hlen, account_idle]
    cases hfin : a.skb.tcph.fin with
    | true => exact .inl ⟨rfl, hland, rfl⟩
    | false => exact .inr (claimed_eq_counters ..)
  · rw [rateLimit_other hland]
    exact .inr rfl

/-- A packet changes its own slot only. -/
theorem rateLimit_frame {j : Slot} (hj : j ≠ a.skb.slot) :
    (rateLimit P a.jiffies T a.skb).table j = T j :=
  rateLimit_other fun hland => hj (lands_iff.mp hland).2.symm

end Packet

/-! ## Histories -/

/-- The counters of a slot after the packets `l` since its last reset. -/
structure Booked (P : Params) (l : List Entry) (flow : MyFlow) : Prop where
  pkt : flow.pktCount = UInt32.ofNat (judged P .accept l).length
  drop : flow.dropCount = UInt32.ofNat (judged P .drop l).length
  byte : flow.byteCount = UInt32.ofNat (payloadBytes (judged P .accept l))
  byteDrop : flow.byteDropCount = UInt32.ofNat (payloadBytes (judged P .drop l))

theorem Booked.reset (P : Params) (jiffies : UInt64) : Booked P [] (resetFlow jiffies) :=
  ⟨rfl, rfl, rfl, rfl⟩

theorem Booked.of_counters {P : Params} {l : List Entry} {flow flow' : MyFlow}
    (hb : Booked P l flow) (h : flow'.counters = flow.counters) : Booked P l flow' :=
  ⟨(congrArg MyFlow.pktCount h).trans hb.pkt, (congrArg MyFlow.dropCount h).trans hb.drop,
    (congrArg MyFlow.byteCount h).trans hb.byte,
    (congrArg MyFlow.byteDropCount h).trans hb.byteDrop⟩

theorem judged_single_idle {P : Params} {x : Entry} (hlen : x.2.skb.payloadLen = 0)
    (v : Verdict) : judged P v [x] = [] := by
  simp [judged, carriesPayload, hlen]

theorem judged_single {P : Params} {x : Entry} (hlen : x.2.skb.payloadLen ≠ 0) (v : Verdict) :
    judged P v [x] = if verdictOf P x = v then [x] else [] := by
  simp [judged, carriesPayload, hlen, List.filter_cons]

/-- One more packet since the reset. -/
theorem Booked.count {P : Params} {i : Slot} {T : FlowTable} {a : Arrival} {l : List Entry}
    (hland : a.lands i = true) (hb : Booked P l (T i)) :
    Booked P (l ++ [(T, a)]) (countedFlow P i (T, a)) := by
  by_cases hlen : a.skb.payloadLen = 0
  · rw [countedFlow_idle hlen]
    have hb' := hb.of_counters (claimed_eq_counters a.skb (T i))
    obtain ⟨hpkt, hdrop, hbyte, hbyteDrop⟩ := hb'
    constructor <;>
      simpa only [judged_append, judged_single_idle (x := (T, a)) hlen, List.append_nil]
  · obtain ⟨hpkt, hdrop, hbyte, hbyteDrop⟩ := charged_hit (P := P) (T := T) hland hlen
    have hlast := fun v => judged_single (P := P) (x := (T, a)) hlen v
    generalize verdictOf P (T, a) = w at hpkt hdrop hbyte hbyteDrop hlast
    generalize countedFlow P i (T, a) = flow' at hpkt hdrop hbyte hbyteDrop ⊢
    constructor
    · rw [hpkt, hb.pkt, judged_append, hlast]
      cases w <;> simp
    · rw [hdrop, hb.drop, judged_append, hlast]
      cases w <;> simp
    · rw [hbyte, hb.byte, judged_append, hlast]
      cases w <;> simp [payloadBytes]
    · rw [hbyteDrop, hb.byteDrop, judged_append, hlast]
      cases w <;> simp [payloadBytes]

theorem sinceReset_append_other {i : Slot} {x : Entry} (hx : ¬ x.2.lands i = true)
    (h : List Entry) : sinceReset i (h ++ [x]) = sinceReset i h := by
  have hnone : hits i [x] = [] := by simp [hits, hx]
  rw [sinceReset, hits_append, hnone, List.append_nil]
  rfl

theorem sinceReset_append_hit {i : Slot} {x : Entry} (hx : x.2.lands i = true) (h : List Entry) :
    sinceReset i (h ++ [x]) = if x.2.skb.tcph.fin then [] else sinceReset i h ++ [x] := by
  have hone : hits i [x] = [x] := hits_cons_of_lands hx []
  rw [sinceReset, hits_append, hone, List.rtakeWhile_concat]
  cases x.2.skb.tcph.fin <;> rfl

/-- The books of every slot are right after every history. -/
theorem booked_of_run {P : Params} {jiffies : Slot → UInt64} {err : Int32} {h : List Entry}
    {T : FlowTable} (hrun : Lts.Run (step P) (rateLimitInitModule jiffies err).1 h T) (i : Slot) :
    Booked P (sinceReset i h) (T i) := by
  refine hrun.inv_history (I := fun h T => Booked P (sinceReset i h) (T i)) ?_
    (Booked.reset P (jiffies i))
  intro h T a T' hb hstep
  obtain rfl : (rateLimit P a.jiffies T a.skb).table = T' := Option.some.inj hstep
  by_cases hland : a.lands i = true
  · rw [sinceReset_append_hit hland, rateLimit_slot hland]
    cases hfin : a.skb.tcph.fin with
    | true => exact Booked.reset P a.jiffies
    | false => exact hb.count hland
  · rw [sinceReset_append_other hland, rateLimit_other hland]
    exact hb

/-! ## The stored tuple -/

/-- The tuple of a flow is all zero, or hashes to slot `i`. -/
def Placed (i : Slot) (flow : MyFlow) : Prop :=
  (flow.saddr = 0 ∧ flow.daddr = 0 ∧ flow.sport = 0 ∧ flow.dport = 0) ∨
    (hash flow.saddr flow.daddr flow.sport flow.dport).toNat = i.val

theorem Placed.claimed {i : Slot} {flow : MyFlow} {skb : SkBuff} (hp : Placed i flow)
    (hslot : skb.slot = i) : Placed i (claimed skb flow) := by
  unfold Lim.claimed
  split
  · exact .inr (congrArg Fin.val hslot)
  · exact hp

/-- Counting a packet keeps the tuple. -/
theorem Placed.accounted {P : Params} {jiffies : UInt64} {len : UInt32} {flow flow' : MyFlow}
    {v : Verdict} {i : Slot} (h : Accounted P jiffies len flow v flow') (hp : Placed i flow) :
    Placed i flow' := by
  cases h <;> exact hp

theorem placed_of_run {P : Params} {jiffies : Slot → UInt64} {err : Int32} {h : List Entry}
    {T : FlowTable} (hrun : Lts.Run (step P) (rateLimitInitModule jiffies err).1 h T) (i : Slot) :
    Placed i (T i) := by
  refine hrun.inv (I := fun T => Placed i (T i)) ?_ (.inl ⟨rfl, rfl, rfl, rfl⟩)
  intro T a T' hp hstep
  obtain rfl : (rateLimit P a.jiffies T a.skb).table = T' := Option.some.inj hstep
  by_cases hland : a.lands i = true
  · rw [rateLimit_slot hland]
    split
    · exact .inl ⟨rfl, rfl, rfl, rfl⟩
    · exact Placed.accounted (account_cases ..) (hp.claimed (lands_iff.mp hland).2)
  · rw [rateLimit_other hland]
    exact hp

/-! ## The statement -/

/-- The books of slot `i` after a history from module init: the two
pairs of counters against the packets with payload since the last FIN;
what a packet's verdict says about its count; what a packet without
payload does; the frame of a packet; and the stored tuple. -/
theorem limiter_bookkeeping {P : Params} {jiffies : Slot → UInt64} {err : Int32}
    {h : List Entry} {T : FlowTable}
    (hrun : Lts.Run (step P) (rateLimitInitModule jiffies err).1 h T) (i : Slot) :
    ((T i).pktCount + (T i).dropCount
        = UInt32.ofNat ((sinceReset i h).countP carriesPayload) ∧
      (T i).byteCount + (T i).byteDropCount = UInt32.ofNat (payloadBytes (sinceReset i h))) ∧
    ((T i).dropCount = UInt32.ofNat (judged P .drop (sinceReset i h)).length ∧
      ∀ a : Arrival, a.lands i = true → a.skb.payloadLen ≠ 0 →
        ((countedFlow P i (T, a)).dropCount = (T i).dropCount + 1
          ↔ verdictOf P (T, a) = .drop)) ∧
    (∀ a : Arrival, a.skb.iph.protocol ≠ ipprotoTcp ∨ a.skb.payloadLen = 0 →
      verdictOf P (T, a) = .accept ∧
      ((rateLimit P a.jiffies T a.skb).table i = resetFlow a.jiffies ∧
          a.lands i = true ∧ a.skb.tcph.fin = true ∨
        ((rateLimit P a.jiffies T a.skb).table i).counters = (T i).counters)) ∧
    (∀ a : Arrival, i ≠ a.skb.slot → (rateLimit P a.jiffies T a.skb).table i = T i) ∧
    (∀ saddr daddr sport dport, (hash saddr daddr sport dport).toNat < 4096) ∧
    (¬ ((T i).saddr = 0 ∧ (T i).daddr = 0 ∧ (T i).sport = 0 ∧ (T i).dport = 0) →
      (hash (T i).saddr (T i).daddr (T i).sport (T i).dport).toNat = i.val) := by
  obtain ⟨hpkt, hdrop, hbyte, hbyteDrop⟩ := booked_of_run hrun i
  refine ⟨⟨?_, ?_⟩, ⟨hdrop, ?_⟩, ?_, ?_, hash_lt, ?_⟩
  · rw [hpkt, hdrop, ← UInt32.ofNat_add, length_judged_add]
  · rw [hbyte, hbyteDrop, ← UInt32.ofNat_add, payloadBytes_judged_add]
  · intro a hland hlen
    exact countedFlow_dropped_iff hland hlen
  · intro a hidle
    exact ⟨verdictOf_idle hidle, counters_idle hidle i⟩
  · intro a hi
    exact rateLimit_frame hi
  · intro hused
    exact (placed_of_run hrun i).resolve_left hused

theorem limiter_bookkeeping_sample :
    ∃ T : FlowTable, Lts.exec (step smallLimiter) (rateLimitInitModule (fun _ => 0) 0).1
        (sampleTraffic.take 5) = some T ∧
      (T (tcpPacket 1 0 false).slot).pktCount + (T (tcpPacket 1 0 false).slot).dropCount = 4 ∧
      (T (tcpPacket 1 0 false).slot).byteCount + (T (tcpPacket 1 0 false).slot).byteDropCount
        = 220 := by
  obtain ⟨T, hT⟩ : ∃ T, Lts.exec (step smallLimiter) (rateLimitInitModule (fun _ => 0) 0).1
      (sampleTraffic.take 5) = some T := ⟨_, rfl⟩
  have hbooks := limiter_bookkeeping (Lts.exec_run hT) (tcpPacket 1 0 false).slot
  refine ⟨T, hT, hbooks.1.1.trans ?_, hbooks.1.2.trans ?_⟩
  · decide +kernel
  · decide +kernel

end Lim

end Comp4511
