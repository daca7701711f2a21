import Mathlib.Data.List.Forall2
import Comp4511.LimIsolate

/-!
# The limiter and its clock

The hook reads `jiffies`, an `unsigned long` that starts anywhere and
wraps. Of the times it keeps, only differences enter a verdict, so the
origin of the clock does not matter: a second history, with all packets
`d` later, gets the same verdicts and the same counts at a FIN, wherever
the two clocks wrap (`verdicts_later`). The time printed at a FIN is the
same as well, as long as no clock shows zero, which `start` takes for
"no payload yet".

A slot that a FIN has reset keeps nothing of what was before but the time
of the FIN, so it is as good as a slot of a fresh module (`fin_forgets`).

`Apart d` relates two flows whose times are `d` apart; it is what one
packet preserves.
-/

namespace Comp4511

namespace Lim

/-! ## Later packets -/

/-- The packet, `d` later. -/
def Arrival.later (d : UInt64) (a : Arrival) : Arrival :=
  { a with jiffies := a.jiffies + d }

def View.later (d : UInt64) (v : View) : View :=
  { v with jiffies := v.jiffies + d }

/-- What the hook prints at an entry, if it is a FIN. -/
def finishOf (P : Params) (x : Entry) : Option Finish :=
  (rateLimit P x.2.jiffies x.1 x.2.skb).finish

/-- The counts among it. -/
def Finish.counts (f : Finish) : Int32 × Int32 × Int32 := (f.rate, f.accepted, f.dropped)

/-- The flow of the packet has a payload, of this packet or of an earlier
one. -/
def Carried (x : Entry) : Prop := (x.1 x.2.skb.slot).start ≠ 0 ∨ x.2.skb.payloadLen ≠ 0

/-! ## Flows whose times are apart -/

/-- The counters are the same, the times `d` apart. -/
structure Apart (d : UInt64) (flow flow' : MyFlow) : Prop where
  pktCount : flow'.pktCount = flow.pktCount
  dropCount : flow'.dropCount = flow.dropCount
  byteCount : flow'.byteCount = flow.byteCount
  byteDropCount : flow'.byteDropCount = flow.byteDropCount
  byte : flow'.byte = flow.byte
  time : flow'.time = flow.time + d

/-- The same for the time of the first payload. -/
def StartApart (d : UInt64) (flow flow' : MyFlow) : Prop :=
  (flow.start = 0 ∧ flow'.start = 0)
    ∨ (flow.start ≠ 0 ∧ flow'.start ≠ 0 ∧ flow'.start = flow.start + d)

section Apart

variable {P : Params} {d : UInt64} {flow flow' : MyFlow}

theorem apart_reset (jiffies d : UInt64) :
    Apart d (resetFlow jiffies) (resetFlow (jiffies + d)) :=
  ⟨rfl, rfl, rfl, rfl, rfl, rfl⟩

theorem claimed_apart (h : Apart d flow flow') (skb : SkBuff) :
    Apart d (claimed skb flow) (claimed skb flow') := by
  obtain ⟨_, _, _, _, heq⟩ := claimed_counters skb flow
  obtain ⟨_, _, _, _, heq'⟩ := claimed_counters skb flow'
  rw [heq, heq']
  exact ⟨h.pktCount, h.dropCount, h.byteCount, h.byteDropCount, h.byte, h.time⟩

theorem claimed_start (skb : SkBuff) (flow : MyFlow) : (claimed skb flow).start = flow.start := by
  obtain ⟨_, _, _, _, heq⟩ := claimed_counters skb flow
  rw [heq]

/-- A difference of times does not see the origin. -/
theorem elapsedMs_later (P : Params) (j t d : UInt64) :
    elapsedMs P (j + d) (t + d) = elapsedMs P j t := by
  have hsub : (j + d) - (t + d) = j - t := by grind
  rw [elapsedMs, hsub, elapsedMs]

theorem overRate_later (h : Apart d flow flow') (jiffies : UInt64) :
    overRate P (jiffies + d) flow' ↔ overRate P jiffies flow := by
  unfold overRate
  rw [h.byteCount, h.byte, h.time, elapsedMs_later]

/-- The two flows take the same way through `account`. -/
theorem account_apart (h : Apart d flow flow') (jiffies : UInt64) (len : UInt32) :
    (account P (jiffies + d) len flow').1 = (account P jiffies len flow).1
      ∧ Apart d (account P jiffies len flow).2 (account P (jiffies + d) len flow').2 := by
  have hbytes := h.byteCount
  have hover := overRate_later (P := P) h jiffies
  have hone := account_cases P jiffies len flow
  have htwo := account_cases P (jiffies + d) len flow'
  generalize (account P jiffies len flow).1 = v at *
  generalize (account P (jiffies + d) len flow').1 = v' at *
  generalize (account P jiffies len flow).2 = r at *
  generalize (account P (jiffies + d) len flow').2 = r' at *
  cases hone with
  | idle hlen =>
      cases htwo with
      | idle => exact ⟨rfl, h⟩
      | free hlen' | dropped hlen' | passed hlen' => exact absurd hlen hlen'
  | free hlen hfree =>
      cases htwo with
      | idle hlen' => exact absurd hlen' hlen
      | free =>
          refine ⟨rfl, ?_, h.dropCount, ?_, h.byteDropCount, ?_, rfl⟩
          · exact congrArg (· + 1) h.pktCount
          · exact congrArg (· + len) h.byteCount
          · exact congrArg (· + len.toUInt64) h.byte
      | dropped _ hfree' | passed _ hfree' => exact absurd (hbytes ▸ hfree) hfree'
  | dropped hlen hfree hov =>
      cases htwo with
      | idle hlen' => exact absurd hlen' hlen
      | free _ hfree' => exact absurd (hbytes ▸ hfree') hfree
      | dropped =>
          refine ⟨rfl, h.pktCount, ?_, h.byteCount, ?_, h.byte, h.time⟩
          · exact congrArg (· + 1) h.dropCount
          · exact congrArg (· + len) h.byteDropCount
      | passed _ _ hov' => exact absurd (hover.mpr hov) hov'
  | passed hlen hfree hov =>
      cases htwo with
      | idle hlen' => exact absurd hlen' hlen
      | free _ hfree' => exact absurd (hbytes ▸ hfree') hfree
      | dropped _ _ hov' => exact absurd (hover.mp hov') hov
      | passed =>
          refine ⟨rfl, ?_, h.dropCount, ?_, h.byteDropCount, h.byte, h.time⟩
          · exact congrArg (· + 1) h.pktCount
          · exact congrArg (· + len) h.byteCount

/-- `account` sets the time of the first payload. -/
theorem account_start (P : Params) (jiffies : UInt64) (len : UInt32) (flow : MyFlow) :
    (account P jiffies len flow).2.start =
      if len = 0 then flow.start else startAt jiffies flow := by
  have hcases := account_cases P jiffies len flow
  generalize (account P jiffies len flow).1 = v at hcases
  generalize (account P jiffies len flow).2 = r at *
  cases hcases with
  | idle hlen => rw [if_pos hlen]
  | free hlen | dropped hlen | passed hlen => rw [if_neg hlen]

/-- With no clock at zero the first payloads are apart as well. -/
theorem account_startApart (h : StartApart d flow flow') {jiffies : UInt64} (hj : jiffies ≠ 0)
    (hj' : jiffies + d ≠ 0) (len : UInt32) :
    StartApart d (account P jiffies len flow).2 (account P (jiffies + d) len flow').2 := by
  unfold StartApart
  rw [account_start, account_start]
  by_cases hlen : len = 0
  · rwa [if_pos hlen, if_pos hlen]
  · rw [if_neg hlen, if_neg hlen]
    unfold startAt
    rcases h with ⟨hs, hs'⟩ | ⟨hs, hs', heq⟩
    · rw [if_pos hs, if_pos hs']
      exact Or.inr ⟨hj, hj', rfl⟩
    · rw [if_neg hs, if_neg hs']
      exact Or.inr ⟨hs, hs', heq⟩

end Apart

/-! ## Two histories -/

/-- The two tables hold flows whose times are `d` apart. -/
def TablesApart (d : UInt64) (T T' : FlowTable) : Prop := ∀ i, Apart d (T i) (T' i)

theorem apart_init (jiffies : Slot → UInt64) (d : UInt64) (err : Int32) :
    TablesApart d (rateLimitInitModule jiffies err).1
      (rateLimitInitModule (fun i => jiffies i + d) err).1 :=
  fun i => apart_reset (jiffies i) d

section Later

variable {P : Params} {d : UInt64} {T T' : FlowTable}

/-- One packet keeps a slot of the two tables apart. -/
theorem rateLimit_apart {i : Slot} (h : Apart d (T i) (T' i)) (a : Arrival) :
    Apart d ((rateLimit P a.jiffies T a.skb).table i)
      ((rateLimit P (a.jiffies + d) T' a.skb).table i) := by
  by_cases hland : a.lands i = true
  · have htable : (rateLimit P (a.jiffies + d) T' a.skb).table i =
        if a.skb.tcph.fin then resetFlow (a.jiffies + d)
        else (account P (a.jiffies + d) a.skb.payloadLen (claimed a.skb (T' i))).2 :=
      rateLimit_slot (a := a.later d) hland
    rw [rateLimit_slot hland, htable]
    by_cases hfin : a.skb.tcph.fin = true
    · rw [if_pos hfin, if_pos hfin]
      exact apart_reset a.jiffies d
    · rw [if_neg hfin, if_neg hfin]
      exact (account_apart (claimed_apart h a.skb) a.jiffies a.skb.payloadLen).2
  · have hother' : (rateLimit P (a.jiffies + d) T' a.skb).table i = T' i :=
      rateLimit_other (a := a.later d) hland
    rw [rateLimit_other hland, hother']
    exact h

/-- The verdict on a packet that is no TCP packet. -/
theorem verdictOf_other {a : Arrival} (h : a.skb.iph.protocol ≠ ipprotoTcp) :
    verdictOf P (T, a) = .accept := by
  simp only [verdictOf, rateLimit, if_pos h]

theorem finishOf_other {a : Arrival} (h : a.skb.iph.protocol ≠ ipprotoTcp) :
    finishOf P (T, a) = none := by
  simp only [finishOf, rateLimit, if_pos h]

/-- What is printed comes from the counted flow. -/
theorem finishOf_hit {a : Arrival} (h : a.skb.iph.protocol = ipprotoTcp) :
    finishOf P (T, a) =
      if a.skb.tcph.fin then
        some {
          rate := P.rate
          t := (elapsedMs P a.jiffies (countedFlow P a.skb.slot (T, a)).start).toInt64
          accepted := (countedFlow P a.skb.slot (T, a)).byteCount.toInt32
          dropped := (countedFlow P a.skb.slot (T, a)).byteDropCount.toInt32 }
      else none := by
  simp only [finishOf, rateLimit, if_neg (not_not_intro h), getFlow_eq, countedFlow]
  split <;> rfl

theorem counted_apart (h : TablesApart d T T') (a : Arrival) (i : Slot) :
    Apart d (countedFlow P i (T, a)) (countedFlow P i (T', a.later d)) :=
  (account_apart (claimed_apart (h i) a.skb) a.jiffies a.skb.payloadLen).2

theorem verdictOf_later (h : TablesApart d T T') (a : Arrival) :
    verdictOf P (T', a.later d) = verdictOf P (T, a) := by
  by_cases hproto : a.skb.iph.protocol = ipprotoTcp
  · have hland : a.lands a.skb.slot = true := lands_iff.mpr ⟨hproto, rfl⟩
    have hlater : verdictOf P (T', a.later d) =
        (account P (a.jiffies + d) a.skb.payloadLen (claimed a.skb (T' a.skb.slot))).1 :=
      verdictOf_hit (a := a.later d) hland
    rw [hlater, verdictOf_hit hland]
    exact (account_apart (claimed_apart (h _) a.skb) a.jiffies a.skb.payloadLen).1
  · rw [verdictOf_other hproto, verdictOf_other (a := a.later d) hproto]

theorem counts_later (h : TablesApart d T T') (a : Arrival) :
    (finishOf P (T', a.later d)).map Finish.counts
      = (finishOf P (T, a)).map Finish.counts := by
  by_cases hproto : a.skb.iph.protocol = ipprotoTcp
  · have hcount := counted_apart (P := P) h a a.skb.slot
    have hlater := finishOf_hit (P := P) (T := T') (a := a.later d) hproto
    rw [hlater, finishOf_hit hproto]
    change (if a.skb.tcph.fin then _ else _ : Option Finish).map _ = _
    by_cases hfin : a.skb.tcph.fin = true
    · rw [if_pos hfin, if_pos hfin]
      simp only [Option.map_some, Finish.counts]
      rw [show (a.later d).skb = a.skb from rfl, hcount.byteCount, hcount.byteDropCount]
    · rw [if_neg hfin, if_neg hfin]
  · rw [finishOf_other hproto, finishOf_other (a := a.later d) hproto]

theorem counted_startApart {i : Slot} (h : StartApart d (T i) (T' i)) {a : Arrival}
    (hj : a.jiffies ≠ 0) (hj' : a.jiffies + d ≠ 0) :
    StartApart d (countedFlow P i (T, a)) (countedFlow P i (T', a.later d)) := by
  refine account_startApart ?_ hj hj' a.skb.payloadLen
  unfold StartApart
  rw [claimed_start, claimed_start]
  exact h

/-- Away from zero a packet keeps the first payloads apart. -/
theorem rateLimit_startApart {i : Slot} (h : StartApart d (T i) (T' i)) {a : Arrival}
    (hj : a.jiffies ≠ 0) (hj' : a.jiffies + d ≠ 0) :
    StartApart d ((rateLimit P a.jiffies T a.skb).table i)
      ((rateLimit P (a.jiffies + d) T' a.skb).table i) := by
  by_cases hland : a.lands i = true
  · have htable : (rateLimit P (a.jiffies + d) T' a.skb).table i =
        if a.skb.tcph.fin then resetFlow (a.jiffies + d) else countedFlow P i (T', a.later d) :=
      rateLimit_slot (a := a.later d) hland
    rw [rateLimit_slot hland, htable]
    by_cases hfin : a.skb.tcph.fin = true
    · rw [if_pos hfin, if_pos hfin]
      exact Or.inl ⟨rfl, rfl⟩
    · rw [if_neg hfin, if_neg hfin]
      exact counted_startApart h hj hj'
  · have hother' : (rateLimit P (a.jiffies + d) T' a.skb).table i = T' i :=
      rateLimit_other (a := a.later d) hland
    rw [rateLimit_other hland, hother']
    exact h

/-- A FIN of a flow with payload prints the same line. -/
theorem finishOf_later (h : TablesApart d T T') {a : Arrival}
    (hstart : StartApart d (T a.skb.slot) (T' a.skb.slot)) (hj : a.jiffies ≠ 0)
    (hj' : a.jiffies + d ≠ 0) (hcarried : Carried (T, a)) :
    finishOf P (T', a.later d) = finishOf P (T, a) := by
  by_cases hproto : a.skb.iph.protocol = ipprotoTcp
  · have hcount := counted_apart (P := P) h a a.skb.slot
    have hset : (countedFlow P a.skb.slot (T, a)).start ≠ 0 := by
      rw [countedFlow, account_start, claimed_start]
      split_ifs with hlen
      · exact hcarried.resolve_right (not_not_intro hlen)
      · rw [startAt, claimed_start]
        split_ifs with hzero
        · exact hj
        · exact hzero
    obtain ⟨hzero, -⟩ | ⟨-, -, hboth⟩ := counted_startApart (P := P) hstart hj hj'
    · exact absurd hzero hset
    · have hlater := finishOf_hit (P := P) (T := T') (a := a.later d) hproto
      have htime : elapsedMs P (a.later d).jiffies
            (countedFlow P (a.later d).skb.slot (T', a.later d)).start =
          elapsedMs P a.jiffies (countedFlow P a.skb.slot (T, a)).start := by
        rw [show (a.later d).skb = a.skb from rfl, hboth]
        exact elapsedMs_later ..
      rw [hlater, finishOf_hit hproto, htime]
      rw [show (a.later d).skb = a.skb from rfl, hcount.byteCount, hcount.byteDropCount]
  · rw [finishOf_other hproto, finishOf_other (a := a.later d) hproto]

end Later

section Histories

variable {P : Params} {d : UInt64}

theorem trace_cons (P : Params) (T : FlowTable) (a : Arrival) (as : List Arrival) :
    Lts.trace (step P) T (a :: as) =
      (T, a) :: Lts.trace (step P) (rateLimit P a.jiffies T a.skb).table as := rfl

theorem trace_later {T T' : FlowTable} (h : TablesApart d T T') (as : List Arrival) :
    List.Forall₂ (fun x y => y.2 = x.2.later d ∧ verdictOf P y = verdictOf P x
        ∧ (finishOf P y).map Finish.counts = (finishOf P x).map Finish.counts)
      (Lts.trace (step P) T as) (Lts.trace (step P) T' (as.map (Arrival.later d))) := by
  induction as generalizing T T' with
  | nil => exact .nil
  | cons a as ih =>
      rw [List.map_cons, trace_cons, trace_cons]
      exact .cons ⟨rfl, verdictOf_later h a, counts_later h a⟩ (ih fun i => rateLimit_apart (h i) a)

theorem trace_finish {T T' : FlowTable} (h : TablesApart d T T')
    (hstart : ∀ i, StartApart d (T i) (T' i)) {as : List Arrival}
    (hzero : ∀ a ∈ as, a.jiffies ≠ 0 ∧ a.jiffies + d ≠ 0) :
    List.Forall₂ (fun x y => Carried x → finishOf P y = finishOf P x)
      (Lts.trace (step P) T as) (Lts.trace (step P) T' (as.map (Arrival.later d))) := by
  induction as generalizing T T' with
  | nil => exact .nil
  | cons a as ih =>
      obtain ⟨hj, hj'⟩ := hzero a (List.mem_cons_self ..)
      rw [List.map_cons, trace_cons, trace_cons]
      refine .cons (finishOf_later h (hstart _) hj hj') (ih (fun i => rateLimit_apart (h i) a)
        (fun i => rateLimit_startApart (hstart i) hj hj') fun b hb => ?_)
      exact hzero b (List.mem_cons_of_mem _ hb)

/-- From module init on, a history in which all is `d` later, on a clock
that wraps, gets the same verdicts and the same counts at its FINs; and
while neither clock shows zero, the same printed times at the FINs of slots
in which a payload has been counted since the last reset. -/
theorem verdicts_later (P : Params) (d : UInt64) (jiffies : Slot → UInt64) (err : Int32)
    (as : List Arrival) :
    List.Forall₂ (fun x y => y.2 = x.2.later d ∧ verdictOf P y = verdictOf P x
        ∧ (finishOf P y).map Finish.counts = (finishOf P x).map Finish.counts)
      (Lts.trace (step P) (rateLimitInitModule jiffies err).1 as)
      (Lts.trace (step P) (rateLimitInitModule (fun i => jiffies i + d) err).1
        (as.map (Arrival.later d)))
    ∧ ((∀ a ∈ as, a.jiffies ≠ 0 ∧ a.jiffies + d ≠ 0) →
      List.Forall₂ (fun x y => Carried x → finishOf P y = finishOf P x)
        (Lts.trace (step P) (rateLimitInitModule jiffies err).1 as)
        (Lts.trace (step P) (rateLimitInitModule (fun i => jiffies i + d) err).1
          (as.map (Arrival.later d)))) :=
  ⟨trace_later (apart_init jiffies d err) as,
    trace_finish (apart_init jiffies d err) fun _ => Or.inl ⟨rfl, rfl⟩⟩

/-! ## One slot -/

theorem replay_later {flow flow' : MyFlow} (h : Apart d flow flow') (vs : List View) :
    replay P flow' (vs.map (View.later d)) = replay P flow vs := by
  induction vs generalizing flow flow' with
  | nil => rfl
  | cons v vs ih =>
      obtain ⟨hverdict, hnext⟩ := account_apart (P := P) h v.jiffies v.payloadLen
      rw [List.map_cons, replay, replay]
      refine congrArg₂ List.cons hverdict (ih ?_)
      show Apart d (if v.fin then _ else _) (if v.fin then _ else _)
      cases v.fin with
      | true => exact apart_reset v.jiffies d
      | false => exact hnext

/-- The verdicts on the packets of a slot come from the slot alone. -/
theorem hits_verdicts (T : FlowTable) (i : Slot) (as : List Arrival) :
    (hits i (Lts.trace (step P) T as)).map (verdictOf P)
      = replay P (T i) ((as.filter fun a => a.lands i).map Arrival.view) := by
  induction as generalizing T with
  | nil => rfl
  | cons a as ih =>
      have ih := ih (rateLimit P a.jiffies T a.skb).table
      rw [trace_cons, hits, List.filter_cons, List.filter_cons]
      by_cases hland : a.lands i = true
      · have hclaim := account_congr P a.jiffies a.skb.payloadLen
          (claimed_eq_counters a.skb (T i))
        rw [if_pos hland, if_pos hland, List.map_cons, List.map_cons]
        change _ :: (hits i _).map _ = _
        rw [ih, rateLimit_slot hland, verdictOf_hit hland, hclaim.1, replay]
        refine congrArg _ (replay_congr ?_ _)
        show (if a.skb.tcph.fin then _ else _ : MyFlow).counters
          = (if a.skb.tcph.fin then _ else _ : MyFlow).counters
        cases a.skb.tcph.fin with
        | true => rfl
        | false => exact hclaim.2
      · rw [if_neg hland, if_neg hland]
        change (hits i _).map _ = _
        rw [ih, rateLimit_other hland]

/-- Behind a FIN the slot is as good as new: whatever was in the table,
the verdicts on what then lands on the slot are those a module that was
loaded `d` later gives to the same packets `d` later, whatever lands on
the other slots. -/
theorem fin_forgets (P : Params) (T : FlowTable) {i : Slot} {fin : Arrival}
    (hland : fin.lands i = true) (hfin : fin.skb.tcph.fin = true) (d : UInt64)
    {jiffies : Slot → UInt64} (hload : jiffies i = fin.jiffies + d) (err : Int32)
    {as bs : List Arrival}
    (hsame : (bs.filter fun b => b.lands i).map Arrival.view
      = ((as.filter fun a => a.lands i).map Arrival.view).map (View.later d)) :
    (hits i (Lts.trace (step P) (rateLimitInitModule jiffies err).1 bs)).map (verdictOf P)
      = (hits i (Lts.trace (step P) (rateLimit P fin.jiffies T fin.skb).table as)).map
        (verdictOf P) := by
  rw [hits_verdicts, hits_verdicts, hsame]
  refine replay_later ?_ _
  rw [rateLimit_slot hland, if_pos hfin]
  show Apart d _ (resetFlow (jiffies i))
  rw [hload]
  exact apart_reset fin.jiffies d

/-- A connection starts behind a FIN at 70; for the fresh module, loaded at
the top of its clock, that is the time at which the clock wraps. -/
theorem fin_forgets_wrap :
    (hits (tcpPacket 1 0 false).slot (Lts.trace (step smallLimiter)
        (rateLimitInitModule (fun _ => 70 + (0 - 72)) 0).1
        [⟨0, tcpPacket 1 120 false⟩, ⟨1, tcpPacket 1 50 false⟩])).map (verdictOf smallLimiter)
      = (hits (tcpPacket 1 0 false).slot (Lts.trace (step smallLimiter)
        (rateLimit smallLimiter 70 (fun _ => resetFlow 0) (tcpPacket 1 10 true)).table
        [⟨72, tcpPacket 1 120 false⟩, ⟨72, tcpPacket 2 5 false⟩, ⟨73, tcpPacket 1 50 false⟩])).map
        (verdictOf smallLimiter) :=
  have hland : (⟨70, tcpPacket 1 10 true⟩ : Arrival).lands (tcpPacket 1 0 false).slot = true := by
    decide
  fin_forgets smallLimiter (fun _ => resetFlow 0) hland rfl (0 - 72) rfl 0 (by decide)

end Histories

end Lim

end Comp4511
