import Comp4511.LimCount

/-!
# Isolation of flows

`get_flow` stores the tuple of the flow that claims a slot and never
compares it, so a slot is shared by every flow that hashes to it; the
hash is a product, symmetric in the two directions of a connection.

Two histories in which a flow `f` sends the same packets at the same
times give these packets the same verdicts as long as no other flow of
the traffic hashes to the slot of `f`: the verdicts are then a function
of what `f` sends (`verdicts_eq_replay`). If one does, it can fill the
slot until `f` is dropped, whatever the module parameters are
(`exists_saturated`). Hence the equivalence `flow_isolation_iff`, for
any set of flows the traffic may come from.
-/

namespace Comp4511

namespace Lim

/-! ## Flows and what they see -/

/-- A flow: the tuple of a packet, in network order. -/
structure Tuple where
  saddr : UInt32
  daddr : UInt32
  source : UInt16
  dest : UInt16
deriving Repr, DecidableEq

/-- The tuple of a packet. -/
def SkBuff.tuple (skb : SkBuff) : Tuple where
  saddr := skb.iph.saddr
  daddr := skb.iph.daddr
  source := skb.tcph.source
  dest := skb.tcph.dest

/-- The slot `get_flow` uses for a flow. -/
def Tuple.slot (f : Tuple) : Slot :=
  ⟨(hash f.saddr f.daddr (ntohs f.source) (ntohs f.dest)).toNat, hash_lt ..⟩

/-- The other direction of the connection. -/
def Tuple.reverse (f : Tuple) : Tuple where
  saddr := f.daddr
  daddr := f.saddr
  source := f.dest
  dest := f.source

/-- The packet is one of flow `f`. -/
def Arrival.ofFlow (f : Tuple) (a : Arrival) : Bool :=
  decide (a.skb.iph.protocol = ipprotoTcp ∧ a.skb.tuple = f)

/-- What the sender of a packet decides: when it arrives, its length and
its flag. -/
structure View where
  jiffies : UInt64
  payloadLen : UInt32
  fin : Bool
deriving Repr, DecidableEq

def Arrival.view (a : Arrival) : View where
  jiffies := a.jiffies
  payloadLen := a.skb.payloadLen
  fin := a.skb.tcph.fin

/-- What flow `f` sends in a list of packets. -/
def views (f : Tuple) (as : List Arrival) : List View :=
  (as.filter fun a => a.ofFlow f).map Arrival.view

/-- The verdicts on the packets of `f` when `as` arrives at table `T`. -/
def verdicts (P : Params) (T : FlowTable) (f : Tuple) (as : List Arrival) : List Verdict :=
  ((Lts.trace (step P) T as).filter fun x => x.2.ofFlow f).map (verdictOf P)

/-- In traffic of `f` and of flows in `G`, the verdicts on the packets of
`f` depend on what `f` sends only. -/
def Isolated (P : Params) (f : Tuple) (G : Tuple → Prop) : Prop :=
  ∀ (jiffies : Slot → UInt64) (err : Int32) (as bs : List Arrival),
    (∀ a ∈ as ++ bs, a.skb.iph.protocol = ipprotoTcp → a.skb.tuple = f ∨ G a.skb.tuple) →
    views f as = views f bs →
    verdicts P (rateLimitInitModule jiffies err).1 f as
      = verdicts P (rateLimitInitModule jiffies err).1 f bs

theorem ofFlow_iff {f : Tuple} {a : Arrival} :
    a.ofFlow f = true ↔ a.skb.iph.protocol = ipprotoTcp ∧ a.skb.tuple = f := by
  rw [Arrival.ofFlow, decide_eq_true_eq]

theorem ofFlow_lands {f : Tuple} {a : Arrival} (h : a.ofFlow f = true) :
    a.lands f.slot = true := by
  obtain ⟨hproto, rfl⟩ := ofFlow_iff.mp h
  exact lands_iff.mpr ⟨hproto, rfl⟩

theorem hash_comm (saddr daddr : UInt32) (sport dport : UInt16) :
    hash saddr daddr sport dport = hash daddr saddr dport sport := by
  unfold hash
  generalize saddr % 4096 + 1 = a
  generalize daddr % 4096 + 1 = b
  rw [UInt32.mul_comm a b, UInt32.mul_assoc, UInt32.mul_assoc (b * a),
    UInt32.mul_comm (sport.toUInt32 % 4096 + 1)]

/-- The two directions of a connection share a slot. -/
theorem slot_reverse (f : Tuple) : f.reverse.slot = f.slot :=
  Fin.ext (congrArg UInt32.toNat (hash_comm ..))

/-! ## The verdicts as a function of what is sent -/

/-- The verdicts on a slot that only the packets `vs` land on. -/
def replay (P : Params) : MyFlow → List View → List Verdict
  | _, [] => []
  | flow, v :: vs =>
      (account P v.jiffies v.payloadLen flow).1 ::
        replay P (if v.fin then resetFlow v.jiffies
          else (account P v.jiffies v.payloadLen flow).2) vs

/-- `account` does not read the tuple. -/
theorem account_counters (P : Params) (jiffies : UInt64) (len : UInt32) (flow : MyFlow) :
    account P jiffies len flow.counters
      = ((account P jiffies len flow).1, (account P jiffies len flow).2.counters) := by
  unfold account MyFlow.counters
  dsimp only
  split
  · rfl
  split <;> split
  · rfl
  · split <;> rfl
  · rfl
  · split <;> rfl

theorem account_congr (P : Params) (jiffies : UInt64) (len : UInt32) {flow flow' : MyFlow}
    (h : flow.counters = flow'.counters) :
    (account P jiffies len flow).1 = (account P jiffies len flow').1 ∧
      (account P jiffies len flow).2.counters = (account P jiffies len flow').2.counters := by
  have heq := account_counters P jiffies len flow
  rw [h, account_counters P jiffies len flow'] at heq
  exact ⟨(congrArg Prod.fst heq).symm, (congrArg Prod.snd heq).symm⟩

theorem replay_congr {P : Params} {flow flow' : MyFlow} (h : flow.counters = flow'.counters)
    (vs : List View) : replay P flow vs = replay P flow' vs := by
  induction vs generalizing flow flow' with
  | nil => rfl
  | cons v vs ih =>
      obtain ⟨hverdict, hflow⟩ := account_congr P v.jiffies v.payloadLen h
      rw [replay, replay, hverdict]
      cases v.fin with
      | true => rfl
      | false => exact congrArg _ (ih hflow)

section Replay

variable {P : Params} {f : Tuple} {a : Arrival} {as : List Arrival}

theorem views_cons_hit (h : a.ofFlow f = true) : views f (a :: as) = a.view :: views f as := by
  rw [views, List.filter_cons_of_pos h]
  rfl

theorem views_cons_other (h : ¬ a.ofFlow f = true) : views f (a :: as) = views f as := by
  rw [views, List.filter_cons_of_neg h]
  rfl

theorem verdicts_cons_hit (T : FlowTable) (h : a.ofFlow f = true) :
    verdicts P T f (a :: as)
      = verdictOf P (T, a) :: verdicts P (rateLimit P a.jiffies T a.skb).table f as := by
  have htrace : Lts.trace (step P) T (a :: as)
      = (T, a) :: Lts.trace (step P) (rateLimit P a.jiffies T a.skb).table as := rfl
  rw [verdicts, htrace, List.filter_cons_of_pos (a := (T, a)) h]
  rfl

theorem verdicts_cons_other (T : FlowTable) (h : ¬ a.ofFlow f = true) :
    verdicts P T f (a :: as) = verdicts P (rateLimit P a.jiffies T a.skb).table f as := by
  have htrace : Lts.trace (step P) T (a :: as)
      = (T, a) :: Lts.trace (step P) (rateLimit P a.jiffies T a.skb).table as := rfl
  rw [verdicts, htrace, List.filter_cons_of_neg (a := (T, a)) h]
  rfl

/-- When only `f` lands on its slot, its verdicts are those of the slot
replayed alone. -/
theorem verdicts_eq_replay (T : FlowTable)
    (halone : ∀ a ∈ as, a.lands f.slot = true → a.ofFlow f = true) :
    verdicts P T f as = replay P (T f.slot) (views f as) := by
  induction as generalizing T with
  | nil => rfl
  | cons a as ih =>
      have ih := ih (rateLimit P a.jiffies T a.skb).table
        (fun b hb => halone b (List.mem_cons_of_mem _ hb))
      by_cases hflow : a.ofFlow f = true
      · have hland := ofFlow_lands hflow
        have hclaim := account_congr P a.jiffies a.skb.payloadLen
          (claimed_eq_counters a.skb (T f.slot))
        rw [verdicts_cons_hit T hflow, views_cons_hit hflow, ih, rateLimit_slot hland,
          verdictOf_hit hland, hclaim.1, replay]
        refine congrArg _ (replay_congr ?_ _)
        show (if a.skb.tcph.fin then _ else _ : MyFlow).counters
          = (if a.skb.tcph.fin then _ else _ : MyFlow).counters
        cases a.skb.tcph.fin with
        | true => rfl
        | false => exact hclaim.2
      · have hland : ¬ a.lands f.slot = true :=
          fun hland => hflow (halone a (List.mem_cons_self ..) hland)
        rw [verdicts_cons_other T hflow, views_cons_other hflow, ih, rateLimit_other hland]

end Replay

/-! ## Filling a slot -/

/-- A packet of flow `g` with one byte of payload. -/
def Tuple.packet (g : Tuple) : SkBuff where
  iph := { ihl := 5, totLen := ntohs 41, protocol := ipprotoTcp
           saddr := g.saddr, daddr := g.daddr }
  tcph := { source := g.source, dest := g.dest, doff := 5, fin := false }

/-- The packet, arriving when `jiffies` is zero. -/
def Tuple.byteAt (g : Tuple) : Arrival where
  jiffies := 0
  skb := g.packet

theorem packet_payloadLen (g : Tuple) : g.packet.payloadLen = 1 := by
  show UInt32.ofInt ((ntohs (ntohs 41)).toNat - (20 : Nat) - (20 : Nat)) = 1
  decide

theorem byteAt_ofFlow (g : Tuple) : g.byteAt.ofFlow g = true := ofFlow_iff.mpr ⟨rfl, rfl⟩

theorem byteAt_not_ofFlow {f g : Tuple} (h : g ≠ f) : ¬ g.byteAt.ofFlow f = true :=
  fun hflow => h (ofFlow_iff.mp hflow).2

/-- The marks of a slot nothing but time zero has been written to. -/
structure Level (n b : Nat) (flow : MyFlow) : Prop where
  count : flow.byteCount.toNat = n
  byte : flow.byte.toNat = b
  time : flow.time = 0

/-- With no time gone by, any difference is over the rate. -/
theorem overRate_now {P : Params} {n b : Nat} {flow : MyFlow} (hl : Level n b flow) :
    overRate P 0 flow ↔ n ≠ b := by
  obtain ⟨rfl, rfl, htime⟩ := hl
  have hnow : ((elapsedMs P 0 0).toInt64 * P.rate.toInt64).toUInt64 = 0 := by
    rw [elapsedMs, UInt64.sub_self, UInt64.zero_mul, UInt64.zero_div]
    show (0 * P.rate.toInt64).toUInt64 = 0
    rw [Int64.zero_mul]
    rfl
  rw [overRate, htime, hnow, gt_iff_lt, UInt64.pos_iff_ne_zero, Ne, Ne, UInt64.sub_eq_iff_eq_add,
    UInt64.zero_add, ← UInt64.toNat_inj, UInt32.toNat_toUInt64]

section Fill

variable {P : Params} {g : Tuple} {T : FlowTable}

theorem Level.claimed {n b : Nat} {skb : SkBuff} {flow : MyFlow} (hl : Level n b flow) :
    Level n b (claimed skb flow) :=
  ⟨by rw [claimed_byteCount, hl.count], by rw [claimed_byte, hl.byte],
    by rw [claimed_time, hl.time]⟩

/-- Below the threshold one more byte counts in both. -/
theorem Level.free {n b : Nat} (hl : Level n b (T g.slot)) (hn : n < P.threshold.toUInt32.toNat)
    (hb : b + 1 < 2 ^ 64) :
    Level (n + 1) (b + 1) ((rateLimit P 0 T g.packet).table g.slot) := by
  have hword : P.threshold.toUInt32.toNat < 2 ^ 32 := UInt32.toNat_lt _
  have hcases := rateLimit_hit (P := P) (T := T) (ofFlow_lands (byteAt_ofFlow g)) rfl
  change Accounted P 0 g.packet.payloadLen (Lim.claimed g.packet (T g.slot)) _
    ((rateLimit P 0 T g.packet).table g.slot) at hcases
  rw [packet_payloadLen] at hcases
  have hl' : Level n b (Lim.claimed g.packet (T g.slot)) := hl.claimed
  generalize (rateLimit P 0 T g.packet).table g.slot = flow' at hcases ⊢
  generalize verdictOf P (T, g.byteAt) = v at hcases
  have hfree : (Lim.claimed g.packet (T g.slot)).byteCount < P.threshold.toUInt32 := by
    rw [UInt32.lt_iff_toNat_lt, hl'.count]
    exact hn
  cases hcases with
  | idle hlen => exact absurd hlen (by decide)
  | free _ _ =>
      refine ⟨?_, ?_, rfl⟩
      · rw [UInt32.toNat_add, hl'.count]
        exact Nat.mod_eq_of_lt (by show n + 1 < 2 ^ 32; omega)
      · rw [UInt64.toNat_add, hl'.byte]
        exact Nat.mod_eq_of_lt hb
  | dropped _ hover _ => exact absurd hfree hover
  | passed _ hover _ => exact absurd hfree hover

/-- At the threshold, with `byte` in step, one more byte passes. -/
theorem Level.passed {n : Nat} (hl : Level n n (T g.slot))
    (hn : ¬ n < P.threshold.toUInt32.toNat) :
    Level ((n + 1) % 2 ^ 32) n ((rateLimit P 0 T g.packet).table g.slot) := by
  have hcases := rateLimit_hit (P := P) (T := T) (ofFlow_lands (byteAt_ofFlow g)) rfl
  change Accounted P 0 g.packet.payloadLen (Lim.claimed g.packet (T g.slot)) _
    ((rateLimit P 0 T g.packet).table g.slot) at hcases
  rw [packet_payloadLen] at hcases
  have hl' : Level n n (Lim.claimed g.packet (T g.slot)) := hl.claimed
  generalize (rateLimit P 0 T g.packet).table g.slot = flow' at hcases ⊢
  generalize verdictOf P (T, g.byteAt) = v at hcases
  cases hcases with
  | idle hlen => exact absurd hlen (by decide)
  | free _ hfree =>
      rw [UInt32.lt_iff_toNat_lt, hl'.count] at hfree
      exact absurd hfree hn
  | dropped _ _ hrate => exact absurd rfl ((overRate_now hl').mp hrate)
  | passed _ _ _ =>
      refine ⟨?_, hl'.byte, hl'.time⟩
      rw [UInt32.toNat_add, hl'.count]
      rfl

/-- `k` bytes from an empty count, up to the threshold. -/
theorem Level.free_run {b k : Nat} (hl : Level 0 b (T g.slot)) (hb : b < 2 ^ 32)
    (hk : k ≤ P.threshold.toUInt32.toNat) :
    ∃ T', Lts.exec (step P) T (List.replicate k g.byteAt) = some T' ∧
      Level k (b + k) (T' g.slot) := by
  have hword : P.threshold.toUInt32.toNat < 2 ^ 32 := UInt32.toNat_lt _
  induction k with
  | zero => exact ⟨T, rfl, hl⟩
  | succ k ih =>
      obtain ⟨T', hexec, hl'⟩ := ih (by omega)
      refine ⟨(rateLimit P 0 T' g.packet).table, ?_, hl'.free (by omega) (by omega)⟩
      rw [List.replicate_succ', Lts.exec_append, hexec]
      rfl

/-- Enough bytes at time zero bring a reset slot where it drops. -/
theorem exists_saturated (hl : Level 0 0 (T g.slot)) :
    ∃ k T', Lts.exec (step P) T (List.replicate k g.byteAt) = some T' ∧
      ¬ (T' g.slot).byteCount < P.threshold.toUInt32 ∧ overRate P 0 (T' g.slot) := by
  have hword : P.threshold.toUInt32.toNat < 2 ^ 32 := UInt32.toNat_lt _
  obtain ⟨T₁, hexec₁, hl₁⟩ := hl.free_run (by decide) (Nat.le_refl P.threshold.toUInt32.toNat)
  rw [Nat.zero_add] at hl₁
  have hl₂ := hl₁.passed (Nat.lt_irrefl _)
  have hexec₂ : Lts.exec (step P) T (List.replicate (P.threshold.toUInt32.toNat + 1) g.byteAt)
      = some (rateLimit P 0 T₁ g.packet).table := by
    rw [List.replicate_succ', Lts.exec_append, hexec₁]
    rfl
  by_cases hwrap : P.threshold.toUInt32.toNat + 1 < 2 ^ 32
  · rw [Nat.mod_eq_of_lt hwrap] at hl₂
    refine ⟨_, _, hexec₂, ?_, (overRate_now hl₂).mpr (by omega)⟩
    rw [UInt32.lt_iff_toNat_lt, hl₂.count]
    omega
  · -- the largest threshold: the byte past it wraps, and a second round
    -- leaves `byte` far ahead of `byte_count`
    have hmax : P.threshold.toUInt32.toNat + 1 = 2 ^ 32 := by omega
    rw [hmax, Nat.mod_self] at hl₂
    obtain ⟨T₃, hexec₃, hl₃⟩ := hl₂.free_run hword (Nat.le_refl P.threshold.toUInt32.toNat)
    refine ⟨P.threshold.toUInt32.toNat + 1 + P.threshold.toUInt32.toNat, T₃, ?_, ?_,
      (overRate_now hl₃).mpr (by omega)⟩
    · rw [List.replicate_add, Lts.exec_append, hexec₂]
      exact hexec₃
    · rw [UInt32.lt_iff_toNat_lt, hl₃.count]
      exact Nat.lt_irrefl _

end Fill

/-! ## The equivalence -/

/-- Alone, the byte of `f` is accepted. -/
theorem verdicts_alone (P : Params) (f : Tuple) :
    verdicts P (rateLimitInitModule (fun _ => 0) 0).1 f [f.byteAt] = [.accept] := by
  have hland := ofFlow_lands (byteAt_ofFlow f)
  rw [verdicts_cons_hit _ (byteAt_ofFlow f)]
  refine congrArg (· :: []) ?_
  have hlevel : Level 0 0 ((rateLimitInitModule (fun _ => 0) 0).1 f.slot) := ⟨rfl, rfl, rfl⟩
  generalize (rateLimitInitModule (fun _ => 0) 0).1 = T at hlevel ⊢
  by_cases hfree : (T f.slot).byteCount < P.threshold.toUInt32
  · exact verdict_free hland hfree
  cases hv : verdictOf P (T, f.byteAt) with
  | accept => rfl
  | drop =>
      have hlen : f.byteAt.skb.payloadLen ≠ 0 := by
        show f.packet.payloadLen ≠ 0
        rw [packet_payloadLen]
        decide
      have hover := (verdict_over hland hlen hfree).mp hv
      exact absurd rfl ((overRate_now hlevel.claimed).mp hover)

/-- After enough bytes of a flow on the same slot it is dropped. -/
theorem verdicts_filled (P : Params) {f g : Tuple} (hne : g ≠ f) (hslot : g.slot = f.slot) :
    ∃ k, verdicts P (rateLimitInitModule (fun _ => 0) 0).1 f
      (List.replicate k g.byteAt ++ [f.byteAt]) = [.drop] := by
  have hlevel : Level 0 0 ((rateLimitInitModule (fun _ => 0) 0).1 g.slot) := ⟨rfl, rfl, rfl⟩
  obtain ⟨k, T, hexec, hfull, hover⟩ := exists_saturated (P := P) hlevel
  refine ⟨k, ?_⟩
  have hnone : (Lts.trace (step P) (rateLimitInitModule (fun _ => 0) 0).1
      (List.replicate k g.byteAt)).filter (fun x => x.2.ofFlow f) = [] := by
    rw [List.filter_eq_nil_iff]
    intro x hx
    rw [List.eq_of_mem_replicate (Lts.mem_trace hx)]
    exact byteAt_not_ofFlow hne
  rw [verdicts, Lts.trace_append hexec, List.filter_append, hnone, List.nil_append]
  refine (verdicts_cons_hit T (byteAt_ofFlow f)).trans (congrArg (· :: []) ?_)
  rw [hslot] at hfull hover
  have hlen : f.byteAt.skb.payloadLen ≠ 0 := by
    show f.packet.payloadLen ≠ 0
    rw [packet_payloadLen]
    decide
  rw [verdict_over (ofFlow_lands (byteAt_ofFlow f)) hlen hfull]
  unfold overRate at hover ⊢
  rw [claimed_byteCount, claimed_byte, claimed_time]
  exact hover

/-- The verdicts on a flow are its own affair exactly when no other flow
of the traffic hashes to its slot. -/
theorem flow_isolation_iff (P : Params) (f : Tuple) (G : Tuple → Prop) :
    Isolated P f G ↔ ∀ g, G g → g ≠ f → g.slot ≠ f.slot := by
  constructor
  · intro hiso g hg hne hslot
    obtain ⟨k, hdrop⟩ := verdicts_filled P hne hslot
    have hviews : views f (List.replicate k g.byteAt ++ [f.byteAt]) = views f [f.byteAt] := by
      have hnone : (List.replicate k g.byteAt).filter (fun a => a.ofFlow f) = [] := by
        rw [List.filter_eq_nil_iff]
        intro a ha
        rw [List.eq_of_mem_replicate ha]
        exact byteAt_not_ofFlow hne
      rw [views, List.filter_append, hnone]
      rfl
    have hsame := hiso (fun _ => 0) 0 _ _ (fun a ha _ => ?_) hviews
    · rw [hdrop, verdicts_alone] at hsame
      exact nomatch hsame
    · simp only [List.mem_append, List.mem_replicate, List.mem_singleton] at ha
      obtain (⟨-, rfl⟩ | rfl) | rfl := ha
      · exact .inr hg
      · exact .inl rfl
      · exact .inl rfl
  · intro hapart jiffies err as bs htraffic hviews
    have halone : ∀ a ∈ as ++ bs, a.lands f.slot = true → a.ofFlow f = true := by
      intro a ha hland
      obtain ⟨hproto, hslot⟩ := lands_iff.mp hland
      refine ofFlow_iff.mpr ⟨hproto, ?_⟩
      by_contra hne
      exact hapart _ ((htraffic a ha hproto).resolve_left hne) hne hslot
    rw [verdicts_eq_replay _ fun a ha => halone a (List.mem_append_left _ ha),
      verdicts_eq_replay _ fun a ha => halone a (List.mem_append_right _ ha), hviews]

/-- A connection to port 80. -/
def webFlow : Tuple where
  saddr := 0x0100000a
  daddr := 0x0200000a
  source := ntohs 40000
  dest := ntohs 80

/-- Three of its packets: the second crosses the threshold, the third is
past it and passes. -/
def webTraffic : List Arrival :=
  [60, 60, 50].map fun len => ⟨10, { webFlow.packet with
    iph := { webFlow.packet.iph with totLen := ntohs (len + 40) } }⟩

/-- A FIN without payload of its other direction. -/
def reverseFin : Arrival where
  jiffies := 10
  skb := { webFlow.reverse.packet with
    iph := { webFlow.reverse.packet.iph with totLen := ntohs 40 }
    tcph := { webFlow.reverse.packet.tcph with fin := true } }

/-- The FIN of the other direction, which has the same slot, lets a packet
pass that is dropped without it. -/
theorem reverse_fin_interferes :
    webFlow.reverse.slot = webFlow.slot ∧
      views webFlow (webTraffic ++ [⟨10, webFlow.packet⟩])
        = views webFlow (webTraffic ++ [reverseFin, ⟨10, webFlow.packet⟩]) ∧
      verdicts smallLimiter (rateLimitInitModule (fun _ => 0) 0).1 webFlow
          (webTraffic ++ [⟨10, webFlow.packet⟩]) = [.accept, .accept, .accept, .drop] ∧
      verdicts smallLimiter (rateLimitInitModule (fun _ => 0) 0).1 webFlow
          (webTraffic ++ [reverseFin, ⟨10, webFlow.packet⟩])
        = [.accept, .accept, .accept, .accept] := by
  refine ⟨slot_reverse webFlow, ?_, ?_, ?_⟩
  · decide +kernel
  · decide +kernel
  · decide +kernel

end Lim

end Comp4511
