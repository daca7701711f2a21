import Comp4511.LimFlow

/-!
# The rate bound

Below the threshold `byte_count` and `byte` count the same bytes; the
packet that brings `byte_count` to the threshold leaves its time in
`time` and its mark in `byte`, and from then on neither moves. So the
difference the limited branch compares is the number of bytes accepted
after the crossing packet, as long as `byte_count` does not wrap.

`Tallied` is the first half of this and `Limited` the second; both are
invariants of a slot indexed by the bytes it has accepted, and
`run_tally` carries such an invariant along a history. `overRate_iff`
reads the comparison of the limited branch, an `unsigned long` against a
converted `long`, as one of numbers.
-/

namespace Comp4511

namespace Lim

/-! ## The comparisons as comparisons of numbers -/

/-- The bytes `rate` allows from `since` to `now`. -/
def allowance (P : Params) (since now : UInt64) : Nat :=
  P.rate.toInt.toNat * ((now.toNat - since.toNat) * 1000 / P.hz.toNat)

theorem lt_threshold_iff {P : Params} (hthr : 1 ≤ P.threshold.toInt) {b : UInt32} :
    b < P.threshold.toUInt32 ↔ (b.toNat : Int) < P.threshold.toInt := by
  have hle : (0 : Int32) ≤ P.threshold := by
    rw [Int32.le_iff_toInt_le]
    exact Int.le_trans (by decide) hthr
  rw [UInt32.lt_iff_toNat_lt, Int32.toNat_toUInt32_of_le hle, Int32.toNatClampNeg]
  omega

theorem toNat_rate {P : Params} (hrate : 0 ≤ P.rate.toInt) :
    P.rate.toInt64.toUInt64.toNat = P.rate.toInt.toNat := by
  have hle : (0 : Int64) ≤ P.rate.toInt64 := by
    rw [Int64.le_iff_toInt_le, Int32.toInt_toInt64]
    exact hrate
  rw [Int64.toNat_toUInt64_of_le hle, Int64.toNatClampNeg, Int32.toInt_toInt64]

/-- The right-hand side of the limited branch's test, for an elapsed time
that keeps it from wrapping. -/
theorem toNat_delta_mul_rate_of_span {P : Params} {jiffies since : UInt64}
    (hrate : 0 ≤ P.rate.toInt)
    (hspan : (jiffies - since).toNat * 1000 * P.rate.toInt.toNat < 2 ^ 63) :
    ((elapsedMs P jiffies since).toInt64 * P.rate.toInt64).toUInt64.toNat
      = P.rate.toInt.toNat * ((jiffies - since).toNat * 1000 / P.hz.toNat) := by
  rw [Int64.toUInt64_mul, UInt64.toUInt64_toInt64, UInt64.toNat_mul, toNat_rate hrate,
    elapsedMs, UInt64.toNat_div, UInt64.toNat_mul]
  generalize P.rate.toInt.toNat = r at hspan ⊢
  generalize (jiffies - since).toNat = e at hspan ⊢
  rcases Nat.eq_zero_or_pos r with rfl | hr
  -- a zero rate allows nothing, wrapped or not
  · rw [Nat.mul_zero, Nat.zero_mul, Nat.zero_mod]
  have hms : e * 1000 < 2 ^ 63 :=
    Nat.lt_of_le_of_lt (Nat.le_mul_of_pos_right _ hr) hspan
  have hprod : e * 1000 / P.hz.toNat * r < 2 ^ 63 :=
    Nat.lt_of_le_of_lt (Nat.mul_le_mul_right r (Nat.div_le_self ..)) hspan
  have hthousand : (1000 : UInt64).toNat = 1000 := rfl
  rw [hthousand, Nat.mod_eq_of_lt (a := e * 1000) (by omega), Nat.mod_eq_of_lt (by omega),
    Nat.mul_comm]

/-- The same, read with the times in order. -/
theorem toNat_delta_mul_rate {P : Params} {jiffies since : UInt64} (hrate : 0 ≤ P.rate.toInt)
    (htime : since ≤ jiffies)
    (hspan : (jiffies.toNat - since.toNat) * 1000 * P.rate.toInt.toNat < 2 ^ 63) :
    ((elapsedMs P jiffies since).toInt64 * P.rate.toInt64).toUInt64.toNat
      = allowance P since jiffies := by
  rw [← UInt64.toNat_sub_of_le _ _ htime] at hspan
  rw [toNat_delta_mul_rate_of_span hrate hspan, UInt64.toNat_sub_of_le _ _ htime, allowance]

theorem overRate_iff {P : Params} {jiffies : UInt64} {flow : MyFlow} (hrate : 0 ≤ P.rate.toInt)
    (htime : flow.time ≤ jiffies)
    (hspan : (jiffies.toNat - flow.time.toNat) * 1000 * P.rate.toInt.toNat < 2 ^ 63)
    (hmark : flow.byte.toNat ≤ flow.byteCount.toNat) :
    overRate P jiffies flow
      ↔ allowance P flow.time jiffies < flow.byteCount.toNat - flow.byte.toNat := by
  have hle : flow.byte ≤ flow.byteCount.toUInt64 := by
    rw [UInt64.le_iff_toNat_le, UInt32.toNat_toUInt64]
    exact hmark
  rw [overRate, gt_iff_lt, UInt64.lt_iff_toNat_lt, toNat_delta_mul_rate hrate htime hspan,
    UInt64.toNat_sub_of_le _ _ hle, UInt32.toNat_toUInt64]

/-! ## Bytes accepted by a slot -/

/-- The bytes of an entry that passed. -/
def passedBytes (P : Params) (x : Entry) : Nat :=
  if verdictOf P x = .accept then x.2.skb.payloadLen.toNat else 0

/-- The bytes of a list of entries that passed. -/
def acceptedBytes (P : Params) (l : List Entry) : Nat :=
  (l.map (passedBytes P)).sum

@[simp] theorem acceptedBytes_cons (P : Params) (x : Entry) (l : List Entry) :
    acceptedBytes P (x :: l) = passedBytes P x + acceptedBytes P l := by
  simp [acceptedBytes]

@[simp] theorem acceptedBytes_append (P : Params) (l l' : List Entry) :
    acceptedBytes P (l ++ l') = acceptedBytes P l + acceptedBytes P l' := by
  simp [acceptedBytes]

theorem hits_append (i : Slot) (h h' : List Entry) :
    hits i (h ++ h') = hits i h ++ hits i h' := by
  simp [hits]

theorem hits_cons_of_lands {i : Slot} {x : Entry} (hx : x.2.lands i = true) (h : List Entry) :
    hits i (x :: h) = x :: hits i h := by
  simp [hits, hx]

/-- A split of the packets of a slot comes from one of the history. -/
theorem hits_eq_append_cons {i : Slot} {h pre post : List Entry} {x : Entry}
    (hh : hits i h = pre ++ x :: post) :
    ∃ h₁ h₂, h = h₁ ++ x :: h₂ ∧ hits i h₁ = pre ∧ hits i h₂ = post ∧ x.2.lands i = true := by
  obtain ⟨g₁, g₂, rfl, hpre, hrest⟩ := List.filter_eq_append_iff.mp hh
  obtain ⟨m₁, m₂, rfl, hm₁, hx, hpost⟩ := List.filter_eq_cons_iff.mp hrest
  refine ⟨g₁ ++ m₁, m₂, by simp, ?_, hpost, hx⟩
  have hnil : hits i m₁ = [] := List.filter_eq_nil_iff.mpr hm₁
  rw [hits_append, hnil, List.append_nil]
  exact hpre

/-- An invariant of a slot, indexed by the bytes the slot has accepted,
holds along a history whose packets for the slot have no FIN and do not
wrap `byte_count`. -/
theorem run_tally {P : Params} {i : Slot} {I : MyFlow → Nat → Prop}
    (hkeep : ∀ T a n, a.lands i = true → a.skb.tcph.fin = false → I (T i) n →
      n + passedBytes P (T, a) < 2 ^ 32 →
      I ((rateLimit P a.jiffies T a.skb).table i) (n + passedBytes P (T, a)))
    {T T' : FlowTable} {h : List Entry} (hrun : Lts.Run (step P) T h T') {n : Nat}
    (hfin : ∀ x ∈ hits i h, x.2.skb.tcph.fin = false)
    (hsum : n + acceptedBytes P (hits i h) < 2 ^ 32) (hI : I (T i) n) :
    I (T' i) (n + acceptedBytes P (hits i h)) := by
  induction hrun generalizing n with
  | nil => exact hI
  | @cons T U T' a h hstep _ ih =>
      obtain rfl : (rateLimit P a.jiffies T a.skb).table = U := Option.some.inj hstep
      by_cases hland : a.lands i = true
      · have hhits : hits i ((T, a) :: h) = (T, a) :: hits i h := hits_cons_of_lands hland h
        rw [hhits] at hfin hsum ⊢
        rw [acceptedBytes_cons, ← Nat.add_assoc] at hsum ⊢
        have hhead : I ((rateLimit P a.jiffies T a.skb).table i) (n + passedBytes P (T, a)) :=
          hkeep T a n hland (hfin _ (List.mem_cons_self ..)) hI (by omega)
        exact ih (fun x hx => hfin x (List.mem_cons_of_mem _ hx)) hsum hhead
      · have hhits : hits i ((T, a) :: h) = hits i h := by simp [hits, hland]
        rw [hhits] at hfin hsum ⊢
        refine ih hfin hsum ?_
        rw [rateLimit_other hland]
        exact hI

/-! ## The two phases of a slot -/

/-- `byte_count` is the number of bytes accepted, and below the threshold
so is `byte`. -/
structure Tallied (P : Params) (flow : MyFlow) (n : Nat) : Prop where
  count : flow.byteCount.toNat = n
  sync : flow.byteCount < P.threshold.toUInt32 → flow.byte.toNat = n

/-- The threshold is reached, and `time` and `byte` stand where the
crossing packet left them. -/
structure Limited (P : Params) (since : UInt64) (mark : Nat) (flow : MyFlow) (n : Nat) : Prop where
  count : flow.byteCount.toNat = n
  reached : ¬ flow.byteCount < P.threshold.toUInt32
  time : flow.time = since
  byte : flow.byte.toNat = mark

theorem tallied_reset (P : Params) (jiffies : UInt64) : Tallied P (resetFlow jiffies) 0 :=
  ⟨rfl, fun _ => rfl⟩

/-! ### One packet without FIN -/

section Hit

variable {P : Params} {i : Slot} {T : FlowTable} {a : Arrival}

theorem passedBytes_of_accept {x : Entry} (h : verdictOf P x = .accept) :
    passedBytes P x = x.2.skb.payloadLen.toNat := if_pos h

theorem passedBytes_of_drop {x : Entry} (h : verdictOf P x = .drop) : passedBytes P x = 0 := by
  rw [passedBytes, h]
  rfl

/-- `byte_count` grows by what passes. -/
theorem hit_count (hland : a.lands i = true) (hfin : a.skb.tcph.fin = false)
    (hsum : (T i).byteCount.toNat + passedBytes P (T, a) < 2 ^ 32) :
    ((rateLimit P a.jiffies T a.skb).table i).byteCount.toNat
      = (T i).byteCount.toNat + passedBytes P (T, a) := by
  have hcases := rateLimit_hit (P := P) (T := T) hland hfin
  generalize (rateLimit P a.jiffies T a.skb).table i = flow' at hcases ⊢
  generalize hverdict : verdictOf P (T, a) = v at hcases
  rw [← claimed_byteCount a.skb (T i)] at hsum ⊢
  cases hcases with
  | idle hlen =>
      rw [passedBytes_of_accept hverdict, hlen]
      rfl
  | free _ _ =>
      rw [passedBytes_of_accept hverdict] at hsum ⊢
      exact (UInt32.toNat_add ..).trans (Nat.mod_eq_of_lt hsum)
  | dropped _ _ _ =>
      rw [passedBytes_of_drop hverdict]
      rfl
  | passed _ _ _ =>
      rw [passedBytes_of_accept hverdict] at hsum ⊢
      exact (UInt32.toNat_add ..).trans (Nat.mod_eq_of_lt hsum)

/-- Below the threshold the packet passes and moves `byte` and `time`. -/
theorem hit_free (hland : a.lands i = true) (hfin : a.skb.tcph.fin = false)
    (hfree : (T i).byteCount < P.threshold.toUInt32) :
    passedBytes P (T, a) = a.skb.payloadLen.toNat ∧
      ((rateLimit P a.jiffies T a.skb).table i).byte = (T i).byte + a.skb.payloadLen.toUInt64 ∧
      (a.skb.payloadLen ≠ 0 → ((rateLimit P a.jiffies T a.skb).table i).time = a.jiffies) := by
  have hcases := rateLimit_hit (P := P) (T := T) hland hfin
  generalize (rateLimit P a.jiffies T a.skb).table i = flow' at hcases ⊢
  generalize hverdict : verdictOf P (T, a) = v at hcases
  rw [← claimed_byteCount a.skb (T i)] at hfree
  rw [← claimed_byte a.skb (T i)]
  cases hcases with
  | idle hlen =>
      refine ⟨passedBytes_of_accept hverdict, ?_, fun hne => absurd hlen hne⟩
      rw [hlen]
      exact (UInt64.add_zero _).symm
  | free _ _ => exact ⟨passedBytes_of_accept hverdict, rfl, fun _ => rfl⟩
  | dropped _ hover _ => exact absurd hfree hover
  | passed _ hover _ => exact absurd hfree hover

/-- From the threshold on a packet leaves `byte` and `time` alone. -/
theorem hit_over (hland : a.lands i = true) (hfin : a.skb.tcph.fin = false)
    (hover : ¬ (T i).byteCount < P.threshold.toUInt32) :
    ((rateLimit P a.jiffies T a.skb).table i).byte = (T i).byte ∧
      ((rateLimit P a.jiffies T a.skb).table i).time = (T i).time := by
  have hcases := rateLimit_hit (P := P) (T := T) hland hfin
  generalize (rateLimit P a.jiffies T a.skb).table i = flow' at hcases ⊢
  generalize verdictOf P (T, a) = v at hcases
  rw [← claimed_byteCount a.skb (T i)] at hover
  rw [← claimed_byte a.skb (T i), ← claimed_time a.skb (T i)]
  cases hcases with
  | idle _ => exact ⟨rfl, rfl⟩
  | free _ hfree => exact absurd hfree hover
  | dropped _ _ _ => exact ⟨rfl, rfl⟩
  | passed _ _ _ => exact ⟨rfl, rfl⟩

theorem Tallied.hit {n : Nat} (hland : a.lands i = true) (hfin : a.skb.tcph.fin = false)
    (ht : Tallied P (T i) n) (hsum : n + passedBytes P (T, a) < 2 ^ 32) :
    Tallied P ((rateLimit P a.jiffies T a.skb).table i) (n + passedBytes P (T, a)) := by
  obtain ⟨rfl, hsync⟩ := ht
  have hcount := hit_count hland hfin hsum
  refine ⟨hcount, fun hlt => ?_⟩
  have hfree : (T i).byteCount < P.threshold.toUInt32 := by
    rw [UInt32.lt_iff_toNat_lt] at hlt ⊢
    omega
  obtain ⟨hpassed, hbyte, -⟩ := hit_free hland hfin hfree
  rw [hbyte, hpassed, UInt64.toNat_add, UInt32.toNat_toUInt64, hsync hfree]
  exact Nat.mod_eq_of_lt (by omega)

theorem Limited.hit {since : UInt64} {mark n : Nat} (hland : a.lands i = true)
    (hfin : a.skb.tcph.fin = false) (hl : Limited P since mark (T i) n)
    (hsum : n + passedBytes P (T, a) < 2 ^ 32) :
    Limited P since mark ((rateLimit P a.jiffies T a.skb).table i) (n + passedBytes P (T, a)) := by
  obtain ⟨rfl, hover, htime, hmark⟩ := hl
  have hcount := hit_count hland hfin hsum
  obtain ⟨hbyte, htime'⟩ := hit_over hland hfin hover
  refine ⟨hcount, ?_, htime'.trans htime, ?_⟩
  · rw [UInt32.lt_iff_toNat_lt] at hover ⊢
    omega
  · rw [hbyte]
    exact hmark

end Hit

/-! ## The crossing packet -/

/-- The packet brings `byte_count` of slot `i` from below the threshold
to it or past it. -/
def Crosses (P : Params) (i : Slot) (x : Entry) : Prop :=
  ((x.1 i).byteCount.toNat : Int) < P.threshold.toInt ∧
    P.threshold.toInt ≤ ((rateLimit P x.2.jiffies x.1 x.2.skb).table i).byteCount.toNat

/-- Until a packet crosses, `byte_count` stays below the threshold. -/
theorem below_run {P : Params} {i : Slot} {T T' : FlowTable} {h : List Entry}
    (hrun : Lts.Run (step P) T h T') (hno : ∀ x ∈ hits i h, ¬ Crosses P i x)
    (hbelow : ((T i).byteCount.toNat : Int) < P.threshold.toInt) :
    ((T' i).byteCount.toNat : Int) < P.threshold.toInt := by
  induction hrun with
  | nil => exact hbelow
  | @cons T U T' a h hstep _ ih =>
      obtain rfl : (rateLimit P a.jiffies T a.skb).table = U := Option.some.inj hstep
      refine ih (fun x hx => hno x ?_) ?_
      · exact List.Sublist.subset (List.Sublist.filter _ (List.sublist_cons_self ..)) hx
      by_cases hland : a.lands i = true
      · have hmem : (T, a) ∈ hits i ((T, a) :: h) :=
          List.mem_filter.mpr ⟨List.mem_cons_self .., hland⟩
        by_contra hge
        exact hno _ hmem ⟨hbelow, Int.not_lt.mp hge⟩
      · rw [rateLimit_other hland]
        exact hbelow

/-- The crossing packet leaves its own time and `byte_count` as the
mark. -/
theorem Crosses.limited {P : Params} {i : Slot} {T : FlowTable} {a : Arrival} {n : Nat}
    (hthr : 1 ≤ P.threshold.toInt) (hc : Crosses P i (T, a)) (hland : a.lands i = true)
    (hfin : a.skb.tcph.fin = false) (ht : Tallied P (T i) n)
    (hsum : n + passedBytes P (T, a) < 2 ^ 32) :
    Limited P a.jiffies (n + passedBytes P (T, a))
      ((rateLimit P a.jiffies T a.skb).table i) (n + passedBytes P (T, a)) := by
  obtain ⟨hbelow, hreach⟩ := hc
  obtain ⟨rfl, hsync⟩ := ht
  have hfree : (T i).byteCount < P.threshold.toUInt32 := (lt_threshold_iff hthr).mpr hbelow
  have hcount := hit_count hland hfin hsum
  obtain ⟨hpassed, hbyte, htime⟩ := hit_free hland hfin hfree
  refine ⟨hcount, ?_, htime fun hlen => ?_, ?_⟩
  · rw [lt_threshold_iff hthr]
    exact Int.not_lt.mpr hreach
  -- without payload the packet could not have crossed
  · rw [hlen] at hpassed
    have hnone : passedBytes P (T, a) = 0 := hpassed
    dsimp only at hbelow hreach
    omega
  · rw [hbyte, hpassed, UInt64.toNat_add, UInt32.toNat_toUInt64, hsync hfree]
    exact Nat.mod_eq_of_lt (by omega)

/-- From a reset through a crossing packet, the slot is limited since that
packet, past a mark that only the bytes accepted after it exceed. -/
theorem limited_of_run {P : Params} {i : Slot} {jiffies : UInt64} {T₀ T : FlowTable}
    {h pre₁ pre₂ : List Entry} {c : Entry} (hthr : 1 ≤ P.threshold.toInt)
    (hreset : T₀ i = resetFlow jiffies) (hrun : Lts.Run (step P) T₀ h T)
    (hhits : hits i h = pre₁ ++ c :: pre₂) (hfin : ∀ x ∈ hits i h, x.2.skb.tcph.fin = false)
    (hsum : acceptedBytes P (hits i h) < 2 ^ 32) (hc : Crosses P i c) :
    ∃ mark, Limited P c.2.jiffies mark (T i) (mark + acceptedBytes P pre₂) := by
  obtain ⟨g₁, g₂, rfl, rfl, rfl, hland⟩ := hits_eq_append_cons hhits
  obtain ⟨T', a⟩ := c
  rw [hhits] at hfin hsum
  rw [acceptedBytes_append, acceptedBytes_cons] at hsum
  obtain ⟨hrun₁, U, hstep, hrun₂⟩ := hrun.at_entry
  obtain rfl : (rateLimit P a.jiffies T' a.skb).table = U := Option.some.inj hstep
  have htally : Tallied P (T' i) (0 + acceptedBytes P (hits i g₁)) := by
    refine run_tally (fun _ _ _ => Tallied.hit) hrun₁ (fun x hx => hfin x ?_) (by omega) ?_
    · exact List.mem_append_left _ hx
    · rw [hreset]
      exact tallied_reset P jiffies
  rw [Nat.zero_add] at htally
  have hcross : a.skb.tcph.fin = false :=
    hfin (T', a) (List.mem_append_right _ (List.mem_cons_self ..))
  have hmark := hc.limited hthr hland hcross htally (by omega)
  refine ⟨_, run_tally (fun _ _ _ => Limited.hit) hrun₂ (fun x hx => hfin x ?_) (by omega) hmark⟩
  exact List.mem_append_right _ (List.mem_cons_of_mem _ hx)

/-! ## Verdicts -/

section Verdict

variable {P : Params} {i : Slot} {T : FlowTable} {a : Arrival}

theorem verdict_free (hland : a.lands i = true)
    (hfree : (T i).byteCount < P.threshold.toUInt32) : verdictOf P (T, a) = .accept := by
  obtain ⟨flow', hcases⟩ := verdict_cases (P := P) (T := T) hland
  generalize verdictOf P (T, a) = v at hcases ⊢
  rw [← claimed_byteCount a.skb (T i)] at hfree
  cases hcases with
  | idle _ => rfl
  | free _ _ => rfl
  | dropped _ hover _ => exact absurd hfree hover
  | passed _ _ _ => rfl

theorem verdict_over (hland : a.lands i = true) (hlen : a.skb.payloadLen ≠ 0)
    (hover : ¬ (T i).byteCount < P.threshold.toUInt32) :
    verdictOf P (T, a) = .drop ↔ overRate P a.jiffies (claimed a.skb (T i)) := by
  obtain ⟨flow', hcases⟩ := verdict_cases (P := P) (T := T) hland
  generalize verdictOf P (T, a) = v at hcases ⊢
  rw [← claimed_byteCount a.skb (T i)] at hover
  cases hcases with
  | idle hzero => exact absurd hzero hlen
  | free _ hfree => exact absurd hfree hover
  | dropped _ _ hrate => exact ⟨fun _ => hrate, fun _ => rfl⟩
  | passed _ _ hrate => exact ⟨fun hv => (nomatch hv), fun hr => absurd hr hrate⟩

/-- In a limited slot the packet is dropped exactly when the bytes past
the mark exceed the allowance. -/
theorem Limited.verdict {since : UInt64} {mark m : Nat} (hl : Limited P since mark (T i) (mark + m))
    (hrate : 0 ≤ P.rate.toInt) (hland : a.lands i = true) (hlen : a.skb.payloadLen ≠ 0)
    (htime : since ≤ a.jiffies)
    (hspan : (a.jiffies.toNat - since.toNat) * 1000 * P.rate.toInt.toNat < 2 ^ 63) :
    verdictOf P (T, a) = .drop ↔ allowance P since a.jiffies < m := by
  obtain ⟨hcount, hover, rfl, hmark⟩ := hl
  rw [← claimed_time a.skb (T i)] at htime hspan ⊢
  have hle : (claimed a.skb (T i)).byte.toNat ≤ (claimed a.skb (T i)).byteCount.toNat := by
    rw [claimed_byte, claimed_byteCount]
    omega
  rw [verdict_over hland hlen hover, overRate_iff hrate htime hspan hle, claimed_byte,
    claimed_byteCount, hcount, hmark, Nat.add_sub_cancel_left]

end Verdict

/-! ## The bound -/

/-- The traffic of slot `i` in a history: in time order, without FIN but
on the last packet, over a time and with a number of bytes accepted that
keep the arithmetic of the hook from wrapping. -/
structure Admissible (P : Params) (i : Slot) (h : List Entry) : Prop where
  ordered : (hits i h).Pairwise fun x y => x.2.jiffies ≤ y.2.jiffies
  noFin : ∀ x ∈ (hits i h).dropLast, x.2.skb.tcph.fin = false
  span : ∀ x ∈ hits i h, ∀ y ∈ hits i h,
    (y.2.jiffies.toNat - x.2.jiffies.toNat) * 1000 * P.rate.toInt.toNat < 2 ^ 63
  bytes : acceptedBytes P (hits i h) < 2 ^ 32

/-- Let `x` be a packet with payload of the traffic of a slot after a
reset. If none before it brought `byte_count` to the threshold, it is
accepted. If `c` did, `x` is dropped exactly when the bytes accepted
after `c` exceed `rate * floor ((t - t₀) * 1000 / HZ)`; and with `x`
accepted they are at most that and the length of `x`. -/
theorem rate_bound {P : Params} {i : Slot} {jiffies : UInt64} {T₀ T : FlowTable}
    {h pre post : List Entry} {x : Entry} (hrate : 0 ≤ P.rate.toInt)
    (hthr : 1 ≤ P.threshold.toInt) (hreset : T₀ i = resetFlow jiffies)
    (hrun : Lts.Run (step P) T₀ h T) (hadm : Admissible P i h)
    (hx : hits i h = pre ++ x :: post) (hlen : x.2.skb.payloadLen ≠ 0) :
    ((∀ y ∈ pre, ¬ Crosses P i y) → verdictOf P x = .accept) ∧
    ∀ pre₁ c pre₂, pre = pre₁ ++ c :: pre₂ → Crosses P i c →
      (verdictOf P x = .drop
        ↔ P.rate.toInt.toNat * ((x.2.jiffies.toNat - c.2.jiffies.toNat) * 1000 / P.hz.toNat)
          < acceptedBytes P pre₂) ∧
      (verdictOf P x = .accept → acceptedBytes P (pre₂ ++ [x])
        ≤ P.rate.toInt.toNat * ((x.2.jiffies.toNat - c.2.jiffies.toNat) * 1000 / P.hz.toNat)
          + x.2.skb.payloadLen.toNat) := by
  obtain ⟨hordered, hnoFin, hspan, hbytes⟩ := hadm
  obtain ⟨h₁, h₂, rfl, rfl, -, hland⟩ := hits_eq_append_cons hx
  obtain ⟨hrunx, -⟩ := hrun.at_entry
  rw [hx] at hordered hnoFin hspan hbytes
  have hfin : ∀ y ∈ hits i h₁, y.2.skb.tcph.fin = false := by
    intro y hy
    refine hnoFin y ?_
    rw [List.dropLast_append_cons]
    exact List.mem_append_left _ hy
  constructor
  · intro hno
    have hzero : ((T₀ i).byteCount.toNat : Int) < P.threshold.toInt := by
      rw [hreset]
      exact hthr
    exact verdict_free hland ((lt_threshold_iff hthr).mpr (below_run hrunx hno hzero))
  · intro pre₁ c pre₂ hpre hc
    have hsum : acceptedBytes P (hits i h₁) < 2 ^ 32 := by
      rw [acceptedBytes_append] at hbytes
      omega
    obtain ⟨mark, hlimited⟩ := limited_of_run hthr hreset hrunx hpre hfin hsum hc
    have hmem : c ∈ hits i h₁ := by
      rw [hpre]
      exact List.mem_append_right _ (List.mem_cons_self ..)
    have htime : c.2.jiffies ≤ x.2.jiffies :=
      (List.pairwise_append.mp hordered).2.2 c hmem x (List.mem_cons_self ..)
    have hdrop := hlimited.verdict hrate hland hlen htime
      (hspan c (List.mem_append_left _ hmem) x (List.mem_append_right _ (List.mem_cons_self ..)))
    refine ⟨hdrop, fun haccept => ?_⟩
    have hwithin : ¬ allowance P c.2.jiffies x.2.jiffies < acceptedBytes P pre₂ := by
      intro hlt
      rw [hdrop.mpr hlt] at haccept
      exact nomatch haccept
    rw [acceptedBytes_append, acceptedBytes_cons, passedBytes_of_accept haccept]
    exact Nat.add_le_add (Nat.not_lt.mp hwithin) (Nat.le_refl _)

/-- A small limiter: 100 bytes free, then 1 byte a millisecond. -/
def smallLimiter : Params where
  threshold := 100
  rate := 1
  hz := 1000
  hz_pos := by decide

/-- A TCP packet of host `saddr` with 20-byte headers. -/
def tcpPacket (saddr : UInt32) (payload : UInt16) (fin : Bool) : SkBuff where
  iph := { ihl := 5, totLen := ntohs (payload + 40), protocol := ipprotoTcp
           saddr := saddr, daddr := 1 }
  tcph := { source := ntohs 1, dest := ntohs 1, doff := 5, fin := fin }

/-- Traffic of two hosts: the second packet of host 1 crosses, the third
passes, the fourth comes too early, and the FIN is late enough. -/
def sampleTraffic : List Arrival :=
  [⟨10, tcpPacket 1 60 false⟩, ⟨15, tcpPacket 2 900 true⟩, ⟨20, tcpPacket 1 60 false⟩,
    ⟨25, tcpPacket 1 50 false⟩, ⟨40, tcpPacket 1 50 false⟩, ⟨70, tcpPacket 1 10 true⟩]

/-- Its history from module init. -/
def sampleHistory : List Entry :=
  Lts.trace (step smallLimiter) (fun _ => resetFlow 0) sampleTraffic

theorem rate_bound_sample :
    ∃ pre c p x post, hits (tcpPacket 1 0 false).slot sampleHistory
        = (pre ++ c :: [p]) ++ x :: post ∧
      Crosses smallLimiter (tcpPacket 1 0 false).slot c ∧
      acceptedBytes smallLimiter [p] = 50 ∧ verdictOf smallLimiter x = .drop := by
  obtain ⟨T, hT⟩ : ∃ T, Lts.exec (step smallLimiter) (fun _ => resetFlow 0) sampleTraffic
      = some T := ⟨_, rfl⟩
  have hadm : Admissible smallLimiter (tcpPacket 1 0 false).slot sampleHistory :=
    ⟨by decide +kernel, by decide +kernel, by decide +kernel, by decide +kernel⟩
  have hsplit {l : List Entry} {w c p x y : Entry} (hl : l = [w, c, p, x, y]) :
      l = ([w] ++ c :: [p]) ++ x :: [y] := hl
  have hhits := hsplit (l := hits (tcpPacket 1 0 false).slot sampleHistory) rfl
  have hx := rate_bound (by decide) (by decide) rfl (Lts.exec_run hT) hadm hhits
    (by decide +kernel)
  have hcross := hx.2 _ _ _ rfl ⟨by decide +kernel, by decide +kernel⟩
  exact ⟨_, _, _, _, _, hhits, ⟨by decide +kernel, by decide +kernel⟩, by decide +kernel,
    hcross.1.mpr (by decide +kernel)⟩

end Lim

end Comp4511
