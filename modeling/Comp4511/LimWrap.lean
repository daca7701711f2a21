import Comp4511.LimCount

/-!
# When `byte_count` wraps

`byte_count` is an `unsigned int` and `byte` an `unsigned long`. As long
as no accepted packet takes `byte_count` past `2 ^ 32`, `byte` stays
below it, their difference is the true one, and a slot past the
threshold accepts again once the allowance has caught up. The first
accepted packet that does not fit makes `byte_count` fall back: for a
history from module init the two are equivalent (`no_wrap_iff`).

Nothing in the source keeps a connection below `2 ^ 32` bytes. In
`wrapped_byte_count` every packet of a connection of 4 GiB is accepted,
and `byte_count` ends below `byte`.
-/

namespace Comp4511

namespace Lim

/-- The packet of an entry, if the tests of the hook let it pass, leaves
room in `byte_count`. A FIN resets the slot anyway. -/
def Fits (P : Params) (x : Entry) : Prop :=
  x.2.skb.iph.protocol = ipprotoTcp → x.2.skb.tcph.fin = false →
    (x.1 x.2.skb.slot).byteCount < P.threshold.toUInt32 ∨
      ¬ overRate P x.2.jiffies (x.1 x.2.skb.slot) →
    (x.1 x.2.skb.slot).byteCount.toNat + x.2.skb.payloadLen.toNat < 2 ^ 32

/-- `byte <= byte_count`. -/
def Marked (flow : MyFlow) : Prop :=
  flow.byte.toNat ≤ flow.byteCount.toNat

/-- Enough time after `time`, and before the product with `rate` wraps,
every packet for slot `i` is accepted. -/
def Recovers (P : Params) (i : Slot) (T : FlowTable) : Prop :=
  ∃ d : Nat, d * 1000 * P.rate.toInt.toNat < 2 ^ 63 ∧
    ∀ a : Arrival, a.lands i = true → d ≤ (a.jiffies - (T i).time).toNat →
      (a.jiffies - (T i).time).toNat * 1000 * P.rate.toInt.toNat < 2 ^ 63 →
      verdictOf P (T, a) = .accept

/-- The tables a run passes through. -/
def visited (h : List Entry) (T : FlowTable) : List FlowTable :=
  h.map Prod.fst ++ [T]

/-! ## One packet -/

theorem overRate_claimed {P : Params} {jiffies : UInt64} {skb : SkBuff} {flow : MyFlow} :
    overRate P jiffies (claimed skb flow) ↔ overRate P jiffies flow := by
  unfold overRate
  rw [claimed_byteCount, claimed_byte, claimed_time]

section Packet

variable {P : Params} {i : Slot} {T : FlowTable} {a : Arrival}

/-- A packet that is let pass and fits does not wrap `byte_count`. -/
theorem Fits.room (hfits : Fits P (T, a)) (hland : a.lands i = true)
    (hfin : a.skb.tcph.fin = false) :
    (T i).byteCount.toNat + passedBytes P (T, a) < 2 ^ 32 := by
  obtain ⟨hproto, rfl⟩ := lands_iff.mp hland
  have hword : (T a.skb.slot).byteCount.toNat < 2 ^ 32 := UInt32.toNat_lt _
  cases hv : verdictOf P (T, a) with
  | drop =>
      rw [passedBytes_of_drop hv]
      exact hword
  | accept =>
      rw [passedBytes_of_accept hv]
      by_cases hlen : a.skb.payloadLen = 0
      · rw [hlen]
        exact hword
      refine hfits hproto hfin ?_
      by_cases hfree : (T a.skb.slot).byteCount < P.threshold.toUInt32
      · exact .inl hfree
      · right
        intro hover
        have hdrop := (verdict_over hland hlen hfree).mpr (overRate_claimed.mpr hover)
        rw [hv] at hdrop
        exact nomatch hdrop

theorem Marked.hit (hfits : Fits P (T, a)) (hland : a.lands i = true)
    (hfin : a.skb.tcph.fin = false) (hm : Marked (T i)) :
    Marked ((rateLimit P a.jiffies T a.skb).table i) := by
  have hroom := hfits.room hland hfin
  have hcount := hit_count hland hfin hroom
  unfold Marked at hm ⊢
  by_cases hfree : (T i).byteCount < P.threshold.toUInt32
  · obtain ⟨hpassed, hbyte, -⟩ := hit_free (P := P) hland hfin hfree
    rw [hpassed] at hcount hroom
    rw [hbyte, UInt64.toNat_add, UInt32.toNat_toUInt64, hcount, Nat.mod_eq_of_lt (by omega)]
    exact Nat.add_le_add_right hm _
  · obtain ⟨hbyte, -⟩ := hit_over (P := P) hland hfin hfree
    rw [hbyte, hcount]
    exact Nat.le_add_right_of_le hm

/-- A packet that fits leaves every slot it does not reset marked. -/
theorem Marked.step (hfits : Fits P (T, a)) (hm : Marked (T i)) :
    Marked ((rateLimit P a.jiffies T a.skb).table i) := by
  by_cases hland : a.lands i = true
  · cases hfin : a.skb.tcph.fin with
    | false => exact hm.hit hfits hland hfin
    | true =>
        rw [rateLimit_slot hland, hfin]
        exact Nat.le_refl 0
  · rw [rateLimit_other hland]
    exact hm

/-- A packet that fits does not lower `byte_count`. -/
theorem Fits.byteCount_le (hfits : Fits P (T, a))
    (hreset : ¬ (a.lands i = true ∧ a.skb.tcph.fin = true)) :
    (T i).byteCount ≤ ((rateLimit P a.jiffies T a.skb).table i).byteCount := by
  by_cases hland : a.lands i = true
  · have hfin : a.skb.tcph.fin = false := by
      rw [← Bool.not_eq_true]
      exact fun hfin => hreset ⟨hland, hfin⟩
    rw [UInt32.le_iff_toNat_le, hit_count hland hfin (hfits.room hland hfin)]
    exact Nat.le_add_right ..
  · rw [rateLimit_other hland]
    exact UInt32.le_refl _

/-- A sum that does not fit falls below its first term. -/
theorem add_lt_of_wrap {b len : UInt32} (h : 2 ^ 32 ≤ b.toNat + len.toNat) : b + len < b := by
  have hlen : len.toNat < 2 ^ 32 := UInt32.toNat_lt _
  have hb : b.toNat < 2 ^ 32 := UInt32.toNat_lt _
  rw [UInt32.lt_iff_toNat_lt, UInt32.toNat_add, Nat.mod_eq_sub_mod h, Nat.mod_eq_of_lt (by omega)]
  omega

/-- A packet that does not fit lowers `byte_count` of its slot. -/
theorem byteCount_lt_of_not_fits (hfits : ¬ Fits P (T, a)) :
    a.skb.tcph.fin = false ∧
      ((rateLimit P a.jiffies T a.skb).table a.skb.slot).byteCount < (T a.skb.slot).byteCount := by
  unfold Fits at hfits
  push Not at hfits
  obtain ⟨hproto, hfin, hpass, hwrap⟩ := hfits
  have hland : a.lands a.skb.slot = true := lands_iff.mpr ⟨hproto, rfl⟩
  refine ⟨hfin, ?_⟩
  have hcases := rateLimit_hit (P := P) (T := T) hland hfin
  generalize (rateLimit P a.jiffies T a.skb).table a.skb.slot = flow' at hcases ⊢
  generalize verdictOf P (T, a) = v at hcases
  dsimp only at hwrap hpass
  rw [← claimed_byteCount a.skb (T a.skb.slot)] at hwrap ⊢
  cases hcases with
  | idle hlen =>
      rw [hlen] at hwrap
      exact absurd (UInt32.toNat_lt _) (Nat.not_lt.mpr hwrap)
  | free _ _ => exact add_lt_of_wrap hwrap
  | dropped _ hfree hover =>
      rw [claimed_byteCount] at hfree
      exact absurd (overRate_claimed.mp hover) (hpass.resolve_left hfree)
  | passed _ _ _ => exact add_lt_of_wrap hwrap

end Packet

/-! ## Recovery -/

/-- After `d` jiffies the allowance of rate `r` has reached `n`. -/
theorem exists_wait {n r hz : Nat} (hr : 0 < r) (hhz : 0 < hz) :
    ∃ d, d * 1000 * r ≤ (n + r) * hz + 1000 * r ∧ ∀ e, d ≤ e → n ≤ r * (e * 1000 / hz) := by
  -- `n / r + 1` milliseconds, rounded up to jiffies
  have hlow : n < r * (n / r + 1) := Nat.lt_mul_div_succ n hr
  have hhigh : (n / r + 1) * r ≤ n + r := by
    rw [Nat.add_mul, Nat.one_mul]
    exact Nat.add_le_add_right (Nat.div_mul_le_self n r) r
  generalize n / r + 1 = q at hlow hhigh
  refine ⟨q * hz / 1000 + 1, ?_, ?_⟩
  · have hround : (q * hz / 1000 + 1) * 1000 ≤ q * hz + 1000 := by omega
    calc (q * hz / 1000 + 1) * 1000 * r ≤ (q * hz + 1000) * r := Nat.mul_le_mul_right r hround
      _ = q * r * hz + 1000 * r := by rw [Nat.add_mul, Nat.mul_right_comm]
      _ ≤ (n + r) * hz + 1000 * r := Nat.add_le_add_right (Nat.mul_le_mul_right hz hhigh) _
  · intro e he
    have hms : q ≤ e * 1000 / hz := by
      rw [Nat.le_div_iff_mul_le hhz]
      omega
    exact Nat.le_of_lt (Nat.lt_of_lt_of_le hlow (Nat.mul_le_mul_left r hms))

/-- A slot whose `byte` is below `byte_count` recovers. -/
theorem Marked.recovers {P : Params} {i : Slot} {T : FlowTable} (hm : Marked (T i))
    (hrate : 1 ≤ P.rate.toInt) (hhz : P.hz < 12288) : Recovers P i T := by
  have hr : 0 < P.rate.toInt.toNat := by omega
  have hr' : P.rate.toInt.toNat < 2 ^ 31 := by
    have hlt : P.rate.toInt < 2 ^ 31 := Int32.toInt_lt P.rate
    omega
  have hhz' : P.hz.toNat < 12288 := UInt64.lt_iff_toNat_lt.mp hhz
  have hhz₀ : 0 < P.hz.toNat := UInt64.lt_iff_toNat_lt.mp P.hz_pos
  have hn : (T i).byteCount.toNat - (T i).byte.toNat < 2 ^ 32 :=
    Nat.lt_of_le_of_lt (Nat.sub_le ..) (UInt32.toNat_lt _)
  obtain ⟨d, hd, hwait⟩ := exists_wait (n := (T i).byteCount.toNat - (T i).byte.toNat) hr hhz₀
  refine ⟨d, ?_, ?_⟩
  · have hprod : ((T i).byteCount.toNat - (T i).byte.toNat + P.rate.toInt.toNat) * P.hz.toNat
        ≤ (2 ^ 32 + 2 ^ 31) * 12288 := Nat.mul_le_mul (by omega) (Nat.le_of_lt hhz')
    omega
  · intro a hland hlate hspan
    by_cases hfree : (T i).byteCount < P.threshold.toUInt32
    · exact verdict_free hland hfree
    by_cases hlen : a.skb.payloadLen = 0
    · exact verdictOf_idle (.inr hlen)
    have hle : (T i).byte ≤ (T i).byteCount.toUInt64 := by
      rw [UInt64.le_iff_toNat_le, UInt32.toNat_toUInt64]
      exact hm
    have hwithin : ¬ overRate P a.jiffies (T i) := by
      rw [overRate, gt_iff_lt, UInt64.lt_iff_toNat_lt,
        toNat_delta_mul_rate_of_span (by omega) hspan, UInt64.toNat_sub_of_le _ _ hle,
        UInt32.toNat_toUInt64, Nat.not_lt]
      exact hwait _ hlate
    cases hv : verdictOf P (T, a) with
    | accept => rfl
    | drop => exact absurd (overRate_claimed.mp ((verdict_over hland hlen hfree).mp hv)) hwithin

/-! ## Runs -/

theorem marked_of_run {P : Params} {jiffies : Slot → UInt64} {err : Int32} {h : List Entry}
    {T : FlowTable} (hrun : Lts.Run (step P) (rateLimitInitModule jiffies err).1 h T)
    (hfits : ∀ x ∈ h, Fits P x) (i : Slot) : Marked (T i) := by
  refine hrun.inv_where (P := fun T a => Fits P (T, a)) (I := fun T => Marked (T i)) ?_ hfits ?_
  · intro T a T' hm hfits hstep
    obtain rfl : (rateLimit P a.jiffies T a.skb).table = T' := Option.some.inj hstep
    exact hm.step hfits
  · exact Nat.le_refl 0

/-- Every table a run visits ends one of its parts. -/
theorem run_of_visited {P : Params} {T₀ S T : FlowTable} {h : List Entry}
    (hrun : Lts.Run (step P) T₀ h T) (hS : S ∈ visited h T) :
    ∃ h₁ h₂, h = h₁ ++ h₂ ∧ Lts.Run (step P) T₀ h₁ S := by
  rcases List.mem_append.mp hS with hS | hS
  · obtain ⟨x, hx, rfl⟩ := List.mem_map.mp hS
    obtain ⟨h₁, h₂, rfl⟩ := List.append_of_mem hx
    exact ⟨h₁, x :: h₂, rfl, hrun.at_entry.1⟩
  · obtain rfl := List.mem_singleton.mp hS
    exact ⟨h, [], (List.append_nil h).symm, hrun⟩

/-- For a history from module init: every packet that is let pass fits,
exactly when in every table visited every slot has `byte <= byte_count`,
the `unsigned long` difference is the true one and the slot recovers,
and no packet but a FIN for the slot lowers its `byte_count`. -/
theorem no_wrap_iff {P : Params} {jiffies : Slot → UInt64} {err : Int32} {h : List Entry}
    {T : FlowTable} (hrate : 1 ≤ P.rate.toInt) (hhz : P.hz < 12288)
    (hrun : Lts.Run (step P) (rateLimitInitModule jiffies err).1 h T) :
    (∀ x ∈ h, Fits P x) ↔
      (∀ S ∈ visited h T, ∀ i : Slot, (S i).byte.toNat ≤ (S i).byteCount.toNat ∧
        ((S i).byteCount.toUInt64 - (S i).byte).toNat
          = (S i).byteCount.toNat - (S i).byte.toNat ∧
        Recovers P i S) ∧
      ∀ x ∈ h, ∀ i : Slot, ¬ (x.2.lands i = true ∧ x.2.skb.tcph.fin = true) →
        (x.1 i).byteCount ≤ ((rateLimit P x.2.jiffies x.1 x.2.skb).table i).byteCount := by
  constructor
  · intro hfits
    refine ⟨fun S hS i => ?_, fun x hx i => (hfits x hx).byteCount_le⟩
    obtain ⟨h₁, h₂, rfl, hrunS⟩ := run_of_visited hrun hS
    have hm : Marked (S i) :=
      marked_of_run hrunS (fun x hx => hfits x (List.mem_append_left _ hx)) i
    refine ⟨hm, ?_, hm.recovers hrate hhz⟩
    have hle : (S i).byte ≤ (S i).byteCount.toUInt64 := by
      rw [UInt64.le_iff_toNat_le, UInt32.toNat_toUInt64]
      exact hm
    rw [UInt64.toNat_sub_of_le _ _ hle, UInt32.toNat_toUInt64]
  · intro hclaim x hx
    by_contra hfits
    obtain ⟨hfin, hlt⟩ := byteCount_lt_of_not_fits hfits
    have hle := hclaim.2 x hx x.2.skb.slot (fun hreset => by simp [hfin] at hreset)
    exact absurd hlt (UInt32.not_lt.mpr hle)

theorem no_wrap_iff_sample :
    ∃ T, Lts.Run (step smallLimiter) (rateLimitInitModule (fun _ => 0) 0).1 sampleHistory T ∧
      (∀ x ∈ sampleHistory, Fits smallLimiter x) ∧
      ∀ S ∈ visited sampleHistory T, Recovers smallLimiter (tcpPacket 1 0 false).slot S := by
  obtain ⟨T, hT⟩ : ∃ T, Lts.exec (step smallLimiter) (fun _ => resetFlow 0) sampleTraffic
      = some T := ⟨_, rfl⟩
  have hrun : Lts.Run (step smallLimiter) (rateLimitInitModule (fun _ => 0) 0).1
      sampleHistory T := Lts.exec_run hT
  have hfits : ∀ x ∈ sampleHistory, Fits smallLimiter x := by
    have hall : ∀ x ∈ sampleHistory,
        (x.1 x.2.skb.slot).byteCount.toNat + x.2.skb.payloadLen.toNat < 2 ^ 32 := by
      decide +kernel
    exact fun x hx _ _ _ => hall x hx
  have hclaim := (no_wrap_iff (by decide) (by decide) hrun).mp hfits
  exact ⟨T, hrun, hfits, fun S hS => (hclaim.1 S hS _).2.2⟩

/-! ## A connection of 4 GiB -/

/-- One byte free, then the largest `rate`. -/
def fastLimiter : Params where
  threshold := 1
  rate := 2147483647
  hz := 1000
  hz_pos := smallLimiter.hz_pos

/-- A packet of 32 KiB of one connection. -/
def bulkPacket : SkBuff := tcpPacket 1 32768 false

theorem bulkPacket_lands (jiffies : UInt64) :
    Arrival.lands bulkPacket.slot ⟨jiffies, bulkPacket⟩ = true :=
  lands_iff.mpr ⟨rfl, rfl⟩

theorem bulkPacket_payloadLen : bulkPacket.payloadLen = 32768 := by decide +kernel

/-- The first packet crosses the threshold and leaves the mark. -/
theorem bulk_first : Limited fastLimiter 0 32768
    ((rateLimit fastLimiter 0 (rateLimitInitModule (fun _ => 0) 0).1 bulkPacket).table
      bulkPacket.slot) 32768 :=
  ⟨by decide +kernel, by decide +kernel, by decide +kernel, by decide +kernel⟩

/-- Three milliseconds later the allowance is above `2 ^ 32`, so nothing
is dropped while `byte_count` has room. -/
theorem bulk_accepted {T : FlowTable} {m : Nat} (hm : m ≤ 2 ^ 32)
    (hl : Limited fastLimiter 0 32768 (T bulkPacket.slot) (32768 + m)) :
    verdictOf fastLimiter (T, ⟨3, bulkPacket⟩) = .accept := by
  have hlen : bulkPacket.payloadLen ≠ 0 := by
    rw [bulkPacket_payloadLen]
    decide
  have hallow : allowance fastLimiter 0 3 = 6442450941 := by decide
  have hdrop := hl.verdict (a := ⟨3, bulkPacket⟩) (by decide) (bulkPacket_lands 3) hlen
    (by decide) (by decide)
  dsimp only at hdrop
  rw [hallow] at hdrop
  cases hv : verdictOf fastLimiter (T, ⟨3, bulkPacket⟩) with
  | accept => rfl
  | drop =>
      have hlt := hdrop.mp hv
      omega

theorem bulk_step {T : FlowTable} {k : Nat} (hk : k + 2 < 131072)
    (hl : Limited fastLimiter 0 32768 (T bulkPacket.slot) (32768 + k * 32768)) :
    Limited fastLimiter 0 32768 ((rateLimit fastLimiter 3 T bulkPacket).table bulkPacket.slot)
      (32768 + (k + 1) * 32768) := by
  have hv := bulk_accepted (by omega) hl
  have hpassed : passedBytes fastLimiter (T, ⟨3, bulkPacket⟩) = 32768 := by
    rw [passedBytes_of_accept hv]
    exact congrArg UInt32.toNat bulkPacket_payloadLen
  have hnext := hl.hit (a := ⟨3, bulkPacket⟩) (bulkPacket_lands 3) rfl
    (by rw [hpassed]; omega)
  rw [hpassed, Nat.add_assoc, ← Nat.succ_mul] at hnext
  exact hnext

/-- While `k + 1` packets of 32 KiB are less than 4 GiB, `byte_count`
counts them. -/
theorem bulk_run {T : FlowTable} {k : Nat} (hk : k + 1 < 131072)
    (hl : Limited fastLimiter 0 32768 (T bulkPacket.slot) 32768) :
    ∃ T', Lts.exec (step fastLimiter) T (List.replicate k ⟨3, bulkPacket⟩) = some T' ∧
      Limited fastLimiter 0 32768 (T' bulkPacket.slot) (32768 + k * 32768) := by
  induction k with
  | zero => exact ⟨T, rfl, hl⟩
  | succ k ih =>
      obtain ⟨T', hexec, hl'⟩ := ih (by omega)
      refine ⟨_, ?_, bulk_step (by omega) hl'⟩
      rw [List.replicate_succ', Lts.exec_append, hexec]
      rfl

/-- The packet that completes 4 GiB is accepted and leaves `byte_count`
at zero. -/
theorem bulk_last {T : FlowTable}
    (hl : Limited fastLimiter 0 32768 (T bulkPacket.slot) (32768 + 131070 * 32768)) :
    ((rateLimit fastLimiter 3 T bulkPacket).table bulkPacket.slot).byteCount = 0 ∧
      ((rateLimit fastLimiter 3 T bulkPacket).table bulkPacket.slot).byte.toNat = 32768 := by
  have hv := bulk_accepted (by decide) hl
  have hlen : bulkPacket.payloadLen ≠ 0 := by
    rw [bulkPacket_payloadLen]
    decide
  obtain ⟨hcount, hreached, -, hmark⟩ := hl
  constructor
  · have hbyte := (charged_hit (P := fastLimiter) (T := T) (bulkPacket_lands 3) hlen).byte
    rw [hv, if_pos rfl, bulkPacket_payloadLen] at hbyte
    rw [show (rateLimit fastLimiter 3 T bulkPacket).table bulkPacket.slot
      = countedFlow fastLimiter bulkPacket.slot (T, ⟨3, bulkPacket⟩) from
        rateLimit_slot (bulkPacket_lands 3), hbyte]
    rw [← UInt32.toNat_inj, UInt32.toNat_add, hcount]
    decide
  · obtain ⟨hbyte, -⟩ := hit_over (P := fastLimiter) (bulkPacket_lands 3) rfl hreached
    exact (congrArg UInt64.toNat hbyte).trans hmark

/-- A connection of `2 ^ 17` packets of 32 KiB, none dropped: `byte_count`
ends below `byte`. -/
theorem wrapped_byte_count :
    ∃ T, Lts.exec (step fastLimiter) (rateLimitInitModule (fun _ => 0) 0).1
        (⟨0, bulkPacket⟩ :: List.replicate 131070 ⟨3, bulkPacket⟩ ++ [⟨3, bulkPacket⟩])
        = some T ∧
      ¬ (T bulkPacket.slot).byte.toNat ≤ (T bulkPacket.slot).byteCount.toNat := by
  obtain ⟨T, hexec, hl⟩ := bulk_run (k := 131070) (by decide) bulk_first
  obtain ⟨hcount, hbyte⟩ := bulk_last hl
  refine ⟨(rateLimit fastLimiter 3 T bulkPacket).table, ?_, ?_⟩
  · rw [List.cons_append, Lts.exec, step, Option.bind_some, Lts.exec_append, hexec]
    rfl
  · rw [hcount, hbyte]
    decide

end Lim

end Comp4511
