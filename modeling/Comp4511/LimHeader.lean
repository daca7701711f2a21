import Comp4511.LimWrap

/-!
# Packets with a wrong data offset

`payload_len` is a difference of header fields in an `unsigned int`. The IP
layer has checked that the IP header fits into the packet, but nobody has
checked the data offset of the TCP header when the hook sees it: where it
points behind the end of the packet, `payload_len` is `2 ^ 32` less a few
bytes.

`toNat_payloadLen` is what `payload_len` comes to. A packet adds it to one
of the two byte counters, so that the counters move by what the packet can
carry just when it has not wrapped and the sum does not either; a counter
of dropped bytes that is large enough falls back instead
(`accounting_sound_iff`).
-/

namespace Comp4511

namespace Lim

/-- A TCP packet as the IP layer hands it to pre-routing: the header has its
five words at least, and is in the packet. -/
structure SkBuff.Delivered (skb : SkBuff) : Prop where
  protocol : skb.iph.protocol = ipprotoTcp
  ihl : 5 ≤ skb.iph.ihl.val
  totLen : 4 * skb.iph.ihl.val ≤ (ntohs skb.iph.totLen).toNat

/-- The bytes behind the IP header. -/
def SkBuff.segmentLen (skb : SkBuff) : Nat := (ntohs skb.iph.totLen).toNat - 4 * skb.iph.ihl.val

/-- The bytes of the TCP header, by its data offset. -/
def SkBuff.headerLen (skb : SkBuff) : Nat := 4 * skb.tcph.doff.val

/-- A packet moves the byte counters of its slot by at most what is behind
its IP header, and lowers `byte_count` only with a FIN. -/
def AccountingSound (P : Params) (jiffies : UInt64) (T : FlowTable) (skb : SkBuff) : Prop :=
  let before := T skb.slot
  let after := (rateLimit P jiffies T skb).table skb.slot
  after.byteCount.toNat + after.byteDropCount.toNat
      ≤ before.byteCount.toNat + before.byteDropCount.toNat + skb.segmentLen ∧
    (skb.tcph.fin = false → before.byteCount ≤ after.byteCount)

/-- The tests of the hook let the packet pass. -/
def LetsPass (P : Params) (jiffies : UInt64) (flow : MyFlow) : Prop :=
  flow.byteCount < P.threshold.toUInt32 ∨ ¬ overRate P jiffies flow

/-- A packet that is let pass has its TCP header inside it and leaves room
in `byte_count`. One that is not has its TCP header inside it too, or takes
less from `byte_drop_count` than there is. -/
def HeaderFits (P : Params) (jiffies : UInt64) (T : FlowTable) (skb : SkBuff) : Prop :=
  (LetsPass P jiffies (T skb.slot) → skb.headerLen ≤ skb.segmentLen ∧
    (T skb.slot).byteCount.toNat + (skb.segmentLen - skb.headerLen) < 2 ^ 32) ∧
  (¬ LetsPass P jiffies (T skb.slot) → skb.headerLen ≤ skb.segmentLen ∨
    skb.headerLen - skb.segmentLen ≤ (T skb.slot).byteDropCount.toNat)

section Lengths

variable {skb : SkBuff}

theorem headerLen_le (skb : SkBuff) : skb.headerLen ≤ 60 := by
  have hdoff := skb.tcph.doff.isLt
  rw [SkBuff.headerLen]
  omega

theorem segmentLen_lt (skb : SkBuff) : skb.segmentLen < 2 ^ 16 := by
  have htot : (ntohs skb.iph.totLen).toNat < 2 ^ 16 := UInt16.toNat_lt _
  rw [SkBuff.segmentLen]
  omega

/-- `payload_len` wraps where the TCP header does not fit. -/
theorem toNat_payloadLen (h : skb.Delivered) :
    skb.payloadLen.toNat = if skb.headerLen ≤ skb.segmentLen then skb.segmentLen - skb.headerLen
      else 2 ^ 32 - (skb.headerLen - skb.segmentLen) := by
  have hseg := segmentLen_lt skb
  have hhead := headerLen_le skb
  have hdiff : ((ntohs skb.iph.totLen).toNat - (skb.iph.ihl.val <<< 2 : Nat)
      - (skb.tcph.doff.val <<< 2 : Nat) : Int) = (skb.segmentLen : Int) - skb.headerLen := by
    have htot := h.totLen
    rw [SkBuff.segmentLen, SkBuff.headerLen, Nat.shiftLeft_eq, Nat.shiftLeft_eq]
    omega
  rw [SkBuff.payloadLen, hdiff, UInt32.ofInt, UInt32.toNat_ofNat']
  split <;> omega

end Lengths

section Packet

variable {P : Params} {jiffies : UInt64} {T : FlowTable} {skb : SkBuff}

/-- What a packet without a FIN adds, and to which counter. -/
theorem counters_of_packet (P : Params) (jiffies : UInt64) (T : FlowTable) (h : skb.Delivered)
    (hfin : skb.tcph.fin = false) :
    let before := T skb.slot
    let after := (rateLimit P jiffies T skb).table skb.slot
    (LetsPass P jiffies before → after.byteCount = before.byteCount + skb.payloadLen ∧
      after.byteDropCount = before.byteDropCount) ∧
    (¬ LetsPass P jiffies before → after.byteCount = before.byteCount ∧
      after.byteDropCount = before.byteDropCount + skb.payloadLen) := by
  have hland : Arrival.lands skb.slot ⟨jiffies, skb⟩ = true := lands_iff.mpr ⟨h.protocol, rfl⟩
  have hcases := rateLimit_hit (P := P) (T := T) hland hfin
  dsimp only at hcases ⊢
  generalize verdictOf P (T, ⟨jiffies, skb⟩) = v at hcases
  generalize (rateLimit P jiffies T skb).table skb.slot = flow' at hcases ⊢
  obtain ⟨_, _, _, _, hclaim⟩ := claimed_counters skb (T skb.slot)
  rw [hclaim] at hcases
  cases hcases with
  | idle hlen =>
      rw [hlen]
      simp
  | free _ hfree =>
      have hpass : LetsPass P jiffies (T skb.slot) := .inl hfree
      exact ⟨fun _ => ⟨rfl, rfl⟩, fun hnot => absurd hpass hnot⟩
  | dropped _ hfree hover =>
      have hnot : ¬ LetsPass P jiffies (T skb.slot) := by
        rintro (hless | hrate)
        · exact hfree hless
        · exact hrate hover
      exact ⟨fun hpass => absurd hpass hnot, fun _ => ⟨rfl, rfl⟩⟩
  | passed _ _ hover =>
      have hpass : LetsPass P jiffies (T skb.slot) := .inr hover
      exact ⟨fun _ => ⟨rfl, rfl⟩, fun hnot => absurd hpass hnot⟩

/-- Adding a payload moves a counter by at most the segment just when
nothing wraps, if it is not to fall. -/
theorem add_payload_iff (h : skb.Delivered) (b : UInt32) :
    ((b + skb.payloadLen).toNat ≤ b.toNat + skb.segmentLen ∧ b ≤ b + skb.payloadLen) ↔
      skb.headerLen ≤ skb.segmentLen ∧ b.toNat + (skb.segmentLen - skb.headerLen) < 2 ^ 32 := by
  have hseg := segmentLen_lt skb
  have hhead := headerLen_le skb
  have hb : b.toNat < 2 ^ 32 := UInt32.toNat_lt _
  rw [UInt32.le_iff_toNat_le, UInt32.toNat_add, toNat_payloadLen h]
  split <;> omega

/-- And otherwise if it may fall. -/
theorem add_payload_le_iff (h : skb.Delivered) (b : UInt32) :
    (b + skb.payloadLen).toNat ≤ b.toNat + skb.segmentLen ↔
      skb.headerLen ≤ skb.segmentLen ∨ skb.headerLen - skb.segmentLen ≤ b.toNat := by
  have hseg := segmentLen_lt skb
  have hhead := headerLen_le skb
  have hb : b.toNat < 2 ^ 32 := UInt32.toNat_lt _
  rw [UInt32.toNat_add, toNat_payloadLen h]
  split <;> omega

/-- A packet of the IP layer keeps the accounting sound just when it resets
its slot or nothing wraps on its way into a counter. -/
theorem accounting_sound_iff (h : skb.Delivered) :
    AccountingSound P jiffies T skb ↔ skb.tcph.fin = true ∨ HeaderFits P jiffies T skb := by
  cases hfin : skb.tcph.fin with
  | true =>
      have hland : Arrival.lands skb.slot ⟨jiffies, skb⟩ = true := lands_iff.mpr ⟨h.protocol, rfl⟩
      have hreset := rateLimit_slot (P := P) (T := T) hland
      dsimp only at hreset
      rw [hfin, if_pos rfl] at hreset
      simp [AccountingSound, hreset, hfin, resetFlow]
  | false =>
      obtain ⟨hpass, hdrop⟩ := counters_of_packet P jiffies T h hfin
      have hadd := add_payload_iff h (T skb.slot).byteCount
      have hle := add_payload_le_iff h (T skb.slot).byteDropCount
      by_cases hlets : LetsPass P jiffies (T skb.slot)
      · obtain ⟨hcount, hdropped⟩ := hpass hlets
        simp only [AccountingSound, HeaderFits, hcount, hdropped, hfin, hlets, ← hadd]
        simp
        omega
      · obtain ⟨hcount, hdropped⟩ := hdrop hlets
        simp only [AccountingSound, HeaderFits, hcount, hdropped, hfin, hlets, ← hle]
        simp
        omega

end Packet

theorem accounting_sound_iff_sample : AccountingSound smallLimiter 10
    (rateLimitInitModule (fun _ => 0) 0).1 (tcpPacket 1 60 false) := by
  have hpass : LetsPass smallLimiter 10
      ((rateLimitInitModule (fun _ => 0) 0).1 (tcpPacket 1 60 false).slot) :=
    .inl (by decide +kernel)
  refine (accounting_sound_iff ⟨rfl, by decide, by decide +kernel⟩).mpr (.inr ⟨fun _ => ?_, ?_⟩)
  · decide +kernel
  · exact fun hnot => absurd hpass hnot

/-- A segment with a data offset of fifteen words and nothing behind the IP
header. -/
def shortSegment : SkBuff where
  iph := { ihl := 5, totLen := ntohs 20, protocol := ipprotoTcp, saddr := 1, daddr := 1 }
  tcph := { source := ntohs 1, dest := ntohs 1, doff := 15, fin := false }

/-- It may be the first packet after module init. -/
theorem short_segment_wraps : shortSegment.Delivered ∧
    ((rateLimit smallLimiter 0 (rateLimitInitModule (fun _ => 0) 0).1 shortSegment).table
      shortSegment.slot).byteCount = 4294967236 ∧
    ¬ AccountingSound smallLimiter 0 (rateLimitInitModule (fun _ => 0) 0).1 shortSegment := by
  refine ⟨⟨rfl, by decide, by decide +kernel⟩, by decide +kernel, ?_⟩
  intro hsound
  exact absurd hsound.1 (by decide +kernel)

end Lim

end Comp4511
