import Comp4511.PsStat

/-!
# Times on display

`uptime` of `info.c` shows a number of seconds as days, hours, minutes and
seconds, `main` of `myps.c` as hours, minutes and seconds. The two are
lossless if the fields give the number back; then different numbers are
displayed differently, because the text gives the fields back.

`uptime` takes the hours modulo 10, so it is lossless only in the first ten
hours of every five days (`hours_eq_iff`).
-/

namespace Comp4511

open CStr Scanf

/-! ## Fields -/

namespace Ps

/-- The arguments of the `sprintf` in `main`. -/
structure Clock where
  hours : Int32
  minutes : Int32
  seconds : Int32
deriving Repr, DecidableEq

def clock (time : Int32) : Clock where
  hours := (time / 3600) % 100
  minutes := (time / 60) % 60
  seconds := time % 60

end Ps

namespace Info

/-- The variables of `uptime`. -/
structure Uptime where
  days : Int32
  hours : Int32
  minutes : Int32
  seconds : Int32
deriving Repr, DecidableEq

def uptimeFields (num : Int32) : Uptime where
  days := num / 86400
  hours := (num / 3600) % 10
  minutes := (num / 60) % 60
  seconds := num % 60

end Info

/-- `printf` with `%02d`. -/
def twoDigits (n : ℤ) : List Char := (signed n).leftpad 2 '0'

/-- `%02d:%02d:%02d`. -/
def Ps.Clock.text (t : Ps.Clock) : List Char :=
  twoDigits t.hours.toInt ++ ':' :: (twoDigits t.minutes.toInt ++ ':' :: twoDigits t.seconds.toInt)

/-- `Uptime: %d day(s), %d:%02d:%02d`. -/
def Info.Uptime.text (t : Info.Uptime) : List Char :=
  "Uptime: ".toList ++ (signed t.days.toInt ++ (" day(s), ".toList ++ (signed t.hours.toInt
    ++ ':' :: (twoDigits t.minutes.toInt ++ ':' :: (twoDigits t.seconds.toInt ++ ['\n'])))))

def Info.uptimePath : List Char := "/proc/uptime".toList

/-- What `uptime` prints. -/
def Info.uptime (files : Files) (junk : Info.Junk) : Except Fault (List Char) :=
  match files Info.uptimePath with
  | none => .error .file
  | some fp =>
      let buffer := (fgetsInto bufferSize junk.buffer fp).1
      let num := intAt (sscanf buffer "%d") 0 junk.num
      .ok (Info.uptimeFields num).text

/-- The fields give the number of seconds back. -/
structure Info.Uptime.Lossless (t : Info.Uptime) (n : ℕ) : Prop where
  sum : 86400 * t.days.toInt + 3600 * t.hours.toInt + 60 * t.minutes.toInt + t.seconds.toInt = n
  hours : t.hours.toInt < 24
  minutes : t.minutes.toInt < 60
  seconds : t.seconds.toInt < 60

structure Ps.Clock.Lossless (t : Ps.Clock) (n : ℕ) : Prop where
  sum : 3600 * t.hours.toInt + 60 * t.minutes.toInt + t.seconds.toInt = n
  minutes : t.minutes.toInt < 60
  seconds : t.seconds.toInt < 60

/-! ## Arithmetic -/

/-- Division and remainder by a number that is not negative. -/
theorem toInt_div_of_nat (num : Int32) {k : Int32} {d : ℕ} (hk : k.toInt = d) :
    (num / k).toInt = num.toInt.tdiv d := by
  have hne : k ≠ -1 := by
    rintro rfl
    exact absurd hk (by simp)
  rw [Int32.toInt_div_of_ne_right _ _ hne, hk]

theorem toInt_mod_of_nat (num : Int32) {m : Int32} {d : ℕ} (hm : m.toInt = d) :
    (num % m).toInt = num.toInt.tmod d := by
  rw [Int32.toInt_mod, hm]

/-- The fields of a number that is not negative. -/
theorem Info.toInt_uptimeFields {num : Int32} {n : ℕ} (h : num.toInt = n) :
    (uptimeFields num).days.toInt = (n / 86400 : ℕ) ∧
    (uptimeFields num).hours.toInt = (n / 3600 % 10 : ℕ) ∧
    (uptimeFields num).minutes.toInt = (n / 60 % 60 : ℕ) ∧
    (uptimeFields num).seconds.toInt = (n % 60 : ℕ) := by
  refine ⟨?_, ?_, ?_, ?_⟩
  · rw [uptimeFields, toInt_div_of_nat num (d := 86400) rfl, h, ← Int.ofNat_tdiv]
  · rw [uptimeFields, toInt_mod_of_nat _ (d := 10) rfl, toInt_div_of_nat num (d := 3600) rfl, h,
      ← Int.ofNat_tdiv, ← Int.ofNat_tmod]
  · rw [uptimeFields, toInt_mod_of_nat _ (d := 60) rfl, toInt_div_of_nat num (d := 60) rfl, h,
      ← Int.ofNat_tdiv, ← Int.ofNat_tmod]
  · rw [uptimeFields, toInt_mod_of_nat _ (d := 60) rfl, h, ← Int.ofNat_tmod]

/-- No field of a negative number is positive. -/
theorem Info.uptimeFields_nonpos {num : Int32} (h : num.toInt < 0) :
    (uptimeFields num).days.toInt ≤ 0 ∧ (uptimeFields num).hours.toInt ≤ 0 ∧
    (uptimeFields num).minutes.toInt ≤ 0 ∧ (uptimeFields num).seconds.toInt ≤ 0 := by
  obtain ⟨n, hn⟩ : ∃ n : ℕ, num.toInt = -n := ⟨num.toInt.natAbs, by omega⟩
  refine ⟨?_, ?_, ?_, ?_⟩
  · rw [uptimeFields, toInt_div_of_nat num (d := 86400) rfl, hn, Int.neg_tdiv, ← Int.ofNat_tdiv]
    omega
  · rw [uptimeFields, toInt_mod_of_nat _ (d := 10) rfl, toInt_div_of_nat num (d := 3600) rfl, hn,
      Int.neg_tdiv, Int.neg_tmod, ← Int.ofNat_tdiv, ← Int.ofNat_tmod]
    omega
  · rw [uptimeFields, toInt_mod_of_nat _ (d := 60) rfl, toInt_div_of_nat num (d := 60) rfl, hn,
      Int.neg_tdiv, Int.neg_tmod, ← Int.ofNat_tdiv, ← Int.ofNat_tmod]
    omega
  · rw [uptimeFields, toInt_mod_of_nat _ (d := 60) rfl, hn, Int.neg_tmod, ← Int.ofNat_tmod]
    omega

/-- The fields of the clock. -/
theorem Ps.toInt_clock {num : Int32} {n : ℕ} (h : num.toInt = n) :
    (clock num).hours.toInt = (n / 3600 % 100 : ℕ) ∧
    (clock num).minutes.toInt = (n / 60 % 60 : ℕ) ∧
    (clock num).seconds.toInt = (n % 60 : ℕ) := by
  refine ⟨?_, ?_, ?_⟩
  · rw [clock, toInt_mod_of_nat _ (d := 100) rfl, toInt_div_of_nat num (d := 3600) rfl, h,
      ← Int.ofNat_tdiv, ← Int.ofNat_tmod]
  · rw [clock, toInt_mod_of_nat _ (d := 60) rfl, toInt_div_of_nat num (d := 60) rfl, h,
      ← Int.ofNat_tdiv, ← Int.ofNat_tmod]
  · rw [clock, toInt_mod_of_nat _ (d := 60) rfl, h, ← Int.ofNat_tmod]

/-- The hours of the day are the hours modulo 10 on every fifth day until
ten o'clock. -/
theorem hours_eq_iff (h : ℕ) : h % 10 = h % 24 ↔ h % 120 < 10 := by
  omega

/-- The number that `%d` reads. -/
def readSeconds (n : ℕ) : Int32 := Int32.ofInt (clamp n)

theorem toInt_readSeconds {n : ℕ} (h : n < 2 ^ 31) : (readSeconds n).toInt = n := by
  rw [readSeconds, ofInt_clamp (by omega), Int32.toInt_ofNat_of_lt h]

/-- A number that does not fit is read as a negative or a smaller one. -/
theorem toInt_readSeconds_of_ge {n : ℕ} (h : 2 ^ 31 ≤ n) :
    (readSeconds n).toInt < 0 ∨ ∃ k : ℕ, (readSeconds n).toInt = k ∧ k < 2 ^ 31 ∧ 2 ^ 32 ≤ n := by
  by_cases hbig : n < 2 ^ 63
  · have hwrap : (readSeconds n).toInt = (n : ℤ).bmod (2 ^ 32) := by
      rw [readSeconds, ofInt_clamp hbig]
      exact Int32.toInt_ofNat'
    rw [hwrap, Int.bmod_eq_emod]
    by_cases hhigh : 2 ^ 31 ≤ n % 2 ^ 32
    · left
      split <;> omega
    · right
      exact ⟨n % 2 ^ 32, by split <;> omega, by omega, by omega⟩
  · have hone : readSeconds n = -1 := by
      have hclamp : clamp n = 2 ^ 63 - 1 := by
        unfold clamp
        omega
      rw [readSeconds, hclamp]
      decide
    rw [hone]
    exact .inl (by decide)

/-- When `uptime` is lossless. -/
theorem Info.lossless_iff (n : ℕ) :
    (uptimeFields (readSeconds n)).Lossless n ↔ n < 2 ^ 31 ∧ n % 432000 < 36000 := by
  by_cases hsmall : n < 2 ^ 31
  · obtain ⟨hdays, hhours, hminutes, hseconds⟩ := toInt_uptimeFields (toInt_readSeconds hsmall)
    have hhour := hours_eq_iff (n / 3600)
    constructor
    · intro hlossless
      have hsum := hlossless.sum
      rw [hdays, hhours, hminutes, hseconds] at hsum
      omega
    · rintro ⟨-, hcond⟩
      refine ⟨?_, ?_, ?_, ?_⟩
      · rw [hdays, hhours, hminutes, hseconds]
        omega
      · rw [hhours]
        omega
      · rw [hminutes]
        omega
      · rw [hseconds]
        omega
  · refine ⟨fun hlossless => ?_, fun h => absurd h.1 hsmall⟩
    have hsum := hlossless.sum
    rcases toInt_readSeconds_of_ge (Nat.le_of_not_lt hsmall) with hneg | ⟨k, hk, hlt, hge⟩
    · obtain ⟨hdays, hhours, hminutes, hseconds⟩ := uptimeFields_nonpos hneg
      omega
    · obtain ⟨hdays, hhours, hminutes, hseconds⟩ := toInt_uptimeFields hk
      rw [hdays, hhours, hminutes, hseconds] at hsum
      omega

theorem Ps.lossless_clock {n : ℕ} (h : n < 360000) : (clock (Int32.ofNat n)).Lossless n := by
  obtain ⟨hhours, hminutes, hseconds⟩ := toInt_clock (Int32.toInt_ofNat_of_lt (n := n) (by omega))
  refine ⟨?_, ?_, ?_⟩
  · rw [hhours, hminutes, hseconds]
    omega
  · rw [hminutes]
    omega
  · rw [hseconds]
    omega

/-! ## Texts -/

section Texts

variable {n m : ℤ}

/-- Numbers that are not followed by a digit can be told from what
follows. -/
theorem digits_append_inj {l l' t t' : List Char} (hl : ∀ c ∈ l, c.isDigit = true)
    (hl' : ∀ c ∈ l', c.isDigit = true) (ht : ∀ c ∈ t.head?, c.isDigit = false)
    (ht' : ∀ c ∈ t'.head?, c.isDigit = false) (h : l ++ t = l' ++ t') : l = l' ∧ t = t' := by
  have htake := congrArg (List.takeWhile Char.isDigit) h
  have hdrop := congrArg (List.dropWhile Char.isDigit) h
  rw [takeWhile_digits hl ht, takeWhile_digits hl' ht'] at htake
  rw [dropWhile_digits hl ht, dropWhile_digits hl' ht'] at hdrop
  exact ⟨htake, hdrop⟩

theorem signed_of_nonneg (h : 0 ≤ n) : signed n = decimal n.toNat := by
  obtain ⟨k, rfl⟩ := Int.eq_ofNat_of_zero_le h
  exact signed_natCast k

theorem digits_twoDigits (h : 0 ≤ n) : ∀ c ∈ twoDigits n, c.isDigit = true := by
  intro c hc
  rw [twoDigits, signed_of_nonneg h, List.leftpad, List.mem_append] at hc
  rcases hc with hc | hc
  · rw [List.eq_of_mem_replicate hc]
    decide
  · exact decimal_digits _ c hc

theorem signed_inj (hn : 0 ≤ n) (hm : 0 ≤ m) (h : signed n = signed m) : n = m := by
  rw [signed_of_nonneg hn, signed_of_nonneg hm] at h
  have hvalue := congrArg (fun l => Nat.ofDigitChars 10 l 0) h
  simp only [decimal, Nat.ofDigitChars_ten_toDigits] at hvalue
  omega

theorem twoDigits_inj (hn : 0 ≤ n) (hm : 0 ≤ m) (h : twoDigits n = twoDigits m) : n = m := by
  rw [twoDigits, twoDigits, signed_of_nonneg hn, signed_of_nonneg hm] at h
  have hvalue := congrArg (fun l => Nat.ofDigitChars 10 l 0) h
  simp only [List.leftpad, Nat.ofDigitChars_append, Nat.ofDigitChars_replicate_zero, Nat.mul_zero,
    decimal, Nat.ofDigitChars_ten_toDigits] at hvalue
  omega

/-- The text of a clock gives the fields back. -/
theorem Ps.Clock.eq_of_text {a b : Ps.Clock}
    (ha : 0 ≤ a.hours.toInt ∧ 0 ≤ a.minutes.toInt ∧ 0 ≤ a.seconds.toInt)
    (hb : 0 ≤ b.hours.toInt ∧ 0 ≤ b.minutes.toInt ∧ 0 ≤ b.seconds.toInt) (h : a.text = b.text) :
    a.hours.toInt = b.hours.toInt ∧ a.minutes.toInt = b.minutes.toInt ∧
      a.seconds.toInt = b.seconds.toInt := by
  obtain ⟨hhours, h⟩ := digits_append_inj (digits_twoDigits ha.1) (digits_twoDigits hb.1)
    (by simp) (by simp) h
  obtain ⟨hminutes, h⟩ := digits_append_inj (digits_twoDigits ha.2.1) (digits_twoDigits hb.2.1)
    (by simp) (by simp) (List.cons.inj h).2
  exact ⟨twoDigits_inj ha.1 hb.1 hhours, twoDigits_inj ha.2.1 hb.2.1 hminutes,
    twoDigits_inj ha.2.2 hb.2.2 (List.cons.inj h).2⟩

/-- So does that of the uptime. -/
theorem Info.Uptime.eq_of_text {a b : Info.Uptime}
    (ha : 0 ≤ a.days.toInt ∧ 0 ≤ a.hours.toInt ∧ 0 ≤ a.minutes.toInt ∧ 0 ≤ a.seconds.toInt)
    (hb : 0 ≤ b.days.toInt ∧ 0 ≤ b.hours.toInt ∧ 0 ≤ b.minutes.toInt ∧ 0 ≤ b.seconds.toInt)
    (h : a.text = b.text) :
    a.days.toInt = b.days.toInt ∧ a.hours.toInt = b.hours.toInt ∧
      a.minutes.toInt = b.minutes.toInt ∧ a.seconds.toInt = b.seconds.toInt := by
  have hdigits : ∀ {n : ℤ}, 0 ≤ n → ∀ c ∈ signed n, c.isDigit = true := by
    intro n hn
    rw [signed_of_nonneg hn]
    exact decimal_digits _
  replace h := List.append_cancel_left h
  obtain ⟨hdays, h⟩ := digits_append_inj (hdigits ha.1) (hdigits hb.1) (by simp)
    (by simp) h
  obtain ⟨hhours, h⟩ := digits_append_inj (hdigits ha.2.1) (hdigits hb.2.1) (by simp)
    (by simp) (List.append_cancel_left h)
  obtain ⟨hminutes, h⟩ := digits_append_inj (digits_twoDigits ha.2.2.1)
    (digits_twoDigits hb.2.2.1) (by simp) (by simp) (List.cons.inj h).2
  have hseconds := List.append_cancel_right (List.cons.inj h).2
  exact ⟨signed_inj ha.1 hb.1 hdays, signed_inj ha.2.1 hb.2.1 hhours,
    twoDigits_inj ha.2.2.1 hb.2.2.1 hminutes, twoDigits_inj ha.2.2.2 hb.2.2.2 hseconds⟩

end Texts

/-- What `uptime` makes of the file that the kernel prints. -/
theorem Info.uptime_eq {files : Files} {n : ℕ} (hn : n < 2 ^ 64) {rest : List Char}
    (h : files uptimePath = some (decimal n ++ '.' :: rest)) (junk : Info.Junk) :
    uptime files junk = .ok (uptimeFields (readSeconds n)).text := by
  have hlen : (decimal n).length ≤ 20 := length_decimal_le (by omega)
  obtain ⟨tail, htext, htail⟩ := text_fgetsInto bufferSize (v := '.' :: rest)
    (notMem_decimal n rfl) (notMem_decimal n rfl)
    (Nat.lt_of_le_of_lt hlen (by decide)) rfl (by decide) junk.buffer
  have hformat : directives "%d".toList = [.int true] := by decide
  have hstop : ∀ c ∈ tail.head?, c.isDigit = false := by
    intro c hc
    rw [htail] at hc
    obtain rfl := Option.some.inj hc
    decide
  have hscan : sscanf (fgetsInto bufferSize junk.buffer (decimal n ++ '.' :: rest)).1 "%d"
      = [.int (readSeconds n)] := by
    rw [sscanf, hformat, htext, ← signed_natCast, scan, scanInt_signed n hstop]
    rfl
  simp only [uptime, h, hscan]
  rfl

/-! ## The result -/

theorem Info.uptimeFields_nonneg {n : ℕ} (h : n < 2 ^ 31) :
    0 ≤ (uptimeFields (readSeconds n)).days.toInt ∧
    0 ≤ (uptimeFields (readSeconds n)).hours.toInt ∧
    0 ≤ (uptimeFields (readSeconds n)).minutes.toInt ∧
    0 ≤ (uptimeFields (readSeconds n)).seconds.toInt := by
  obtain ⟨hdays, hhours, hminutes, hseconds⟩ := toInt_uptimeFields (toInt_readSeconds h)
  omega

theorem Ps.clock_nonneg {n : ℕ} (h : n < 360000) :
    0 ≤ (clock (Int32.ofNat n)).hours.toInt ∧ 0 ≤ (clock (Int32.ofNat n)).minutes.toInt ∧
    0 ≤ (clock (Int32.ofNat n)).seconds.toInt := by
  obtain ⟨hhours, hminutes, hseconds⟩ := toInt_clock (Int32.toInt_ofNat_of_lt (n := n) (by omega))
  omega

/-- The uptime is shown without loss if it is in the first ten hours of five
days and fits an `int`, and such uptimes are displayed differently; the
times of `myps` are shown without loss, and displayed differently, below
a hundred hours. -/
theorem displays_lossless_iff (n m : ℕ) :
    ((Info.uptimeFields (readSeconds n)).Lossless n ↔ n < 2 ^ 31 ∧ n % 432000 < 36000) ∧
    (∀ (files : Files) (junk : Info.Junk) (rest : List Char), n < 2 ^ 64 →
      files Info.uptimePath = some (decimal n ++ '.' :: rest) →
      Info.uptime files junk = .ok (Info.uptimeFields (readSeconds n)).text) ∧
    (n < 2 ^ 31 ∧ n % 432000 < 36000 → m < 2 ^ 31 ∧ m % 432000 < 36000 →
      (Info.uptimeFields (readSeconds n)).text = (Info.uptimeFields (readSeconds m)).text →
      n = m) ∧
    (n < 360000 → (Ps.clock (Int32.ofNat n)).Lossless n) ∧
    (n < 360000 → m < 360000 →
      (Ps.clock (Int32.ofNat n)).text = (Ps.clock (Int32.ofNat m)).text → n = m) := by
  refine ⟨Info.lossless_iff n, fun files junk rest hn hfile => Info.uptime_eq hn hfile junk,
    fun hn hm htext => ?_, Ps.lossless_clock, fun hn hm htext => ?_⟩
  · have hsum := ((Info.lossless_iff n).mpr hn).sum
    have hsum' := ((Info.lossless_iff m).mpr hm).sum
    obtain ⟨hdays, hhours, hminutes, hseconds⟩ := Info.Uptime.eq_of_text
      (Info.uptimeFields_nonneg hn.1) (Info.uptimeFields_nonneg hm.1) htext
    omega
  · have hsum := (Ps.lossless_clock hn).sum
    have hsum' := (Ps.lossless_clock hm).sum
    obtain ⟨hhours, hminutes, hseconds⟩ := Ps.Clock.eq_of_text
      (Ps.clock_nonneg hn) (Ps.clock_nonneg hm) htext
    omega

/-- After ten hours the display is that of the start. -/
theorem ten_hours_lost :
    ¬ (Info.uptimeFields (readSeconds 36000)).Lossless 36000 ∧
    (Info.uptimeFields (readSeconds 36000)).text = (Info.uptimeFields (readSeconds 0)).text := by
  constructor
  · intro hlossless
    exact absurd ((Info.lossless_iff 36000).mp hlossless).2 (by decide)
  · decide

end Comp4511
