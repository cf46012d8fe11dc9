import Mathlib
import AirPicture.Decimal.Notation
import AirPicture.Proofs.Binary64.Arithmetic
import AirPicture.Proofs.Decimal.Tokens

/-! The shortest decimal of a float is rounded to this float: it lies between the numbers halfway to
the floats next to it, both of which are included where the significand is even. -/
namespace AirPicture.Decimal
open Binary64 (Fits Next Rounds)
open Float.Model
open UnpackedFloat (Sign)

def Scaled.value (d : Scaled) : ℚ := d.digits * 10 ^ d.exponent

structure Interval.Spans (i : Interval) (q : ℚ) : Prop where
  low : i.low * 2 ^ i.scale ≤ q
  high : q ≤ i.high * 2 ^ i.scale
  closed : q = i.low * 2 ^ i.scale ∨ q = i.high * 2 ^ i.scale → i.closed = true

section Spanning
variable {i : Interval} {d : Scaled}

theorem powersApart (b : Nat) (base : b ≠ 0) (n : Int) :
    (b : ℚ) ^ n * (b ^ (-n).toNat : Nat) = (b ^ n.toNat : Nat) := by
  have base : (b : ℚ) ≠ 0 := Nat.cast_ne_zero.mpr base
  rw [Nat.cast_pow, Nat.cast_pow, ← zpow_natCast, ← zpow_natCast, ← zpow_add₀ base]
  congr 1
  omega

theorem orderValue (d : Scaled) (n : Nat) (scale : Int) :
    d.order n scale = compare d.value (n * 2 ^ scale) := by
  have tensUp : (10 : ℚ) ^ d.exponent * tens (-d.exponent) = tens d.exponent :=
    powersApart 10 (by decide) d.exponent
  have twosUp : (2 : ℚ) ^ scale * twos (-scale) = twos scale := powersApart 2 (by decide) scale
  have place : (0 : ℚ) < tens (-d.exponent) * twos (-scale) := by
    exact_mod_cast Nat.mul_pos (tensPositive _) (twosPositive _)
  have left : ((d.digits * tens d.exponent * twos (-scale) : Nat) : ℚ) =
      d.value * (tens (-d.exponent) * twos (-scale)) := by
    rw [Nat.cast_mul, Nat.cast_mul, ← tensUp, Scaled.value]
    ring
  have right : ((n * twos scale * tens (-d.exponent) : Nat) : ℚ) =
      n * 2 ^ scale * (tens (-d.exponent) * twos (-scale)) := by
    rw [Nat.cast_mul, Nat.cast_mul, ← twosUp]
    ring
  unfold Scaled.order
  obtain less | same | more := lt_trichotomy d.value (n * 2 ^ scale)
  · rw [compare_lt_iff_lt.mpr less, compare_lt_iff_lt]
    have := mul_lt_mul_of_pos_right less place
    rw [← left, ← right] at this
    exact_mod_cast this
  · rw [compare_eq_iff_eq.mpr same, compare_eq_iff_eq]
    have := congrArg (· * ((tens (-d.exponent) : ℚ) * twos (-scale))) same
    simp only [← left, ← right] at this
    exact_mod_cast this
  · rw [compare_gt_iff_gt.mpr more, compare_gt_iff_gt]
    have := mul_lt_mul_of_pos_right more place
    rw [← left, ← right] at this
    exact_mod_cast this

theorem holdsSpans (holds : i.holds d = true) : i.Spans d.value := by
  simp only [Interval.holds, orderValue, Bool.and_eq_true, Bool.or_eq_true, beq_iff_eq,
    compare_gt_iff_gt, compare_lt_iff_lt, compare_eq_iff_eq] at holds
  obtain ⟨low, high⟩ := holds
  refine ⟨?_, ?_, ?_⟩
  · exact low.elim le_of_lt fun both => both.2.ge
  · exact high.elim le_of_lt fun both => both.2.le
  · rintro (same | same)
    · exact low.elim (fun more => absurd same more.ne') And.left
    · exact high.elim (fun less => absurd same less.ne) And.left

theorem stripValue (d : Scaled) : d.strip.value = d.value := by
  induction d using Scaled.strip.induct with
  | case1 d more ih =>
    have whole : (d.digits : ℚ) = (d.digits / 10 : Nat) * 10 := by
      exact_mod_cast (Nat.div_mul_cancel (Nat.dvd_of_mod_eq_zero more.2)).symm
    rw [Scaled.strip, if_pos more, ih, Scaled.value, Scaled.value, whole, mul_assoc]
    simp only [zpow_add_one₀ (show (10 : ℚ) ≠ 0 by norm_num), mul_comm (10 : ℚ)]
  | case2 d done => rw [Scaled.strip, if_neg done]

theorem exactValue (i : Interval) : i.exact.value = i.value * 2 ^ i.scale := by
  unfold Interval.exact Scaled.value
  split
  · rename_i upward
    obtain ⟨n, known⟩ := Int.eq_ofNat_of_zero_le upward
    simp [twos, known]
  · rename_i downward
    obtain ⟨n, known⟩ : ∃ n : Nat, i.scale = -n := ⟨i.scale.natAbs, by omega⟩
    have parts : (10 : ℚ) ^ n = 5 ^ n * 2 ^ n := by rw [← mul_pow]; norm_num
    simp only [known, neg_neg, Int.toNat_natCast, zpow_neg, zpow_natCast, Nat.pow_eq, Nat.cast_mul,
      Nat.cast_pow, Nat.cast_ofNat, parts]
    field_simp

theorem shortestSpans (low : i.low < i.value) (high : i.value < i.high) (tie : Tie) :
    i.Spans (i.shortest tie).value := by
  unfold Interval.shortest
  rw [stripValue]
  cases found : (List.range 17).findSome? fun n : Nat =>
      i.nearest tie (i.magnitude - (n + 1 : Nat)) with
  | some d =>
    obtain ⟨_, _, near⟩ := List.exists_of_findSome?_eq_some found
    exact holdsSpans (nearestHolds near)
  | none =>
    have placed : (0 : ℚ) < 2 ^ i.scale := by positivity
    have above : (i.low : ℚ) * 2 ^ i.scale < i.value * 2 ^ i.scale := by gcongr
    have below : (i.value : ℚ) * 2 ^ i.scale < i.high * 2 ^ i.scale := by gcongr
    rw [Option.getD_none, exactValue]
    exact ⟨above.le, below.le, fun ends => ends.elim (fun same => absurd same above.ne')
      fun same => absurd same below.ne⟩

end Spanning

def around (m : Nat) (e : Int) : Interval :=
  ⟨4 * m - if m = 2 ^ 52 ∧ -1074 < e then 1 else 2, 4 * m, 4 * m + 2, e - 2, m % 2 = 0⟩

section Rounding
variable {m : Nat} {e : Int} {q : ℚ}

theorem quarters (n : ℚ) (e : Int) : n * 2 ^ (e - 2) = n / 4 * 2 ^ e := by
  rw [zpow_sub₀ two_ne_zero]
  norm_num
  ring

structure Near (m : Nat) (e : Int) (q : ℚ) : Prop where
  low : (m - 1 / 2) * 2 ^ e ≤ q
  high : q ≤ (m + 1 / 2) * 2 ^ e
  even : q = (m - 1 / 2) * 2 ^ e ∨ q = (m + 1 / 2) * 2 ^ e → Even m
  power : m = 2 ^ 52 → -1074 < e → (m - 1 / 4) * 2 ^ e ≤ q

theorem spansNear (some : 0 < m) (spans : (around m e).Spans q) : Near m e q := by
  have placed : (0 : ℚ) < 2 ^ e := by positivity
  obtain ⟨low, high, closed⟩ := spans
  have bottom {k : Nat} (few : k ≤ 2) : ((4 * m - k : Nat) : ℚ) / 4 = m - k / 4 := by
    rw [Nat.cast_sub (by omega), Nat.cast_mul]
    ring
  have top : ((4 * m + 2 : Nat) : ℚ) / 4 = m + 1 / 2 := by
    push_cast
    ring
  simp only [around, quarters, top, decide_eq_true_eq, ← Nat.even_iff] at low high closed
  by_cases power : m = 2 ^ 52 ∧ -1074 < e
  · rw [if_pos power, bottom (by decide)] at low closed
    have above : (m - 1 / 4) * 2 ^ e ≤ q := by exact_mod_cast low
    have wider : ((m : ℚ) - 1 / 2) * 2 ^ e < (m - 1 / 4) * 2 ^ e := by
      gcongr
      norm_num
    exact ⟨(wider.trans_le above).le, high, fun _ => power.1 ▸ by decide, fun _ _ => above⟩
  · rw [if_neg power, bottom le_rfl, Nat.cast_ofNat,
      show (2 : ℚ) / 4 = 1 / 2 by norm_num] at low closed
    exact ⟨low, high, closed, fun full beyond => absurd ⟨full, beyond⟩ power⟩

theorem nearPositive (some : 0 < m) (near : Near m e q) : 0 < q := by
  have one : (1 : ℚ) ≤ m := by exact_mod_cast some
  have half : (0 : ℚ) < m - 1 / 2 := by linarith
  exact (by positivity : (0 : ℚ) < (m - 1 / 2) * 2 ^ e).trans_le near.low

theorem nearRounds (some : 0 < m) (fits : Fits m e) (near : Near m e q) : Rounds q (m * 2 ^ e) := by
  have placed : (0 : ℚ) < 2 ^ e := by positivity
  have positive := nearPositive some near
  obtain ⟨low, high, even, power⟩ := near
  rw [sub_mul] at low even
  rw [add_mul] at high even
  by_cases long : 2 ^ (e + 52) ≤ q ∨ e = -1074
  · refine ⟨e, fits.least, ?_, ?_, abs_le.mpr ⟨by linarith, by linarith⟩, m, by push_cast; rfl,
      fun tie => ?_⟩
    · rwa [abs_of_pos positive]
    · have wide : (m : ℚ) + 1 ≤ 2 ^ (53 : Int) := by exact_mod_cast Nat.succ_le_of_lt fits.wide
      rw [abs_of_pos positive, add_comm, zpow_add₀ two_ne_zero]
      calc q ≤ (m + 1 / 2) * 2 ^ e := by linarith
        _ < 2 ^ (53 : Int) * 2 ^ e := mul_lt_mul_of_pos_right (by linarith) placed
    · have ends :=
        even (((abs_eq (by positivity)).mp tie).imp (by intro; linarith) (by intro; linarith))
      exact_mod_cast ends
  · -- the number is below a power of two, where the grid is finer
    rw [not_or, not_le] at long
    obtain ⟨less, other⟩ := long
    have beyond : -1074 < e := lt_of_le_of_ne fits.least (Ne.symm other)
    have full := fits.full.resolve_right other
    rw [add_comm, zpow_add₀ two_ne_zero] at less
    obtain rfl : m = 2 ^ 52 := by
      by_contra longer
      have : (2 : ℚ) ^ (52 : Int) + 1 ≤ m := by
        exact_mod_cast Nat.lt_of_le_of_ne full (Ne.symm longer)
      have : (2 ^ (52 : Int) + 1) * 2 ^ e ≤ (m : ℚ) * 2 ^ e := by gcongr
      linarith
    have least := power rfl beyond
    have half : (2 : ℚ) ^ (e - 1) = 2 ^ e / 2 := zpow_sub_one₀ two_ne_zero e
    push_cast at least less
    refine ⟨e - 1, by omega, .inl ?_, ?_, ?_, (2 ^ 53 : Int), ?_, fun _ => by decide⟩
    · rw [abs_of_pos positive, add_comm, zpow_add₀ two_ne_zero, half]
      linarith
    · rw [abs_of_pos positive, add_comm, zpow_add₀ two_ne_zero, half]
      linarith
    · rw [half, abs_le]
      push_cast
      constructor <;> linarith
    · rw [half]
      push_cast
      ring

/- The greatest float is odd, so that halfway to what would follow is not near to it. -/
theorem nearLess (fits : Fits m e) (near : Near m e q) : q < Binary64.overflow := by
  have placed : (0 : ℚ) < 2 ^ e := by positivity
  have most : (2 : ℚ) ^ e ≤ 2 ^ (971 : Int) := zpow_le_zpow_right₀ one_le_two fits.most
  have limit : Binary64.overflow = (2 ^ 53 - 1 / 2) * 2 ^ (971 : Int) := by
    rw [Binary64.overflow, show (971 : Int) = 970 + 1 from rfl, zpow_add_one₀ two_ne_zero]
    ring
  rw [limit]
  obtain longer | last := Nat.lt_or_eq_of_le (Nat.succ_le_of_lt fits.wide)
  · have short : (m : ℚ) + 2 ≤ 2 ^ 53 := by exact_mod_cast Nat.succ_le_of_lt longer
    calc q ≤ (m + 1 / 2) * 2 ^ e := near.high
      _ < (2 ^ 53 - 1 / 2) * 2 ^ e := mul_lt_mul_of_pos_right (by linarith) placed
      _ ≤ (2 ^ 53 - 1 / 2) * 2 ^ (971 : Int) := mul_le_mul_of_nonneg_left most (by norm_num)
  · obtain rfl : m = 2 ^ 53 - 1 := by omega
    have less : q < ((2 ^ 53 - 1 : Nat) + 1 / 2) * 2 ^ e := lt_of_le_of_ne near.high fun same =>
      absurd (near.even (.inr same)) (by decide)
    calc q < ((2 ^ 53 - 1 : Nat) + 1 / 2) * 2 ^ e := less
      _ = (2 ^ 53 - 1 / 2) * 2 ^ e := by norm_num
      _ ≤ (2 ^ 53 - 1 / 2) * 2 ^ (971 : Int) := mul_le_mul_of_nonneg_left most (by norm_num)

end Rounding

section Bits
variable {x : Float} {s : Sign} {m : Nat} {e : Int} {some : 0 < m}

theorem exponentBits (bits : UInt64) : ((bits >>> 52) &&& 0x7FF).toNat =
    (@UnpackedFloat.unpackExponent .binary64 bits.toBitVec).toNat := by
  change _ = (BitVec.extractLsb' 52 11 bits.toBitVec).toNat
  rw [UInt64.toNat_and, UInt64.toNat_shiftRight, BitVec.extractLsb'_toNat]
  exact Nat.and_two_pow_sub_one_eq_mod _ 11

theorem mantissaBits (bits : UInt64) : (bits &&& 0xFFFFFFFFFFFFF).toNat =
    (@UnpackedFloat.unpackMantissa .binary64 bits.toBitVec).toNat := by
  change _ = (BitVec.extractLsb' 0 52 bits.toBitVec).toNat
  rw [UInt64.toNat_and, BitVec.extractLsb'_toNat]
  exact Nat.and_two_pow_sub_one_eq_mod _ 52

theorem signBits (bits : UInt64) : (bits >>> 63 == 1) = true ↔
    Sign.ofBitVec (@UnpackedFloat.unpackSign .binary64 bits.toBitVec) = .negative := by
  have high : bits.toNat < 2 ^ 64 := bits.toBitVec.isLt
  have one : (bits >>> 63).toNat = bits.toNat / 2 ^ 63 := by
    rw [UInt64.toNat_shiftRight]
    exact Nat.shiftRight_eq_div_pow _ 63
  have bit : (@UnpackedFloat.unpackSign .binary64 bits.toBitVec).toNat = bits.toNat / 2 ^ 63 := by
    change (BitVec.extractLsb' 63 1 bits.toBitVec).toNat = _
    rw [BitVec.extractLsb'_toNat, Nat.shiftRight_eq_div_pow]
    change bits.toNat / 2 ^ 63 % 2 ^ 1 = _
    omega
  rw [beq_iff_eq, ← UInt64.toNat_inj, one, Sign.ofBitVec]
  change _ = 1 ↔ _
  split
  · rename_i zero
    rw [zero] at bit
    exact iff_of_false (by change 0 = _ at bit; omega) nofun
  · rename_i nonzero
    rw [← BitVec.toNat_inj, bit] at nonzero
    change _ ≠ 0 at nonzero
    exact iff_of_true (by omega) rfl

theorem finiteFields {b : BitVec 64} (known : UnpackedFloat.unpack .binary64 b = .finite s m e some) :
    Sign.ofBitVec (@UnpackedFloat.unpackSign .binary64 b) = s ∧
    m = (if (@UnpackedFloat.unpackExponent .binary64 b).toNat = 0 then 0 else 2 ^ 52) +
      (@UnpackedFloat.unpackMantissa .binary64 b).toNat ∧
    e = (max (@UnpackedFloat.unpackExponent .binary64 b).toNat 1 : Nat) - 1075 := by
  have bias : ((Format.binary64.exponentBias : Nat) : Int) = 1023 := rfl
  have places : ((Format.binary64.mantissaBitsWithoutImplicit : Nat) : Int) = 52 := rfl
  have leading := Binary64.leadingNat (@UnpackedFloat.unpackMantissa .binary64 b)
  change _ = 2 ^ 52 + _ at leading
  simp only [UnpackedFloat.unpack, bias, places] at known
  split at known
  · split at known <;> contradiction
  split at known
  · rename_i zero
    split at known
    · contradiction
    · have none : (@UnpackedFloat.unpackExponent .binary64 b).toNat = 0 := congrArg BitVec.toNat zero
      cases known
      rw [none, if_pos rfl]
      exact ⟨rfl, (Nat.zero_add _).symm, rfl⟩
  · rename_i nonzero
    have other : (@UnpackedFloat.unpackExponent .binary64 b).toNat ≠ 0 :=
      fun same => nonzero (BitVec.eq_of_toNat_eq same)
    cases known
    rw [if_neg other]
    exact ⟨rfl, leading, by omega⟩

theorem zeroFields {b : BitVec 64} (known : UnpackedFloat.unpack .binary64 b = .zero s) :
    Sign.ofBitVec (@UnpackedFloat.unpackSign .binary64 b) = s ∧
    (@UnpackedFloat.unpackExponent .binary64 b).toNat = 0 ∧
    (@UnpackedFloat.unpackMantissa .binary64 b).toNat = 0 := by
  simp only [UnpackedFloat.unpack] at known
  split at known
  · split at known <;> contradiction
  split at known
  · rename_i zero
    split at known
    · rename_i none
      cases known
      exact ⟨rfl, congrArg BitVec.toNat zero, congrArg BitVec.toNat none⟩
    · contradiction
  · contradiction

theorem bitsAround (known : x.toModel.unpack = .finite s m e some) :
    (negative x = true ↔ s = .negative) ∧ Interval.ofBits x.toBits = around m e := by
  obtain ⟨sign, mantissa, exponent⟩ := finiteFields (b := x.toBits.toBitVec) known
  have small := (@UnpackedFloat.unpackMantissa .binary64 x.toBits.toBitVec).isLt
  change _ < 2 ^ 52 at small
  refine ⟨(signBits x.toBits).trans (by rw [← sign]), ?_⟩
  simp only [Interval.ofBits, around, exponentBits, mantissaBits, Interval.mk.injEq]
  generalize (@UnpackedFloat.unpackExponent .binary64 x.toBits.toBitVec).toNat = biased at *
  generalize (@UnpackedFloat.unpackMantissa .binary64 x.toBits.toBitVec).toNat = fraction at *
  have same : (if biased = 0 then fraction else fraction + 0x10000000000000) = m := by
    rw [mantissa]
    split <;> omega
  have below : fraction = 0 ∧ 1 < biased ↔ m = 2 ^ 52 ∧ -1074 < e := by
    split at mantissa <;> omega
  simp only [same, below, true_and]
  exact ⟨by omega, trivial⟩

theorem bitsZero (known : x.toModel.unpack = .zero s) :
    (negative x = true ↔ s = .negative) ∧ (Interval.ofBits x.toBits).value = 0 := by
  obtain ⟨sign, exponent, mantissa⟩ := zeroFields (b := x.toBits.toBitVec) known
  refine ⟨(signBits x.toBits).trans (by rw [← sign]), ?_⟩
  simp only [Interval.ofBits, exponentBits, mantissaBits, exponent, mantissa, ↓reduceIte]

/-- The shortest decimal of a float is near to its magnitude. -/
theorem shortestNear (known : x.toModel.unpack = .finite s m e some) (tie : Tie) :
    Near m e ((Interval.ofBits x.toBits).shortest tie).value := by
  rw [(bitsAround known).2]
  refine spansNear some (shortestSpans ?_ ?_ tie)
  · simp only [around]
    split <;> omega
  · exact Nat.lt_add_of_pos_right (by decide)

end Bits

end AirPicture.Decimal
