import Mathlib
import AirPicture.Proofs.Binary64.Decimals
import AirPicture.Proofs.Decimal.Numerals

/-! The numbers that numerals write. The float that is read is the one that the number is rounded
to, unless that is too great for any; a number whose leading digit is placed beyond 10^400 or
10^-400 need not be computed for it. What is read and is finite is a numeral, so that there is
such a number. -/
namespace AirPicture.Decimal
open Binary64 (Becomes Rounds Stands)
open Float.Model (UnpackedFloat)

section Lengths

theorem numberLess {digits : List Char} (figured : Figured digits) :
    number digits < 10 ^ digits.length := by
  induction digits using List.reverseRecOn with
  | nil => exact Nat.one_pos
  | append_singleton digits c ih =>
    obtain ⟨before, last⟩ := figuredAppend.mp figured
    obtain ⟨_, high⟩ := figureRange (last c (List.mem_singleton.mpr rfl))
    have small : figure c ≤ 9 := by
      change c.toNat - 48 ≤ 9
      omega
    have less := ih before
    rw [numberAppend, List.length_append, List.length_singleton, pow_succ]
    omega

theorem figuresLess (n : Nat) : n < 10 ^ (figures n).length := by
  have less := numberLess (figuresKnown n)
  rwa [numberFigures] at less

theorem figuresLeast {n : Nat} (some : 0 < n) : 10 ^ ((figures n).length - 1) ≤ n := by
  by_contra less
  obtain single | more := Nat.eq_zero_or_pos ((figures n).length - 1)
  · rw [single, pow_zero] at less
    exact less some
  · have short := Nat.toDigits_length 10 n _ more (Nat.not_le.mp less)
    change (figures n).length ≤ _ at short
    omega

end Lengths

def Numeral.value (n : Numeral) : ℚ :=
  number (n.whole ++ n.fraction) * 10 ^ (n.power - n.fraction.length)

section Values
variable {m : Nat} {p : Int}

theorem leadGreat (some : 0 < m) (high : 400 < p + (figures m).length) :
    Binary64.overflow ≤ |(m : ℚ) * 10 ^ p| := by
  have least : (10 : ℚ) ^ (((figures m).length - 1 : Nat) : Int) ≤ m := by
    exact_mod_cast figuresLeast some
  have shown := List.length_pos_iff.mpr (figuresShown m)
  have placed : (0 : ℚ) ≤ m * 10 ^ p := by positivity
  rw [abs_of_nonneg placed]
  calc Binary64.overflow ≤ 2 ^ (1024 : Int) := Binary64.overflowLess.le
    _ ≤ 2 ^ (3 * (400 : Nat) : Int) := zpow_le_zpow_right₀ one_le_two (by decide)
    _ ≤ 10 ^ ((400 : Nat) : Int) := Binary64.eightTen 400
    _ ≤ 10 ^ (((figures m).length - 1 : Nat) + p) := zpow_le_zpow_right₀ (by norm_num) (by omega)
    _ = 10 ^ (((figures m).length - 1 : Nat) : Int) * 10 ^ p := zpow_add₀ (by norm_num) ..
    _ ≤ m * 10 ^ p := by gcongr

theorem leadSmall (low : p + (figures m).length < -400) :
    |(m : ℚ) * 10 ^ p| < 2 ^ (-1075 : Int) := by
  have most : (m : ℚ) ≤ 10 ^ (((figures m).length : Nat) : Int) := by
    exact_mod_cast (figuresLess m).le
  have placed : (0 : ℚ) ≤ m * 10 ^ p := by positivity
  rw [abs_of_nonneg placed]
  calc (m : ℚ) * 10 ^ p ≤ 10 ^ (((figures m).length : Nat) : Int) * 10 ^ p := by gcongr
    _ = 10 ^ (((figures m).length : Nat) + p) := (zpow_add₀ (by norm_num) ..).symm
    _ ≤ 10 ^ (-(400 : Nat) : Int) := zpow_le_zpow_right₀ (by norm_num) (by omega)
    _ ≤ 2 ^ (-(3 * (400 : Nat)) : Int) := Binary64.tenEight 400
    _ < 2 ^ (-1075 : Int) := zpow_lt_zpow_right₀ one_lt_two (by decide)

theorem numeralBecomes (n : Numeral) : Becomes n.toFloat n.value := by
  simp only [Numeral.toFloat, Numeral.value]
  generalize number (n.whole ++ n.fraction) = m
  generalize n.power - n.fraction.length = p
  split
  · rename_i none
    have zero : Stands (Float.ofNat 0) (0 : Nat) := Binary64.naturalStands (by decide)
    rw [none, Nat.cast_zero, zero_mul]
    rw [Nat.cast_zero] at zero
    exact .near zero (Binary64.readsRounds zero)
  rename_i nonzero
  split
  · rename_i high
    exact .great rfl (leadGreat (Nat.pos_of_ne_zero nonzero) high)
  split
  · rename_i low
    have zero : Stands (Float.ofNat 0) (0 : Nat) := Binary64.naturalStands (by decide)
    rw [Nat.cast_zero] at zero
    exact .near zero (Binary64.tinyRounds (leadSmall low))
  split
  · rename_i upward
    obtain ⟨k, rfl⟩ := Int.eq_ofNat_of_zero_le upward
    exact Binary64.decimalBecomes m false k
  · rename_i downward
    obtain ⟨k, rfl⟩ : ∃ k : Nat, p = -k := ⟨p.natAbs, by omega⟩
    rw [neg_neg, Int.toNat_natCast]
    exact Binary64.decimalBecomes m true k

end Values

section Signs
variable {x : Float} {q r : ℚ} {minus : Bool}

theorem signedUnpacked (b : BitVec 64) : UnpackedFloat.unpack .binary64 (b ||| signBit.toBitVec) =
    (UnpackedFloat.unpack .binary64 b).abs.neg := by
  have exponent : @UnpackedFloat.unpackExponent .binary64 (b ||| signBit.toBitVec) =
      @UnpackedFloat.unpackExponent .binary64 b := by
    change BitVec.extractLsb 62 52 (b ||| signBit.toBitVec) = BitVec.extractLsb 62 52 b
    rw [BitVec.extractLsb_or]
    exact BitVec.or_zero
  have mantissa : @UnpackedFloat.unpackMantissa .binary64 (b ||| signBit.toBitVec) =
      @UnpackedFloat.unpackMantissa .binary64 b := by
    change BitVec.extractLsb 51 0 (b ||| signBit.toBitVec) = BitVec.extractLsb 51 0 b
    rw [BitVec.extractLsb_or]
    exact BitVec.or_zero
  have sign : @UnpackedFloat.unpackSign .binary64 (b ||| signBit.toBitVec) = 1#1 := by
    change BitVec.extractLsb 63 63 (b ||| signBit.toBitVec) = 1#1
    rw [BitVec.extractLsb_or]
    exact BitVec.or_allOnes
  simp only [UnpackedFloat.unpack, exponent, mantissa, sign]
  split
  · split <;> rfl
  · split
    · split <;> rfl
    · rfl

theorem behindUnpacked (minus : Bool) (x : Float) : (behind minus x).toModel.unpack =
    if minus then x.toModel.unpack.abs.neg else x.toModel.unpack := by
  cases minus with
  | false => exact Binary64.unpackPacked _
  | true =>
    change UnpackedFloat.unpack .binary64 (UnpackedFloat.pack .binary64
      (UnpackedFloat.unpack .binary64 (x.toBits ||| signBit).toBitVec)) = _
    rw [Binary64.unpackPacked]
    exact signedUnpacked _

theorem finiteNegAbs (u : UnpackedFloat) : u.abs.neg.isFinite = u.isFinite := by
  cases u <;> rfl

theorem behindFinite (minus : Bool) (x : Float) : (behind minus x).isFinite = x.isFinite := by
  change (behind minus x).toModel.unpack.isFinite = x.toModel.unpack.isFinite
  rw [behindUnpacked]
  cases minus with
  | false => rfl
  | true => exact finiteNegAbs _

theorem behindBecomes (becomes : Becomes x q) (least : 0 ≤ q) (minus : Bool) :
    Becomes (behind minus x) (if minus then -q else q) := by
  obtain ⟨stands, rounds⟩ | ⟨infinite, great⟩ := becomes
  · rename_i r
    have reads : Stands (behind minus x) (if minus then -r else r) := by
      unfold Stands
      rw [behindUnpacked]
      cases minus with
      | false => exact stands
      | true =>
        have negated := Binary64.readsNeg (Binary64.readsAbs stands)
        rwa [abs_of_nonneg (rounds.nonneg least)] at negated
    refine .near reads ?_
    cases minus with
    | false => exact rounds
    | true => exact rounds.neg
  · refine .great ((behindFinite minus x).trans infinite) ?_
    cases minus with
    | false => exact great
    | true => rwa [if_pos rfl, abs_neg]

end Signs

inductive Writes : List Char → ℚ → Prop
  | mk {sign body : List Char} {minus : Bool} {n : Numeral} (signs : Signs sign minus)
      (spelt : Numerals body n) : Writes (sign ++ body) (if minus then -n.value else n.value)

section Texts
variable {text : List Char} {x : Float} {q : ℚ}

theorem valueLeast (n : Numeral) : 0 ≤ n.value := by
  unfold Numeral.value
  positivity

theorem writesMeans (writes : Writes text q) : ∃ x, Means text x ∧ Becomes x q := by
  obtain ⟨signs, spelt⟩ := writes
  exact ⟨_, .mk signs (.numeral spelt), behindBecomes (numeralBecomes _) (valueLeast _) _⟩

theorem meansWrites (means : Means text x) (finite : x.isFinite = true) :
    ∃ q r, Writes text q ∧ Stands x r ∧ Rounds q r := by
  cases means with
  | @mk sign body minus y signs magnitude =>
    rw [behindFinite] at finite
    cases magnitude with
    | infinite said => contradiction
    | undefined said => contradiction
    | @numeral n spelt =>
      obtain ⟨stands, rounds⟩ | ⟨infinite, -⟩ :=
        behindBecomes (numeralBecomes n) (valueLeast n) minus
      · exact ⟨_, _, .mk signs spelt, stands, rounds⟩
      · rw [behindFinite, finite] at infinite
        contradiction

end Texts

end AirPicture.Decimal
