import Mathlib
import AirPicture.Feed.Position
import AirPicture.Proofs.Binary64.Arithmetic

/-! Whole numbers among the floats. Those of 53 bits are there exactly, and below 2^52 the whole
part of a float is the greatest whole number that is not above what the float stands for. -/
namespace AirPicture.Binary64
open Float.Model
open UnpackedFloat (Sign)

variable {x : Float} {q : ℚ}

section Making

theorem wholeFine {k : Int} (short : |k| < 2 ^ 53) : Fine k :=
  ⟨k, 0, by simp, short, by decide, by decide⟩

theorem naturalFine {n : Nat} (short : n < 2 ^ 53) : Fine n :=
  wholeFine (k := n) (by rw [Nat.abs_cast]; exact_mod_cast short)

theorem wordGives (word : UInt64) : Gives word.toFloat word.toNat := by
  intro size
  have value : (word.toNat : ℚ) = (word.toNat : Int) * 2 ^ (0 : Int) := by simp
  rw [value] at size ⊢
  obtain ⟨r, reads, rounds⟩ := normalizedReads word.toNat 0 .positive size
  exact ⟨r, standsPacked reads rfl, rounds⟩

theorem oneStands : Stands (Float.ofBits 0x3FF0000000000000) 1 := by
  have one : (1 : ℚ) = sense .positive * ((2 ^ 52 : Nat) * 2 ^ (-52 : Int)) := by
    norm_num [sense]
  rw [one]
  exact .finite .positive (by decide) ⟨by decide, by decide, by decide, .inl le_rfl⟩

theorem naturalRead {n : Nat} (short : n < 2 ^ 53) :
    Float.ofNat n = n.toUInt64.toFloat * Float.ofBits 0x3FF0000000000000 := by
  unfold Float.ofNat
  change Float.ofScientific n false 0 = _
  unfold Float.ofScientific
  rw [dif_pos ⟨short, by decide⟩]
  rfl

theorem wordStands {n : Nat} (short : n < 2 ^ 53) : Stands n.toUInt64.toFloat n := by
  have kept : n.toUInt64.toNat = n := by
    rw [Nat.toUInt64_eq, UInt64.toNat_ofNat']
    omega
  have word := (wordGives n.toUInt64).exact (naturalFine (by omega))
  rwa [kept] at word

theorem naturalStands {n : Nat} (short : n < 2 ^ 53) : Stands (Float.ofNat n) n := by
  have product := (mulGives (wordStands short) oneStands).exact
    (by rw [mul_one]; exact naturalFine short)
  rwa [mul_one, ← naturalRead short] at product

theorem wholeStands {k : Int} (short : |k| < 2 ^ 53) : Stands (Float.ofInt k) k := by
  cases k with
  | ofNat n => exact naturalStands (by simpa using short)
  | negSucc n =>
    rw [Int.abs_eq_natAbs] at short
    rw [Int.cast_negSucc]
    exact negStands (naturalStands (n := n + 1) (by omega))

theorem ratioGives {j k : Int} (above : |j| < 2 ^ 53) (below : |k| < 2 ^ 53) (other : k ≠ 0) :
    Gives (Float.ofInt j / Float.ofInt k) (j / k) :=
  divGives (wholeStands above) (wholeStands below) (Int.cast_ne_zero.mpr other)

end Making

section Truncating

theorem truncatedRead (m : Nat) (e : Int) :
    UnpackedFloat.roundToInt .positive m e = ⌊(m : ℚ) * 2 ^ e⌋₊ := by
  simp only [UnpackedFloat.roundToInt, UnpackedFloat.decreaseExponent,
    UnpackedFloat.shiftToExponent, mantissaShift, startMantissa, Sign.apply, Nat.shiftLeft_eq,
    Nat.cast_inj]
  obtain ⟨k, rfl | rfl⟩ := e.eq_nat_or_neg
  · rw [show ((k : Int) - 0).toNat = k by omega, show (0 - ((k : Int) - k)).toNat = 0 by omega,
      pow_zero, Nat.div_one, zpow_natCast]
    exact_mod_cast (Nat.floor_natCast (R := ℚ) (m * 2 ^ k)).symm
  · rw [show (-(k : Int) - 0).toNat = 0 by omega,
      show (0 - (-(k : Int) - (0 : Nat))).toNat = k by omega, pow_zero, mul_one, zpow_neg,
      zpow_natCast, ← div_eq_mul_inv]
    exact_mod_cast (Nat.floor_div_eq_div (K := ℚ) m (2 ^ k)).symm

theorem truncatedStands (stands : Stands x q) (least : 0 ≤ q) (most : q < 2 ^ 64) :
    x.toUInt64.toNat = ⌊q⌋₊ := by
  change x.toModel.unpack.toUInt64.toNat = _
  unfold Stands at stands
  generalize x.toModel.unpack = u at *
  cases stands with
  | zero s => simp; rfl
  | @finite s m e some fits =>
    have origin : (0 : ℚ) < m * 2 ^ e := by positivity
    cases s with
    | negative =>
      rw [sense, neg_one_mul] at least
      linarith
    | positive =>
      rw [sense, one_mul] at most ⊢
      have kept : ⌊(m : ℚ) * 2 ^ e⌋₊ < UInt64.size :=
        (Nat.floor_lt origin.le).mpr (most.trans_eq (by norm_num))
      rw [UnpackedFloat.toUInt64, UnpackedFloat.toInt, truncatedRead, Int.toNat_natCast,
        UInt64.toNat_ofNatClamp_of_lt kept]

end Truncating

section Flooring
open Feed (floorOf)

theorem wholeBelow {y : Float} {c : Int} (stands : Stands x q) (part : Stands y c)
    (short : |c| < 2 ^ 52) (low : c - 1 < q) (high : q < c + 1) :
    Stands (if x == y then x else if x < y then y - 1 else y) ⌊q⌋ := by
  have one : Stands 1 1 := by exact_mod_cast naturalStands (n := 1) (by decide)
  simp only [standsEq stands part, standsLt stands part]
  obtain less | rfl | more := lt_trichotomy q c
  · have known : ⌊q⌋ = c - 1 := Int.floor_eq_iff.mpr ⟨by push_cast; exact low.le, by simpa⟩
    rw [if_neg less.ne, if_pos less, known]
    have given := subGives part one
    rw [← Int.cast_one, ← Int.cast_sub] at given
    exact given.exact (wholeFine (by rw [abs_lt] at short ⊢; omega))
  · rwa [if_pos rfl, Int.floor_intCast]
  · rwa [if_neg more.ne', if_neg more.not_gt, Int.floor_eq_iff.mpr ⟨more.le, high⟩]

theorem floorStands (stands : Stands x q) (small : |q| < 2 ^ 52) : Stands (floorOf x) ⌊q⌋ := by
  have bound : Stands 4503599627370496 (2 ^ 52) := by
    have given := naturalStands (n := 4503599627370496) (by decide)
    norm_num at given ⊢
    exact given
  have truncated := truncatedStands (absStands stands) (abs_nonneg q) (small.trans (by norm_num))
  have short : ⌊|q|⌋₊ < 2 ^ 52 := (Nat.floor_lt (abs_nonneg q)).mpr (by exact_mod_cast small)
  have part := naturalStands (short.trans (by decide))
  have origin : Stands 0 0 := by exact_mod_cast naturalStands (n := 0) (by decide)
  have below := Nat.floor_le (abs_nonneg q)
  have above := Nat.lt_floor_add_one |q|
  rw [floorOf, if_pos ((standsLt (absStands stands) bound).mpr small), truncated]
  generalize ⌊|q|⌋₊ = n at *
  simp only [standsLt stands origin]
  by_cases negative : q < 0
  · rw [abs_of_neg negative] at below above
    rw [if_pos negative]
    have turned : Stands (-Float.ofNat n) (-n : Int) := by exact_mod_cast negStands part
    refine wholeBelow stands turned ?_ ?_ ?_
    · rw [abs_neg, Nat.abs_cast]
      exact_mod_cast short
    · push_cast
      linarith
    · push_cast
      linarith
  · rw [abs_of_nonneg (not_lt.mp negative)] at below above
    rw [if_neg negative]
    refine wholeBelow (c := n) stands part ?_ ?_ ?_
    · rw [Nat.abs_cast]
      exact_mod_cast short
    · push_cast
      linarith
    · exact above

end Flooring

end AirPicture.Binary64
