import Mathlib
import AirPicture.Proofs.Binary64.Rounding

/-! Arithmetic on floats as arithmetic on the numbers they stand for. An operation gives what the
exact result is rounded to, as long as that is not too great to be kept; to change the sign, to
compare and to make a float of a whole number of 53 bits is exact. -/
namespace AirPicture.Binary64
open Float.Model
open UnpackedFloat (Sign)

def Stands (x : Float) (q : ℚ) : Prop := Reads x.toModel.unpack q

section Operands
variable {u w : UnpackedFloat} {p q : ℚ}

theorem readsRounds (reads : Reads u q) : Rounds q q := by
  cases reads with
  | zero sign => exact zeroRounds
  | @finite sign m e some fits =>
    have placed : (0 : ℚ) < 2 ^ e := by positivity
    have size : |sense sign * (m * 2 ^ e)| = m * 2 ^ e := by
      rw [abs_mul, senseAbs, one_mul, abs_of_nonneg (by positivity)]
    have none : (0 : ℚ) < 2 ^ e / 2 := by positivity
    refine ⟨e, fits.least, fits.full.imp_left fun full => ?_, ?_, ?_, sign.apply m, ?_,
      fun half => ?_⟩
    · have : (2 : ℚ) ^ (52 : Int) ≤ m := by exact_mod_cast full
      rw [size, add_comm, zpow_add₀ two_ne_zero]
      gcongr
    · have : (m : ℚ) < 2 ^ (53 : Int) := by exact_mod_cast fits.wide
      rw [size, add_comm, zpow_add₀ two_ne_zero]
      gcongr
    · rw [sub_self, abs_zero]
      exact none.le
    · rw [senseApply, mul_assoc]
    · rw [sub_self, abs_zero] at half
      exact absurd half none.ne

theorem readsNeg (reads : Reads u q) : Reads u.neg (-q) := by
  cases reads with
  | zero sign => rw [neg_zero]; exact .zero _
  | finite sign some fits =>
    rw [← neg_mul, ← senseNeg]
    exact .finite _ some fits

theorem readsAbs (reads : Reads u q) : Reads u.abs |q| := by
  cases reads with
  | zero sign => rw [abs_zero]; exact .zero _
  | @finite sign m e some fits =>
    rw [abs_mul, senseAbs, abs_of_nonneg (by positivity)]
    exact .finite .positive some fits

theorem alignedRead (s : Sign) (m : Nat) {e t : Int} (below : t ≤ e) :
    ((s.apply (UnpackedFloat.decreaseExponent m e t).1 : Int) : ℚ) * 2 ^ t =
      sense s * (m * 2 ^ e) := by
  obtain ⟨k, rfl⟩ := Int.le.dest below
  rw [senseApply, UnpackedFloat.decreaseExponent, Nat.shiftLeft_eq, zpow_add₀ two_ne_zero,
    show (t + k - t).toNat = k by omega, zpow_natCast]
  push_cast
  ring

theorem addReads (first : Reads u p) (second : Reads w q) (size : |p + q| ≤ 2 ^ (1000 : Int)) :
    ∃ r, Reads (UnpackedFloat.add .binary64 u w) r ∧ Rounds (p + q) r := by
  cases first with
  | zero s =>
    rw [zero_add]
    refine ⟨q, ?_, readsRounds second⟩
    cases second with
    | zero t => cases s <;> cases t <;> exact .zero _
    | finite t some fits => exact .finite t some fits
  | @finite s m e some fits => cases second with
    | zero t =>
      rw [add_zero]
      exact ⟨_, .finite s some fits, readsRounds (.finite s some fits)⟩
    | @finite t n f more room =>
      rw [← alignedRead s m (min_le_left e f), ← alignedRead t n (min_le_right e f), ← add_mul,
        ← Int.cast_add] at size ⊢
      exact normalizedReads _ _ _ size

theorem mulOutcome (s t : Sign) {m n : Nat} {e f : Int} (some : 0 < m) (more : 0 < n)
    (enough : 2 ^ 52 ≤ m * n ∨ e + f ≤ -1074) :
    Outcome (UnpackedFloat.mul .binary64 (.finite s m e some) (.finite t n f more))
      (sense s * (m * 2 ^ e) * (sense t * (n * 2 ^ f))) := by
  have value : sense s * (m * 2 ^ e) * (sense t * (n * 2 ^ f)) =
      sense (s * t) * ((m * n : Nat) * 2 ^ (e + f)) := by
    rw [senseMul, zpow_add₀ two_ne_zero, Nat.cast_mul]
    ring
  rw [value]
  exact roundedOutcome _ (residueExact _) enough

theorem mulReads (first : Reads u p) (second : Reads w q) (size : |p * q| ≤ 2 ^ (1000 : Int)) :
    ∃ r, Reads (UnpackedFloat.mul .binary64 u w) r ∧ Rounds (p * q) r := by
  cases first with
  | zero s =>
    rw [zero_mul]
    refine ⟨0, ?_, readsRounds (.zero s)⟩
    cases second <;> exact .zero _
  | @finite s m e some fits => cases second with
    | zero t =>
      rw [mul_zero]
      exact ⟨0, .zero _, readsRounds (.zero s)⟩
    | @finite t n f more room =>
      have enough : 2 ^ 52 ≤ m * n ∨ e + f ≤ -1074 := by
        obtain full | rfl := fits.full
        · exact .inl (full.trans (Nat.le_mul_of_pos_right m more))
        · obtain full | rfl := room.full
          · exact .inl (full.trans (Nat.le_mul_of_pos_left n some))
          · exact .inr (by decide)
      exact (mulOutcome s t some more enough).reads size

def quotientShift (m : Nat) (e : Int) (n : Nat) (f : Int) : Nat :=
  (e - f - min (e - f) (max (m.log2 + e - (n.log2 + f) - 53) (-1074))).toNat

theorem quotientRead (s t : Sign) {m n : Nat} (e f : Int) (some : 0 < m) (more : 0 < n) :
    UnpackedFloat.div .binary64 (.finite s m e some) (.finite t n f more) =
      UnpackedFloat.roundWithAccuracy .binary64 (s / t) (m * 2 ^ quotientShift m e n f / n)
        (e - f - quotientShift m e n f)
        (UnpackedFloat.accuracyOfFraction (m * 2 ^ quotientShift m e n f % n) n) := by
  have target : Format.binary64.targetExponent (totalExponent m e - totalExponent n f) =
      max (m.log2 + e - (n.log2 + f) - 53) (-1074) := by
    change max ((m.log2 : Int) + 1 + e - (n.log2 + 1 + f) - 53) (-1074) = _
    congr 1
    omega
  have moved : min (e - f) (max (m.log2 + e - (n.log2 + f) - 53) (-1074)) =
      e - f - quotientShift m e n f := by
    unfold quotientShift
    omega
  simp only [UnpackedFloat.div, UnpackedFloat.divCore, target, Nat.shiftLeft_eq, moved,
    sub_sub_cancel, Int.toNat_natCast]

theorem quotientPlaces {m n : Nat} {e f : Int} (some : 0 < m) (more : 0 < n) :
    2 ^ 52 ≤ m * 2 ^ quotientShift m e n f / n ∨ e - f - quotientShift m e n f ≤ -1074 := by
  by_cases long : n.log2 + 53 ≤ m.log2 + quotientShift m e n f
  · left
    rw [Nat.le_div_iff_mul_le more]
    calc 2 ^ 52 * n ≤ 2 ^ 52 * 2 ^ (n.log2 + 1) := Nat.mul_le_mul_left _ Nat.lt_log2_self.le
      _ = 2 ^ (n.log2 + 53) := by rw [← pow_add, add_comm, add_assoc]
      _ ≤ 2 ^ (m.log2 + quotientShift m e n f) := Nat.pow_le_pow_right (by decide) long
      _ = 2 ^ m.log2 * 2 ^ quotientShift m e n f := pow_add ..
      _ ≤ m * 2 ^ quotientShift m e n f := Nat.mul_le_mul_right _ (Nat.log2_self_le (by omega))
  · right
    unfold quotientShift at *
    omega

theorem fractionBits (d : Nat) {r n : Nat} :
    ((UnpackedFloat.ExtendedMantissa.ofMantissaAndAccuracy d
      (UnpackedFloat.accuracyOfFraction r n)).roundBit = true ↔ r ≠ 0 ∧ n ≤ 2 * r) ∧
    ((UnpackedFloat.ExtendedMantissa.ofMantissaAndAccuracy d
      (UnpackedFloat.accuracyOfFraction r n)).stickyBit = true ↔ r ≠ 0 ∧ 2 * r ≠ n) := by
  unfold UnpackedFloat.accuracyOfFraction
  by_cases none : r = 0
  · simp [none, UnpackedFloat.ExtendedMantissa.ofMantissaAndAccuracy]
  · rw [if_neg none]
    obtain less | same | more := lt_trichotomy (2 * r) n
    · rw [compare_lt_iff_lt.mpr less]
      simp [none, UnpackedFloat.ExtendedMantissa.ofMantissaAndAccuracy, less.not_ge, less.ne]
    · rw [compare_eq_iff_eq.mpr same]
      simp [none, UnpackedFloat.ExtendedMantissa.ofMantissaAndAccuracy, same]
    · rw [compare_gt_iff_gt.mpr more]
      simp [none, UnpackedFloat.ExtendedMantissa.ofMantissaAndAccuracy, more.le, more.ne']

theorem quotientResidue (m : Nat) {n : Nat} (more : 0 < n) :
    Residue (UnpackedFloat.ExtendedMantissa.ofMantissaAndAccuracy (m / n)
      (UnpackedFloat.accuracyOfFraction (m % n) n)) (m / n) := by
  have place : (0 : ℚ) < n := by exact_mod_cast more
  have whole : (m : ℚ) / n = (m / n : Nat) + (m % n : Nat) / n := by
    rw [div_eq_iff place.ne', add_mul, div_mul_cancel₀ _ place.ne', mul_comm]
    exact_mod_cast (Nat.div_add_mod m n).symm
  have least : (0 : ℚ) ≤ (m % n : Nat) / n := by positivity
  have rest : ((m % n : Nat) : ℚ) / n < 1 := by
    rw [div_lt_one place]
    exact_mod_cast Nat.mod_lt m more
  have half : 1 / 2 ≤ ((m % n : Nat) : ℚ) / n ↔ n ≤ 2 * (m % n) := by
    rw [le_div_iff₀ place, one_div, inv_mul_le_iff₀ two_pos]
    exact_mod_cast Iff.rfl
  have middle : ((m % n : Nat) : ℚ) / n = 1 / 2 ↔ 2 * (m % n) = n := by
    rw [div_eq_div_iff place.ne' two_ne_zero, one_mul, mul_comm]
    exact_mod_cast Iff.rfl
  have bare : ((m % n : Nat) : ℚ) / n = 0 ↔ m % n = 0 := by
    rw [div_eq_zero_iff, or_iff_left place.ne', Nat.cast_eq_zero]
  obtain ⟨round, sticky⟩ := fractionBits (m / n) (r := m % n) (n := n)
  refine ⟨?_, ?_, round.trans ?_, sticky.trans ?_⟩ <;> rw [startMantissa, whole]
  · linarith
  · linarith
  · rw [add_le_add_iff_left, half]
    exact and_iff_right_of_imp fun long => by omega
  · simp only [ne_eq, add_eq_left, add_right_inj, bare, middle]

theorem divOutcome (s t : Sign) {m n : Nat} (e f : Int) (some : 0 < m) (more : 0 < n) :
    Outcome (UnpackedFloat.div .binary64 (.finite s m e some) (.finite t n f more))
      (sense s * (m * 2 ^ e) / (sense t * (n * 2 ^ f))) := by
  have place : (n : ℚ) ≠ 0 := by exact_mod_cast more.ne'
  have value : sense s * (m * 2 ^ e) / (sense t * (n * 2 ^ f)) = sense (s / t) *
      ((m * 2 ^ quotientShift m e n f : Nat) / n * 2 ^ (e - f - quotientShift m e n f)) := by
    rw [senseDiv, zpow_sub₀ two_ne_zero, zpow_sub₀ two_ne_zero, zpow_natCast]
    push_cast
    field_simp
  rw [value, quotientRead]
  exact roundedOutcome _ (quotientResidue _ more) (quotientPlaces some more)

theorem divReads (first : Reads u p) (second : Reads w q) (other : q ≠ 0)
    (size : |p / q| ≤ 2 ^ (1000 : Int)) :
    ∃ r, Reads (UnpackedFloat.div .binary64 u w) r ∧ Rounds (p / q) r := by
  cases second with
  | zero t => exact absurd rfl other
  | @finite t n f more room => cases first with
    | zero s =>
      rw [zero_div]
      exact ⟨0, .zero _, readsRounds (.zero s)⟩
    | @finite s m e some fits => exact (divOutcome s t e f some more).reads size

theorem subAsAdd (u w : UnpackedFloat) :
    UnpackedFloat.sub .binary64 u w = UnpackedFloat.add .binary64 u w.neg := by
  cases u <;> cases w <;> try rfl
  rename_i s m e some t n f more
  cases t
  · simp only [UnpackedFloat.sub, Sign.apply, sub_neg_eq_add]
    rfl
  · rfl

end Operands

section Comparing
variable {u w : UnpackedFloat} {p q : ℚ} {m n : Nat} {e f : Int}

theorem magnitudeLess (first : Fits m e) (second : Fits n f) (less : e < f) :
    (m : ℚ) * 2 ^ e < n * 2 ^ f := by
  have full : 2 ^ 52 ≤ n := second.full.resolve_right (by have := first.least; omega)
  have wide : (m : ℚ) < 2 ^ (53 : Int) := by exact_mod_cast first.wide
  have long : (2 : ℚ) ^ (52 : Int) ≤ n := by exact_mod_cast full
  calc (m : ℚ) * 2 ^ e < 2 ^ (53 : Int) * 2 ^ e := by gcongr
    _ = 2 ^ (53 + e) := (zpow_add₀ two_ne_zero ..).symm
    _ ≤ 2 ^ (52 + f) := zpow_le_zpow_right₀ one_le_two (by omega)
    _ = 2 ^ (52 : Int) * 2 ^ f := zpow_add₀ two_ne_zero ..
    _ ≤ n * 2 ^ f := by gcongr

theorem magnitudeCompare (first : Fits m e) (second : Fits n f) :
    (compare e f).then (compare m n) = compare ((m : ℚ) * 2 ^ e) (n * 2 ^ f) := by
  obtain less | rfl | more := lt_trichotomy e f
  · rw [compare_lt_iff_lt.mpr less, compare_lt_iff_lt.mpr (magnitudeLess first second less)]
    rfl
  · have placed : (0 : ℚ) < 2 ^ e := by positivity
    rw [compare_eq_iff_eq.mpr rfl, Ordering.eq_then]
    obtain less | rfl | more := lt_trichotomy m n
    · rw [compare_lt_iff_lt.mpr less, compare_lt_iff_lt.mpr (by gcongr)]
    · rw [compare_eq_iff_eq.mpr rfl, compare_eq_iff_eq.mpr rfl]
    · rw [compare_gt_iff_gt.mpr more, compare_gt_iff_gt.mpr (by gcongr)]
  · rw [compare_gt_iff_gt.mpr more, compare_gt_iff_gt.mpr (magnitudeLess second first more)]
    rfl

theorem compareNeg (p q : ℚ) : compare (-p) (-q) = (compare p q).swap := by
  obtain less | rfl | more := lt_trichotomy p q
  · rw [compare_lt_iff_lt.mpr less, compare_gt_iff_gt.mpr (neg_lt_neg less)]
    rfl
  · rw [compare_eq_iff_eq.mpr rfl, compare_eq_iff_eq.mpr rfl]
    rfl
  · rw [compare_gt_iff_gt.mpr more, compare_lt_iff_lt.mpr (neg_lt_neg more)]
    rfl

theorem compareReads (first : Reads u p) (second : Reads w q) :
    u.compare w = some (compare p q) := by
  cases first with
  | zero s => cases second with
    | zero t =>
      rw [compare_eq_iff_eq.mpr rfl]
      rfl
    | @finite t n f more room =>
      have place : (0 : ℚ) < n * 2 ^ f := by positivity
      cases t with
      | positive =>
        rw [sense, one_mul, compare_lt_iff_lt.mpr place]
        rfl
      | negative =>
        rw [sense, neg_one_mul, compare_gt_iff_gt.mpr (neg_neg_of_pos place)]
        rfl
  | @finite s m e some fits =>
    have origin : (0 : ℚ) < m * 2 ^ e := by positivity
    cases second with
    | zero t => cases s with
      | positive =>
        rw [sense, one_mul, compare_gt_iff_gt.mpr origin]
        rfl
      | negative =>
        rw [sense, neg_one_mul, compare_lt_iff_lt.mpr (neg_neg_of_pos origin)]
        rfl
    | @finite t n f more room =>
      have place : (0 : ℚ) < n * 2 ^ f := by positivity
      cases s <;> cases t <;> simp only [sense, one_mul, neg_one_mul]
      · rw [compareNeg, ← magnitudeCompare fits room]
        rfl
      · rw [compare_lt_iff_lt.mpr ((neg_neg_of_pos origin).trans place)]
        rfl
      · rw [compare_gt_iff_gt.mpr ((neg_neg_of_pos place).trans origin)]
        rfl
      · rw [← magnitudeCompare fits room]
        rfl

end Comparing

section Standing
variable {x y : Float} {p q : ℚ}

theorem standsPacked {u : UnpackedFloat} (reads : Reads u q) (made : x.toModel = pack u) :
    Stands x q := by
  unfold Stands
  rw [made]
  change Reads (UnpackedFloat.unpack .binary64 (UnpackedFloat.pack .binary64 u)) q
  rwa [readsBack reads]

theorem finiteStands (finite : x.isFinite = true) : ∃ q, Stands x q := by
  change x.toModel.unpack.isFinite = true at finite
  unfold Stands
  generalize known : x.toModel.unpack = u at *
  cases u with
  | infinity s => contradiction
  | notANumber => contradiction
  | zero s => exact ⟨0, .zero s⟩
  | finite s m e some => exact ⟨_, .finite s some (unpackedFits known)⟩

theorem standsFinite (stands : Stands x q) : x.isFinite = true := by
  change x.toModel.unpack.isFinite = true
  unfold Stands at stands
  generalize x.toModel.unpack = u at *
  cases stands with
  | zero => rfl
  | finite => rfl

theorem leUnpacked : x ≤ y ↔ x.toModel.unpack.le y.toModel.unpack = true := by
  change Float.le x y = true ↔ _
  rw [Float.le, decide_eq_true_iff]
  rfl

theorem ltUnpacked : x < y ↔ x.toModel.unpack.lt y.toModel.unpack = true := by
  change Float.lt x y = true ↔ _
  rw [Float.lt, decide_eq_true_iff]
  rfl

theorem betweenFinite {z : Float} (first : Stands y p) (second : Stands z q) (low : y ≤ x)
    (high : x ≤ z) : x.isFinite = true := by
  rw [leUnpacked] at low high
  change x.toModel.unpack.isFinite = true
  unfold Stands at first second
  generalize x.toModel.unpack = u at *
  generalize y.toModel.unpack = v at *
  generalize z.toModel.unpack = w at *
  cases u with
  | notANumber => cases first <;> contradiction
  | infinity sign =>
    cases sign with
    | negative => cases first <;> contradiction
    | positive => cases second <;> contradiction
  | zero sign => rfl
  | finite sign m e some => rfl

theorem standsLe (first : Stands x p) (second : Stands y q) : x ≤ y ↔ p ≤ q := by
  rw [leUnpacked, UnpackedFloat.le, compareReads first second, Option.any_some,
    Ordering.isLE_iff_ne_gt, compare_gt_iff_gt, not_lt]

theorem standsLt (first : Stands x p) (second : Stands y q) : x < y ↔ p < q := by
  rw [ltUnpacked, UnpackedFloat.lt, compareReads first second, beq_iff_eq, Option.some.injEq]
  exact compare_lt_iff_lt

theorem standsEq (first : Stands x p) (second : Stands y q) : (x == y) = true ↔ p = q := by
  change x.toModel.unpack.beq y.toModel.unpack = true ↔ _
  rw [UnpackedFloat.beq, compareReads first second, beq_iff_eq, Option.some.injEq]
  exact compare_eq_iff_eq

theorem negStands (stands : Stands x q) : Stands (-x) (-q) := standsPacked (readsNeg stands) rfl

theorem absStands (stands : Stands x q) : Stands x.abs |q| := standsPacked (readsAbs stands) rfl

theorem standsGrid (stands : Stands x q) {n : Int} (great : 2 ^ n < |q|) :
    ∃ k : Int, q = k * 2 ^ (n - 52) := by
  unfold Stands at stands
  generalize x.toModel.unpack = u at *
  cases stands with
  | zero s => exact ⟨0, by simp⟩
  | @finite s m e some fits =>
    have wide : (m : ℚ) < 2 ^ (53 : Int) := by exact_mod_cast fits.wide
    have less : (2 : ℚ) ^ n < 2 ^ (53 + e) := by
      rw [abs_mul, senseAbs, one_mul, abs_of_nonneg (by positivity)] at great
      rw [zpow_add₀ two_ne_zero]
      exact great.trans (by gcongr)
    have above := (zpow_lt_zpow_iff_right₀ (one_lt_two (α := ℚ))).mp less
    obtain ⟨k, known⟩ := Int.le.dest (show n - 52 ≤ e by omega)
    refine ⟨s.apply m * 2 ^ k, ?_⟩
    rw [← known, zpow_add₀ two_ne_zero, zpow_natCast]
    push_cast
    rw [senseApply]
    ring

def Gives (x : Float) (q : ℚ) : Prop := |q| ≤ 2 ^ (1000 : Int) → ∃ r, Stands x r ∧ Rounds q r

theorem addGives (first : Stands x p) (second : Stands y q) : Gives (x + y) (p + q) := fun size =>
  let ⟨r, reads, rounds⟩ := addReads first second size
  ⟨r, standsPacked reads rfl, rounds⟩

theorem subGives (first : Stands x p) (second : Stands y q) : Gives (x - y) (p - q) := by
  intro size
  rw [sub_eq_add_neg] at size ⊢
  obtain ⟨r, reads, rounds⟩ := addReads first (readsNeg second) size
  rw [← subAsAdd] at reads
  exact ⟨r, standsPacked reads rfl, rounds⟩

theorem mulGives (first : Stands x p) (second : Stands y q) : Gives (x * y) (p * q) := fun size =>
  let ⟨r, reads, rounds⟩ := mulReads first second size
  ⟨r, standsPacked reads rfl, rounds⟩

theorem divGives (first : Stands x p) (second : Stands y q) (other : q ≠ 0) :
    Gives (x / y) (p / q) := fun size =>
  let ⟨r, reads, rounds⟩ := divReads first second other size
  ⟨r, standsPacked reads rfl, rounds⟩

theorem Gives.near (gives : Gives x q) {n : Nat} (most : n ≤ 1000) (size : |q| ≤ 2 ^ n) :
    ∃ r, Stands x r ∧ |r - q| ≤ 2 ^ n / 2 ^ 52 := by
  rw [← zpow_natCast] at size
  obtain ⟨r, stands, rounds⟩ := gives (size.trans (zpow_le_zpow_right₀ one_le_two (by omega)))
  refine ⟨r, stands, (rounds.error (by omega) size).trans_eq ?_⟩
  rw [zpow_sub₀ two_ne_zero, zpow_natCast]
  rfl

def Fine (q : ℚ) : Prop := ∃ k j : Int, q = k * 2 ^ j ∧ |k| < 2 ^ 53 ∧ -1074 ≤ j ∧ j ≤ 900

theorem Gives.exact (gives : Gives x q) (fine : Fine q) : Stands x q := by
  obtain ⟨k, j, rfl, short, least, most⟩ := fine
  have size : |(k : ℚ) * 2 ^ j| ≤ 2 ^ (1000 : Int) := by
    have placed : (0 : ℚ) < 2 ^ j := by positivity
    have below : |(k : ℚ)| ≤ 2 ^ (53 : Int) := by exact_mod_cast short.le
    calc |(k : ℚ) * 2 ^ j| = |(k : ℚ)| * 2 ^ j := by rw [abs_mul, abs_of_pos placed]
      _ ≤ 2 ^ (53 : Int) * 2 ^ j := by gcongr
      _ = 2 ^ (53 + j) := (zpow_add₀ two_ne_zero ..).symm
      _ ≤ 2 ^ (1000 : Int) := zpow_le_zpow_right₀ one_le_two (by omega)
  obtain ⟨r, stands, rounds⟩ := gives size
  rwa [rounds.exact short least] at stands

end Standing

end AirPicture.Binary64
