import Mathlib

/-! Floats of 64 bits as rational numbers. Whatever is rounded ends up on the place nearest to it in
the grid of powers of two that the 53 bits of a significand allow, halfway between two places on the
even one. So there is one number that it is rounded to, and no error where it is on the grid. -/
namespace AirPicture.Binary64
open Float.Model
open UnpackedFloat (Sign Accuracy ExtendedMantissa shiftToTargetExponent roundWithAccuracy)

structure Fits (m : Nat) (e : Int) : Prop where
  wide : m < 2 ^ 53
  least : -1074 ≤ e
  most : e ≤ 971
  full : 2 ^ 52 ≤ m ∨ e = -1074

def sense : Sign → ℚ
  | .positive => 1
  | .negative => -1

section
variable (s t : Sign)

theorem senseAbs : |sense s| = 1 := by cases s <;> simp [sense]

theorem senseNeg : sense (-s) = -sense s := by
  cases s
  · exact (neg_neg 1).symm
  · rfl

theorem senseMul : sense (s * t) = sense s * sense t := by
  cases s <;> cases t
  · change (1 : ℚ) = -1 * -1
    norm_num
  · exact (mul_one (-1)).symm
  · exact (one_mul (-1)).symm
  · exact (one_mul 1).symm

theorem senseDiv : sense (s / t) = sense s / sense t := by
  cases s <;> cases t
  · change (1 : ℚ) = -1 / -1
    norm_num
  · exact (div_one (-1)).symm
  · exact (one_div_neg_one_eq_neg_one).symm
  · exact (div_one 1).symm

theorem senseApply (m : Nat) : ((s.apply m : Int) : ℚ) = sense s * m := by
  cases s <;> simp [sense, Sign.apply]

end

inductive Reads : UnpackedFloat → ℚ → Prop
  | zero (sign : Sign) : Reads (.zero sign) 0
  | finite (sign : Sign) {m : Nat} {e : Int} (some : 0 < m) (fits : Fits m e) :
      Reads (.finite sign m e some) (sense sign * (m * 2 ^ e))

structure Next (t : Int) (q r : ℚ) : Prop where
  least : -1074 ≤ t
  fine : 2 ^ (t + 52) ≤ |q| ∨ t = -1074
  coarse : |q| < 2 ^ (t + 53)
  near : |r - q| ≤ 2 ^ t / 2
  placed : ∃ k : Int, r = k * 2 ^ t ∧ (|r - q| = 2 ^ t / 2 → Even k)

def Rounds (q r : ℚ) : Prop := ∃ t, Next t q r

theorem Next.step {t : Int} {q r : ℚ} (next : Next t q r) :
    ∃ k : Int, r = k * 2 ^ t ∧ |r - q| < 2 ^ t := by
  obtain ⟨k, placed, -⟩ := next.placed
  exact ⟨k, placed, next.near.trans_lt (half_lt_self (by positivity))⟩

section Packing

theorem leadingNat {w : Nat} (v : BitVec w) : (1#1 ++ v).toNat = 2 ^ w + v.toNat := by
  rw [BitVec.toNat_append, ← Nat.shiftLeft_add_eq_or_of_lt v.isLt, BitVec.toNat_ofNat,
    Nat.shiftLeft_eq]
  simp

theorem unpackedFits {b : BitVec Format.binary64.numBits} {sign : Sign} {m : Nat} {e : Int}
    {some : 0 < m} (known : UnpackedFloat.unpack .binary64 b = .finite sign m e some) : Fits m e := by
  have low := (@UnpackedFloat.unpackMantissa .binary64 b).isLt
  have high := (@UnpackedFloat.unpackExponent .binary64 b).isLt
  have bias : ((Format.binary64.exponentBias : Nat) : Int) = 1023 := rfl
  have places : ((Format.binary64.mantissaBitsWithoutImplicit : Nat) : Int) = 52 := rfl
  simp only [UnpackedFloat.unpack, bias, places] at known
  split at known
  · split at known <;> contradiction
  · rename_i finite
    have top : (@UnpackedFloat.unpackExponent .binary64 b).toNat ≠ 2047 :=
      fun same => finite (BitVec.eq_of_toNat_eq same)
    change _ < 2 ^ 52 at low
    change _ < 2 ^ 11 at high
    split at known
    · rename_i zero
      split at known
      · contradiction
      · rw [zero] at known
        cases known
        exact ⟨by omega, by decide, by decide, .inr rfl⟩
    · rename_i nonzero
      have bottom : (@UnpackedFloat.unpackExponent .binary64 b).toNat ≠ 0 :=
        fun same => nonzero (BitVec.eq_of_toNat_eq same)
      have leading := leadingNat (@UnpackedFloat.unpackMantissa .binary64 b)
      change _ = 2 ^ 52 + _ at leading
      cases known
      exact ⟨by omega, by omega, by omega, .inl (by omega)⟩

section
variable (sign : Sign) {m : Nat} {e : Int} (some : 0 < m)

theorem exponentMoved : (e + (Format.binary64.exponentBias : Nat) +
    (Format.binary64.mantissaBitsWithoutImplicit : Nat)).toNat = (e + 1075).toNat := by
  change (e + 1023 + 52).toNat = _
  omega

theorem exponentRoom (most : e ≤ 971) : ¬ 2 ^ Format.binary64.exponentBits ≤
    (e + (Format.binary64.exponentBias : Nat) +
      (Format.binary64.mantissaBitsWithoutImplicit : Nat)).toNat + 1 := by
  rw [exponentMoved]
  change ¬ 2048 ≤ _
  omega

theorem fullPacked (full : 2 ^ 52 ≤ m) (wide : m < 2 ^ 53) (most : e ≤ 971) :
    UnpackedFloat.pack .binary64 (.finite sign m e some) =
      UnpackedFloat.packComponents .binary64 sign (BitVec.ofNat 11 (e + 1075).toNat)
        (BitVec.ofNat 52 m) := by
  have length : m.log2 + 1 = Format.binary64.mantissaBits :=
    congrArg (· + 1) ((Nat.log2_eq_iff (by omega)).mpr ⟨full, wide⟩)
  rw [← exponentMoved, UnpackedFloat.pack]
  exact (if_neg (exponentRoom most)).trans (if_pos length)

theorem shortPacked (short : m < 2 ^ 52) (most : e ≤ 971) :
    UnpackedFloat.pack .binary64 (.finite sign m e some) =
      UnpackedFloat.packComponents .binary64 sign 0#11 (BitVec.ofNat 52 m) := by
  have length : m.log2 + 1 ≠ Format.binary64.mantissaBits := by
    have := (Nat.log2_lt (n := m) (k := 52) (by omega)).mpr (by omega)
    change _ ≠ 53
    omega
  rw [UnpackedFloat.pack]
  exact (if_neg (exponentRoom most)).trans (if_neg length)

theorem fullBack (full : 2 ^ 52 ≤ m) (wide : m < 2 ^ 53) (least : -1074 ≤ e) (most : e ≤ 971) :
    UnpackedFloat.unpack .binary64 (UnpackedFloat.pack .binary64 (.finite sign m e some)) =
      .finite sign m e some := by
  have exponent : (BitVec.ofNat 11 (e + 1075).toNat).toNat = (e + 1075).toNat := by
    rw [BitVec.toNat_ofNat]
    omega
  have apart : ∀ b : BitVec 11, b.toNat ≠ (e + 1075).toNat →
      BitVec.ofNat 11 (e + 1075).toNat ≠ b := by
    rintro b other rfl
    exact other exponent
  have top : (-1#11 : BitVec 11).toNat ≠ (e + 1075).toNat := by
    change 2047 ≠ _
    omega
  have bottom : (0#11).toNat ≠ (e + 1075).toNat := by
    change 0 ≠ _
    omega
  have leading := leadingNat (BitVec.ofNat 52 m)
  rw [BitVec.toNat_ofNat] at leading
  rw [fullPacked sign some full wide most, UnpackedFloat.unpack]
  simp only [UnpackedFloat.unpackExponent_packComponents,
    UnpackedFloat.unpackMantissa_packComponents, UnpackedFloat.unpackSign_packComponents,
    UnpackedFloat.Sign.ofBitVec_toBitVec]
  rw [if_neg (apart _ top), if_neg (apart _ bottom), UnpackedFloat.finite.injEq]
  refine ⟨rfl, by omega, ?_⟩
  rw [exponent]
  change ((e + 1075).toNat : Int) - (1023 + 52 : Int) = _
  omega

theorem shortBack (short : m < 2 ^ 52) :
    UnpackedFloat.unpack .binary64 (UnpackedFloat.pack .binary64 (.finite sign m (-1074) some)) =
      .finite sign m (-1074) some := by
  have mantissa : (BitVec.ofNat 52 m).toNat = m := by
    rw [BitVec.toNat_ofNat]
    omega
  have nonzero : BitVec.ofNat 52 m ≠ 0#52 := by
    intro same
    have := congrArg BitVec.toNat same
    rw [mantissa] at this
    change m = 0 at this
    omega
  rw [shortPacked sign some short (by decide), UnpackedFloat.unpack]
  simp only [UnpackedFloat.unpackExponent_packComponents,
    UnpackedFloat.unpackMantissa_packComponents, UnpackedFloat.unpackSign_packComponents,
    UnpackedFloat.Sign.ofBitVec_toBitVec]
  rw [if_neg (by decide), if_pos trivial, dif_neg nonzero, UnpackedFloat.finite.injEq]
  exact ⟨rfl, mantissa, rfl⟩

theorem packedBack (fits : Fits m e) :
    UnpackedFloat.unpack .binary64 (UnpackedFloat.pack .binary64 (.finite sign m e some)) =
      .finite sign m e some := by
  by_cases full : 2 ^ 52 ≤ m
  · exact fullBack sign some full fits.wide fits.least fits.most
  · cases fits.full.resolve_left full
    exact shortBack sign some (by omega)

end

theorem readsBack {u : UnpackedFloat} {q : ℚ} (reads : Reads u q) :
    UnpackedFloat.unpack .binary64 (UnpackedFloat.pack .binary64 u) = u := by
  cases reads with
  | zero sign => cases sign <;> rfl
  | finite sign some fits => exact packedBack sign some fits

theorem unpackPacked (b : BitVec Format.binary64.numBits) :
    UnpackedFloat.unpack .binary64 (UnpackedFloat.pack .binary64 (UnpackedFloat.unpack .binary64 b)) =
      UnpackedFloat.unpack .binary64 b := by
  rw [UnpackedFloat.pack_unpack]
  split
  · rename_i strange
    simp only [UnpackedFloat.isNaNBits, decide_eq_true_eq] at strange
    rw [UnpackedFloat.unpack_packedNaN, UnpackedFloat.unpack]
    simp [strange]
  · rfl

def Lost (u : UnpackedFloat) : Prop :=
  (UnpackedFloat.unpack .binary64 (UnpackedFloat.pack .binary64 u)).isFinite = false

theorem lostInfinite (sign : Sign) : Lost (.infinity sign) := by
  cases sign <;> rfl

theorem lostFinite (sign : Sign) {m : Nat} {e : Int} (some : 0 < m) (beyond : 971 < e) :
    Lost (.finite sign m e some) := by
  have packed : UnpackedFloat.pack .binary64 (.finite sign m e some) =
      UnpackedFloat.packedInfinity .binary64 sign := by
    rw [UnpackedFloat.pack]
    refine if_pos ?_
    rw [exponentMoved]
    change 2048 ≤ _
    omega
  rw [Lost, packed]
  exact lostInfinite sign

def overflow : ℚ := (2 ^ 54 - 1) * 2 ^ (970 : Int)

theorem overflowGreat : 2 ^ (1000 : Int) < overflow := by
  calc (2 : ℚ) ^ (1000 : Int) = 2 ^ (30 : Int) * 2 ^ (970 : Int) := by
        rw [← zpow_add₀ two_ne_zero]
        rfl
    _ < overflow := mul_lt_mul_of_pos_right (by norm_num) (by positivity)

theorem overflowLess : overflow < 2 ^ (1024 : Int) := by
  calc overflow < 2 ^ (54 : Int) * 2 ^ (970 : Int) :=
        mul_lt_mul_of_pos_right (by norm_num) (by positivity)
    _ = 2 ^ (1024 : Int) := (zpow_add₀ two_ne_zero ..).symm

inductive Outcome (u : UnpackedFloat) (q : ℚ) : Prop
  | near {r : ℚ} (reads : Reads u r) (rounds : Rounds q r)
  | lost (lost : Lost u) (great : overflow ≤ |q|)

end Packing

section Shifting

/- What is left of a number beyond its significand, as the round bit and the sticky bit tell it. -/
structure Residue (em : ExtendedMantissa) (v : ℚ) : Prop where
  low : (em.mantissa : ℚ) ≤ v
  high : v < em.mantissa + 1
  half : em.roundBit = true ↔ em.mantissa + 1 / 2 ≤ v
  rest : em.stickyBit = true ↔ v ≠ em.mantissa ∧ v ≠ em.mantissa + 1 / 2

variable {em : ExtendedMantissa} {v : ℚ}

theorem residueBare (residue : Residue em v) :
    (em.roundBit || em.stickyBit) = true ↔ v ≠ em.mantissa := by
  rw [Bool.or_eq_true, residue.half, residue.rest]
  constructor
  · rintro (half | ⟨other, -⟩)
    · exact fun same => by linarith
    · exact other
  · intro other
    by_cases half : (em.mantissa : ℚ) + 1 / 2 ≤ v
    · exact .inl half
    · exact .inr ⟨other, fun same => half same.ge⟩

theorem residueOne (residue : Residue em v) : Residue em.shiftRightOne (v / 2) := by
  have bare := residueBare residue
  obtain ⟨low, high, -, -⟩ := residue
  have halves : (em.mantissa : ℚ) = 2 * (em.mantissa / 2 : Nat) + (em.mantissa % 2 : Nat) := by
    exact_mod_cast (Nat.div_add_mod em.mantissa 2).symm
  have bit := Nat.mod_two_eq_zero_or_one em.mantissa
  simp only [ExtendedMantissa.shiftRightOne]
  generalize em.mantissa / 2 = half at *
  obtain even | odd := bit
  · rw [even, Nat.cast_zero, add_zero] at halves
    refine ⟨by linarith, by linarith, ?_, bare.trans ?_⟩
    · rw [even]
      exact iff_of_false Bool.false_ne_true (by linarith)
    · rw [halves]
      exact ⟨fun other => ⟨fun same => other (by linarith), fun same => by linarith⟩,
        fun ⟨other, _⟩ same => other (by linarith)⟩
  · rw [odd, Nat.cast_one] at halves
    refine ⟨by linarith, by linarith, ?_, bare.trans ?_⟩
    · rw [odd]
      exact iff_of_true rfl (by linarith)
    · rw [halves]
      exact ⟨fun other => ⟨fun same => by linarith, fun same => other (by linarith)⟩,
        fun ⟨_, other⟩ same => other (by linarith)⟩

theorem residueShift (residue : Residue em v) (n : Nat) : Residue (em >>> n) (v / 2 ^ n) := by
  induction n with
  | zero => exact (div_one v).symm ▸ residue
  | succ n ih =>
    have one := residueOne ih
    rwa [div_div, ← pow_succ] at one

theorem mantissaShift (em : ExtendedMantissa) (n : Nat) :
    (em >>> n).mantissa = em.mantissa / 2 ^ n := by
  induction n with
  | zero => exact (Nat.div_one _).symm
  | succ n ih =>
    change (em >>> n).mantissa / 2 = _
    rw [ih, Nat.div_div_eq_div_mul, pow_succ]

theorem roundedUp (em : ExtendedMantissa) : em.roundedMantissa = em.mantissa ∨
    em.roundBit = true ∧ em.roundedMantissa = em.mantissa + 1 := by
  obtain ⟨m, roundBit, stickyBit⟩ := em
  cases roundBit <;> cases stickyBit
  · exact .inl rfl
  · exact .inl rfl
  · obtain even | odd := Nat.mod_two_eq_zero_or_one m
    · exact .inl (congrArg (m + ·) even)
    · exact .inr ⟨rfl, congrArg (m + ·) odd⟩
  · exact .inr ⟨rfl, rfl⟩

theorem roundedNear (residue : Residue em v) : |(em.roundedMantissa : ℚ) - v| ≤ 1 / 2 ∧
    (|(em.roundedMantissa : ℚ) - v| = 1 / 2 → Even em.roundedMantissa) := by
  obtain ⟨low, high, half, rest⟩ := residue
  obtain ⟨m, roundBit, stickyBit⟩ := em
  simp only at low high half rest
  have below (kept : v < m + 1 / 2) : |(m : ℚ) - v| < 1 / 2 := by
    rw [abs_lt]
    constructor <;> linarith
  have above (beyond : m + 1 / 2 < v) : |((m + 1 : Nat) : ℚ) - v| < 1 / 2 := by
    rw [Nat.cast_succ, abs_lt]
    constructor <;> linarith
  cases roundBit
  · have kept : v < m + 1 / 2 := not_le.mp fun beyond => Bool.noConfusion (half.mpr beyond)
    cases stickyBit
    · exact ⟨(below kept).le, fun same => absurd same (below kept).ne⟩
    · exact ⟨(below kept).le, fun same => absurd same (below kept).ne⟩
  · have beyond := half.mp rfl
    cases stickyBit
    · have between : v = m + 1 / 2 := by
        by_contra other
        exact Bool.noConfusion (rest.mpr ⟨fun same => by linarith, other⟩)
      obtain even | odd := Nat.mod_two_eq_zero_or_one m
      · have same : ExtendedMantissa.roundedMantissa ⟨m, true, false⟩ = m :=
          congrArg (m + ·) even
        rw [same, between, sub_add_cancel_left, abs_neg, abs_of_pos one_half_pos]
        exact ⟨le_rfl, fun _ => Nat.even_iff.mpr even⟩
      · have same : ExtendedMantissa.roundedMantissa ⟨m, true, false⟩ = m + 1 :=
          congrArg (m + ·) odd
        rw [same, between, Nat.cast_succ, add_sub_add_left_eq_sub]
        norm_num
        exact (Nat.odd_iff.mpr odd).add_one
    · have strict : m + 1 / 2 < v := lt_of_le_of_ne beyond (rest.mp rfl).2.symm
      exact ⟨(above strict).le, fun same => absurd same (above strict).ne⟩

end Shifting

section Settling

theorem targetRead (m : Nat) (e : Int) : Format.binary64.targetExponent (totalExponent m e) =
    max (m.log2 + e - 52) (-1074) := by
  change max ((m.log2 : Int) + 1 + e - 53) (-1074) = _
  congr 1
  omega

def excess (m : Nat) (e : Int) : Nat := (max (m.log2 + e - 52) (-1074) - e).toNat

theorem shifted (m : Nat) (e : Int) (a : Accuracy) : shiftToTargetExponent .binary64 m e a =
    (ExtendedMantissa.ofMantissaAndAccuracy m a >>> excess m e, e + excess m e) := by
  simp only [shiftToTargetExponent, UnpackedFloat.shiftToExponent, targetRead, excess]

theorem excessNone {m : Nat} {e : Int} (wide : m < 2 ^ 53) (least : -1074 ≤ e) :
    excess m e = 0 := by
  have short : m.log2 < 53 := by
    obtain rfl | some := Nat.eq_zero_or_pos m
    · decide
    · exact (Nat.log2_lt (by omega)).mpr wide
  unfold excess
  omega

theorem settled {m : Nat} {e : Int} (wide : m ≤ 2 ^ 53) (least : -1074 ≤ e)
    (full : 2 ^ 52 ≤ m ∨ e = -1074) :
    ((m / 2 ^ excess m e : Nat) : ℚ) * 2 ^ (e + excess m e) = m * 2 ^ e ∧ excess m e ≤ 1 ∧
      (e + excess m e ≤ 971 → Fits (m / 2 ^ excess m e) (e + excess m e)) := by
  obtain wide | rfl := Nat.lt_or_eq_of_le wide
  · rw [excessNone wide least, pow_zero, Nat.div_one, Nat.cast_zero, add_zero]
    exact ⟨rfl, zero_le_one, fun most => ⟨wide, least, most, full⟩⟩
  · have one : excess (2 ^ 53) e = 1 := by
      unfold excess
      rw [Nat.log2_two_pow]
      omega
    rw [one]
    refine ⟨?_, le_rfl, fun most => ⟨by norm_num, by omega, most, .inl (by norm_num)⟩⟩
    rw [zpow_add₀ two_ne_zero]
    norm_num
    ring

theorem excessPlaces {m : Nat} {e : Int} (enough : 2 ^ 52 ≤ m ∨ e ≤ -1074) :
    -1074 ≤ e + excess m e ∧ m / 2 ^ excess m e < 2 ^ 53 ∧
      (2 ^ 52 ≤ m / 2 ^ excess m e ∨ e + excess m e = -1074) := by
  have long : 2 ^ 52 ≤ m → 52 ≤ m.log2 := fun full => (Nat.le_log2 (by omega)).mpr full
  have high : m < 2 ^ (m.log2 + 1) := Nat.lt_log2_self
  by_cases normal : (-1074 : Int) ≤ m.log2 + e - 52
  · obtain ⟨s, length⟩ : ∃ s, m.log2 = s + 52 := ⟨m.log2 - 52, by omega⟩
    have known : excess m e = s := by
      unfold excess
      omega
    have low : 2 ^ m.log2 ≤ m := Nat.log2_self_le (by rintro rfl; simp at length)
    rw [length, pow_add] at low
    rw [length, show s + 52 + 1 = s + 53 from rfl, pow_add] at high
    rw [known]
    refine ⟨by omega, Nat.div_lt_of_lt_mul high, .inl ?_⟩
    rwa [Nat.le_div_iff_mul_le (by positivity), mul_comm]
  · have known : e + excess m e = -1074 := by
      unfold excess
      omega
    have less : m < 2 ^ excess m e * 2 ^ 53 := by
      refine high.trans_le ?_
      rw [← pow_add]
      exact Nat.pow_le_pow_right (by decide) (by omega)
    exact ⟨by omega, Nat.div_lt_of_lt_mul less, .inr known⟩

theorem startMantissa (m : Nat) (a : Accuracy) :
    (ExtendedMantissa.ofMantissaAndAccuracy m a).mantissa = m := by
  obtain - | order := a
  · rfl
  · cases order <;> rfl

theorem roundedRead (sign : Sign) (m : Nat) (e : Int) (a : Accuracy) :
    roundWithAccuracy .binary64 sign m e a =
      let t := e + excess m e
      let n := (ExtendedMantissa.ofMantissaAndAccuracy m a >>> excess m e).roundedMantissa
      if some : n / 2 ^ excess n t = 0 then .zero sign
      else .finite sign (n / 2 ^ excess n t) (t + excess n t) (Nat.pos_of_ne_zero some) := by
  simp only [roundWithAccuracy, shifted, mantissaShift, startMantissa]

section
variable {em : ExtendedMantissa} {w : ℚ} {t : Int} (residue : Residue em w)
  (full : 2 ^ 52 ≤ em.mantissa ∨ t = -1074)
include residue full

theorem residueLong : (2 : ℚ) ^ (t + 52) ≤ w * 2 ^ t ∨ t = -1074 := by
  refine full.imp_left fun full => ?_
  have : (2 : ℚ) ^ (52 : Int) ≤ w := le_trans (by exact_mod_cast full) residue.low
  rw [zpow_add₀ two_ne_zero, mul_comm w]
  gcongr

theorem residueOverflow (top : 971 ≤ t) (great : 2 ^ 53 ≤ em.roundedMantissa ∨ 972 ≤ t) :
    overflow ≤ w * 2 ^ t := by
  obtain great | beyond := great
  · have near := (abs_le.mp (roundedNear residue).1).2
    have long : (2 : ℚ) ^ 53 ≤ em.roundedMantissa := by exact_mod_cast great
    calc overflow = (2 ^ 53 - 1 / 2) * 2 ^ (971 : Int) := by
          rw [overflow, show (971 : Int) = 970 + 1 from rfl, zpow_add_one₀ two_ne_zero]
          ring
      _ ≤ w * 2 ^ t := mul_le_mul (by linarith) (zpow_le_zpow_right₀ one_le_two top)
        (by positivity) (le_trans (Nat.cast_nonneg _) residue.low)
  · obtain long | low := residueLong residue full
    · calc overflow ≤ 2 ^ (1024 : Int) := overflowLess.le
        _ ≤ 2 ^ (t + 52) := zpow_le_zpow_right₀ one_le_two (by omega)
        _ ≤ w * 2 ^ t := long
    · omega

theorem residueRounds (sign : Sign) (wide : em.mantissa < 2 ^ 53) (least : -1074 ≤ t) :
    Rounds (sense sign * (w * 2 ^ t)) (sense sign * (em.roundedMantissa * 2 ^ t)) := by
  have placed : (0 : ℚ) < 2 ^ t := by positivity
  have origin : 0 ≤ w := le_trans (Nat.cast_nonneg _) residue.low
  have size : |sense sign * (w * 2 ^ t)| = w * 2 ^ t := by
    rw [abs_mul, senseAbs, one_mul, abs_of_nonneg (by positivity)]
  have apart : |sense sign * (em.roundedMantissa * 2 ^ t) - sense sign * (w * 2 ^ t)| =
      |(em.roundedMantissa : ℚ) - w| * 2 ^ t := by
    rw [← mul_sub, abs_mul, senseAbs, one_mul, ← sub_mul, abs_mul, abs_of_pos placed]
  obtain ⟨near, tie⟩ := roundedNear residue
  refine ⟨t, least, ?_, ?_, ?_, sign.apply em.roundedMantissa, ?_, fun half => ?_⟩
  · rw [size]
    exact residueLong residue full
  · have short : w < 2 ^ (53 : Int) :=
      residue.high.trans_le (by exact_mod_cast Nat.succ_le_of_lt wide)
    rw [size, add_comm, zpow_add₀ two_ne_zero]
    gcongr
  · rw [apart, div_eq_inv_mul, ← one_div]
    gcongr
  · rw [senseApply, mul_assoc]
  · rw [apart, div_eq_inv_mul, ← one_div, mul_left_inj' placed.ne'] at half
    have even : Even (em.roundedMantissa : Int) := by exact_mod_cast tie half
    cases sign with
    | positive => exact even
    | negative => exact even.neg

end

theorem roundedOutcome (sign : Sign) {m : Nat} {e : Int} {a : Accuracy} {v : ℚ}
    (start : Residue (ExtendedMantissa.ofMantissaAndAccuracy m a) v)
    (enough : 2 ^ 52 ≤ m ∨ e ≤ -1074) :
    Outcome (roundWithAccuracy .binary64 sign m e a) (sense sign * (v * 2 ^ e)) := by
  obtain ⟨least, wide, full⟩ := excessPlaces enough
  have moved : v * 2 ^ e = v / 2 ^ excess m e * 2 ^ (e + excess m e) := by
    rw [zpow_add₀ two_ne_zero, zpow_natCast]
    field_simp
  have residue := residueShift start (excess m e)
  have mantissa := mantissaShift (ExtendedMantissa.ofMantissaAndAccuracy m a) (excess m e)
  rw [startMantissa] at mantissa
  rw [← mantissa] at wide full
  rw [roundedRead, moved]
  have great := residueOverflow residue full
  have rounds := residueRounds residue full sign wide least
  have rounded := roundedUp (ExtendedMantissa.ofMantissaAndAccuracy m a >>> excess m e)
  -- to round may have lengthened the significand, which is why it is settled once more
  generalize (ExtendedMantissa.ofMantissaAndAccuracy m a >>> excess m e).roundedMantissa = n at *
  obtain ⟨same, once, fits⟩ := settled (m := n) (e := e + excess m e) (by omega) least (by omega)
  rw [← same] at rounds
  dsimp only
  split
  · rename_i none
    rw [none, Nat.cast_zero, zero_mul, mul_zero] at rounds
    exact .near (.zero sign) rounds
  · by_cases room : e + excess m e + excess n (e + excess m e) ≤ 971
    · exact .near (.finite sign _ (fits room)) rounds
    · refine .lost (lostFinite sign _ (by omega)) ?_
      rw [abs_mul, senseAbs, one_mul]
      refine (great (by omega) ?_).trans (le_abs_self _)
      by_contra less
      rw [not_or, not_le, not_le] at less
      have := excessNone less.1 least
      omega

theorem Outcome.reads {u : UnpackedFloat} {q : ℚ} (outcome : Outcome u q)
    (size : |q| ≤ 2 ^ (1000 : Int)) : ∃ r, Reads u r ∧ Rounds q r := by
  obtain ⟨reads, rounds⟩ | ⟨-, great⟩ := outcome
  · exact ⟨_, reads, rounds⟩
  · exact absurd size (not_le.mpr (overflowGreat.trans_le great))

theorem roundedReads (sign : Sign) {m : Nat} {e : Int} {a : Accuracy} {v : ℚ}
    (start : Residue (ExtendedMantissa.ofMantissaAndAccuracy m a) v)
    (enough : 2 ^ 52 ≤ m ∨ e ≤ -1074) (size : v * 2 ^ e ≤ 2 ^ (1000 : Int)) :
    ∃ r, Reads (roundWithAccuracy .binary64 sign m e a) r ∧
      Rounds (sense sign * (v * 2 ^ e)) r := by
  have least : 0 ≤ v := le_trans (Nat.cast_nonneg _) start.low
  have placed : 0 ≤ v * 2 ^ e := by positivity
  have same : |sense sign * (v * 2 ^ e)| = v * 2 ^ e := by
    rw [abs_mul, senseAbs, one_mul, abs_of_nonneg placed]
  exact (roundedOutcome sign start enough).reads (same.trans_le size)

theorem residueExact (m : Nat) : Residue (ExtendedMantissa.ofMantissaAndAccuracy m .exact) m where
  low := le_rfl
  high := lt_add_one _
  half := iff_of_false Bool.false_ne_true (by simp [ExtendedMantissa.ofMantissaAndAccuracy])
  rest := iff_of_false Bool.false_ne_true (by simp [ExtendedMantissa.ofMantissaAndAccuracy])

theorem zeroRounds : Rounds 0 0 :=
  ⟨-1074, le_rfl, .inr rfl, by simp, by rw [sub_zero, abs_zero]; positivity, 0, by simp,
    fun _ => Even.zero⟩

def shortfall (m : Nat) (e : Int) : Nat := (e - max (m.log2 + e - 52) (-1074)).toNat

theorem shortfallPlaces {m : Nat} {e : Int} (some : 0 < m) :
    2 ^ 52 ≤ m * 2 ^ shortfall m e ∨ e - shortfall m e ≤ -1074 := by
  by_cases normal : (-1074 : Int) ≤ m.log2 + e - 52
  · left
    have length : 52 ≤ m.log2 + shortfall m e := by
      unfold shortfall
      omega
    calc 2 ^ 52 ≤ 2 ^ (m.log2 + shortfall m e) := Nat.pow_le_pow_right (by decide) length
      _ = 2 ^ m.log2 * 2 ^ shortfall m e := pow_add ..
      _ ≤ m * 2 ^ shortfall m e := Nat.mul_le_mul_right _ (Nat.log2_self_le (by omega))
  · right
    unfold shortfall
    omega

theorem lengthenedReads (sign : Sign) {m : Nat} (e : Int) (some : 0 < m)
    (size : m * 2 ^ e ≤ (2 : ℚ) ^ (1000 : Int)) : ∃ r,
    Reads (UnpackedFloat.round .binary64 sign m e) r ∧ Rounds (sense sign * (m * 2 ^ e)) r := by
  have read : UnpackedFloat.round .binary64 sign m e = roundWithAccuracy .binary64 sign
      (m * 2 ^ shortfall m e) (e - shortfall m e) .exact := by
    simp only [UnpackedFloat.round, UnpackedFloat.decreaseExponent, targetRead, shortfall,
      Nat.shiftLeft_eq]
  have value : (m : ℚ) * 2 ^ e = (m * 2 ^ shortfall m e : Nat) * 2 ^ (e - shortfall m e) := by
    rw [zpow_sub₀ two_ne_zero, zpow_natCast, Nat.cast_mul, Nat.cast_pow, Nat.cast_ofNat]
    field_simp
  rw [value] at size
  rw [read, value]
  exact roundedReads sign (residueExact _) (shortfallPlaces some) size

theorem normalizedReads (m e : Int) (sign : Sign)
    (size : |(m : ℚ) * 2 ^ e| ≤ 2 ^ (1000 : Int)) : ∃ r,
    Reads (UnpackedFloat.normalize .binary64 m e sign) r ∧ Rounds (m * 2 ^ e) r := by
  rw [abs_mul, abs_of_pos (by positivity : (0 : ℚ) < 2 ^ e)] at size
  obtain negative | rfl | positive := lt_trichotomy m 0
  · have known : ((-m).toNat : ℚ) = -(m : ℚ) := by
      exact_mod_cast Int.toNat_of_nonneg (a := -m) (by omega)
    have read : UnpackedFloat.normalize .binary64 m e sign =
        UnpackedFloat.round .binary64 .negative (-m).toNat e := by
      rw [UnpackedFloat.normalize, compare_lt_iff_lt.mpr negative]
    rw [abs_of_neg (by exact_mod_cast negative), ← known] at size
    obtain ⟨r, reads, rounds⟩ := lengthenedReads .negative e (Int.lt_toNat.mpr (by simpa)) size
    refine ⟨r, read ▸ reads, ?_⟩
    rwa [known, sense, ← mul_assoc, neg_one_mul, neg_neg] at rounds
  · rw [Int.cast_zero, zero_mul]
    exact ⟨0, .zero sign, zeroRounds⟩
  · have known : ((m.toNat : Nat) : ℚ) = m := by
      exact_mod_cast Int.toNat_of_nonneg positive.le
    have read : UnpackedFloat.normalize .binary64 m e sign =
        UnpackedFloat.round .binary64 .positive m.toNat e := by
      rw [UnpackedFloat.normalize, compare_gt_iff_gt.mpr positive]
    rw [abs_of_pos (by exact_mod_cast positive), ← known] at size
    obtain ⟨r, reads, rounds⟩ := lengthenedReads .positive e (Int.lt_toNat.mpr positive) size
    refine ⟨r, read ▸ reads, ?_⟩
    rwa [known, sense, one_mul] at rounds

end Settling

section Bounds
variable {q r : ℚ} {t j : Int}

theorem Rounds.error (rounds : Rounds q r) {n : Int} (least : -1022 ≤ n) (size : |q| ≤ 2 ^ n) :
    |r - q| ≤ 2 ^ (n - 52) := by
  obtain ⟨t, next⟩ := rounds
  obtain ⟨_, _, near⟩ := next.step
  refine near.le.trans (zpow_le_zpow_right₀ one_le_two ?_)
  obtain long | rfl := next.fine
  · have := (zpow_le_zpow_iff_right₀ (one_lt_two (α := ℚ))).mp (long.trans size)
    omega
  · omega

theorem nextFiner (next : Next t q r) (size : |q| < 2 ^ (53 + j)) (least : -1074 ≤ j) : t ≤ j := by
  obtain long | rfl := next.fine
  · have := (zpow_lt_zpow_iff_right₀ (one_lt_two (α := ℚ))).mp (long.trans_lt size)
    omega
  · exact least

theorem shortLess {k : Int} (short : |k| < 2 ^ 53) (j : Int) :
    |(k : ℚ) * 2 ^ j| < 2 ^ (53 + j) := by
  rw [abs_mul, abs_of_pos (by positivity : (0 : ℚ) < 2 ^ j), zpow_add₀ two_ne_zero]
  gcongr
  exact_mod_cast short

theorem placeMoved (k : Int) (s : Nat) (t : Int) :
    (k : ℚ) * 2 ^ (t + (s : Int)) = (k * 2 ^ s : Int) * 2 ^ t := by
  rw [zpow_add₀ two_ne_zero, zpow_natCast]
  push_cast
  ring

theorem Rounds.exact {k : Int} (rounds : Rounds (k * 2 ^ j) r) (short : |k| < 2 ^ 53)
    (least : -1074 ≤ j) : r = k * 2 ^ j := by
  obtain ⟨t, next⟩ := rounds
  obtain ⟨s, rfl⟩ := Int.le.dest (nextFiner next (shortLess short j) least)
  obtain ⟨i, rfl, near⟩ := next.step
  -- both are places of the finer grid, and less than one step apart
  have placed : (0 : ℚ) < 2 ^ t := by positivity
  rw [placeMoved, ← sub_mul, abs_mul, abs_of_pos placed, mul_lt_iff_lt_one_left placed] at near
  have : |i - k * 2 ^ s| < 1 := by exact_mod_cast near
  rw [placeMoved, sub_eq_zero.mp (Int.abs_lt_one_iff.mp this)]

theorem Rounds.neg (rounds : Rounds q r) : Rounds (-q) (-r) := by
  obtain ⟨t, least, fine, coarse, near, k, rfl, tie⟩ := rounds
  have apart : |-(k * 2 ^ t) - -q| = |k * 2 ^ t - q| := by rw [neg_sub_neg, abs_sub_comm]
  refine ⟨t, least, by rwa [abs_neg], by rwa [abs_neg], by rwa [apart], -k, ?_, fun half => ?_⟩
  · rw [Int.cast_neg, neg_mul]
  · rw [apart] at half
    exact (tie half).neg

theorem Rounds.most {k : Int} (rounds : Rounds q r) (least : 0 ≤ q) (most : q ≤ k * 2 ^ j)
    (short : |k| < 2 ^ 53) (low : -1074 ≤ j) : r ≤ k * 2 ^ j := by
  obtain ⟨t, next⟩ := rounds
  have size : |q| < 2 ^ (53 + j) := by
    rw [abs_of_nonneg least]
    exact (most.trans (le_abs_self _)).trans_lt (shortLess short j)
  obtain ⟨s, rfl⟩ := Int.le.dest (nextFiner next size low)
  obtain ⟨i, rfl, near⟩ := next.step
  rw [placeMoved] at most ⊢
  have placed : (0 : ℚ) < 2 ^ t := by positivity
  refine mul_le_mul_of_nonneg_right ?_ placed.le
  by_contra beyond
  have step : k * 2 ^ s + 1 ≤ i := by
    have : k * 2 ^ s < i := by exact_mod_cast not_le.mp beyond
    omega
  have far : ((k * 2 ^ s : Int) : ℚ) * 2 ^ t + 2 ^ t ≤ i * 2 ^ t := by
    rw [← add_one_mul]
    gcongr
    exact_mod_cast step
  have := (abs_lt.mp near).2
  linarith

theorem Rounds.nonneg (rounds : Rounds q r) (least : 0 ≤ q) : 0 ≤ r := by
  obtain ⟨t, next⟩ := rounds
  obtain ⟨k, rfl, near⟩ := next.step
  have placed : (0 : ℚ) < 2 ^ t := by positivity
  by_contra negative
  have step : k ≤ -1 := by
    have : (k : ℚ) < 0 := by
      by_contra nonneg
      exact negative (mul_nonneg (not_lt.mp nonneg) placed.le)
    have : k < 0 := by exact_mod_cast this
    omega
  have far : (k : ℚ) * 2 ^ t ≤ -1 * 2 ^ t := by
    gcongr
    exact_mod_cast step
  have := (abs_lt.mp near).1
  linarith

theorem Rounds.abs (rounds : Rounds q r) : Rounds |q| |r| := by
  obtain least | negative := le_total 0 q
  · rwa [abs_of_nonneg least, abs_of_nonneg (rounds.nonneg least)]
  · have flipped := rounds.neg
    have below := neg_nonneg.mp (flipped.nonneg (neg_nonneg.mpr negative))
    rwa [abs_of_nonpos negative, abs_of_nonpos below]

theorem nextGrid {s : ℚ} (first : Next t q r) (second : Next j q s) : t = j := by
  have least := first.least
  have low := second.least
  have fewer {i k : Int} (size : (2 : ℚ) ^ (i + 52) ≤ |q|) (less : |q| < 2 ^ (k + 53)) : i ≤ k := by
    have := (zpow_lt_zpow_iff_right₀ (one_lt_two (α := ℚ))).mp (size.trans_lt less)
    omega
  refine le_antisymm ?_ ?_
  · obtain long | rfl := first.fine
    · exact fewer long second.coarse
    · exact low
  · obtain long | rfl := second.fine
    · exact fewer long first.coarse
    · exact least

/- Of two places next to each other a number between them can only be as near to both if both are
even, which two neighbours are not. -/
theorem nextApart {k : Int} (first : Next t q (k * 2 ^ t))
    (second : Next t q ((k + 1 : Int) * 2 ^ t)) :
    False := by
  have placed : (0 : ℚ) < 2 ^ t := by positivity
  obtain ⟨i, same, tie⟩ := first.placed
  obtain ⟨j, other, draw⟩ := second.placed
  obtain rfl : k = i := by exact_mod_cast mul_right_cancel₀ placed.ne' same
  obtain rfl : k + 1 = j := by exact_mod_cast mul_right_cancel₀ placed.ne' other
  have near := first.near
  have close := second.near
  have step : ((k + 1 : Int) : ℚ) * 2 ^ t = k * 2 ^ t + 2 ^ t := by push_cast; ring
  rw [step] at close draw
  have below : k * 2 ^ t - q = -(2 ^ t / 2) := by
    rw [abs_le] at near close
    linarith
  have above : k * 2 ^ t + 2 ^ t - q = 2 ^ t / 2 := by linarith
  have half : |(2 : ℚ) ^ t / 2| = 2 ^ t / 2 := abs_of_pos (by positivity)
  have low := tie (by rw [below, abs_neg, half])
  have high := draw (by rw [above, half])
  exact Int.even_add_one.mp high low

theorem Rounds.unique {s : ℚ} (first : Rounds q r) (second : Rounds q s) : r = s := by
  obtain ⟨t, next⟩ := first
  obtain ⟨_, other⟩ := second
  obtain rfl := nextGrid next other
  obtain ⟨k, rfl, -⟩ := next.placed
  obtain ⟨i, rfl, -⟩ := other.placed
  have placed : (0 : ℚ) < 2 ^ t := by positivity
  have near := abs_le.mp next.near
  have close := abs_le.mp other.near
  have less : |(k : ℚ) - i| ≤ 1 := by
    have : |(k : ℚ) - i| * 2 ^ t ≤ 1 * 2 ^ t := by
      rw [← abs_of_pos placed, ← abs_mul, sub_mul, abs_of_pos placed, abs_le]
      constructor <;> linarith
    exact le_of_mul_le_mul_right this placed
  have steps : |k - i| ≤ 1 := by exact_mod_cast less
  obtain rfl | rfl | rfl : k = i ∨ i = k + 1 ∨ k = i + 1 := by
    rw [abs_le] at steps
    omega
  · rfl
  · exact (nextApart next other).elim
  · exact (nextApart other next).elim

end Bounds

end AirPicture.Binary64
