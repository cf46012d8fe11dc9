import Mathlib
import AirPicture.Proofs.Feed.Parity

/-! The parity as a division of polynomials over GF(2). What is in the register after some octets
is the remainder of their polynomial, moved up by 24 places, by that of the generator: every bit
that is shifted in keeps this, and none is ever shifted out. As the generator has a constant term,
the places do not matter for whether a remainder is left. -/
namespace AirPicture.Feed
open Polynomial
open Text (Octets)

noncomputable def wordPolynomial {w : Nat} (word : BitVec w) : (ZMod 2)[X] :=
  ∑ i ∈ Finset.range w, if word.getLsbD i then X ^ i else 0

def bits (octets : Octets) : List Bool :=
  octets.flatMap fun octet => [7, 6, 5, 4, 3, 2, 1, 0].map octet.toBitVec.getLsbD

noncomputable def bitsPolynomial : List Bool → (ZMod 2)[X]
  | [] => 0
  | bit :: rest => (if bit then X ^ rest.length else 0) + bitsPolynomial rest

theorem wordCoeff {w : Nat} (word : BitVec w) (i : Nat) :
    (wordPolynomial word).coeff i = if word.getLsbD i then 1 else 0 := by
  have term (j : Nat) : (if word.getLsbD j then X ^ j else 0 : (ZMod 2)[X]).coeff i =
      if j = i then if word.getLsbD i then 1 else 0 else 0 := by
    by_cases same : j = i
    · subst j
      cases word.getLsbD i <;> simp
    · cases word.getLsbD j <;> simp [coeff_X_pow, same, Ne.symm same]
  rw [wordPolynomial, finsetSum_coeff]
  simp only [term, Finset.sum_ite_eq', Finset.mem_range, ite_eq_left_iff, not_lt]
  intro beyond
  rw [BitVec.getLsbD_of_ge _ _ beyond]
  rfl

theorem wordUnique {w : Nat} {word other : BitVec w}
    (same : wordPolynomial word = wordPolynomial other) : word = other := by
  apply BitVec.eq_of_getLsbD_eq
  intro i _
  have alike := congrArg (·.coeff i) same
  simp only [wordCoeff] at alike
  cases first : word.getLsbD i <;> cases second : other.getLsbD i <;> simp_all

theorem wordNothing {w : Nat} : wordPolynomial (0#w) = 0 := by
  simp [wordPolynomial]

theorem wordXor {w : Nat} (word other : BitVec w) :
    wordPolynomial (word ^^^ other) = wordPolynomial word + wordPolynomial other := by
  ext i
  rw [coeff_add, wordCoeff, wordCoeff, wordCoeff, BitVec.getLsbD_xor]
  cases word.getLsbD i <;> cases other.getLsbD i <;> decide

theorem wordDegree {n : Nat} {x : BitVec 32} (small : Holds n x) :
    (wordPolynomial x).degree < n := by
  rw [degree_lt_iff_coeff_zero]
  intro i beyond
  rw [wordCoeff, small i beyond]
  rfl

theorem wordShift {n : Nat} {x : BitVec 32} (below : Nat) (few : n + below ≤ 32)
    (small : Holds n x) : wordPolynomial (x <<< below) = X ^ below * wordPolynomial x := by
  ext i
  rw [wordCoeff, coeff_X_pow_mul', wordCoeff, BitVec.getLsbD_shiftLeft]
  by_cases low : i < below
  · simp [low, Nat.not_le.mpr low]
  · by_cases wide : i < 32
    · simp [low, wide, Nat.not_lt.mp low]
    · simp [wide, small (i - below) (by omega)]

theorem wordWidened {v w : Nat} (word : BitVec v) (wide : v ≤ w) :
    wordPolynomial (word.setWidth w) = wordPolynomial word := by
  ext i
  rw [wordCoeff, wordCoeff, BitVec.getLsbD_setWidth]
  by_cases inside : i < w
  · simp [inside]
  · simp [BitVec.getLsbD_of_ge word i (by omega)]

theorem octetPolynomial (octet : UInt8) :
    bitsPolynomial (bits [octet]) = wordPolynomial octet.toBitVec := by
  simp only [bits, List.flatMap_cons, List.flatMap_nil, List.append_nil, List.map_cons, List.map_nil,
    bitsPolynomial, List.length_cons, List.length_nil, wordPolynomial, Finset.sum_range_succ,
    Finset.sum_range_zero]
  ring

theorem bitsAppend (first second : List Bool) : bitsPolynomial (first ++ second) =
    X ^ second.length * bitsPolynomial first + bitsPolynomial second := by
  induction first with
  | nil => simp [bitsPolynomial]
  | cons bit rest ih =>
    rw [List.cons_append, bitsPolynomial, ih, bitsPolynomial, List.length_append, mul_add, add_assoc]
    cases bit
    · simp
    · simp only [if_true, pow_add, add_left_inj]
      ring

theorem generatorDegree : (wordPolynomial generator).natDegree = 24 ∧
    (wordPolynomial generator).Monic := by
  have leading : (wordPolynomial generator).coeff 24 = 1 := by
    rw [wordCoeff, generatorBit (Nat.le_refl 24)]
    rfl
  have bounded : (wordPolynomial generator).natDegree ≤ 24 := by
    rw [natDegree_le_iff_coeff_eq_zero]
    intro i beyond
    rw [wordCoeff, generatorBit (Nat.le_of_lt beyond), decide_eq_false (Nat.ne_of_gt beyond)]
    rfl
  exact ⟨natDegree_eq_of_le_of_coeff_ne_zero bounded (by simp [leading]),
    monic_of_natDegree_le_of_coeff_eq_one 24 bounded leading⟩

theorem generatorCoprime (n : Nat) : IsCoprime (wordPolynomial generator) (X ^ n) := by
  have constant : ¬ X ∣ wordPolynomial generator := by
    rw [X_dvd_iff, wordCoeff]
    decide
  exact ((irreducible_X.coprime_iff_not_dvd).mpr constant).symm.pow_right

theorem shiftBitPolynomial {x : BitVec 32} (small : Holds 24 x) :
    wordPolynomial generator ∣ X * wordPolynomial x - wordPolynomial (shiftBit x) := by
  have moved : wordPolynomial (x <<< 1) = X * wordPolynomial x := by
    rw [wordShift 1 (by decide) small, pow_one]
  unfold shiftBit
  split
  · rw [wordXor, moved, sub_add_cancel_left, dvd_neg]
  · rw [moved, sub_self]
    exact dvd_zero _

theorem shiftBitsPolynomial (n : Nat) {x : BitVec 32} (small : Holds 24 x) :
    wordPolynomial generator ∣ X ^ n * wordPolynomial x - wordPolynomial (shiftBits n x) := by
  induction n generalizing x with
  | zero => simp [shiftBits]
  | succ n ih =>
    have first := (shiftBitPolynomial small).mul_left (X ^ n)
    have rest := ih (shiftBitHolds small)
    have whole := dvd_add first rest
    rwa [mul_sub, sub_add_sub_cancel, ← mul_assoc, ← pow_succ] at whole

theorem octetHolds (octet : UInt8) : Holds 8 (octet.toBitVec.setWidth 32) :=
  fun i beyond => by rw [BitVec.getLsbD_setWidth, octetBit octet beyond, Bool.and_false]

theorem placedPolynomial (octet : UInt8) :
    wordPolynomial (placed octet 16) = X ^ 16 * bitsPolynomial (bits [octet]) := by
  rw [placed, wordShift 16 (by decide) (octetHolds octet), wordWidened _ (by decide),
    octetPolynomial]

theorem bitsNext (octets : Octets) (octet : UInt8) : bitsPolynomial (bits (octets ++ [octet])) =
    X ^ 8 * bitsPolynomial (bits octets) + bitsPolynomial (bits [octet]) := by
  have joined : bits (octets ++ [octet]) = bits octets ++ bits [octet] := List.flatMap_append
  rw [joined, bitsAppend]
  rfl

/-- The register is in one class with the polynomial of what was read, moved up by its width. -/
theorem registerPolynomial (octets : Octets) : wordPolynomial generator ∣
    X ^ 24 * bitsPolynomial (bits octets) - wordPolynomial (register octets) := by
  induction octets using List.reverseRecOn with
  | nil =>
    simp [bits, bitsPolynomial, register, wordNothing]
  | append_singleton octets octet ih =>
    have shifted := shiftBitsPolynomial 8
      (holdsXor (registerHolds octets) (placedHolds octet 16))
    have whole := dvd_add (ih.mul_left (X ^ 8)) shifted
    rw [wordXor, placedPolynomial] at whole
    have next : register (octets ++ [octet]) = shiftBits 8 (register octets ^^^ placed octet 16) := by
      rw [register, List.foldl_append]
      rfl
    rw [next, bitsNext]
    convert whole using 1
    ring

theorem remainderPolynomial (octets : Octets) : wordPolynomial (register octets) =
    (X ^ 24 * bitsPolynomial (bits octets)) %ₘ wordPolynomial generator := by
  obtain ⟨degree, monic⟩ := generatorDegree
  have small : (wordPolynomial (register octets)).degree < (wordPolynomial generator).degree := by
    rw [degree_eq_natDegree monic.ne_zero, degree]
    exact wordDegree (registerHolds octets)
  rw [modByMonic_eq_of_dvd_sub monic (registerPolynomial octets), (modByMonic_eq_self_iff monic).mpr small]

theorem holdsNat {n : Nat} {x : BitVec 32} (small : Holds n x) : x.toNat < 2 ^ n :=
  Nat.lt_pow_two_of_testBit _ small

theorem parityWidened (octets : Octets) : (parity octets).setWidth 32 = register octets :=
  ((remainderExact (registerHolds octets) _).mp rfl).symm

theorem xorExchanged (x y a b : BitVec 32) : x ^^^ y ^^^ (a ^^^ b) = x ^^^ a ^^^ (y ^^^ b) := by
  rw [BitVec.xor_assoc, BitVec.xor_assoc, ← BitVec.xor_assoc y, BitVec.xor_comm y a, BitVec.xor_assoc]

theorem shiftOctetXor (x y : BitVec 32) (a b : UInt8) :
    shiftOctet (x ^^^ y) (a ^^^ b) = shiftOctet x a ^^^ shiftOctet y b := by
  rw [shiftOctet, shiftOctet, shiftOctet, ← shiftBitsXor, UInt8.toBitVec_xor, BitVec.setWidth_xor,
    BitVec.shiftLeft_xor_distrib, xorExchanged]

theorem parityXor {octets other : Octets} (same : octets.length = other.length) :
    parity (List.zipWith (· ^^^ ·) octets other) = parity octets ^^^ parity other := by
  have shifted : ∀ x y, (List.zipWith (· ^^^ ·) octets other).foldl shiftOctet (x ^^^ y) =
      octets.foldl shiftOctet x ^^^ other.foldl shiftOctet y := by
    induction octets generalizing other with
    | nil =>
      cases other with
      | nil => exact fun x y => rfl
      | cons b rest => contradiction
    | cons a octets ih =>
      cases other with
      | nil => contradiction
      | cons b rest =>
        intro x y
        simp only [List.zipWith_cons_cons, List.foldl_cons, ← ih (Nat.succ.inj same), shiftOctetXor]
  rw [parity, parity, parity, ← BitVec.setWidth_xor]
  exact congrArg _ (shifted 0 0)

theorem cleanDivides (octets : Octets) :
    parityClean octets = true ↔ wordPolynomial generator ∣ bitsPolynomial (bits octets) := by
  calc parityClean octets = true
      ↔ register octets = 0 := by
        rw [parityClean, beq_iff_eq, parity, remainderExact (registerHolds _)]
        rfl
    _ ↔ wordPolynomial (register octets) = 0 :=
        ⟨fun same => same ▸ wordNothing, fun same => wordUnique (same.trans wordNothing.symm)⟩
    _ ↔ wordPolynomial generator ∣ X ^ 24 * bitsPolynomial (bits octets) := by
        rw [remainderPolynomial, modByMonic_eq_zero_iff_dvd generatorDegree.2]
    _ ↔ _ := ⟨(generatorCoprime 24).dvd_of_dvd_mul_left, fun divides => divides.mul_left _⟩

/-- The parity of octets is the remainder that their polynomial, moved up by 24 places, leaves when
it is divided by the generator. The register never grows beyond it, the parity is linear over
exclusive or, and it is clean exactly if the generator divides the polynomial itself. -/
theorem parityDivides (octets : Octets) :
    wordPolynomial (parity octets) =
      (bitsPolynomial (bits octets) * X ^ 24) %ₘ wordPolynomial generator ∧
    (∀ octet n, (shiftBits n (register octets ^^^ placed octet 16)).toNat < 2 ^ 24) ∧
    (parity octets).toNat = (register octets).toNat ∧
    (∀ other, octets.length = other.length →
      parity (List.zipWith (· ^^^ ·) octets other) = parity octets ^^^ parity other) ∧
    (parityClean octets = true ↔ wordPolynomial generator ∣ bitsPolynomial (bits octets)) := by
  have same := parityWidened octets
  refine ⟨?_, fun octet n => ?_, ?_, fun other => parityXor, cleanDivides octets⟩
  · rw [mul_comm, ← remainderPolynomial, ← same, wordWidened _ (by decide)]
  · exact holdsNat (shiftBitsHolds n (holdsXor (registerHolds octets) (placedHolds octet 16)))
  · rw [← same, BitVec.toNat_setWidth_of_le (by decide)]

theorem broadcastDivides :
    ([0x8D, 0x40, 0x62] : Octets).length = ([0x28, 0x63, 0xA7] : Octets).length ∧
    parity [0xA5, 0x23, 0xC5] = parity [0x8D, 0x40, 0x62] ^^^ parity [0x28, 0x63, 0xA7] ∧
    wordPolynomial generator ∣ bitsPolynomial (bits
      [0x8D, 0x40, 0x62, 0x1D, 0x58, 0xC3, 0x82, 0xD6, 0x90, 0xC8, 0xAC, 0x28, 0x63, 0xA7]) := by
  obtain ⟨_, _, _, linear, _⟩ := parityDivides [0x8D, 0x40, 0x62]
  obtain ⟨_, _, _, _, divides⟩ := parityDivides
    [0x8D, 0x40, 0x62, 0x1D, 0x58, 0xC3, 0x82, 0xD6, 0x90, 0xC8, 0xAC, 0x28, 0x63, 0xA7]
  exact ⟨rfl, linear [0x28, 0x63, 0xA7] rfl, divides.mp (by decide +kernel)⟩

end AirPicture.Feed
