import Mathlib.Data.List.Induction
import AirPicture.Feed.Parity

/-! Frames with a clean parity. Division is linear over exclusive or, and a remainder that is not
zero never becomes zero by being shifted on. So the three octets after a body leave no remainder
if they are the parity of the body, and no others do. -/
namespace AirPicture.Feed
open Text (Octets)

theorem xorCancelled (x y z : BitVec 32) : x ^^^ z ^^^ (y ^^^ z) = x ^^^ y := by
  rw [BitVec.xor_assoc, BitVec.xor_comm y z, ← BitVec.xor_assoc z z y, BitVec.xor_self,
    BitVec.zero_xor]

theorem shiftBitXor (x y : BitVec 32) : shiftBit (x ^^^ y) = shiftBit x ^^^ shiftBit y := by
  unfold shiftBit
  rw [BitVec.getLsbD_xor, BitVec.shiftLeft_xor_distrib]
  cases x.getLsbD 23 <;> cases y.getLsbD 23
  · rfl
  · exact BitVec.xor_assoc ..
  · simp only [Bool.xor_false, ↓reduceIte, Bool.false_eq_true]
    rw [BitVec.xor_assoc, BitVec.xor_comm (y <<< 1), ← BitVec.xor_assoc]
  · exact (xorCancelled ..).symm

theorem shiftBitsXor (n : Nat) (x y : BitVec 32) :
    shiftBits n (x ^^^ y) = shiftBits n x ^^^ shiftBits n y := by
  induction n generalizing x y with
  | zero => rfl
  | succ n ih => rw [shiftBits, shiftBitXor, ih, shiftBits, shiftBits]

theorem shiftBitsOn (n m : Nat) (x : BitVec 32) :
    shiftBits m (shiftBits n x) = shiftBits (n + m) x := by
  induction n generalizing x with
  | zero => rw [Nat.zero_add, shiftBits]
  | succ n ih => rw [Nat.succ_add, shiftBits, ih, shiftBits]

def Holds (n : Nat) (x : BitVec 32) : Prop := ∀ i, n ≤ i → x.getLsbD i = false

theorem holdsXor {n : Nat} {x y : BitVec 32} (first : Holds n x) (second : Holds n y) :
    Holds n (x ^^^ y) := by
  intro i beyond
  simp [first i beyond, second i beyond]

theorem shiftBitsPlain {n : Nat} {x : BitVec 32} (few : n ≤ 24) (small : Holds (24 - n) x) :
    shiftBits n x = x <<< n := by
  induction n generalizing x with
  | zero => simp [shiftBits]
  | succ n ih =>
    have plain : shiftBit x = x <<< 1 := if_neg (by rw [small 23 (by omega)]; decide)
    rw [shiftBits, plain, ih (by omega), ← BitVec.shiftLeft_add, Nat.add_comm]
    intro i beyond
    rw [BitVec.getLsbD_shiftLeft]
    simp only [Bool.and_eq_false_imp]
    intro _
    exact small (i - 1) (by omega)

theorem generatorBit {i : Nat} (beyond : 24 ≤ i) : generator.getLsbD i = decide (i = 24) := by
  by_cases wide : i < 32
  · have all : ∀ i : Fin 32, 24 ≤ i.val → generator.getLsbD i = decide (i.val = 24) := by decide
    exact all ⟨i, wide⟩ beyond
  · rw [BitVec.getLsbD_of_ge _ _ (by omega)]
    simp
    omega

theorem shiftBitHolds {x : BitVec 32} (small : Holds 24 x) : Holds 24 (shiftBit x) := by
  intro i beyond
  unfold shiftBit
  split
  · rename_i high
    rw [BitVec.getLsbD_xor, BitVec.getLsbD_shiftLeft, generatorBit beyond]
    by_cases last : i = 24
    · subst i
      simp only [Nat.reduceSub, high]
      decide
    · simp [last, small (i - 1) (by omega)]
  · rename_i low
    rw [BitVec.getLsbD_shiftLeft]
    by_cases last : i = 24
    · subst i
      simp only [Nat.reduceSub, low]
      decide
    · simp [small (i - 1) (by omega)]

theorem shiftBitsHolds (n : Nat) {x : BitVec 32} (small : Holds 24 x) : Holds 24 (shiftBits n x) := by
  induction n generalizing x with
  | zero => exact small
  | succ n ih => exact ih (shiftBitHolds small)

theorem shiftBitNothing {x : BitVec 32} (small : Holds 24 x) (zero : shiftBit x = 0) : x = 0 := by
  unfold shiftBit at zero
  split at zero
  · have last := congrArg (·.getLsbD 0) zero
    simp [generator] at last
  · apply BitVec.eq_of_getLsbD_eq
    intro i wide
    by_cases beyond : 24 ≤ i
    · simp [small i beyond]
    · have moved := congrArg (·.getLsbD (i + 1)) zero
      simpa [BitVec.getLsbD_shiftLeft, show i + 1 < 32 by omega, BitVec.getLsbD_eq_getElem wide]
        using moved

theorem shiftBitsZero (n : Nat) : shiftBits n 0 = 0 := by
  induction n with
  | zero => rfl
  | succ n ih => rwa [shiftBits, show shiftBit 0 = 0 by decide]

theorem shiftBitsNothing (n : Nat) {x : BitVec 32} (small : Holds 24 x) :
    shiftBits n x = 0 ↔ x = 0 := by
  constructor
  · intro zero
    induction n generalizing x with
    | zero => exact zero
    | succ n ih => exact shiftBitNothing small (ih (shiftBitHolds small) zero)
  · rintro rfl
    exact shiftBitsZero n

def placed (octet : UInt8) (below : Nat) : BitVec 32 := octet.toBitVec.setWidth 32 <<< below

theorem placedBit (octet : UInt8) (below i : Nat) (wide : i < 32) :
    (placed octet below).getLsbD i = (!decide (i < below) && octet.toBitVec.getLsbD (i - below)) := by
  simp [placed, wide]

theorem octetBit (octet : UInt8) {i : Nat} (beyond : 8 ≤ i) : octet.toBitVec.getLsbD i = false :=
  BitVec.getLsbD_of_ge _ _ beyond

theorem placedHolds (octet : UInt8) (below : Nat) : Holds (below + 8) (placed octet below) := by
  intro i beyond
  rw [placed, BitVec.getLsbD_shiftLeft, BitVec.getLsbD_setWidth,
    BitVec.getLsbD_of_ge _ _ (by omega)]
  simp

theorem placedOn (n below : Nat) (octet : UInt8) (room : n + below ≤ 16) :
    shiftBits n (placed octet below) = placed octet (n + below) := by
  rw [shiftBitsPlain (by omega), placed, placed, ← BitVec.shiftLeft_add, Nat.add_comm]
  intro i beyond
  exact placedHolds octet below i (by omega)

theorem registerHolds (octets : Octets) : Holds 24 (register octets) := by
  have step : ∀ x octet, Holds 24 x → Holds 24 (shiftOctet x octet) := fun x octet small =>
    shiftBitsHolds 8 (holdsXor small (placedHolds octet 16))
  induction octets using List.reverseRecOn with
  | nil => simp [Holds, register]
  | append_singleton octets last ih =>
    rw [register, List.foldl_append]
    exact step _ _ ih

theorem registerTail (body : Octets) (a b c : UInt8) :
    register (body ++ [a, b, c]) =
      shiftBits 24 (register body ^^^ (placed a 16 ^^^ placed b 8 ^^^ placed c 0)) := by
  have second : placed b 16 = shiftBits 8 (placed b 8) := (placedOn 8 8 b (by decide)).symm
  have third : placed c 16 = shiftBits 16 (placed c 0) := (placedOn 16 0 c (by decide)).symm
  have twice (x : BitVec 32) : shiftBits 8 (shiftBits 8 x) = shiftBits 16 x := shiftBitsOn 8 8 x
  have thrice (x : BitVec 32) : shiftBits 8 (shiftBits 16 x) = shiftBits 24 x := shiftBitsOn 16 8 x
  calc register (body ++ [a, b, c])
      = shiftBits 8 (shiftBits 8 (shiftBits 8 (register body ^^^ placed a 16) ^^^ placed b 16) ^^^
          placed c 16) := by
        rw [register, List.foldl_append]
        rfl
    _ = shiftBits 24 (register body ^^^ placed a 16 ^^^ placed b 8 ^^^ placed c 0) := by
        rw [second, ← shiftBitsXor, twice, third, ← shiftBitsXor, thrice]
    _ = _ := by simp only [BitVec.xor_assoc]

theorem placedTogether (a b c : UInt8) : placed a 16 ^^^ placed b 8 ^^^ placed c 0 =
    (a.toBitVec ++ b.toBitVec ++ c.toBitVec : BitVec 24).setWidth 32 := by
  apply BitVec.eq_of_getLsbD_eq
  intro i wide
  simp only [BitVec.getLsbD_xor, BitVec.getLsbD_setWidth, BitVec.getLsbD_append,
    placedBit _ _ i wide, wide, Nat.sub_sub]
  by_cases low : i < 8
  · simp [low, show i < 16 by omega]
  · by_cases middle : i < 16
    · simp [low, middle, octetBit c (Nat.not_lt.mp low), show i - 8 < 8 by omega]
    · simp [low, middle, octetBit c (Nat.not_lt.mp low), octetBit b (i := i - 8) (by omega),
        show ¬ i - 8 < 8 by omega]

theorem wordHolds (word : BitVec 24) : Holds 24 (word.setWidth 32) := by
  intro i beyond
  rw [BitVec.getLsbD_setWidth, BitVec.getLsbD_of_ge _ _ beyond, Bool.and_false]

theorem remainderExact {x : BitVec 32} (small : Holds 24 x) (word : BitVec 24) :
    x.setWidth 24 = word ↔ x = word.setWidth 32 := by
  constructor
  · rintro rfl
    apply BitVec.eq_of_getLsbD_eq
    intro i wide
    rw [BitVec.getLsbD_setWidth, BitVec.getLsbD_setWidth]
    by_cases beyond : 24 ≤ i
    · simp only [small i beyond, Bool.and_false]
    · simp [wide, show i < 24 by omega]
  · rintro rfl
    exact BitVec.setWidth_setWidth_of_le _ (by decide)

theorem parityOctetsExact (body : Octets) (a b c : UInt8) :
    parity body = a.toBitVec ++ b.toBitVec ++ c.toBitVec ↔ [a, b, c] = parityOctets body := by
  unfold parityOctets
  constructor
  · intro same
    have low : (a.toBitVec ++ b.toBitVec ++ c.toBitVec : BitVec 24).extractLsb' 0 8 = c.toBitVec :=
      BitVec.extractLsb'_append_eq_right
    have middle : (a.toBitVec ++ b.toBitVec ++ c.toBitVec : BitVec 24).extractLsb' 8 8 = b.toBitVec :=
      (BitVec.extractLsb'_append_eq_of_le (by decide)).trans BitVec.extractLsb'_append_eq_right
    have high : (a.toBitVec ++ b.toBitVec ++ c.toBitVec : BitVec 24).extractLsb' 16 8 = a.toBitVec :=
      (BitVec.extractLsb'_append_eq_of_le (by decide)).trans BitVec.extractLsb'_append_eq_left
    simp only [same, low, middle, high, UInt8.ofBitVec_toBitVec]
  · intro same
    simp only [List.cons.injEq, and_true] at same
    obtain ⟨rfl, rfl, rfl⟩ := same
    rw [UInt8.toBitVec_ofBitVec, UInt8.toBitVec_ofBitVec, UInt8.toBitVec_ofBitVec,
      BitVec.extractLsb'_append_extractLsb'_eq_extractLsb' (show 16 = 8 + 8 by decide),
      BitVec.extractLsb'_append_extractLsb'_eq_extractLsb' (show 8 = 0 + 8 by decide)]
    exact BitVec.extractLsb'_eq_self.symm

theorem cleanExact (body : Octets) (a b c : UInt8) :
    parityClean (body ++ [a, b, c]) = true ↔ body ++ [a, b, c] = sealed body := by
  have word := wordHolds (a.toBitVec ++ b.toBitVec ++ c.toBitVec)
  calc parityClean (body ++ [a, b, c]) = true
      ↔ register (body ++ [a, b, c]) = 0 := by
        rw [parityClean, beq_iff_eq, parity, remainderExact (registerHolds _)]
        rfl
    _ ↔ register body = (a.toBitVec ++ b.toBitVec ++ c.toBitVec : BitVec 24).setWidth 32 := by
        rw [registerTail, placedTogether, shiftBitsNothing _ (holdsXor (registerHolds body) word)]
        exact BitVec.xor_eq_zero_iff
    _ ↔ parity body = a.toBitVec ++ b.toBitVec ++ c.toBitVec :=
        (remainderExact (registerHolds body) _).symm
    _ ↔ body ++ [a, b, c] = sealed body := by
        rw [parityOctetsExact, sealed, List.append_cancel_left_eq]

end AirPicture.Feed
