import Mathlib
import AirPicture.Proofs.Binary64.Whole

/-! Floats of decimals. A few powers of ten are floats themselves, so that for short decimals one
operation is enough; for others the number is rounded as a whole, which beyond the powers that are
ever raised makes an infinity or a zero of it. In each way it becomes what it is rounded to. -/
namespace AirPicture.Binary64
open Float.Model
open UnpackedFloat (Sign)

variable {x : Float} {q : ℚ}

inductive Becomes (x : Float) (q : ℚ) : Prop
  | near {r : ℚ} (stands : Stands x r) (rounds : Rounds q r)
  | great (infinite : x.isFinite = false) (great : overflow ≤ |q|)

theorem becomesPacked {u : UnpackedFloat} (outcome : Outcome u q) (made : x.toModel = pack u) :
    Becomes x q := by
  obtain ⟨reads, rounds⟩ | ⟨lost, great⟩ := outcome
  · exact .near (standsPacked reads made) rounds
  · refine .great ?_ great
    change x.toModel.unpack.isFinite = false
    rw [made]
    exact lost

theorem tinyRounds (small : |q| < 2 ^ (-1075 : Int)) : Rounds q 0 := by
  have half : (2 : ℚ) ^ (-1074 : Int) / 2 = 2 ^ (-1075 : Int) := by
    rw [div_eq_iff two_ne_zero, ← zpow_add_one₀ two_ne_zero]
    rfl
  refine ⟨-1074, le_rfl, .inr rfl, ?_, ?_, 0, by simp, fun tie => ?_⟩
  · exact small.trans (zpow_lt_zpow_right₀ one_lt_two (by decide))
  · rw [zero_sub, abs_neg, half]
    exact small.le
  · rw [zero_sub, abs_neg, half] at tie
    exact absurd tie small.ne

section Scientific
variable {m : Nat} {e : Int}

theorem eightTen (n : Nat) : (2 : ℚ) ^ (3 * n : Int) ≤ 10 ^ (n : Int) := by
  rw [zpow_mul, zpow_natCast, zpow_natCast]
  gcongr
  norm_num

theorem tenEight (n : Nat) : (10 : ℚ) ^ (-n : Int) ≤ 2 ^ (-(3 * n) : Int) := by
  rw [zpow_neg, zpow_neg]
  exact inv_anti₀ (by positivity) (eightTen n)

theorem tenGreat (some : 0 < m) (high : 2 ^ 11 < e) : overflow ≤ |(m : ℚ) * 10 ^ e| := by
  obtain ⟨n, rfl⟩ := Int.eq_ofNat_of_zero_le (by omega : 0 ≤ e)
  have one : (1 : ℚ) ≤ m := by exact_mod_cast some
  have placed : (0 : ℚ) ≤ 10 ^ (n : Int) := by positivity
  rw [abs_of_nonneg (by positivity)]
  calc overflow ≤ 2 ^ (1024 : Int) := overflowLess.le
    _ ≤ 2 ^ (3 * n : Int) := zpow_le_zpow_right₀ one_le_two (by omega)
    _ ≤ 10 ^ (n : Int) := eightTen n
    _ ≤ m * 10 ^ (n : Int) := le_mul_of_one_le_left placed one

theorem tenSmall (low : e < -(2 ^ 11 + m.log2)) : |(m : ℚ) * 10 ^ e| < 2 ^ (-1075 : Int) := by
  obtain ⟨n, rfl⟩ : ∃ n : Nat, e = -n := ⟨e.natAbs, by omega⟩
  have wide : (m : ℚ) ≤ 2 ^ (m.log2 + 1 : Int) := by exact_mod_cast Nat.lt_log2_self.le
  have less := tenEight n
  rw [abs_of_nonneg (by positivity)]
  calc (m : ℚ) * 10 ^ (-n : Int) ≤ 2 ^ (m.log2 + 1 : Int) * 2 ^ (-(3 * n) : Int) := by gcongr
    _ = 2 ^ (m.log2 + 1 + -(3 * n) : Int) := (zpow_add₀ two_ne_zero ..).symm
    _ < 2 ^ (-1075 : Int) := zpow_lt_zpow_right₀ one_lt_two (by omega)

theorem raisedOutcome (some : 0 < m) (n : Nat) :
    Outcome (UnpackedFloat.mul .binary64
      (.finite .positive (m <<< 53) (-53) (by rw [Nat.shiftLeft_eq]; positivity))
      (.finite .positive (10 ^ n) 0 (Nat.pow_pos (by decide)))) (m * 10 ^ (n : Int)) := by
  have enough : 2 ^ 52 ≤ (m <<< 53) * 10 ^ n := by
    rw [Nat.shiftLeft_eq]
    calc 2 ^ 52 ≤ 1 * 2 ^ 53 * 1 := by norm_num
      _ ≤ m * 2 ^ 53 * 10 ^ n := by
        gcongr
        · exact some
        · exact Nat.one_le_pow _ _ (by decide)
  have outcome := mulOutcome .positive .positive (e := -53) (f := 0)
    (by rw [Nat.shiftLeft_eq]; positivity) (Nat.pow_pos (by decide)) (.inl enough)
  have value : (m : ℚ) * 10 ^ (n : Int) = sense .positive * ((m <<< 53 : Nat) * 2 ^ (-53 : Int)) *
      (sense .positive * ((10 ^ n : Nat) * 2 ^ (0 : Int))) := by
    rw [sense, one_mul, one_mul, Nat.shiftLeft_eq, zpow_natCast]
    push_cast
    norm_num
    ring
  rwa [← value] at outcome

theorem loweredOutcome (some : 0 < m) (n : Nat) :
    Outcome (UnpackedFloat.div .binary64 (.finite .positive m 0 some)
      (.finite .positive (10 ^ n) 0 (Nat.pow_pos (by decide)))) (m * 10 ^ (-n : Int)) := by
  have outcome := divOutcome .positive .positive 0 0 some (Nat.pow_pos (by decide) : 0 < 10 ^ n)
  have value : (m : ℚ) * 10 ^ (-n : Int) = sense .positive * (m * 2 ^ (0 : Int)) /
      (sense .positive * ((10 ^ n : Nat) * 2 ^ (0 : Int))) := by
    rw [sense, one_mul, one_mul, zpow_zero, mul_one, mul_one, zpow_neg, zpow_natCast, Nat.cast_pow,
      Nat.cast_ofNat, div_eq_mul_inv]
  rwa [← value] at outcome

theorem scientificOutcome (m : Nat) (e : Int) :
    Outcome (UnpackedFloat.ofScientific .binary64 m e) (m * 10 ^ e) := by
  unfold UnpackedFloat.ofScientific
  split
  · rename_i none
    rw [none, Nat.cast_zero, zero_mul]
    exact .near (.zero .positive) (readsRounds (.zero .positive))
  rename_i nonzero
  have some := Nat.pos_of_ne_zero nonzero
  split
  · rename_i high
    exact .lost (lostInfinite _) (tenGreat some high)
  split
  · rename_i low
    exact .near (.zero .positive) (tinyRounds (tenSmall low))
  split
  · rename_i upward
    obtain ⟨n, rfl⟩ := Int.eq_ofNat_of_zero_le upward
    simp only [Int.toNat_natCast]
    exact raisedOutcome some n
  · rename_i downward
    obtain ⟨n, rfl⟩ : ∃ n : Nat, e = -n := ⟨e.natAbs, by omega⟩
    simp only [neg_neg, Int.toNat_natCast]
    exact loweredOutcome some n

end Scientific

section Powers

def counts (n : Nat) : UnpackedFloat → Bool
  | .finite .positive m e _ => m * 2 ^ (e + 1074).toNat = n * 2 ^ 1074
  | _ => false

theorem countsStands {n : Nat} (counted : counts n x.toModel.unpack = true) : Stands x n := by
  unfold Stands
  generalize known : x.toModel.unpack = u at *
  cases u with
  | finite sign m e some =>
    cases sign with
    | negative => contradiction
    | positive =>
      have fits := unpackedFits known
      obtain ⟨k, rfl⟩ : ∃ k : Nat, e = k - 1074 := ⟨(e + 1074).toNat, by have := fits.least; omega⟩
      have same : m * 2 ^ (k - 1074 + 1074 : Int).toNat = n * 2 ^ 1074 := of_decide_eq_true counted
      rw [Int.sub_add_cancel, Int.toNat_natCast] at same
      have value : (n : ℚ) = sense .positive * (m * 2 ^ (k - 1074 : Int)) := by
        have same := congrArg (Nat.cast (R := ℚ)) same
        rw [Nat.cast_mul, Nat.cast_mul, Nat.cast_pow, Nat.cast_pow, Nat.cast_ofNat] at same
        rw [sense, one_mul, zpow_sub₀ two_ne_zero, zpow_natCast, ← mul_div_assoc, same]
        exact (mul_div_cancel_right₀ _ (by positivity)).symm
      rw [value]
      exact .finite .positive some fits
  | _ => contradiction

theorem powerCounts : ∀ e : Fin 23,
    counts (10 ^ e.val) Float.exactlyRepresentablePowersOfTen[e.val].toModel.unpack = true := by
  decide +kernel

theorem powerStands (e : Fin 23) :
    Stands Float.exactlyRepresentablePowersOfTen[e.val] (10 ^ e.val : Nat) :=
  countsStands (powerCounts e)

end Powers

theorem Gives.becomes (gives : Gives x q) (size : |q| ≤ 2 ^ (1000 : Int)) : Becomes x q :=
  let ⟨_, stands, rounds⟩ := gives size
  .near stands rounds

theorem smallMost {m e : Nat} (short : m < 2 ^ 53) (few : e ≤ 22) :
    |(m : ℚ) * (10 ^ e : Nat)| ≤ 2 ^ (1000 : Int) ∧
      |(m : ℚ) / (10 ^ e : Nat)| ≤ 2 ^ (1000 : Int) := by
  have least : (0 : ℚ) ≤ m := Nat.cast_nonneg m
  have one : (1 : ℚ) ≤ (10 ^ e : Nat) := by exact_mod_cast Nat.one_le_pow _ _ (by decide)
  have product : (0 : ℚ) ≤ m * (10 ^ e : Nat) := by positivity
  have quotient : (0 : ℚ) ≤ m / (10 ^ e : Nat) := by positivity
  have both : m * 10 ^ e ≤ 2 ^ 53 * 10 ^ 22 :=
    Nat.mul_le_mul short.le (Nat.pow_le_pow_right (by decide) few)
  have most : (m : ℚ) * (10 ^ e : Nat) ≤ 2 ^ (1000 : Int) :=
    calc (m : ℚ) * (10 ^ e : Nat) ≤ (2 ^ 53 * 10 ^ 22 : Nat) := by exact_mod_cast both
      _ ≤ 2 ^ (127 : Int) := by norm_num
      _ ≤ 2 ^ (1000 : Int) := zpow_le_zpow_right₀ one_le_two (by decide)
  rw [abs_of_nonneg product, abs_of_nonneg quotient]
  exact ⟨most, (div_le_self least one).trans ((le_mul_of_one_le_right least one).trans most)⟩

theorem decimalBecomes (m : Nat) (minus : Bool) (e : Nat) : Becomes (Float.ofScientific m minus e)
    (m * 10 ^ (if minus then -(e : Int) else e)) := by
  unfold Float.ofScientific
  split
  · rename_i small
    obtain ⟨short, few⟩ := small
    have word := wordStands short
    have power := powerStands ⟨e, Nat.lt_succ_of_le few⟩
    obtain ⟨product, quotient⟩ := smallMost short few
    cases minus with
    | false =>
      have value : (m : ℚ) * (10 : ℚ) ^ (e : Int) = m * (10 ^ e : Nat) := by
        rw [zpow_natCast, Nat.cast_pow, Nat.cast_ofNat]
      have becomes := (mulGives word power).becomes product
      rw [← value] at becomes
      exact becomes
    | true =>
      have value : (m : ℚ) * (10 : ℚ) ^ (-e : Int) = m / (10 ^ e : Nat) := by
        rw [zpow_neg, zpow_natCast, Nat.cast_pow, Nat.cast_ofNat, div_eq_mul_inv]
      have becomes := (divGives word power (by positivity)).becomes quotient
      rw [← value] at becomes
      exact becomes
  · cases minus with
    | false => exact becomesPacked (scientificOutcome m e) rfl
    | true => exact becomesPacked (scientificOutcome m (Int.negOfNat e)) rfl

end AirPicture.Binary64
