import Mathlib
import AirPicture.Feed.Position

/-! Reports resolved without errors of rounding. What a report says of a coordinate holds of one
place in every zone. The place that it is resolved to is the nearest of these to the reference, and
so it is the one that was encoded, to the last of seventeen bits, unless that lies half a zone
away. -/
namespace AirPicture.Feed

instance : Reckoning ℚ where
  whole := Int.cast
  floor x := (⌊x⌋ : ℚ)
  decideLE := inferInstance
  decideLT := inferInstance

def Candidate (size : ℚ) (field : Nat) (place : ℚ) : Prop :=
  ∃ n : ℤ, place - size * field / 2 ^ 17 = n * size

/- The field of a place: the fraction of its zone to the nearest of 2^17 steps, the last of which
is the beginning of the next zone. -/
def encoded (size place : ℚ) : Nat := (round (remainder place size / size * 2 ^ 17) % 2 ^ 17).toNat

def straight (x y : ℚ) : ℚ := |x - y|

def circular (x y : ℚ) : ℚ := |x - y - 360 * round ((x - y) / 360)|

structure Resolved (distance : ℚ → ℚ → ℚ) (size : ℚ) (field : Nat) (reference place : ℚ) :
    Prop where
  candidate : Candidate size field place
  near : distance place reference ≤ size / 2
  nearest : ∀ other, Candidate size field other →
    distance place reference ≤ distance other reference
  recovers : ∀ origin, encoded size origin = field →
    distance origin reference < size / 2 - size / 2 ^ 18 → distance place origin ≤ size / 2 ^ 18

section Straight
variable {size : ℚ} {field : Nat} (wide : 0 < size)
include wide

theorem candidatesApart {a b : ℚ} (first : Candidate size field a) (second : Candidate size field b)
    (close : |a - b| < size) : a = b := by
  obtain ⟨n, left⟩ := first
  obtain ⟨m, right⟩ := second
  have zones : a - b = (n - m : ℤ) * size := by
    push_cast
    linarith
  rw [zones, abs_mul, abs_of_pos wide, mul_lt_iff_lt_one_left wide] at close
  have same : n - m = 0 := Int.abs_lt_one_iff.mp (by exact_mod_cast close)
  rw [same, Int.cast_zero, zero_mul] at zones
  linarith

theorem remainderFract (x : ℚ) : remainder x size / size = Int.fract (x / size) := by
  change (x - size * ⌊x / size⌋) / size = x / size - ⌊x / size⌋
  field_simp

theorem nearestPlaced (reference part : ℚ) :
    ∃ n : ℤ, nearest size reference part = size * (n + part) ∧
      |nearest size reference part - reference| ≤ size / 2 := by
  obtain ⟨ahead, same⟩ : ∃ ahead, ahead = 1 / 2 + Int.fract (reference / size) - part := ⟨_, rfl⟩
  have placed : nearest size reference part =
      size * ((⌊reference / size⌋ + ⌊ahead⌋ : ℤ) + part) := by
    rw [same, ← remainderFract wide]
    push_cast
    rfl
  refine ⟨_, placed, ?_⟩
  have zone : reference = size * (⌊reference / size⌋ + Int.fract (reference / size)) := by
    rw [Int.floor_add_fract]
    field_simp
  have shift : nearest size reference part - reference = size * (⌊ahead⌋ - ahead + 1 / 2) := by
    push_cast at placed
    linear_combination placed - zone + size * same
  have low := Int.floor_le ahead
  have high := Int.lt_floor_add_one ahead
  have half : |⌊ahead⌋ - ahead + 1 / 2| ≤ 1 / 2 := by
    rw [abs_le]
    constructor <;> linarith
  calc |nearest size reference part - reference|
      = size * |⌊ahead⌋ - ahead + 1 / 2| := by rw [shift, abs_mul, abs_of_pos wide]
    _ ≤ size * (1 / 2) := mul_le_mul_of_nonneg_left half wide.le
    _ = size / 2 := by ring

theorem encodedNear (origin : ℚ) :
    ∃ place, Candidate size (encoded size origin) place ∧ |place - origin| ≤ size / 2 ^ 18 := by
  have zone : origin = size * (⌊origin / size⌋ + Int.fract (origin / size)) := by
    rw [Int.floor_add_fract]
    field_simp
  have rounded := abs_sub_round (Int.fract (origin / size) * 2 ^ 17)
  obtain ⟨e, steps⟩ : ∃ e, e = round (Int.fract (origin / size) * 2 ^ 17) := ⟨_, rfl⟩
  rw [← steps] at rounded
  have field : (encoded size origin : ℚ) = e - 2 ^ 17 * (e / 2 ^ 17 : ℤ) := by
    have cast : (encoded size origin : ℤ) = e - 2 ^ 17 * (e / 2 ^ 17) := by
      rw [encoded, remainderFract wide, ← steps]
      omega
    exact_mod_cast cast
  refine ⟨size * (⌊origin / size⌋ + e / 2 ^ 17), ⟨⌊origin / size⌋ + e / 2 ^ 17, ?_⟩, ?_⟩
  · rw [field]
    push_cast
    ring
  · have error : size * (⌊origin / size⌋ + e / 2 ^ 17) - origin =
        -(size / 2 ^ 17 * (Int.fract (origin / size) * 2 ^ 17 - e)) := by
      linear_combination -zone
    have step : 0 < size / 2 ^ 17 := by positivity
    calc |size * (⌊origin / size⌋ + e / 2 ^ 17) - origin|
        = size / 2 ^ 17 * |Int.fract (origin / size) * 2 ^ 17 - e| := by
          rw [error, abs_neg, abs_mul, abs_of_pos step]
      _ ≤ size / 2 ^ 17 * (1 / 2) := mul_le_mul_of_nonneg_left rounded step.le
      _ = size / 2 ^ 18 := by ring

theorem nearestResolved (reference : ℚ) (field : Nat) :
    Resolved straight size field reference (nearest size reference (fraction field)) := by
  obtain ⟨n, placed, near⟩ := nearestPlaced wide reference (fraction field)
  have part : (fraction field : ℚ) = field / 2 ^ 17 := by
    change ((field : ℤ) : ℚ) / ((131072 : ℤ) : ℚ) = field / 2 ^ 17
    norm_num
  have candidate : Candidate size field (nearest size reference (fraction field)) := by
    refine ⟨n, ?_⟩
    rw [placed, part]
    ring
  refine ⟨candidate, near, fun other stands => ?_, fun origin sent close => ?_⟩
  · by_contra nearer
    have apart : |nearest size reference (fraction field) - other| < size := by
      have sum := abs_sub_le (nearest size reference (fraction field)) reference other
      rw [abs_sub_comm reference other] at sum
      unfold straight at nearer
      linarith
    exact nearer (by rw [candidatesApart wide candidate stands apart])
  · obtain ⟨place, stands, error⟩ := encodedNear wide origin
    rw [sent] at stands
    have apart : |nearest size reference (fraction field) - place| < size := by
      have sum := abs_sub_le (nearest size reference (fraction field)) reference place
      have rest := abs_sub_le place origin reference
      rw [abs_sub_comm reference place] at sum
      unfold straight at close
      linarith
    rw [candidatesApart wide candidate stands apart]
    exact error

end Straight

section Circular

theorem circularLeast (x y : ℚ) (turns : ℤ) : circular x y ≤ |x - y - 360 * turns| := by
  have scaled : ∀ n : ℤ, |x - y - 360 * n| = 360 * |(x - y) / 360 - n| := by
    intro n
    have parts : x - y - 360 * n = 360 * ((x - y) / 360 - n) := by ring
    rw [parts, abs_mul, abs_of_pos (by norm_num)]
  rw [circular, scaled, scaled]
  exact mul_le_mul_of_nonneg_left (round_le _ turns) (by norm_num)

variable {size : ℚ} {count : ℤ} {field : Nat} (whole : size * count = 360)
include whole

theorem candidateTurned {place : ℚ} (candidate : Candidate size field place) (turns : ℤ) :
    Candidate size field (place - 360 * turns) := by
  obtain ⟨n, zones⟩ := candidate
  refine ⟨n - count * turns, ?_⟩
  push_cast
  linear_combination zones + turns * whole

theorem encodedTurned (wide : 0 < size) (origin : ℚ) (turns : ℤ) :
    encoded size (origin - 360 * turns) = encoded size origin := by
  have shift : (origin - 360 * turns) / size = origin / size - (count * turns : ℤ) := by
    rw [← whole]
    push_cast
    field_simp
  rw [encoded, encoded, remainderFract wide, remainderFract wide, shift, Int.fract_sub_intCast]

theorem resolvedTurned (wide : 0 < size) {reference place : ℚ}
    (resolved : Resolved straight size field reference place) (turns : ℤ) :
    Resolved circular size field reference (place - 360 * turns) := by
  have reached : ∀ other (n : ℤ), circular (place - 360 * turns) other ≤
      straight place (other - 360 * n) := by
    intro other n
    have same : place - 360 * turns - other - 360 * ((-turns - n : ℤ) : ℚ) =
        place - (other - 360 * n) := by
      push_cast
      ring
    rw [straight, ← same]
    exact circularLeast ..
  have unwound : ∀ other, ∃ n : ℤ,
      circular other reference = straight (other - 360 * n) reference := by
    intro other
    refine ⟨round ((other - reference) / 360), ?_⟩
    rw [circular, straight]
    congr 1
    ring
  refine ⟨candidateTurned whole resolved.candidate turns, ?_, fun other stands => ?_,
    fun origin sent close => ?_⟩
  · have near := reached reference 0
    rw [Int.cast_zero, mul_zero, sub_zero] at near
    exact near.trans resolved.near
  · obtain ⟨n, same⟩ := unwound other
    have near := reached reference 0
    rw [Int.cast_zero, mul_zero, sub_zero] at near
    rw [same]
    exact near.trans (resolved.nearest _ (candidateTurned whole stands n))
  · obtain ⟨n, same⟩ := unwound origin
    rw [same] at close
    rw [← encodedTurned whole wide origin n] at sent
    exact (reached origin n).trans (resolved.recovers _ sent close)

end Circular

theorem withinExact (limit : ℤ) (x : ℚ) :
    within (Reckoning.whole limit) x = true ↔ |x| ≤ limit := by
  rw [within, Bool.and_eq_true, decide_eq_true_iff, decide_eq_true_iff, abs_le]
  change ((-1 : ℤ) : ℚ) * limit ≤ x ∧ x ≤ limit ↔ _
  norm_num

theorem resolveTurned (zones : ℚ → ℤ) (r : Report) (latitude longitude : ℚ) {lat east : ℚ}
    (first : lat = nearest r.latitudeSize latitude (fraction r.latitude))
    (second : east = nearest (r.longitudeSize (zones lat)) longitude (fraction r.longitude)) :
    ∃ turns : ℤ, r.resolve zones latitude longitude =
      if |lat| ≤ 90 ∧ |east - 360 * turns| ≤ 180 then some (lat, east - 360 * turns) else none := by
  have wrapped : ∃ turns : ℤ,
      (if Reckoning.whole 180 < east then east - Reckoning.whole 360 else east) =
        east - 360 * turns := by
    split
    · exact ⟨1, by rw [Int.cast_one, mul_one]; rfl⟩
    · exact ⟨0, by rw [Int.cast_zero, mul_zero, sub_zero]⟩
  obtain ⟨turns, same⟩ := wrapped
  refine ⟨turns, ?_⟩
  have inside :
      (within (Reckoning.whole 90) lat && within (Reckoning.whole 180) (east - 360 * turns)) = true ↔
        |lat| ≤ 90 ∧ |east - 360 * turns| ≤ 180 := by
    rw [Bool.and_eq_true, withinExact, withinExact]
    norm_num
  rw [Report.resolve]
  simp only [← first, ← second, same, inside]

/-- Without errors of rounding, a report is resolved to the nearest of the places that it may stand
for, and to the one that it was encoded from, if this is a position at all. -/
theorem reportRecovered (zones : ℚ → ℤ) (r : Report) (latitude longitude : ℚ) :
    ∃ lat lon,
      r.resolve zones latitude longitude =
        (if |lat| ≤ 90 ∧ |lon| ≤ 180 then some (lat, lon) else none) ∧
      Resolved straight (360 / (60 - r.step)) r.latitude latitude lat ∧
      Resolved circular (360 / (max (zones lat - r.step) 1 : ℤ)) r.longitude longitude lon := by
  obtain ⟨lat, first⟩ : ∃ lat : ℚ, lat = nearest r.latitudeSize latitude (fraction r.latitude) :=
    ⟨_, rfl⟩
  obtain ⟨east, second⟩ : ∃ east : ℚ,
      east = nearest (r.longitudeSize (zones lat)) longitude (fraction r.longitude) := ⟨_, rfl⟩
  obtain ⟨turns, resolved⟩ := resolveTurned zones r latitude longitude first second
  refine ⟨lat, east - 360 * turns, resolved, ?_, ?_⟩
  · have wide : (0 : ℚ) < 360 / (60 - r.step) := by
      unfold Report.step
      split <;> norm_num
    rw [first]
    exact nearestResolved wide latitude r.latitude
  · have positive : (0 : ℚ) < (max (zones lat - r.step) 1 : ℤ) := by
      exact_mod_cast lt_of_lt_of_le one_pos (le_max_right ..)
    rw [second]
    exact resolvedTurned (div_mul_cancel₀ 360 positive.ne') (by positivity)
      (nearestResolved (by positivity) longitude r.longitude) turns

def coastReport : Report := ⟨encoded 6 40, encoded (360 / 44) (-75), false⟩

def coastReference : ℚ × ℚ := (401 / 10, -752 / 10)

theorem coastRecovered : ∃ lat lon,
    coastReport.resolve (fun _ => 44) coastReference.1 coastReference.2 = some (lat, lon) ∧
      straight lat 40 ≤ 6 / 2 ^ 18 ∧ circular lon (-75) ≤ 360 / 44 / 2 ^ 18 := by
  obtain ⟨lat, lon, resolved, north, east⟩ :=
    reportRecovered (fun _ => 44) coastReport coastReference.1 coastReference.2
  have found : (coastReport.resolve (fun _ => 44) coastReference.1 coastReference.2).isSome = true := by
    decide +kernel
  have inside : |lat| ≤ 90 ∧ |lon| ≤ 180 := by
    by_contra outside
    rw [resolved, if_neg outside] at found
    contradiction
  have high : (360 / (60 - coastReport.step) : ℚ) = 6 := by decide +kernel
  have broad : (360 / (max (44 - coastReport.step) 1 : ℤ) : ℚ) = 360 / 44 := by decide +kernel
  rw [if_pos inside] at resolved
  rw [high] at north
  rw [broad] at east
  exact ⟨lat, lon, resolved, north.recovers 40 (by decide +kernel) (by decide +kernel),
    east.recovers (-75) (by decide +kernel) (by decide +kernel)⟩

end AirPicture.Feed
