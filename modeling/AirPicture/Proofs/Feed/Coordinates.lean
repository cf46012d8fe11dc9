import Mathlib
import AirPicture.Feed.Settings
import AirPicture.Proofs.Binary64.Whole

/-! Coordinates that a latitude or a longitude can have. Settings admit no others, because they are
finite and their magnitude is compared with the limit; a report is resolved to no others, because
both of its coordinates are compared with their limits, which no infinity and no NaN passes. -/
namespace AirPicture.Feed
open Binary64 (Stands absStands betweenFinite finiteStands naturalStands negStands standsFinite
  standsLe standsLt)

structure Axis.Holds (axis : Axis) (x : Float) : Prop where
  finite : x.isFinite = true
  low : -axis.limit ≤ x
  high : x ≤ axis.limit

def Axis.degrees : Axis → ℚ
  | .latitude => 90
  | .longitude => 180

section Limits
variable {axis : Axis} {x : Float} {q : ℚ}

theorem limitStands (axis : Axis) : Stands axis.limit axis.degrees := by
  cases axis with
  | latitude => exact naturalStands (n := 90) (by decide)
  | longitude => exact naturalStands (n := 180) (by decide)

theorem holdsExact (stands : Stands x q) : axis.Holds x ↔ |q| ≤ axis.degrees := by
  have high := limitStands axis
  have low := negStands high
  rw [abs_le, ← standsLe low stands, ← standsLe stands high]
  exact ⟨fun holds => ⟨holds.low, holds.high⟩,
    fun between => ⟨standsFinite stands, between.1, between.2⟩⟩

theorem holdsDegrees : axis.Holds x ↔ ∃ q, Stands x q ∧ |q| ≤ axis.degrees := by
  constructor
  · intro holds
    obtain ⟨q, stands⟩ := finiteStands holds.finite
    exact ⟨q, stands, (holdsExact stands).mp holds⟩
  · rintro ⟨q, stands, small⟩
    exact (holdsExact stands).mpr small

theorem admitsHolds : axis.admits x = true ↔ axis.Holds x := by
  have beyond {q : ℚ} (stands : Stands x q) : x.abs > axis.limit ↔ ¬ axis.Holds x := by
    rw [gt_iff_lt, standsLt (limitStands axis) (absStands stands), holdsExact stands, not_le]
  simp only [Axis.admits, Bool.and_eq_true, Bool.not_eq_true', decide_eq_false_iff_not]
  constructor
  · rintro ⟨finite, small⟩
    obtain ⟨q, stands⟩ := finiteStands finite
    exact not_not.mp (mt (beyond stands).mpr small)
  · intro holds
    obtain ⟨q, stands⟩ := finiteStands holds.finite
    exact ⟨holds.finite, fun large => (beyond stands).mp large holds⟩

theorem withinHolds : within axis.limit x = true ↔ axis.Holds x := by
  have negated : Reckoning.whole (-1) * axis.limit = -axis.limit := by
    cases axis <;> decide +kernel
  have high := limitStands axis
  rw [within, negated, Bool.and_eq_true, decide_eq_true_iff, decide_eq_true_iff]
  exact ⟨fun between => ⟨betweenFinite (negStands high) high between.1 between.2, between.1,
    between.2⟩, fun holds => ⟨holds.low, holds.high⟩⟩

theorem withinDegrees (axis : Axis) (stands : Stands x q) :
    within axis.limit x = true ↔ |q| ≤ axis.degrees :=
  withinHolds.trans (holdsExact stands)

end Limits

theorem locateHolds {r : Report} {latitude longitude lat lon : Float}
    (located : r.locate latitude longitude = some (lat, lon)) :
    Axis.latitude.Holds lat ∧ Axis.longitude.Holds lon := by
  simp only [Report.locate, Report.resolve, Option.ite_none_right_eq_some] at located
  obtain ⟨inside, same⟩ := located
  obtain ⟨rfl, rfl⟩ := Prod.mk.inj (Option.some.inj same)
  obtain ⟨first, second⟩ := Bool.and_eq_true_iff.mp inside
  exact ⟨withinHolds.mp first, withinHolds.mp second⟩

end AirPicture.Feed
