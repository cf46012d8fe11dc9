import Mathlib
import AirPicture.Proofs.Binary64.Whole
import AirPicture.Proofs.Feed.Coordinates

/-! Positions across the meridian opposite to Greenwich. The place nearest to the reference may lie
beyond it, since longitudes are counted on; to the east of 180 degrees a turn is taken off, which is
exact, and to the west nothing is put on, so that such a place is refused. -/
namespace AirPicture.Feed
open Binary64
open Reckoning (whole floor)

structure Around (size reference : Float) (d r : ℚ) : Prop where
  sized : Stands size d
  referred : Stands reference r
  least : 1 / 2 ^ 23 ≤ d
  most : d ≤ 361
  small : |r| ≤ 180

section Nearest
variable {size reference part : Float} {d r f : ℚ}

theorem Around.wide (around : Around size reference d r) : 0 < d :=
  lt_of_lt_of_le (by norm_num) around.least

theorem zoneKnown (around : Around size reference d r) :
    ∃ n : Int, Stands (floorOf (reference / size)) n ∧ |n| ≤ 2 ^ 32 ∧ |r - d * n| ≤ 5 / 4 * d := by
  have wide := around.wide
  have least := around.least
  have turns : |r / d| ≤ 2 ^ 31 := by
    rw [abs_div, abs_of_pos wide, div_le_iff₀ wide]
    refine around.small.trans ?_
    norm_num at least ⊢
    linarith
  obtain ⟨q, stands, near⟩ :=
    (divGives around.referred around.sized wide.ne').near (by decide) turns
  have close : |q - r / d| ≤ 1 / 4 := near.trans (by norm_num)
  rw [abs_le] at close turns
  norm_num at turns
  have low := Int.floor_le q
  have high := Int.lt_floor_add_one q
  refine ⟨⌊q⌋, floorStands stands ?_, ?_, ?_⟩
  · rw [abs_lt]
    constructor <;> norm_num <;> linarith
  · have : |(⌊q⌋ : ℚ)| ≤ 2 ^ 32 := by
      rw [abs_le]
      constructor <;> norm_num <;> linarith
    exact_mod_cast this
  · have scaled : r - d * ⌊q⌋ = (r / d - ⌊q⌋) * d := by
      field_simp
    rw [scaled, abs_mul, abs_of_pos wide]
    refine mul_le_mul_of_nonneg_right (abs_le.mpr ?_) wide.le
    constructor <;> linarith

theorem remainderKnown {n : Int} (around : Around size reference d r)
    (zone : Stands (floorOf (reference / size)) n) (close : |r - d * n| ≤ 5 / 4 * d) :
    ∃ w, Stands (remainder reference size) w ∧ |w - (r - d * n)| ≤ 1 / 2 ^ 41 := by
  have most := around.most
  have small := around.small
  rw [abs_le] at close small
  have product : |d * n| ≤ 2 ^ 10 := by
    rw [abs_le]
    constructor <;> norm_num <;> linarith
  obtain ⟨p, stands, near⟩ := (mulGives around.sized zone).near (by decide) product
  norm_num [abs_le] at near
  have left : |r - p| ≤ 2 ^ 9 := by
    rw [abs_le]
    constructor <;> norm_num <;> linarith
  obtain ⟨w, stands, next⟩ := (subGives around.referred stands).near (by decide) left
  norm_num [abs_le] at next
  refine ⟨w, stands, abs_le.mpr ?_⟩
  constructor <;> norm_num <;> linarith

theorem shiftKnown {n : Int} {w : ℚ} (around : Around size reference d r) (parted : Stands part f)
    (positive : 0 ≤ f) (small : f ≤ 2 ^ 15) (left : Stands (remainder reference size) w)
    (near : |w - (r - d * n)| ≤ 1 / 2 ^ 41) (close : |r - d * n| ≤ 5 / 4 * d) :
    ∃ b, Stands (whole 1 / whole 2 + remainder reference size / size - part) b ∧ |b| ≤ 2 ^ 16 ∧
      |d * b - (d / 2 + (r - d * n) - d * f)| ≤ 1 / 2 ^ 26 := by
  have wide := around.wide
  have least := around.least
  have half : Stands (whole 1 / whole 2 : Float) ((1 : Int) / (2 : Int)) :=
    (ratioGives (by decide) (by decide) (by decide)).exact
      ⟨1, -1, by norm_num, by decide, by decide, by decide⟩
  norm_num at half
  rw [abs_le] at near close
  -- the smaller the zones, the greater the error in zones, and never as much as one of them
  have ratio : |w / d| ≤ 2 ^ 1 := by
    rw [abs_div, abs_of_pos wide, div_le_iff₀ wide, abs_le]
    norm_num at near least ⊢
    constructor <;> linarith
  obtain ⟨t, stands, first⟩ :=
    (divGives left around.sized wide.ne').near (by decide) ratio
  norm_num [abs_le] at first ratio
  have sum : |1 / 2 + t| ≤ 2 ^ 2 := by
    rw [abs_le]
    constructor <;> norm_num <;> linarith
  obtain ⟨a, stands, second⟩ := (addGives half stands).near (by decide) sum
  norm_num [abs_le] at second sum
  have difference : |a - f| ≤ 2 ^ 16 := by
    rw [abs_le]
    constructor <;> norm_num <;> linarith
  obtain ⟨b, stands, third⟩ := (subGives stands parted).near (by decide) difference
  norm_num [abs_le] at third difference
  have short : |b - (1 / 2 + w / d - f)| ≤ 1 / 2 ^ 35 := by
    rw [abs_le]
    constructor <;> norm_num <;> linarith
  -- times the size of a zone, the error of the remainder is what it was before it was divided
  have parts : d * b - (d / 2 + (r - d * n) - d * f) =
      d * (b - (1 / 2 + w / d - f)) + (w - (r - d * n)) := by
    field_simp
    ring
  refine ⟨b, stands, abs_le.mpr ?_, ?_⟩
  · constructor <;> norm_num <;> linarith
  · calc |d * b - (d / 2 + (r - d * n) - d * f)|
        = |d * (b - (1 / 2 + w / d - f)) + (w - (r - d * n))| := by rw [parts]
      _ ≤ |d * (b - (1 / 2 + w / d - f))| + |w - (r - d * n)| := abs_add_le ..
      _ ≤ 361 * (1 / 2 ^ 35) + 1 / 2 ^ 41 := by
        rw [abs_mul, abs_of_pos wide]
        exact add_le_add (mul_le_mul around.most short (abs_nonneg _) (by norm_num))
          (abs_le.mpr near)
      _ ≤ 1 / 2 ^ 26 := by norm_num

theorem placeStands {zone : Float} {n : Int} {field : Nat} (counted : Stands zone n)
    (parted : Stands part (field / 2 ^ 17)) (turns : |n| ≤ 2 ^ 33) (narrow : field < 2 ^ 32) :
    Stands (zone + part) (n + field / 2 ^ 17) := by
  refine (addGives counted parted).exact ⟨n * 2 ^ 17 + field, -17, ?_, ?_, by decide, by decide⟩
  · push_cast
    norm_num
    ring
  · rw [abs_le] at turns
    rw [abs_lt]
    constructor <;> omega

theorem placeKnown {field : Nat} (around : Around size reference d r)
    (parted : Stands part (field / 2 ^ 17)) (narrow : field < 2 ^ 32) :
    ∃ c, Stands (floorOf (reference / size) +
        floorOf (whole 1 / whole 2 + remainder reference size / size - part) + part) c ∧
      |d * c - r| ≤ d / 2 + 1 / 2 ^ 26 := by
  have wide := around.wide
  have positive : (0 : ℚ) ≤ field / 2 ^ 17 := by positivity
  have below : (field : ℚ) / 2 ^ 17 ≤ 2 ^ 15 := by
    rw [div_le_iff₀ (by norm_num)]
    norm_num
    exact_mod_cast narrow.le
  obtain ⟨n, zone, turns, close⟩ := zoneKnown around
  obtain ⟨w, left, near⟩ := remainderKnown around zone close
  obtain ⟨b, shift, bounded, error⟩ := shiftKnown around parted positive below left near close
  have next := floorStands shift (bounded.trans_lt (by norm_num))
  have low := Int.floor_le b
  have high := Int.lt_floor_add_one b
  generalize ⌊b⌋ = k at *
  have shifts : |k| ≤ 2 ^ 32 := by
    norm_num [abs_le] at bounded
    have : |(k : ℚ)| ≤ 2 ^ 32 := by
      rw [abs_le]
      constructor <;> norm_num <;> linarith
    exact_mod_cast this
  have sum : |n + k| ≤ 2 ^ 33 := (abs_add_le n k).trans (by omega)
  have given := addGives zone next
  rw [← Int.cast_add] at given
  have counted := given.exact (wholeFine (sum.trans_lt (by norm_num)))
  refine ⟨_, placeStands counted parted sum narrow, ?_⟩
  -- to take the floor is to lose less than a zone of what was half a zone too much
  have spread : d * ((n + k : Int) + field / 2 ^ 17) = d * n + d * k + d * (field / 2 ^ 17) := by
    push_cast
    ring
  have lower : d * k ≤ d * b := by gcongr
  have upper : d * b ≤ d * k + d := by
    rw [← mul_add_one]
    gcongr
  rw [spread, abs_le]
  rw [abs_le] at error
  constructor <;> linarith

theorem nearestKnown {field : Nat} (around : Around size reference d r)
    (parted : Stands part (field / 2 ^ 17)) (narrow : field < 2 ^ 32) :
    ∃ q, Stands (nearest size reference part) q ∧ |q - r| ≤ d / 2 + 1 / 2 ^ 25 := by
  have most := around.most
  have small := around.small
  obtain ⟨c, place, exact⟩ := placeKnown around parted narrow
  rw [abs_le] at exact small
  norm_num at exact
  have few : |d * c| ≤ 2 ^ 9 := by
    rw [abs_le]
    constructor <;> norm_num <;> linarith
  obtain ⟨q, stands, rounded⟩ := (mulGives around.sized place).near (by decide) few
  refine ⟨q, stands, ?_⟩
  norm_num [abs_le] at rounded ⊢
  constructor <;> linarith

end Nearest

section Zones

theorem sizeKnown {z : Int} (some : 1 ≤ z) (most : z ≤ 2 ^ 31) :
    ∃ d, Stands (whole 360 / whole z : Float) d ∧ 1 / 2 ^ 23 ≤ d ∧ d ≤ 360 + 1 / 2 ^ 43 := by
  have positive : (1 : ℚ) ≤ z := by exact_mod_cast some
  have few : (z : ℚ) ≤ 2 ^ 31 := by exact_mod_cast most
  have least : 360 / 2 ^ 31 ≤ (360 : Int) / (z : ℚ) := by
    push_cast
    gcongr
  have greatest : (360 : Int) / (z : ℚ) ≤ 360 := by
    push_cast
    exact div_le_self (by norm_num) positive
  have small : |(360 : Int) / (z : ℚ)| ≤ 2 ^ 9 := by
    rw [abs_le]
    norm_num at least greatest ⊢
    constructor <;> linarith
  have given := ratioGives (j := 360) (k := z) (by decide) (by rw [abs_lt]; omega) (by omega)
  obtain ⟨d, stands, near⟩ := given.near (by decide) small
  norm_num [abs_le] at near least greatest
  refine ⟨d, stands, ?_, ?_⟩ <;> norm_num <;> linarith

theorem zonesFew (latitude : Float) : zoneCount latitude ≤ 2 ^ 31 := by
  unfold zoneCount
  dsimp only
  split
  · decide
  · split
    · decide
    · split
      · decide
      · exact (Int32.toInt_lt _).le

theorem longitudeSizeKnown (r : Report) (latitude : Float) :
    ∃ d, Stands (r.longitudeSize (zoneCount latitude)) d ∧ 1 / 2 ^ 23 ≤ d ∧ d ≤ 360 + 1 / 2 ^ 43 := by
  have few := zonesFew latitude
  have step : 0 ≤ r.step := by
    unfold Report.step
    split <;> decide
  exact sizeKnown (le_max_right _ _) (by omega)

theorem fractionStands {field : Nat} (narrow : field < 2 ^ 32) :
    Stands (fraction field) (field / 2 ^ 17) := by
  have short : |(field : Int)| < 2 ^ 53 := by
    rw [Nat.abs_cast]
    omega
  have given := ratioGives (k := 131072) short (by decide) (by decide)
  norm_num at given ⊢
  exact given.exact ⟨field, -17, by norm_num; ring, short, by decide, by decide⟩

end Zones

section Wrapping

def Report.north (r : Report) (latitude : Float) : Float :=
  nearest r.latitudeSize latitude (fraction r.latitude)

def Report.east (r : Report) (latitude longitude : Float) : Float :=
  nearest (r.longitudeSize (zoneCount (r.north latitude))) longitude (fraction r.longitude)

def Report.wrapped (r : Report) (latitude longitude : Float) : Float :=
  if whole 180 < r.east latitude longitude then r.east latitude longitude - whole 360
  else r.east latitude longitude

theorem locateRead (r : Report) (latitude longitude : Float) : r.locate latitude longitude =
    if within Axis.latitude.limit (r.north latitude) &&
        within Axis.longitude.limit (r.wrapped latitude longitude) then
      some (r.north latitude, r.wrapped latitude longitude) else none := rfl

theorem turnedStands {x : Float} {q : ℚ} (stands : Stands x q) (low : 180 < q) (high : q ≤ 540) :
    Stands (x - whole 360) (q - 360) := by
  have turn : Stands (whole 360) (360 : Int) := wholeStands (by decide)
  have great : (2 : ℚ) ^ (7 : Int) < |q| := by
    rw [abs_of_pos (by linarith)]
    norm_num
    linarith
  obtain ⟨k, rfl⟩ := standsGrid stands great
  norm_num at low high
  have least : (180 * 2 ^ 45 : Int) < k := by
    have : (180 * 2 ^ 45 : ℚ) < k := by linarith
    exact_mod_cast this
  have most : k ≤ (540 * 2 ^ 45 : Int) := by
    have : k ≤ (540 * 2 ^ 45 : ℚ) := by linarith
    exact_mod_cast this
  refine (subGives stands turn).exact ⟨k - 360 * 2 ^ 45, -45, ?_, ?_, by decide, by decide⟩
  · push_cast
    norm_num
    ring
  · rw [abs_lt]
    constructor <;> omega

theorem eastKnown {r : Report} (latitude : Float) {longitude : Float}
    (narrow : r.longitude < 2 ^ 32) (reference : Axis.longitude.Holds longitude) :
    ∃ east seen, Stands (r.east latitude longitude) east ∧ Stands longitude seen ∧
      |seen| ≤ 180 ∧ |east - seen| ≤ 180 + 1 / 2 ^ 24 := by
  obtain ⟨seen, stands, small⟩ := holdsDegrees.mp reference
  obtain ⟨d, sized, least, most⟩ := longitudeSizeKnown r (r.north latitude)
  have around : Around _ longitude d seen :=
    ⟨sized, stands, least, most.trans (by norm_num), small⟩
  obtain ⟨east, known, near⟩ := nearestKnown around (fractionStands narrow) narrow
  refine ⟨east, seen, known, stands, small, near.trans ?_⟩
  norm_num at most ⊢
  linarith

theorem wrappedStands {r : Report} {latitude longitude : Float} {east : ℚ}
    (known : Stands (r.east latitude longitude) east) (small : east ≤ 540) :
    Stands (r.wrapped latitude longitude) (if 180 < east then east - 360 else east) := by
  have half : Stands (whole 180) (180 : Int) := wholeStands (by decide)
  have beyond : whole 180 < r.east latitude longitude ↔ 180 < east := standsLt half known
  rw [Report.wrapped]
  simp only [beyond]
  split
  · rename_i above
    exact turnedStands known above small
  · exact known

/-- The longitude of a report is found within half a turn of the reference. To the east it is then
carried across the meridian, without an error, and to the west it is refused. -/
theorem meridianCrossed {r : Report} {latitude longitude : Float} (narrow : r.longitude < 2 ^ 32)
    (reference : Axis.longitude.Holds longitude) (inside : Axis.latitude.Holds (r.north latitude)) :
    ∃ east seen, Stands (r.east latitude longitude) east ∧ Stands longitude seen ∧
      |east - seen| ≤ 180 + 1 / 2 ^ 24 ∧
      if east < -180 then r.locate latitude longitude = none
      else ∃ lon, r.locate latitude longitude = some (r.north latitude, lon) ∧
        Axis.longitude.Holds lon ∧ Stands lon (if 180 < east then east - 360 else east) := by
  obtain ⟨east, seen, known, referred, small, near⟩ := eastKnown latitude narrow reference
  refine ⟨east, seen, known, referred, near, ?_⟩
  norm_num [abs_le] at near small
  have stands := wrappedStands known (by linarith)
  obtain ⟨lat, north, few⟩ := holdsDegrees.mp inside
  have first := (withinDegrees .latitude north).mpr few
  have second := withinDegrees .longitude stands
  rw [Axis.degrees] at second
  rw [locateRead, first, Bool.true_and]
  split
  · rename_i west
    rw [if_neg (by linarith), abs_of_neg (by linarith)] at second
    exact if_neg (by rw [second]; linarith)
  · rename_i passed
    have kept : |if 180 < east then east - 360 else east| ≤ 180 := by
      split <;> rw [abs_le] <;> constructor <;> linarith
    exact ⟨_, if_pos (second.mpr kept), holdsDegrees.mpr ⟨_, stands, kept⟩, stands⟩

def eastward : Report := ⟨98304, 65537, false⟩

theorem eastwardCarried : eastward.longitude < 2 ^ 32 ∧ Axis.longitude.Holds 179.9 ∧
    Axis.latitude.Holds (eastward.north 88) ∧ Axis.longitude.limit < eastward.east 88 179.9 ∧
    ∃ lon, eastward.locate 88 179.9 = some (eastward.north 88, lon) ∧ Axis.longitude.Holds lon := by
  have narrow : eastward.longitude < 2 ^ 32 := by decide
  have reference : Axis.longitude.Holds 179.9 :=
    ⟨by decide +kernel, by decide +kernel, by decide +kernel⟩
  have inside : Axis.latitude.Holds (eastward.north 88) :=
    ⟨by decide +kernel, by decide +kernel, by decide +kernel⟩
  have beyond : Axis.longitude.limit < eastward.east 88 179.9 := by decide +kernel
  refine ⟨narrow, reference, inside, beyond, ?_⟩
  obtain ⟨east, _, known, _, _, given⟩ := meridianCrossed narrow reference inside
  have above : 180 < east := (standsLt (limitStands .longitude) known).mp beyond
  rw [if_neg (by linarith)] at given
  obtain ⟨lon, located, holds, -⟩ := given
  exact ⟨lon, located, holds⟩

def westward : Report := ⟨98304, 65535, false⟩

theorem westwardRefused : Axis.latitude.Holds 88 ∧ Axis.longitude.Holds (-179.9) ∧
    Axis.latitude.Holds (westward.north 88) ∧ westward.locate 88 (-179.9) = none := by
  refine ⟨⟨?_, ?_, ?_⟩, ⟨?_, ?_, ?_⟩, ⟨?_, ?_, ?_⟩, Option.isNone_iff_eq_none.mp ?_⟩ <;>
    decide +kernel

end Wrapping

end AirPicture.Feed
