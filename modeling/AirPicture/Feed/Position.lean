/-! Compact position reports, resolved against a nearby reference. A report carries the
fraction of a latitude zone and of a longitude zone in seventeen bits; the zone is the
one that brings the position nearest to the reference. The rule is stated over any kind
of number with a floor, and run on binary64. -/
namespace AirPicture.Feed

class Reckoning (α : Type) extends Add α, Sub α, Mul α, Div α, LE α, LT α where
  whole : Int → α
  floor : α → α
  decideLE : DecidableLE α
  decideLT : DecidableLT α

def floorOf (x : Float) : Float :=
  if x.abs < 4503599627370496 then
    let part := Float.ofNat x.abs.toUInt64.toNat
    let part := if x < 0 then -part else part
    if x == part then x else if x < part then part - 1 else part
  else x

namespace Reckoning

instance {α : Type} [Reckoning α] : DecidableLE α := decideLE
instance {α : Type} [Reckoning α] : DecidableLT α := decideLT

instance : Reckoning Float where
  whole := Float.ofInt
  floor := floorOf
  decideLE := inferInstance
  decideLT := inferInstance

end Reckoning

open Reckoning (whole floor)

/- One report: the two fractions in units of 2^-17 and the format bit. -/
structure Report where
  latitude : Nat
  longitude : Nat
  odd : Bool
  deriving DecidableEq, Repr

section
variable {α : Type} [Reckoning α]

def fraction (field : Nat) : α := whole field / whole 131072

def remainder (x y : α) : α := x - y * floor (x / y)

def nearest (size reference part : α) : α :=
  let zone := floor (reference / size) +
    floor (whole 1 / whole 2 + remainder reference size / size - part)
  size * (zone + part)

def Report.step (r : Report) : Int := if r.odd then 1 else 0

def Report.latitudeSize (r : Report) : α := whole 360 / (whole 60 - whole r.step)

def Report.longitudeSize (r : Report) (zones : Int) : α := whole 360 / whole (max (zones - r.step) 1)

def within (limit x : α) : Bool := decide (whole (-1) * limit ≤ x) && decide (x ≤ limit)

def Report.resolve (zones : α → Int) (r : Report) (latitude longitude : α) : Option (α × α) :=
  let lat := nearest r.latitudeSize latitude (fraction r.latitude)
  let east := nearest (r.longitudeSize (zones lat)) longitude (fraction r.longitude)
  let lon := if whole 180 < east then east - whole 360 else east
  if within (whole 90) lat && within (whole 180) lon then some (lat, lon) else none

end

def pi : Float := 3.141592653589793

def zoneCount (latitude : Float) : Int :=
  let lat := latitude.abs
  if lat == 0 then 59
  else if lat == 87 then 2
  else if lat > 87 then 1
  else
    let a := 1 - (pi / 30).cos
    let c := (pi / 180 * lat).cos
    (floorOf (2 * pi / (1 - a / (c * c)).acos)).toInt32.toInt

def Report.locate (r : Report) (latitude longitude : Float) : Option (Float × Float) :=
  r.resolve zoneCount latitude longitude

end AirPicture.Feed
