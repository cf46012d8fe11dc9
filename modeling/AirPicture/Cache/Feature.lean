import AirPicture.Station
import AirPicture.Json.Value
import AirPicture.Decimal.Notation

/-! The features that are cached: a point for an aircraft or for a station, as compact
JSON text with the keys of every object in order. -/
namespace AirPicture.Cache
open Json (Value)

def coordinateLayout : Decimal.Layout := ⟨.even, some (-5, 15), true, "null", "null", "null"⟩

def coordinate (x : Float) : Value :=
  if x.isFinite then .number (coordinateLayout.finite x) else .null

def point (longitude latitude : Float) : Value :=
  .object [
    ("coordinates", .array [coordinate longitude, coordinate latitude]),
    ("type", .text "Point")]

def feature (geometry : Value) (properties : List (String × Value)) : Value :=
  .object [("geometry", geometry), ("properties", .object properties), ("type", .text "Feature")]

def contact (o : Observation) : Value :=
  feature (point o.longitude o.latitude) [
    ("altitude", Json.integer o.altitude.toInt),
    ("callsign", .text (o.callsign.getD "")),
    ("icao", .text o.icao),
    ("squawk", .text (o.squawk.getD "")),
    ("type", .text "contact")]

def site (s : Station) : Value :=
  feature (point s.longitude s.latitude) [
    ("id", .text s.id),
    ("name", .text s.name),
    ("type", .text "station")]

def contactFeature (o : Observation) : String := String.ofList (contact o).write

def stationFeature (s : Station) : String := String.ofList (site s).write

end AirPicture.Cache
