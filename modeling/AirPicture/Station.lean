/-! What links report and the cache keeps: ground stations, sightings of aircraft by one
of them, and observations, the form in which a sighting travels. Coordinates are numbers
where they are computed with, and the words that stand for these where they are written. -/
namespace AirPicture

structure StationOf (α : Type) where
  id : String
  name : String
  latitude : α
  longitude : α
  deriving DecidableEq, Repr

structure ObservationOf (α : Type) where
  icao : String
  altitude : Int32
  latitude : α
  longitude : α
  callsign : Option String
  squawk : Option String
  station : Option (StationOf α)
  timestamp : UInt64
  deriving DecidableEq, Repr

abbrev Station := StationOf Float

abbrev Observation := ObservationOf Float

structure Sighting where
  icao : String
  altitude : Int32
  latitude : Float
  longitude : Float
  callsign : Option String
  squawk : Option String
  station : Station
  deriving DecidableEq, Repr

def StationOf.blank {α : Type} (zero : α) : StationOf α := ⟨"", "", zero, zero⟩

def ObservationOf.blank {α : Type} (zero : α) : ObservationOf α :=
  ⟨"", 0, zero, zero, none, none, none, 0⟩

def StationOf.map {α β : Type} (f : α → β) (s : StationOf α) : StationOf β :=
  ⟨s.id, s.name, f s.latitude, f s.longitude⟩

def ObservationOf.map {α β : Type} (f : α → β) (o : ObservationOf α) : ObservationOf β :=
  ⟨o.icao, o.altitude, f o.latitude, f o.longitude, o.callsign, o.squawk,
    o.station.map (StationOf.map f), o.timestamp⟩

def Sighting.observe (s : Sighting) (timestamp : UInt64) : Observation :=
  ⟨s.icao, s.altitude, s.latitude, s.longitude, s.callsign, s.squawk, some s.station, timestamp⟩

end AirPicture
