import AirPicture.Station
import AirPicture.Wire.Items

/-! The messages of the ingest contract: stations, observations and acknowledgements.
Coordinates are words of 64 bits. Fields are written in order and left out at their
defaults; an optional text is written whenever it is there. When reading, a later field
replaces an earlier one, except that a second station is merged into the first. -/
namespace AirPicture.Wire
open Text (Octets)

abbrev StationMessage := StationOf UInt64

abbrev ObservationMessage := ObservationOf UInt64

structure Ack where
  accepted : Bool
  observations : Int64
  deriving DecidableEq, Repr

def Ack.blank : Ack := ⟨false, 0⟩

def integerField (number n : Nat) : Octets := if n = 0 then [] else writeInteger number n

def doubleField (number : Nat) (bits : UInt64) : Octets :=
  if bits <<< 1 = 0 then [] else writeDouble number bits

def textField (number : Nat) (s : String) : Octets :=
  if s = "" then [] else writeRun number (Text.encode s)

def optionalField (number : Nat) : Option String → Octets
  | some s => writeRun number (Text.encode s)
  | none => []

def word (n : Int) : Nat := (n % 18446744073709551616).toNat

def encodeStation (s : StationMessage) : Octets :=
  textField 1 s.id ++ textField 2 s.name ++ doubleField 3 s.latitude ++ doubleField 4 s.longitude

def stationField (number : Nat) : Option StationMessage → Octets
  | some s => writeRun number (encodeStation s)
  | none => []

def encodeObservation (o : ObservationMessage) : Octets :=
  textField 1 o.icao ++ integerField 2 (word o.altitude.toInt) ++ doubleField 3 o.latitude ++
    doubleField 4 o.longitude ++ optionalField 5 o.callsign ++ optionalField 6 o.squawk ++
    stationField 7 o.station ++ integerField 8 o.timestamp.toNat

def encodeAck (a : Ack) : Octets :=
  integerField 1 (if a.accepted then 1 else 0) ++ integerField 2 (word a.observations.toInt)

def textOf : Item → Option String
  | .run octets => Text.decode octets
  | _ => none

def doubleOf : Item → Option UInt64
  | .double bits => some bits
  | _ => none

def integerOf : Item → Option Nat
  | .integer n => some n
  | _ => none

def mergeStation (s : StationMessage) (f : Field) : Option StationMessage :=
  match f.number with
  | 1 => (textOf f.item).map fun id => { s with id }
  | 2 => (textOf f.item).map fun name => { s with name }
  | 3 => (doubleOf f.item).map fun latitude => { s with latitude }
  | 4 => (doubleOf f.item).map fun longitude => { s with longitude }
  | _ => some s

def readMessage {α : Type} (merge : α → Field → Option α) (limit : Nat) (start : α)
    (octets : Octets) : Option α := do
  let fields ← readFields limit octets
  fields.foldlM merge start

def stationOf (before : Option StationMessage) : Item → Option StationMessage
  | .run octets => readMessage mergeStation (deepest - 1) (before.getD (.blank 0)) octets
  | _ => none

def mergeObservation (o : ObservationMessage) (f : Field) : Option ObservationMessage :=
  match f.number with
  | 1 => (textOf f.item).map fun icao => { o with icao }
  | 2 => (integerOf f.item).map fun n => { o with altitude := Int32.ofNat n }
  | 3 => (doubleOf f.item).map fun latitude => { o with latitude }
  | 4 => (doubleOf f.item).map fun longitude => { o with longitude }
  | 5 => (textOf f.item).map fun s => { o with callsign := some s }
  | 6 => (textOf f.item).map fun s => { o with squawk := some s }
  | 7 => (stationOf o.station f.item).map fun s => { o with station := some s }
  | 8 => (integerOf f.item).map fun n => { o with timestamp := UInt64.ofNat n }
  | _ => some o

def mergeAck (a : Ack) (f : Field) : Option Ack :=
  match f.number with
  | 1 => (integerOf f.item).map fun n => { a with accepted := n ≠ 0 }
  | 2 => (integerOf f.item).map fun n => { a with observations := Int64.ofNat n }
  | _ => some a

def decodeStation (octets : Octets) : Option StationMessage :=
  readMessage mergeStation deepest (.blank 0) octets

def decodeObservation (octets : Octets) : Option ObservationMessage :=
  readMessage mergeObservation deepest (.blank 0) octets

def decodeAck (octets : Octets) : Option Ack := readMessage mergeAck deepest .blank octets

end AirPicture.Wire
