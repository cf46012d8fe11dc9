import AirPicture.Station
import AirPicture.Feed.Payload
import AirPicture.Feed.Squitter
import AirPicture.Feed.Identities

/-! From frames to sightings. Airborne position squitters become sightings by a station;
identification squitters only leave their callsign for later ones. All else is refused
with a reason. -/
namespace AirPicture.Feed
open Text (Octets)

inductive FrameFault where
  | hex (fault : HexFault)
  | length (octets : Nat)
  | format (number : Nat)
  | parity
  | noPosition (code : Nat)
  | altitude
  | position
  deriving DecidableEq, Repr

def FrameFault.message : FrameFault → String
  | .hex fault => "invalid hex payload: " ++ fault.message
  | .length octets => "frame is " ++ toString octets ++ " bytes, expected 14"
  | .format number => "unsupported downlink format " ++ toString number
  | .parity => "CRC check failed"
  | .noPosition code => "type code " ++ toString code ++ " carries no position"
  | .altitude => "altitude not available"
  | .position => "local CPR decode out of range"

def sight (identities : Identities) (station : Station) (frame : Octets) (address : Nat) :
    Except FrameFault Sighting :=
  let message := message frame
  match altitude (altitudeCode message) with
  | none => .error .altitude
  | some feet =>
    match (report message).locate station.latitude station.longitude with
    | none => .error .position
    | some (latitude, longitude) => .ok
      { icao := addressText address
        altitude := Int32.ofInt feet
        latitude
        longitude
        callsign := identities.find address
        squawk := none
        station }

def receive (identities : Identities) (station : Station) (frame : Octets) :
    Except FrameFault Sighting × Identities :=
  match downlinkFormat frame, address frame with
  | some format, some address =>
    if frame.length ≠ 14 then (.error (.length frame.length), identities)
    else if format ≠ 17 ∧ format ≠ 18 then (.error (.format format), identities)
    else if !parityClean frame then (.error .parity, identities)
    else
      let code := typeCode (message frame)
      if isPosition code then (sight identities station frame address, identities)
      else if isIdentification code ∧ callsign (message frame) ≠ "" then
        (.error (.noPosition code), identities.remember address (callsign (message frame)))
      else (.error (.noPosition code), identities)
  | _, _ => (.error (.length frame.length), identities)

end AirPicture.Feed
