import AirPicture.Text.Blank
import AirPicture.Text.Quoted
import AirPicture.Decimal.Notation
import AirPicture.Decimal.Reading

/-! What an operator says about a link, all of it text, and the settings that it stands
for when it is usable. Only the first fault is told: what is missing, then the latitude,
the longitude and the port. -/
namespace AirPicture.Feed

structure Entry where
  consumer : String
  stationName : String
  latitude : String
  longitude : String
  host : String
  port : String
  deriving DecidableEq, Repr

structure Settings where
  stationName : String
  latitude : Float
  longitude : Float
  host : String
  port : Nat
  deriving DecidableEq, Repr

def usualPort : Nat := 30002

def greatestPort : Nat := 65535

inductive Axis where
  | latitude
  | longitude
  deriving DecidableEq, Repr

def Axis.name : Axis → String
  | .latitude => "station_latitude"
  | .longitude => "station_longitude"

def Axis.limit : Axis → Float
  | .latitude => 90
  | .longitude => 180

inductive SettingFault where
  | missing
  | unreadable (axis : Axis) (text : String)
  | outOfRange (axis : Axis) (value : Float)
  | port (text : String) (fault : Decimal.IntegerFault)
  deriving DecidableEq, Repr

def SettingFault.message : SettingFault → String
  | .missing => "station_latitude, station_longitude and feed_host are required"
  | .unreadable axis text =>
    "invalid " ++ axis.name ++ " " ++ Text.quoted text ++ ": invalid float literal"
  | .outOfRange axis value => axis.name ++ " " ++ Decimal.plain.write value ++ " out of range"
  | .port text fault => "invalid feed_port " ++ Text.quoted text ++ ": " ++ fault.message

def Axis.admits (axis : Axis) (value : Float) : Bool :=
  value.isFinite && !(decide (value.abs > axis.limit))

def readAxis (axis : Axis) (text : List Char) : Except SettingFault Float :=
  match Decimal.readFloat text with
  | none => .error (.unreadable axis (String.ofList text))
  | some value => if axis.admits value then .ok value else .error (.outOfRange axis value)

def readPort (text : List Char) : Except SettingFault Nat :=
  if text = [] then .ok usualPort
  else match Decimal.readUnsigned greatestPort text with
    | .ok port => .ok port
    | .error fault => .error (.port (String.ofList text) fault)

def Entry.settle (e : Entry) : Except SettingFault Settings := do
  let latitude := Text.trim e.latitude.toList
  let longitude := Text.trim e.longitude.toList
  let host := Text.trim e.host.toList
  if latitude = [] ∨ longitude = [] ∨ host = [] then .error .missing
  else
    let latitude ← readAxis .latitude latitude
    let longitude ← readAxis .longitude longitude
    let port ← readPort (Text.trim e.port.toList)
    pure ⟨e.stationName, latitude, longitude, String.ofList host, port⟩

def Settings.address (s : Settings) : String := s.host ++ ":" ++ toString s.port

end AirPicture.Feed
