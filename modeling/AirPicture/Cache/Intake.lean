import AirPicture.Cache.Feature
import AirPicture.Cache.Program

/-! Taking in observations. An observation is kept as two features, its aircraft's and its
station's, which are then entered in the index of their category; after that it is counted
for its station. Nothing is undone when a call fails: the next observation writes anew. -/
namespace AirPicture.Cache

inductive Category where
  | contacts
  | stations
  deriving DecidableEq, Repr

def Category.index : Category → String
  | .contacts => "contacts"
  | .stations => "stations"

def usualLife : Nat := 600000

def keep (life : Nat) (o : Observation) (s : Station) : Program Unit := do
  Program.ofHoldings (.put o.icao (contactFeature o) (some life))
  Program.ofHoldings (.put s.id (stationFeature s) (some life))
  let _ ← Program.ofHoldings (.add Category.contacts.index o.icao)
  let _ ← Program.ofHoldings (.add Category.stations.index s.id)

def count (s : Station) : Program Int := do
  if ← Program.ofTallies (.register s.id) then
    Program.ofTallies (.note s.id "name" s.name)
  Program.ofTallies (.increase s.id "observations" 1)

inductive Refusal where
  | noStation
  | noAddress
  | noStationId
  | failed (f : Failure)
  deriving DecidableEq, Repr

def Refusal.message : Refusal → String
  | .noStation => "observation carries no station"
  | .noAddress => "observation carries no icao address"
  | .noStationId => "station carries no id"
  | .failed f => f.message

def vet (o : Observation) : Except Refusal Station :=
  match o.station with
  | none => .error .noStation
  | some s =>
    if o.icao = "" then .error .noAddress
    else if s.id = "" then .error .noStationId
    else .ok s

def intake (life : Nat) (o : Observation) (s : Station) : Program Int := do
  keep life o s
  count s

structure Receipt where
  accepted : Bool
  observations : Int
  deriving DecidableEq, Repr

abbrev Runner (σ : Type) := {α : Type} → Program α → σ → Except Failure α × σ

def receive {σ : Type} (run : Runner σ) (life : Nat) (o : Observation) (s : σ) :
    Except Refusal Receipt × σ :=
  match vet o with
  | .error refusal => (.error refusal, s)
  | .ok station =>
    let (counted, s) := run (intake life o station) s
    match counted with
    | .ok n => (.ok ⟨true, n⟩, s)
    | .error f => (.error (.failed f), s)

end AirPicture.Cache
