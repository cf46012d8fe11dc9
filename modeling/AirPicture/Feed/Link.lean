import AirPicture.Feed.Lifecycle
import AirPicture.Feed.Lines
import AirPicture.Feed.Receiver
import AirPicture.Feed.Settings

/-! One link from its establishment to its end. The feed's arrivals, the turns of the
reading loop, the consumer's answers and the cancellation are events, taken in any order.
A turn handles one segment; a sighting is delivered at once and the loop then waits for
its answer. Time stamps and station ids come from outside. -/
namespace AirPicture.Feed
open Text (Octets)

inductive ConnectFault where
  | refused
  | unreachable
  deriving DecidableEq, Repr

def ConnectFault.message : ConnectFault → String
  | .refused => "Connection refused (os error 111)"
  | .unreachable => "Network is unreachable (os error 101)"

inductive LinkFault where
  | setting (fault : SettingFault)
  | connect (address : String) (fault : ConnectFault)
  deriving DecidableEq, Repr

def LinkFault.message : LinkFault → String
  | .setting fault => "invalid link configuration: " ++ fault.message
  | .connect address fault => "failed to connect to feed " ++ address ++ ": " ++ fault.message

def Entry.validate (e : Entry) : Except LinkFault Settings := e.settle.mapError .setting

/- `memory` is the decoder's, `awaiting` says that the last delivery has no answer yet. -/
structure Link (σ : Type) where
  station : Station
  phase : Phase
  counts : Counts
  memory : σ
  source : Source
  awaiting : Bool
  delivered : List Observation

abbrev Decoder (σ : Type) := σ → Station → Octets → Except FrameFault Sighting × σ

inductive Event where
  | arrive (arrival : Arrival)
  | hangUp
  | turn (timestamp : UInt64)
  | answer (accepted : Bool)
  | cancel
  | release
  deriving DecidableEq, Repr

def Settings.station (s : Settings) (id : String) : Station :=
  ⟨id, s.stationName, s.latitude, s.longitude⟩

namespace Link
variable {σ : Type}

def start (station : Station) (memory : σ) (capacity : Nat) : Link σ :=
  ⟨station, .streaming, .zero, memory, ⟨capacity, [], [], true⟩, false, []⟩

def establish (entry : Entry) (connect : Settings → Option ConnectFault) (id : String)
    (memory : σ) : Except LinkFault (Link σ) :=
  match entry.validate with
  | .error fault => .error fault
  | .ok settings =>
    match connect settings with
    | some fault => .error (.connect settings.address fault)
    | none => .ok (start (settings.station id) memory Source.usual)

def record (l : Link σ) (incident : Incident) : Link σ :=
  { l with counts := l.counts.record incident }

def deliver (l : Link σ) (sighting : Sighting) (timestamp : UInt64) : Link σ :=
  { l with awaiting := true, delivered := l.delivered ++ [sighting.observe timestamp] }

def handleLine (decoder : Decoder σ) (l : Link σ) (line : String) (timestamp : UInt64) : Link σ :=
  let l := l.record .line
  match readPayload line with
  | .error _ => l.record .undecoded
  | .ok none => l
  | .ok (some frame) =>
    let (result, memory) := decoder l.memory l.station frame
    let l := { l with memory }
    match result with
    | .ok sighting => l.deliver sighting timestamp
    | .error _ => l.record .undecoded

def takeTurn (decoder : Decoder σ) (l : Link σ) (timestamp : UInt64) : Link σ :=
  let (reading, source) := readSegment l.source
  let l := { l with source }
  match reading with
  | .segment (.line line) => l.handleLine decoder line timestamp
  | .segment (.oversized _) => l.record .oversized
  | .ended | .failed => { l with phase := .failed }
  | .waiting => l

def arrive (l : Link σ) (arrival : Arrival) : Link σ :=
  { l with source := { l.source with arrivals := l.source.arrivals ++ [arrival] } }

def hangUp (l : Link σ) : Link σ := { l with source := { l.source with standing := false } }

def step (decoder : Decoder σ) (l : Link σ) : Event → Link σ
  | .arrive arrival => l.arrive arrival
  | .hangUp => l.hangUp
  | .turn timestamp =>
    if l.phase = .streaming ∧ l.awaiting = false then l.takeTurn decoder timestamp else l
  | .answer accepted =>
    if l.phase = .streaming ∧ l.awaiting = true then
      { l.record (if accepted then .forwarded else .refused) with awaiting := false }
    else l
  | .cancel => if l.phase = .streaming then { l with phase := .closing, awaiting := false } else l
  | .release => if l.phase = .closing then { l with phase := .closed } else l

def run (decoder : Decoder σ) (l : Link σ) (events : List Event) : Link σ :=
  events.foldl (step decoder) l

def teardown (decoder : Decoder σ) (l : Link σ) : Phase := (l.run decoder [.cancel, .release]).phase

end Link

end AirPicture.Feed
