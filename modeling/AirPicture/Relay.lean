import AirPicture.Feed.Delivery
import AirPicture.Wire.Messages
import AirPicture.Cache.Intake

/-! The cache as the consumer of a link. Observations and acknowledgements cross the wire
between them; whatever is not acknowledged as accepted has been refused. -/
namespace AirPicture
open Text (Octets)

structure Relay where
  world : Cache.World
  answers : List (Option Wire.Ack)
  deriving DecidableEq

namespace Relay

def empty : Relay := ⟨.empty, []⟩

def acknowledge (r : Cache.Receipt) : Wire.Ack := ⟨r.accepted, Int64.ofInt r.observations⟩

def serve (life now : Nat) (w : Cache.World) (request : Octets) : Option Octets × Cache.World :=
  match Wire.decodeObservation request with
  | none => (none, w)
  | some o =>
    match Cache.receive (Cache.Program.run now) life (o.map Float.ofBits) w with
    | (.ok receipt, w) => (some (Wire.encodeAck (acknowledge receipt)), w)
    | (.error _, w) => (none, w)

def isAccepted : Option Wire.Ack → Bool
  | some ack => ack.accepted
  | none => false

def consumer (life now : Nat) : Feed.Consumer Relay := fun r o =>
  let (reply, world) := serve life now r.world (Wire.encodeObservation (o.map Float.toBits))
  let ack := reply.bind Wire.decodeAck
  (if isAccepted ack then .accepted else .refused, ⟨world, r.answers ++ [ack]⟩)

end Relay

end AirPicture
