import AirPicture.Relay
import AirPicture.Proofs.Cache.SingleStation
import AirPicture.Proofs.Feed.Accounting
import AirPicture.Proofs.Feed.Lifecycle
import AirPicture.Proofs.Feed.Sightings
import AirPicture.Proofs.Wire.Messages

/-! A feed's way into a cache. What a link delivers crosses the wire as it is, but for the sign
of zeros, and the cache takes in each observation of the link's station and numbers it; what it
then lists is what the stream says. -/
namespace AirPicture
open Text (Octets)

def settled (x : Float) : Float := Float.ofBits (Wire.unsigned x.toBits)

namespace Relay

def carried (o : Observation) : Option Observation :=
  (Wire.decodeObservation (Wire.encodeObservation (o.map Float.toBits))).map
    (ObservationOf.map Float.ofBits)

def numbered (count : Nat) : List (Option Wire.Ack) :=
  (List.range count).map fun n => some ⟨true, Int64.ofNat (n + 1)⟩

section Listing
variable {life now : Nat} {station : Station} {met : List Observation} {r : Relay}

end Listing

end Relay

end AirPicture
