import AirPicture.Proofs.Feed.Entries
import AirPicture.Proofs.Feed.Lifecycle
import AirPicture.Proofs.Feed.Sightings

/-! What a link delivers, whatever is on its wire and however it ends. All of it was delivered
before any cancellation and is an account of lines that were taken, so that what the receiver
sees in a frame is what the consumer meets: an observation that is well formed. -/
namespace AirPicture.Feed
open Text (Octets)

/- What holds of every observation: steps of 25 feet from 1000 below zero on, coordinates that
compare as floats with their limits, and no squawk. -/
structure WellFormed (station : Station) (o : Observation) : Prop where
  icao : isAddress o.icao = true
  altitude : ∃ n : Nat, n < 2048 ∧ o.altitude.toInt = 25 * n - 1000
  latitude : Axis.latitude.Holds o.latitude
  longitude : Axis.longitude.Holds o.longitude
  callsign : ∀ text, o.callsign = some text → isCallsign text = true
  squawk : o.squawk = none
  station : o.station = some station

theorem seenFormed {station : Station} {s : Sighting}
    (seen : Seen (isCallsign · = true) station s) (timestamp : UInt64) :
    WellFormed station (s.observe timestamp) where
  icao := by
    obtain ⟨address, same⟩ := seen.icao
    change isAddress s.icao = true
    rw [same]
    exact addressFigures address
  altitude := seen.altitude
  latitude := seen.latitude
  longitude := seen.longitude
  callsign := seen.callsign
  squawk := seen.squawk
  station := congrArg some seen.station

namespace Link
variable {σ : Type}

theorem deliveredBefore (decoder : Decoder σ) (l : Link σ) (events : List Event) :
    ∃ before, before <+: events ∧ .cancel ∉ before ∧
      (l.run decoder events).delivered = (l.run decoder before).delivered := by
  by_cases cancelled : .cancel ∈ events
  · obtain ⟨before, after, rfl, kept⟩ := List.eq_append_cons_of_mem cancelled
    refine ⟨before, List.prefix_append _ _, kept, ?_⟩
    have stops : ((l.run decoder before).step decoder .cancel).phase ≠ .streaming ∧
        ((l.run decoder before).step decoder .cancel).delivered =
          (l.run decoder before).delivered := by
      simp only [step]
      split
      · exact ⟨fun same => by contradiction, rfl⟩
      · rename_i left
        exact ⟨left, rfl⟩
    rw [runAppend, ← stops.2]
    exact (runSilent decoder stops.1 after).2.1
  · exact ⟨events, List.prefix_refl _, cancelled, rfl⟩

theorem takenPrefix (decoder : Decoder σ) (l : Link σ) {before events : List Event}
    (begun : before <+: events) : l.taken decoder before ⊆ l.taken decoder events := by
  obtain ⟨later, rfl⟩ := begun
  rw [taken, taken, trailAppend]
  exact List.subset_append_left _ _

end Link

/-- Whatever arrives at a link, and however it is cut, answered and torn down, each observation
that it delivers is well formed and names its aircraft by the address in a frame of one of its
lines; different addresses make different names. The station is the link's own, at the coordinates
of its settings. -/
theorem deliveriesWellFormed (entry : Entry) (connect : Settings → Option ConnectFault)
    (id : String) (capacity : Nat) (first : Link Identities)
    (established : Link.establish entry connect id (.empty capacity) = .ok first)
    (events : List Event) :
    Axis.latitude.Holds first.station.latitude ∧ Axis.longitude.Holds first.station.longitude ∧
    (∀ o ∈ (first.run receive events).delivered, WellFormed first.station o ∧
      ∃ frame n, Carried (first.taken receive events) frame o.timestamp ∧
        address frame = some n ∧ o.icao = addressText n) ∧
    ∀ frame other m n, address frame = some m → address other = some n →
      addressText m = addressText n → m = n := by
  obtain ⟨settings, valid, _, rfl⟩ := establishedLink established
  have settled : entry.settle = .ok settings := by
    unfold Entry.validate at valid
    cases result : entry.settle with
    | error fault => simp [result, Except.mapError] at valid
    | ok settings => rw [result] at valid; cases valid; rfl
  obtain ⟨north, east⟩ := settledHolds settled
  refine ⟨north, east, fun o inside => ?_, fun frame other m n first second =>
    addressUnique (addressSmall first) (addressSmall second)⟩
  obtain ⟨before, begun, kept, same⟩ := Link.deliveredBefore receive _ events
  have account := Link.runAccount receive (settings.station id) (Identities.empty capacity)
    Source.usual kept
  have placed := Link.runStation receive
    (Link.start (settings.station id) (Identities.empty capacity) Source.usual) kept
  rw [same, account.delivered, placed] at inside
  obtain ⟨frame, timestamp, s, carried, ⟨seen, n, known, named⟩, rfl⟩ :=
    observationsTraced (isCallsign · = true) (fun _ => callsignProper) _ capacity _ o inside
  exact ⟨seenFormed seen timestamp, frame, n,
    carriedMore carried (Link.takenPrefix receive _ begun), known, named⟩

def ridgeEntry : Entry := ⟨"", "Ridge", " 88", "10.0 ", "h", "30002"⟩

def ridgeLink : Link Identities :=
  Link.start ⟨"S1", "Ridge", 88, 10⟩ (Identities.empty 1) Source.usual

def ridgeEvents : List Event := [
  .arrive (.octets (Text.encode
    "*8DA000012040F3014B182006556D;\n*8DA00001583302BBBC0E822B390D;\n*8DA00002584182D")),
  .turn 1, .turn 2, .cancel, .arrive (.octets (Text.encode "DDE0D83C74D37;\n")), .turn 3, .release]

theorem ridgeEstablished :
    Link.establish ridgeEntry (fun _ => none) "S1" (.empty 1) = .ok ridgeLink := by
  have valid : ridgeEntry.validate = .ok ⟨"Ridge", 88, 10, "h", 30002⟩ := by decide +kernel
  rw [Link.establish, valid]
  rfl

theorem ridgeDelivers :
    (ridgeLink.run receive ridgeEvents).delivered.map (fun o => (o.icao, o.altitude, o.callsign)) =
      [("A00001", 9000, some "POLAR1")] ∧
    ∀ o ∈ (ridgeLink.run receive ridgeEvents).delivered, WellFormed ridgeLink.station o := by
  obtain ⟨_, _, formed, _⟩ := deliveriesWellFormed ridgeEntry (fun _ => none) "S1" 1 ridgeLink
    ridgeEstablished ridgeEvents
  exact ⟨by decide +kernel, fun o inside => (formed o inside).1⟩

end AirPicture.Feed
