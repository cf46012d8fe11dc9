import AirPicture.Proofs.Cache.Holdings
import AirPicture.Proofs.Cache.Tallies

/-! Observations taken in one at a time. Alone, an observation is either kept whole, with a
feature and an index entry under both of its keys, and counted, or it leaves all as it was. -/
namespace AirPicture.Cache

theorem vetExact {o : Observation} {s : Station} :
    vet o = .ok s ↔ o.station = some s ∧ o.icao ≠ "" ∧ s.id ≠ "" := by
  unfold vet
  cases o.station with
  | none => simp
  | some station =>
    by_cases address : o.icao = ""
    · simp [address]
    · by_cases id : station.id = ""
      · simp only [address, id, ↓reduceIte, Option.some.injEq]
        constructor
        · intro refused
          contradiction
        · rintro ⟨rfl, _, named⟩
          exact False.elim (named id)
      · simp only [address, id, ↓reduceIte, Except.ok.injEq, Option.some.injEq]
        constructor
        · rintro rfl
          exact ⟨rfl, address, id⟩
        · exact And.left

theorem receiveRefused {σ : Type} (run : Runner σ) (life : Nat) {o : Observation}
    {refusal : Refusal} (vetted : vet o = .error refusal) (s : σ) :
    receive run life o s = (.error refusal, s) := by
  simp only [receive, vetted]

def harbour : Station := ⟨"S1", "harbour", 40, -75⟩

def overHarbour (icao : String) (altitude : Int32) : Observation :=
  ⟨icao, altitude, 40, -75, none, none, some harbour, 0⟩

structure Accepted where
  instant : Nat
  observation : Observation
  station : Station
  vetted : vet observation = .ok station

namespace Accepted

def key (a : Accepted) : Category → String
  | .contacts => a.observation.icao
  | .stations => a.station.id

def feature (a : Accepted) : Category → String
  | .contacts => contactFeature a.observation
  | .stations => stationFeature a.station

def touches (a : Accepted) (key : String) : Bool :=
  a.observation.icao = key ∨ a.station.id = key

def written (a : Accepted) (key : String) : String :=
  if a.station.id = key then a.feature .stations else a.feature .contacts

theorem touchesKey (a : Accepted) (c : Category) : a.touches (a.key c) = true := by
  cases c <;> simp [touches, key]

theorem touchesExact {a : Accepted} {key} :
    a.touches key = true ↔ ∃ c, a.key c = key := by
  constructor
  · intro touched
    rcases of_decide_eq_true touched with same | same
    · exact ⟨.contacts, same⟩
    · exact ⟨.stations, same⟩
  · rintro ⟨c, rfl⟩
    exact touchesKey a c

end Accepted

def Holdings.kept (h : Holdings) (o : Observation) (s : Station) (instant : Nat) : Holdings :=
  (((h.put o.icao ⟨contactFeature o, some instant⟩).put s.id ⟨stationFeature s, some instant⟩).add
    Category.contacts.index o.icao).add Category.stations.index s.id

theorem keptCurrent (h : Holdings) (a : Accepted) (life now : Nat) (key : String) :
    (h.kept a.observation a.station (a.instant + life)).current now key =
      if a.touches key then (if now < a.instant + life then some (a.written key) else none)
      else h.current now key := by
  unfold Holdings.kept Accepted.touches Accepted.written
  rw [Holdings.addCurrent, Holdings.addCurrent, Holdings.putCurrent, Holdings.putCurrent]
  by_cases station : a.station.id = key
  · simp [station, Entry.live, Accepted.feature]
  · by_cases contact : a.observation.icao = key <;>
      simp [station, contact, Entry.live, Accepted.feature]

theorem keptMembers (h : Holdings) (a : Accepted) (instant : Nat) (c : Category) (key : String) :
    key ∈ (h.kept a.observation a.station instant).members c.index ↔
      a.key c = key ∨ key ∈ h.members c.index := by
  unfold Holdings.kept
  rw [Holdings.addMembers, Holdings.addMembers]
  have untouched : ((h.put a.observation.icao ⟨contactFeature a.observation, some instant⟩).put
      a.station.id ⟨stationFeature a.station, some instant⟩).members c.index =
        h.members c.index := rfl
  rw [untouched]
  cases c <;> simp [Category.index, Accepted.key]

def Room (now life : Nat) : Prop := (now + life) / 1000 < Holdings.lastSecond

theorem putRun (now life : Nat) (key value : String) (w : World) :
    (Room now life ∧ (Program.ofHoldings (.put key value (some life))).run now w =
      (.ok (), ⟨w.holdings.put key ⟨value, some (now + life)⟩, w.tallies⟩)) ∨
    (¬ Room now life ∧
      (Program.ofHoldings (.put key value (some life))).run now w = (.error .expiry, w)) := by
  rw [Program.runHoldings]
  unfold Room
  by_cases late : Holdings.lastSecond ≤ (now + life) / 1000
  · exact Or.inr ⟨by omega, by simp [Holdings.perform, Holdings.expiry, late]⟩
  · exact Or.inl ⟨by omega, by simp [Holdings.perform, Holdings.expiry, late]⟩

theorem addRun (now : Nat) (set member : String) (w : World) :
    ∃ added, (Program.ofHoldings (.add set member)).run now w =
      (.ok added, ⟨w.holdings.add set member, w.tallies⟩) := by
  rw [Program.runHoldings]
  exact ⟨_, rfl⟩

theorem keepRun (now life : Nat) (o : Observation) (s : Station) (w : World) :
    (Room now life ∧ (keep life o s).run now w =
      (.ok (), ⟨w.holdings.kept o s (now + life), w.tallies⟩)) ∨
    (¬ Room now life ∧ (keep life o s).run now w = (.error .expiry, w)) := by
  unfold keep
  obtain ⟨room, first⟩ | ⟨late, first⟩ := putRun now life o.icao (contactFeature o) w
  · refine Or.inl ⟨room, ?_⟩
    rw [Program.runAfter first]
    obtain ⟨_, second⟩ | ⟨late, _⟩ := putRun now life s.id (stationFeature s)
      ⟨w.holdings.put o.icao ⟨contactFeature o, some (now + life)⟩, w.tallies⟩
    · rw [Program.runAfter second]
      obtain ⟨_, third⟩ := addRun now Category.contacts.index o.icao
        ⟨(w.holdings.put o.icao ⟨contactFeature o, some (now + life)⟩).put s.id
          ⟨stationFeature s, some (now + life)⟩, w.tallies⟩
      rw [Program.runAfter third]
      obtain ⟨_, fourth⟩ := addRun now Category.stations.index s.id
        ⟨((w.holdings.put o.icao ⟨contactFeature o, some (now + life)⟩).put s.id
          ⟨stationFeature s, some (now + life)⟩).add Category.contacts.index o.icao, w.tallies⟩
      rw [Program.runAfter fourth]
      rfl
    · exact False.elim (late room)
  · exact Or.inr ⟨late, Program.runFailed first _⟩

theorem receiveRun (now life : Nat) {o : Observation} {s : Station} (vetted : vet o = .ok s)
    {w : World} (numeric : w.tallies.Numeric) :
    (Room now life ∧ ∃ n tallies, receive (Program.run now) life o w =
      (.ok ⟨true, n⟩, ⟨w.holdings.kept o s (now + life), tallies⟩) ∧ tallies.Numeric) ∨
    (¬ Room now life ∧
      receive (Program.run now) life o w = (.error (.failed .expiry), w)) := by
  unfold receive intake
  rw [vetted]
  obtain ⟨room, kept⟩ | ⟨late, failed⟩ := keepRun now life o s w
  · obtain ⟨n, tallies, counted, clean⟩ := countRun now s
      (w := ⟨w.holdings.kept o s (now + life), w.tallies⟩) numeric
    refine Or.inl ⟨room, n, tallies, ?_, clean⟩
    simp only [Program.runAfter kept, counted]
  · refine Or.inr ⟨late, ?_⟩
    simp only [Program.runFailed failed]

theorem receiveCounted {now life : Nat} (room : Room now life) {o : Observation} {s : Station}
    (vetted : vet o = .ok s) {w : World} {n : Int} (stands : w.tallies.standing s.id = .count n) :
    ∃ tallies, receive (Program.run now) life o w =
        (.ok ⟨true, n + 1⟩, ⟨w.holdings.kept o s (now + life), tallies⟩) ∧
      (∀ tenant, tallies.standing tenant =
        if s.id = tenant then .count (n + 1) else w.tallies.standing tenant) ∧
      (w.tallies.Numeric → tallies.Numeric) := by
  obtain ⟨_, kept⟩ | ⟨late, _⟩ := keepRun now life o s w
  · obtain ⟨tallies, counted, after⟩ := countStanding now s
      (w := ⟨w.holdings.kept o s (now + life), w.tallies⟩) stands
    refine ⟨tallies, ?_, after⟩
    simp only [receive, intake, vetted, Program.runAfter kept, counted]
  · exact False.elim (late room)

end AirPicture.Cache
