import AirPicture.Proofs.Cache.Intake
import AirPicture.Proofs.Cache.Interruption
import AirPicture.Proofs.Cache.Writes

/-! Attempts to keep observations. An attempt makes its writes in order and stops at the first that
fails; nothing is undone. The next attempt that succeeds with the same two keys writes over whatever
the earlier ones have left: the cache is as if they had not been made. -/
namespace AirPicture.Cache

namespace Holdings

def through (clock : Nat → Nat) : Nat → List Call → Holdings → Holdings
  | _, [], h => h
  | n, c :: rest, h => through clock (n + 1) rest (h.perform (clock n) c).2

def Call.failure (now : Nat) : Call → Option Failure
  | .put _ _ life =>
    match expiry now life with
    | .ok _ => none
    | .error e => some e
  | _ => none

theorem performSound {now : Nat} {c : Call} (sound : c.failure now = none) (h : Holdings) :
    ∃ answer, (h.perform now c).1 = .ok answer := by
  cases c with
  | put key value life =>
    simp only [Call.failure] at sound
    simp only [perform]
    cases limit : expiry now life with
    | ok instant => exact ⟨(), rfl⟩
    | error e =>
      rw [limit] at sound
      contradiction
  | _ => exact ⟨_, rfl⟩

theorem performUnsound {now : Nat} {c : Call} {e : Failure} (fails : c.failure now = some e)
    (h : Holdings) : h.perform now c = (.error e, h) := by
  cases c with
  | put key value life =>
    simp only [Call.failure] at fails
    simp only [perform]
    cases limit : expiry now life with
    | ok instant =>
      rw [limit] at fails
      contradiction
    | error f =>
      rw [limit] at fails
      cases fails
      rfl
  | _ => contradiction

end Holdings

namespace Program
open Watched

def inOrder : List Holdings.Call → Program Unit
  | [] => pure ()
  | c :: rest => do
    let _ ← ofHoldings c
    inOrder rest

section InOrder
variable {clock : Nat → Nat} {fault : Nat → Option Failure}

def meets (clock : Nat → Nat) (fault : Nat → Option Failure) (n : Nat) (c : Holdings.Call) :
    Option Failure :=
  (fault n).or (c.failure (clock n))

theorem callMet {c : Holdings.Call} {rest : List Holdings.Call} {s : Watched} {e : Failure}
    (met : meets clock fault s.log.length c = some e) :
    (inOrder (c :: rest)).interpret (faulty clock fault) s = (.error e, s) := by
  simp only [inOrder, interpretBind, ofHoldings, interpret, faulty]
  cases struck : fault s.log.length with
  | some f =>
    rw [meets, struck, Option.some_or] at met
    cases met
    rfl
  | none =>
    rw [meets, struck, Option.none_or] at met
    rw [Holdings.performUnsound met]

theorem callMade {c : Holdings.Call} {rest : List Holdings.Call} {s : Watched}
    (clear : meets clock fault s.log.length c = none) :
    (inOrder (c :: rest)).interpret (faulty clock fault) s =
      (inOrder rest).interpret (faulty clock fault)
        ⟨⟨(s.world.holdings.perform (clock s.log.length) c).2, s.world.tallies⟩, s.log ++ [c]⟩ := by
  obtain ⟨calm, sound⟩ := Option.or_eq_none_iff.mp clear
  obtain ⟨answer, made⟩ := Holdings.performSound sound s.world.holdings
  simp only [inOrder, interpretBind, ofHoldings, interpret, faulty, calm]
  rcases met : s.world.holdings.perform (clock s.log.length) c with ⟨f | a, h⟩
  · rw [met] at made
    contradiction
  · rfl

theorem inOrderReaches (calls : List Holdings.Call) (s : Watched) {n : Nat}
    (clear : ∀ m c, m < n → calls[m]? = some c → meets clock fault (s.log.length + m) c = none) :
    (inOrder calls).interpret (faulty clock fault) s =
      (inOrder (calls.drop n)).interpret (faulty clock fault)
        ⟨⟨s.world.holdings.through clock s.log.length (calls.take n), s.world.tallies⟩,
          s.log ++ calls.take n⟩ := by
  induction calls generalizing s n with
  | nil => simp [Holdings.through]
  | cons c rest ih =>
    cases n with
    | zero => simp [Holdings.through]
    | succ n =>
      rw [callMade (clear 0 c (Nat.succ_pos n) rfl), ih _ (n := n)]
      · simp [Holdings.through]
      · intro m d before same
        rw [List.length_append, List.length_singleton, Nat.add_assoc, Nat.add_comm 1 m]
        exact clear (m + 1) d (Nat.succ_lt_succ before) same

theorem inOrderDone {calls : List Holdings.Call} {s : Watched}
    (clear : ∀ m c, calls[m]? = some c → meets clock fault (s.log.length + m) c = none) :
    (inOrder calls).interpret (faulty clock fault) s =
      (.ok (), ⟨⟨s.world.holdings.through clock s.log.length calls, s.world.tallies⟩,
        s.log ++ calls⟩) := by
  rw [inOrderReaches calls s (n := calls.length) fun m c _ same => clear m c same]
  simp only [List.drop_length, List.take_length]
  rfl

theorem inOrderStops {calls : List Holdings.Call} {s : Watched} {n : Nat} {c : Holdings.Call}
    {e : Failure} (place : calls[n]? = some c)
    (met : meets clock fault (s.log.length + n) c = some e)
    (clear : ∀ m c, m < n → calls[m]? = some c → meets clock fault (s.log.length + m) c = none) :
    (inOrder calls).interpret (faulty clock fault) s =
      (.error e, ⟨⟨s.world.holdings.through clock s.log.length (calls.take n), s.world.tallies⟩,
        s.log ++ calls.take n⟩) := by
  obtain ⟨short, rfl⟩ := List.getElem?_eq_some_iff.mp place
  rw [inOrderReaches calls s clear, List.drop_eq_getElem_cons short]
  refine callMet ?_
  rw [List.length_append, List.length_take_of_le (Nat.le_of_lt short)]
  exact met

theorem inOrderWorld (clock : Nat → Nat) (fault : Nat → Option Failure) (calls : List Holdings.Call)
    (s : Watched) :
    ∃ n, ((inOrder calls).interpret (faulty clock fault) s).2 =
      ⟨⟨s.world.holdings.through clock s.log.length (calls.take n), s.world.tallies⟩,
        s.log ++ calls.take n⟩ := by
  induction calls generalizing s with
  | nil => exact ⟨0, by simp [inOrder, Holdings.through, interpret, pure]⟩
  | cons c rest ih =>
    cases met : meets clock fault s.log.length c with
    | some e => exact ⟨0, by simp [callMet met, Holdings.through]⟩
    | none =>
      obtain ⟨n, left⟩ := ih ⟨⟨(s.world.holdings.perform (clock s.log.length) c).2,
        s.world.tallies⟩, s.log ++ [c]⟩
      refine ⟨n + 1, ?_⟩
      rw [callMade met, left]
      simp [Holdings.through]

end InOrder

end Program

structure Writing where
  observation : Observation
  station : Station
  clock : Nat → Nat
  fault : Nat → Option Failure

namespace Writing

def key (a : Writing) : Category → String
  | .contacts => a.observation.icao
  | .stations => a.station.id

def calls (life : Nat) (a : Writing) : List Holdings.Call :=
  [.put a.observation.icao (contactFeature a.observation) (some life),
    .put a.station.id (stationFeature a.station) (some life),
    .add Category.contacts.index a.observation.icao,
    .add Category.stations.index a.station.id]

def run (life : Nat) (a : Writing) (w : World) : Except Failure Unit × Watched :=
  (keep life a.observation a.station).interpret (Watched.faulty a.clock a.fault) ⟨w, []⟩

def failure (life : Nat) (a : Writing) (n : Nat) : Option Failure :=
  (a.calls life)[n]?.bind (Program.meets a.clock a.fault n)

def written (life : Nat) (a : Writing) (h : Holdings) : Holdings :=
  (((h.put a.observation.icao ⟨contactFeature a.observation, some (a.clock 0 + life)⟩).put
    a.station.id ⟨stationFeature a.station, some (a.clock 1 + life)⟩).add
      Category.contacts.index a.observation.icao).add Category.stations.index a.station.id

end Writing

def World.attempts (life : Nat) (w : World) (writings : List Writing) : World :=
  writings.foldl (fun w a => (a.run life w).2.world) w

section Attempts
variable {life : Nat} {a b : Writing}

theorem writingRun (a : Writing) (w : World) :
    a.run life w = (Program.inOrder (a.calls life)).interpret (Watched.faulty a.clock a.fault)
      ⟨w, []⟩ := rfl

theorem clearMeets (clear : ∀ m < 4, a.failure life m = none) {m : Nat} {c : Holdings.Call}
    (place : (a.calls life)[m]? = some c) : Program.meets a.clock a.fault m c = none := by
  have inside : m < 4 := (List.getElem?_eq_some_iff.mp place).1
  have met := clear m inside
  rwa [Writing.failure, place] at met

theorem putWritten {clock : Nat → Nat} {fault : Nat → Option Failure} {n : Nat}
    {key value : String}
    (clear : Program.meets clock fault n (.put key value (some life)) = none) (h : Holdings) :
    (h.perform (clock n) (.put key value (some life))).2 =
      h.put key ⟨value, some (clock n + life)⟩ := by
  have sound := (Option.or_eq_none_iff.mp clear).2
  simp only [Holdings.Call.failure] at sound
  simp only [Holdings.perform]
  cases limit : Holdings.expiry (clock n) (some life) with
  | error e =>
    rw [limit] at sound
    contradiction
  | ok instant =>
    rw [Holdings.expiryExact limit]
    rfl

theorem throughWritten (clear : ∀ m < 4, a.failure life m = none) (h : Holdings) :
    h.through a.clock 0 (a.calls life) = a.written life h := by
  have first := clearMeets clear (m := 0) rfl
  have second := clearMeets clear (m := 1) rfl
  simp only [Writing.calls, Holdings.through, putWritten first, putWritten second]
  rfl

def Holdings.Call.Enters (contact station : String) : Holdings.Call → Prop
  | .put key _ _ => key = contact ∨ key = station
  | .add set member => set = Category.contacts.index ∧ member = contact ∨
    set = Category.stations.index ∧ member = station
  | _ => False

theorem callsEnter {c : Holdings.Call} (inside : c ∈ b.calls life) :
    c.Enters b.observation.icao b.station.id := by
  simp only [Writing.calls, List.mem_cons, List.not_mem_nil, or_false] at inside
  rcases inside with rfl | rfl | rfl | rfl
  · exact .inl rfl
  · exact .inr rfl
  · exact .inl ⟨rfl, rfl⟩
  · exact .inr ⟨rfl, rfl⟩

theorem putAbsorbed {key : String} (own : key = a.observation.icao ∨ key = a.station.id)
    (e : Entry) (h : Holdings) : a.written life (h.put key e) = a.written life h := by
  unfold Writing.written
  rcases own with rfl | rfl
  · rw [Holdings.putTwice]
  · by_cases one : a.station.id = a.observation.icao
    · simp only [one, Holdings.putTwice]
    · rw [Holdings.putExchange _ one, Holdings.putTwice]

theorem addAbsorbed {set member : String}
    (own : set = Category.contacts.index ∧ member = a.observation.icao ∨
      set = Category.stations.index ∧ member = a.station.id) (h : Holdings) :
    a.written life (h.add set member) = a.written life h := by
  unfold Writing.written
  rw [Holdings.addPut, Holdings.addPut]
  rcases own with ⟨rfl, rfl⟩ | ⟨rfl, rfl⟩
  · rw [Holdings.addTwice]
  · rw [Holdings.addExchange, Holdings.addTwice, Holdings.addExchange]

theorem performAbsorbed {c : Holdings.Call}
    (own : c.Enters a.observation.icao a.station.id) (now : Nat) (h : Holdings) :
    a.written life (h.perform now c).2 = a.written life h := by
  cases c with
  | put key value limit =>
    simp only [Holdings.perform]
    cases Holdings.expiry now limit with
    | ok instant => exact putAbsorbed own _ h
    | error e => rfl
  | add set member => exact addAbsorbed own h
  | _ => exact own.elim

theorem throughAbsorbed {calls : List Holdings.Call}
    (own : ∀ c ∈ calls, c.Enters a.observation.icao a.station.id) (clock : Nat → Nat) (n : Nat)
    (h : Holdings) : a.written life (h.through clock n calls) = a.written life h := by
  induction calls generalizing n h with
  | nil => rfl
  | cons c rest ih =>
    rw [Holdings.through, ih fun c inside => own c (List.mem_cons_of_mem _ inside)]
    exact performAbsorbed (own c List.mem_cons_self) _ h

theorem runAbsorbed (life : Nat) (contact : b.observation.icao = a.observation.icao)
    (station : b.station.id = a.station.id) (w : World) :
    a.written life (b.run life w).2.world.holdings = a.written life w.holdings ∧
      (b.run life w).2.world.tallies = w.tallies := by
  obtain ⟨n, left⟩ := Program.inOrderWorld b.clock b.fault (b.calls life) ⟨w, []⟩
  rw [writingRun, left]
  refine ⟨throughAbsorbed (fun c inside => ?_) _ _ _, rfl⟩
  rw [← contact, ← station]
  exact callsEnter (List.mem_of_mem_take inside)

theorem attemptsAbsorbed (life : Nat) {earlier : List Writing}
    (same : ∀ b ∈ earlier, b.observation.icao = a.observation.icao ∧ b.station.id = a.station.id)
    (w : World) :
    a.written life (w.attempts life earlier).holdings = a.written life w.holdings ∧
      (w.attempts life earlier).tallies = w.tallies := by
  induction earlier generalizing w with
  | nil => exact ⟨rfl, rfl⟩
  | cons b rest ih =>
    obtain ⟨own, others⟩ := List.forall_mem_cons.mp same
    obtain ⟨written, tallies⟩ := runAbsorbed life own.1 own.2 w
    obtain ⟨later, kept⟩ := ih others (b.run life w).2.world
    exact ⟨later.trans written, kept.trans tallies⟩

theorem writtenRun (clear : ∀ m < 4, a.failure life m = none) (w : World) :
    a.run life w = (.ok (), ⟨⟨a.written life w.holdings, w.tallies⟩, a.calls life⟩) := by
  rw [writingRun, Program.inOrderDone]
  · simp only [List.length_nil, List.nil_append, throughWritten clear]
  · intro m c place
    rw [List.length_nil, Nat.zero_add]
    exact clearMeets clear place

theorem writtenEntries (h : Holdings) (key : String) : (a.written life h).entries[key]? =
    if a.station.id = key then some ⟨stationFeature a.station, some (a.clock 1 + life)⟩
    else if a.observation.icao = key then
      some ⟨contactFeature a.observation, some (a.clock 0 + life)⟩
    else h.entries[key]? := by
  change ((h.put _ _).put _ _).entries[key]? = _
  rw [Holdings.putEntry, Holdings.putEntry]

theorem writtenMembers (h : Holdings) (c : Category) (key : String) :
    key ∈ (a.written life h).members c.index ↔ key = a.key c ∨ key ∈ h.members c.index := by
  have untouched : ((h.put a.observation.icao ⟨contactFeature a.observation,
      some (a.clock 0 + life)⟩).put a.station.id ⟨stationFeature a.station,
        some (a.clock 1 + life)⟩).members c.index = h.members c.index := rfl
  rw [Writing.written, Holdings.addMembers, Holdings.addMembers, untouched]
  cases c <;> simp [Category.index, Writing.key, eq_comm]

end Attempts

/-- An attempt that fails at one of its four calls has made those before it, in their order, and no
others, and tells this failure. Whatever attempts with its keys there were before, an attempt
that meets no failure leaves what it leaves without them: its two features under its two keys,
each of which is in its index. -/
theorem laterWriteHeals (life : Nat) (a : Writing) :
    (∀ w n e, n < 4 → a.failure life n = some e → (∀ m < n, a.failure life m = none) →
      a.run life w = (.error e, ⟨⟨w.holdings.through a.clock 0 ((a.calls life).take n), w.tallies⟩,
        (a.calls life).take n⟩)) ∧
    ((∀ m < 4, a.failure life m = none) →
      ∀ w earlier, (∀ b ∈ earlier, b.observation.icao = a.observation.icao ∧
        b.station.id = a.station.id) →
      ∃ h, a.run life (w.attempts life earlier) = (.ok (), ⟨⟨h, w.tallies⟩, a.calls life⟩) ∧
        a.run life w = (.ok (), ⟨⟨h, w.tallies⟩, a.calls life⟩) ∧
        h = w.holdings.through a.clock 0 (a.calls life) ∧
        (∀ c key, key ∈ h.members c.index ↔ key = a.key c ∨ key ∈ w.holdings.members c.index) ∧
        ∀ key : String, h.entries[key]? =
          if a.station.id = key then some ⟨stationFeature a.station, some (a.clock 1 + life)⟩
          else if a.observation.icao = key then
            some ⟨contactFeature a.observation, some (a.clock 0 + life)⟩
          else w.holdings.entries[key]?) := by
  refine ⟨fun w n e short met clear => ?_, fun clear w earlier same => ?_⟩
  · obtain ⟨c, place, fails⟩ := Option.bind_eq_some_iff.mp met
    rw [writingRun, Program.inOrderStops place]
    · rfl
    · rwa [List.length_nil, Nat.zero_add]
    · intro m d before found
      rw [List.length_nil, Nat.zero_add]
      have calm := clear m before
      rwa [Writing.failure, found] at calm
  · obtain ⟨absorbed, tallies⟩ := attemptsAbsorbed life same w
    refine ⟨a.written life w.holdings, ?_, writtenRun clear w, (throughWritten clear _).symm,
      writtenMembers w.holdings, writtenEntries w.holdings⟩
    rw [writtenRun clear, absorbed, tallies]

/- An aircraft whose address is the name of its station. The first attempt fails at its third call,
and the second at its last. -/
def brokenOff : List Writing :=
  [⟨overHarbour "S1" 9000, harbour, id, Watched.faultAt 2 .unavailable⟩,
    ⟨overHarbour "S1" 9100, harbour, (500 + ·), Watched.faultAt 3 .unavailable⟩]

def carriedOut : Writing := ⟨overHarbour "S1" 9200, harbour, (800 + ·), Watched.noFault⟩

theorem brokenOffHealed :
    (∀ m < 4, carriedOut.failure 1000 m = none) ∧
    (World.empty.attempts 1000 brokenOff).holdings.entries["S1"]? ≠ none ∧
    "S1" ∉ (World.empty.attempts 1000 brokenOff).holdings.members Category.stations.index ∧
    carriedOut.run 1000 (World.empty.attempts 1000 brokenOff) = carriedOut.run 1000 .empty := by
  have clear : ∀ m < 4, carriedOut.failure 1000 m = none := by decide +kernel
  have same : ∀ b ∈ brokenOff, b.observation.icao = carriedOut.observation.icao ∧
      b.station.id = carriedOut.station.id := by simp [brokenOff, carriedOut, overHarbour]
  obtain ⟨h, healed, alone, _⟩ := (laterWriteHeals 1000 carriedOut).2 clear .empty brokenOff same
  exact ⟨clear, by decide +kernel, by decide +kernel, healed.trans alone.symm⟩

end AirPicture.Cache
