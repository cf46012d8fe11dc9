import AirPicture.Proofs.Feed.Fates
import AirPicture.Proofs.Feed.Coordinates

/-! What a receiver makes of frames. Every sighting names its aircraft by the six figures of an
address, is at an altitude in steps of 25 feet and at coordinates within their limits, and carries
its station, no squawk, and a callsign only if one was heard before; what every sighting of a
decoder is, every observation of a link is. -/
namespace AirPicture.Feed
open Text (Octets)

def isAddress (text : String) : Bool :=
  text.length == 6 && text.toList.all fun c => "0123456789ABCDEF".toList.contains c

theorem upperFigureKnown {n : Nat} (small : n < 16) :
    "0123456789ABCDEF".toList.contains (Text.upperFigure n) = true := by
  have all : ∀ n : Fin 16, "0123456789ABCDEF".toList.contains (Text.upperFigure n) = true := by
    decide
  exact all ⟨n, small⟩

theorem addressFigures (address : Nat) : isAddress (addressText address) = true := by
  have figures : ∀ c ∈ (addressText address).toList,
      "0123456789ABCDEF".toList.contains c = true := by
    intro c inside
    rw [addressText, String.toList_ofList] at inside
    obtain ⟨place, _, rfl⟩ := List.mem_map.mp inside
    exact upperFigureKnown (Nat.mod_lt _ (by decide))
  rw [isAddress, List.all_eq_true.mpr figures]
  simp [addressText]

theorem upperFigureUnique {m n : Nat} (first : m < 16) (second : n < 16)
    (same : Text.upperFigure m = Text.upperFigure n) : m = n := by
  have all : ∀ m n : Fin 16, Text.upperFigure m = Text.upperFigure n → m = n := by decide
  exact congrArg Fin.val (all ⟨m, first⟩ ⟨n, second⟩ same)

theorem addressSmall {frame : Octets} {n : Nat} (known : address frame = some n) :
    n < 2 ^ 24 := by
  unfold address at known
  split at known
  · rename_i a b c _
    have high := a.toNat_lt
    have middle := b.toNat_lt
    have low := c.toNat_lt
    have sum := Option.some.inj known
    omega
  · contradiction

theorem addressUnique {m n : Nat} (first : m < 2 ^ 24) (second : n < 2 ^ 24)
    (same : addressText m = addressText n) : m = n := by
  have figures : ∀ place ∈ [1048576, 65536, 4096, 256, 16, 1], m / place % 16 = n / place % 16 := by
    intro place inside
    have alike := List.map_inj_left.mp (String.ofList_injective same) place inside
    exact upperFigureUnique (Nat.mod_lt _ (by decide)) (Nat.mod_lt _ (by decide)) alike
  simp only [List.forall_mem_cons] at figures
  omega

theorem callsignLength (message : BitVec 56) : (callsign message).length ≤ 8 := by
  simp only [callsign, String.length_ofList, List.length_reverse]
  refine Nat.le_trans (List.dropWhile_sublist _).length_le ?_
  rw [List.length_reverse]
  refine Nat.le_trans (List.length_filter_le _ _) ?_
  simp [characterCodes]

def callsignCharacters : List Char := "ABCDEFGHIJKLMNOPQRSTUVWXYZ0123456789 ".toList

def isCallsign (text : String) : Bool :=
  text != "" && text.length ≤ 8 && text.toList.all callsignCharacters.contains &&
    text.toList.getLast? != some ' '

theorem characterShown {code : BitVec 6} (shown : character code ≠ '#') :
    callsignCharacters.contains (character code) = true := by
  have all : (characterSet.all fun c => c == '#' || callsignCharacters.contains c) = true := by
    decide +kernel
  have listed : character code ∈ characterSet := by
    unfold character at shown ⊢
    rw [List.getD_eq_getElem?_getD] at shown ⊢
    cases found : characterSet[code.toNat]? with
    | none => simp [found] at shown
    | some c => exact List.mem_of_getElem? found
  simpa [shown] using List.all_eq_true.mp all _ listed

theorem callsignProper {message : BitVec 56} (some : callsign message ≠ "") :
    isCallsign (callsign message) = true := by
  have shown : ∀ c ∈ (callsign message).toList, callsignCharacters.contains c = true := by
    intro c inside
    rw [callsign, String.toList_ofList, List.mem_reverse] at inside
    have kept := List.mem_reverse.mp ((List.dropWhile_sublist _).subset inside)
    obtain ⟨listed, visible⟩ := List.mem_filter.mp kept
    obtain ⟨code, _, rfl⟩ := List.mem_map.mp listed
    exact characterShown (by simpa using visible)
  have last : (callsign message).toList.getLast? ≠ Option.some ' ' := by
    rw [callsign, String.toList_ofList, List.getLast?_reverse]
    intro space
    have ends := List.head?_dropWhile_not (· == ' ')
      (((characterCodes message).map character).filter (· != '#')).reverse
    rw [space] at ends
    simp at ends
  simp only [isCallsign, Bool.and_eq_true, bne_iff_ne, decide_eq_true_eq, List.all_eq_true]
  exact ⟨⟨⟨some, callsignLength message⟩, shown⟩, last⟩

theorem altitudeSteps {code : BitVec 12} {feet : Int} (known : altitude code = some feet) :
    ∃ n : Nat, n < 2048 ∧ feet = 25 * n - 1000 := by
  unfold altitude at known
  split at known
  · exact ⟨_, BitVec.isLt _, (Option.some.inj known).symm⟩
  · contradiction

theorem altitudeKept {n : Nat} (small : n < 2048) :
    (Int32.ofInt (25 * n - 1000)).toInt = 25 * n - 1000 :=
  Int32.toInt_ofInt_of_le (by omega) (by omega)

namespace Identities
variable {good : String → Prop}

def All (good : String → Prop) (i : Identities) : Prop :=
  ∀ address callsign, i.find address = some callsign → good callsign

theorem emptyAll (capacity : Nat) : (empty capacity).All good := by
  intro address callsign found
  simp [empty, find] at found

theorem makeRoomAll {i : Identities} (all : i.All good) : i.makeRoom.All good := by
  intro address callsign found
  refine all address callsign ?_
  unfold makeRoom at found
  split at found
  · split at found
    · simp only [find, Std.ExtTreeMap.getElem?_erase] at found
      split at found
      · contradiction
      · exact found
    · exact found
  · exact found

theorem rememberAll {i : Identities} (all : i.All good) (address : Nat) {callsign : String}
    (new : good callsign) : (i.remember address callsign).All good := by
  have entered : (i.enter address).All good := by
    unfold enter
    split
    · exact all
    · exact makeRoomAll all
  intro other found there
  simp only [remember, find, Std.ExtTreeMap.getElem?_insert] at there
  split at there
  · exact Option.some.inj there ▸ new
  · exact entered other found there

end Identities

structure Seen (good : String → Prop) (station : Station) (s : Sighting) : Prop where
  icao : ∃ address, s.icao = addressText address
  altitude : ∃ n : Nat, n < 2048 ∧ s.altitude.toInt = 25 * n - 1000
  latitude : Axis.latitude.Holds s.latitude
  longitude : Axis.longitude.Holds s.longitude
  callsign : ∀ text, s.callsign = some text → good text
  squawk : s.squawk = none
  station : s.station = station

theorem receiveCases (i : Identities) (station : Station) (frame : Octets) :
    (∃ n, address frame = some n ∧ receive i station frame = (sight i station frame n, i)) ∨
    (∃ fault, receive i station frame = (.error fault, i)) ∨
    ∃ fault address, callsign (message frame) ≠ "" ∧
      receive i station frame = (.error fault, i.remember address (callsign (message frame))) := by
  unfold receive
  split
  · rename_i format n _ known
    simp only
    split
    · exact .inr (.inl ⟨_, rfl⟩)
    split
    · exact .inr (.inl ⟨_, rfl⟩)
    split
    · exact .inr (.inl ⟨_, rfl⟩)
    split
    · exact .inl ⟨n, known, rfl⟩
    split
    · rename_i identified
      exact .inr (.inr ⟨_, n, identified.2, rfl⟩)
    · exact .inr (.inl ⟨_, rfl⟩)
  · exact .inr (.inl ⟨_, rfl⟩)

theorem sightSeen {good : String → Prop} {i : Identities} (all : i.All good) {station : Station}
    {frame : Octets} {address : Nat} {s : Sighting}
    (seen : sight i station frame address = .ok s) :
    Seen good station s ∧ s.icao = addressText address := by
  unfold sight at seen
  simp only at seen
  split at seen
  · contradiction
  · rename_i feet measured
    split at seen
    · contradiction
    · rename_i latitude longitude located
      cases seen
      obtain ⟨n, small, rfl⟩ := altitudeSteps measured
      obtain ⟨north, east⟩ := locateHolds located
      exact ⟨⟨⟨address, rfl⟩, ⟨n, small, altitudeKept small⟩, north, east, all address, rfl, rfl⟩,
        rfl⟩

theorem receiveSeen {good : String → Prop}
    (heard : ∀ message, callsign message ≠ "" → good (callsign message))
    {i : Identities} (all : i.All good) (station : Station) (frame : Octets) :
    (receive i station frame).2.All good ∧ ∀ s, (receive i station frame).1 = .ok s →
      Seen good station s ∧ ∃ n, address frame = some n ∧ s.icao = addressText n := by
  obtain ⟨n, known, same⟩ | ⟨fault, same⟩ | ⟨fault, address, some, same⟩ :=
    receiveCases i station frame
  · rw [same]
    refine ⟨all, fun s sighted => ?_⟩
    obtain ⟨seen, named⟩ := sightSeen all sighted
    exact ⟨seen, n, known, named⟩
  · rw [same]
    exact ⟨all, by simp⟩
  · rw [same]
    exact ⟨Identities.rememberAll all address (heard _ some), by simp⟩

def Carried (taken : List (Segment × UInt64)) (frame : Octets) (timestamp : UInt64) : Prop :=
  ∃ line, (.line line, timestamp) ∈ taken ∧ readPayload line = .ok (some frame)

theorem carriedMore {taken more : List (Segment × UInt64)} {frame : Octets} {timestamp : UInt64}
    (carried : Carried taken frame timestamp) (grown : taken ⊆ more) :
    Carried more frame timestamp := by
  obtain ⟨line, inside, parsed⟩ := carried
  exact ⟨line, grown inside, parsed⟩

section Stories
variable {σ : Type} {decoder : Decoder σ} {station : Station}
variable {good : σ → Prop} {fair : Octets → Sighting → Prop}
variable (kept : ∀ memory frame, good memory → good (decoder memory station frame).2 ∧
  ∀ s, (decoder memory station frame).1 = .ok s → fair frame s)
include kept

theorem fateSighted {memory : σ} (start : good memory) (segment : Segment) :
    good (fate decoder station memory segment).2 ∧
      ∀ s, (fate decoder station memory segment).1 = .sighted s →
        ∃ line frame, segment = .line line ∧ readPayload line = .ok (some frame) ∧
          fair frame s := by
  cases segment with
  | oversized octets => exact ⟨start, by simp [fate]⟩
  | line text =>
    simp only [fate]
    split
    · exact ⟨start, by simp⟩
    · exact ⟨start, by simp⟩
    · rename_i frame parsed
      obtain ⟨still, sees⟩ := kept memory frame start
      split <;> rename_i decoded
      · rw [decoded] at still sees
        exact ⟨still, fun s same => ⟨text, frame, rfl, parsed, Fate.sighted.inj same ▸ sees _ rfl⟩⟩
      · rw [decoded] at still
        exact ⟨still, by simp⟩

omit kept in
theorem observedSighted {told : Fate} {timestamp : UInt64} {o : Observation}
    (observed : told.observation timestamp = some o) :
    ∃ s, told = .sighted s ∧ o = s.observe timestamp := by
  cases told with
  | sighted s => exact ⟨s, rfl, (Option.some.inj observed).symm⟩
  | oversized => simp [Fate.observation] at observed
  | blank => simp [Fate.observation] at observed
  | undecoded => simp [Fate.observation] at observed

theorem observationsFair {memory : σ} (start : good memory) (taken : List (Segment × UInt64)) :
    good (learned decoder station memory taken) ∧
      ∀ o ∈ observations decoder station memory taken, ∃ frame timestamp s,
        Carried taken frame timestamp ∧ fair frame s ∧ o = s.observe timestamp := by
  induction taken using List.reverseRecOn with
  | nil => exact ⟨start, by simp [observations, story]⟩
  | append_singleton taken last ih =>
    obtain ⟨segment, timestamp⟩ := last
    obtain ⟨before, earlier⟩ := ih
    obtain ⟨still, sees⟩ := fateSighted kept before segment
    rw [learnedTaken, observationsTaken]
    refine ⟨still, fun o inside => ?_⟩
    rcases List.mem_append.mp inside with known | new
    · obtain ⟨frame, time, s, carried, seen, same⟩ := earlier o known
      exact ⟨frame, time, s, carriedMore carried (List.subset_append_left _ _), seen, same⟩
    · obtain ⟨s, told, same⟩ := observedSighted (Option.mem_toList.mp new)
      obtain ⟨line, frame, rfl, parsed, seen⟩ := sees s told
      exact ⟨frame, timestamp, s, ⟨line, by simp, parsed⟩, seen, same⟩

end Stories

theorem observationsTraced (good : String → Prop)
    (heard : ∀ message, callsign message ≠ "" → good (callsign message)) (station : Station)
    (capacity : Nat) (taken : List (Segment × UInt64)) :
    ∀ o ∈ observations receive station (Identities.empty capacity) taken,
      ∃ frame timestamp s, Carried taken frame timestamp ∧
        (Seen good station s ∧ ∃ n, address frame = some n ∧ s.icao = addressText n) ∧
        o = s.observe timestamp := by
  have kept : ∀ (i : Identities) frame, i.All good → (receive i station frame).2.All good ∧
      ∀ s, (receive i station frame).1 = .ok s →
        Seen good station s ∧ ∃ n, address frame = some n ∧ s.icao = addressText n :=
    fun i frame all => receiveSeen heard all station frame
  exact (observationsFair kept (Identities.emptyAll capacity) taken).2

end AirPicture.Feed
