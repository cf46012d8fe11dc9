import Mathlib.Data.List.DropRight
import AirPicture.Proofs.Feed.Sightings

/-! Which callsigns a receiver remembers. A table and its order stay in step, and the order is
what was entered last, as far as there is room: an aircraft that is heard again keeps its place,
and one that has been forgotten is entered anew. So a sighting carries the last callsign that was
heard of its aircraft, until as many others have been entered after it as the table can hold. -/
namespace AirPicture.Feed
open Text (Octets)

theorem lastPlace {α : Type} {a : α} {l : List α} (inside : a ∈ l) :
    ∃ before after, l = before ++ a :: after ∧ a ∉ after := by
  obtain ⟨after, before, same, fresh⟩ := List.eq_append_cons_of_mem (List.mem_reverse.mpr inside)
  refine ⟨before.reverse, after.reverse, ?_, by simpa using fresh⟩
  simpa using congrArg List.reverse same

theorem rtakeMember {α : Type} {a : α} {l : List α} {n : Nat} :
    a ∈ l.rtake n ↔ ∃ before after, l = before ++ a :: after ∧ a ∉ after ∧ after.length < n := by
  constructor
  · intro inside
    obtain ⟨before, after, same, fresh⟩ := lastPlace inside
    refine ⟨l.take (l.length - n) ++ before, after, ?_, fresh, ?_⟩
    · rw [List.append_assoc, ← same, List.rtake, List.take_append_drop]
    · have short := congrArg List.length same
      simp only [List.rtake, List.length_drop, List.length_append, List.length_cons] at short
      omega
  · rintro ⟨before, after, rfl, _, few⟩
    rw [List.rtake, List.drop_append_of_le_length (by simp; omega)]
    exact List.mem_append_right _ List.mem_cons_self

theorem rtakeNext {α : Type} (l : List α) (a : α) (n : Nat) :
    (l ++ [a]).rtake (n + 1) =
      (if n + 1 ≤ (l.rtake (n + 1)).length then (l.rtake (n + 1)).tail else l.rtake (n + 1)) ++ [a] := by
  rw [List.rtake_concat_succ, List.append_cancel_right_eq]
  simp only [List.rtake, List.length_drop, List.tail_drop]
  split
  · congr 1
    omega
  · congr 1
    omega

namespace Identities

structure Sound (i : Identities) : Prop where
  room : 0 < i.capacity
  bounded : i.order.length ≤ i.capacity
  unique : i.order.Nodup
  keys : ∀ address, i.callsigns.contains address = true ↔ address ∈ i.order

theorem emptySound (capacity : Nat) : (empty capacity).Sound where
  room := Nat.lt_of_lt_of_le Nat.zero_lt_one (Nat.le_max_right capacity 1)
  bounded := Nat.zero_le _
  unique := List.nodup_nil
  keys := by simp [empty]

theorem foundKnown {i : Identities} (sound : i.Sound) (address : Nat) :
    (i.find address).isSome = true ↔ address ∈ i.order := by
  rw [find, ← Std.ExtTreeMap.contains_eq_isSome_getElem?, sound.keys]

theorem makeRoomCases {i : Identities} (room : 0 < i.capacity) :
    (∃ oldest rest, i.order = oldest :: rest ∧ i.capacity ≤ i.order.length ∧
      i.makeRoom = ⟨i.capacity, rest, i.callsigns.erase oldest⟩) ∨
    (i.order.length < i.capacity ∧ i.makeRoom = i) := by
  unfold makeRoom
  split
  · rename_i oldest rest same
    split
    · rename_i full
      exact .inl ⟨oldest, rest, same, full, rfl⟩
    · rename_i free
      exact .inr ⟨Nat.lt_of_not_le free, rfl⟩
  · rename_i same
    exact .inr ⟨by rwa [same], rfl⟩

theorem makeRoomOrder {i : Identities} (room : 0 < i.capacity) : i.makeRoom.order =
    if i.capacity ≤ i.order.length then i.order.tail else i.order := by
  obtain ⟨oldest, rest, same, full, made⟩ | ⟨free, made⟩ := makeRoomCases room
  · rw [made, if_pos full, same, List.tail_cons]
  · rw [made, if_neg (Nat.not_le.mpr free)]

theorem makeRoomSound {i : Identities} (sound : i.Sound) :
    i.makeRoom.Sound ∧ i.makeRoom.capacity = i.capacity ∧ i.makeRoom.order.length < i.capacity ∧
      ∀ address ∈ i.makeRoom.order, address ∈ i.order ∧
        i.makeRoom.find address = i.find address := by
  obtain ⟨oldest, rest, same, _, made⟩ | ⟨free, made⟩ := makeRoomCases sound.room
  · have unique := sound.unique
    have bounded := sound.bounded
    have keys := sound.keys
    simp only [same, List.nodup_cons, List.length_cons, List.mem_cons] at unique bounded keys
    have apart : ∀ address ∈ rest, oldest ≠ address :=
      fun address inside equal => unique.1 (equal ▸ inside)
    rw [made]
    refine ⟨⟨sound.room, Nat.le_of_succ_le bounded, unique.2, fun address => ?_⟩, rfl, bounded,
      fun address inside => ⟨same ▸ List.mem_cons_of_mem _ inside, ?_⟩⟩
    · simp only [Std.ExtTreeMap.contains_erase, Bool.and_eq_true, bne_iff_ne, ne_eq,
        Nat.compare_eq_eq, keys]
      constructor
      · rintro ⟨other, rfl | inside⟩
        · exact absurd rfl other
        · exact inside
      · intro inside
        exact ⟨apart address inside, .inr inside⟩
    · simp only [find, Std.ExtTreeMap.getElem?_erase, Nat.compare_eq_eq,
        if_neg (apart address inside)]
  · rw [made]
    exact ⟨sound, rfl, free, fun address inside => ⟨inside, rfl⟩⟩

theorem enterCases {i : Identities} (sound : i.Sound) (address : Nat) :
    (address ∈ i.order ∧ i.enter address = i) ∨
    (address ∉ i.order ∧
      i.enter address = ⟨i.capacity, i.makeRoom.order ++ [address], i.makeRoom.callsigns⟩) := by
  unfold enter
  split
  · rename_i known
    exact .inl ⟨(sound.keys address).mp known, rfl⟩
  · rename_i new
    refine .inr ⟨fun inside => new ((sound.keys address).mpr inside), ?_⟩
    simp only [(makeRoomSound sound).2.1]

theorem rememberOrder {i : Identities} (sound : i.Sound) (address : Nat) (callsign : String) :
    (i.remember address callsign).capacity = i.capacity ∧
    (i.remember address callsign).order = if address ∈ i.order then i.order
      else (if i.capacity ≤ i.order.length then i.order.tail else i.order) ++ [address] := by
  obtain ⟨inside, entered⟩ | ⟨outside, entered⟩ := enterCases sound address
  · simp only [remember, entered, if_pos inside, and_self]
  · simp only [remember, entered, if_neg outside, makeRoomOrder sound.room, and_self]

theorem rememberSound {i : Identities} (sound : i.Sound) (address : Nat) (callsign : String) :
    (i.remember address callsign).Sound := by
  obtain ⟨inside, entered⟩ | ⟨outside, entered⟩ := enterCases sound address
  · rw [remember, entered]
    refine ⟨sound.room, sound.bounded, sound.unique, fun other => ?_⟩
    simp only [Std.ExtTreeMap.contains_insert, Bool.or_eq_true, beq_iff_eq, Nat.compare_eq_eq,
      sound.keys]
    exact or_iff_right_of_imp fun same => same ▸ inside
  · obtain ⟨made, same, free, kept⟩ := makeRoomSound sound
    rw [remember, entered]
    refine ⟨sound.room, by simpa using free, ?_, fun other => ?_⟩
    · exact List.nodup_append.mpr ⟨made.unique, List.nodup_singleton _, fun a first b second =>
        fun equal => outside (List.mem_singleton.mp second ▸ equal ▸ (kept a first).1)⟩
    · simp only [Std.ExtTreeMap.contains_insert, Bool.or_eq_true, beq_iff_eq, Nat.compare_eq_eq,
        made.keys, List.mem_append, List.mem_singleton]
      rw [or_comm, eq_comm]

theorem rememberFind {i : Identities} (sound : i.Sound) (address : Nat) (callsign : String)
    {other : Nat} (known : other ∈ (i.remember address callsign).order) :
    (i.remember address callsign).find other =
      if address = other then some callsign else i.find other := by
  have stored : (i.remember address callsign).find other =
      if address = other then some callsign else (i.enter address).find other := by
    simp only [remember, find, Std.ExtTreeMap.getElem?_insert, Nat.compare_eq_eq]
  rw [stored]
  split
  · rfl
  · rename_i apart
    obtain ⟨_, entered⟩ | ⟨_, entered⟩ := enterCases sound address
    · rw [entered]
    · have before : other ∈ i.makeRoom.order := by
        simpa [remember, entered, Ne.symm apart] using known
      rw [entered]
      exact ((makeRoomSound sound).2.2.2 other before).2

end Identities

def identification (frame : Octets) : Option (Nat × String) :=
  if frame.length = 14 ∧ (downlinkFormat frame = some 17 ∨ downlinkFormat frame = some 18) ∧
      parityClean frame = true ∧ isIdentification (typeCode (message frame)) = true ∧
      callsign (message frame) ≠ "" then
    (address frame).map fun n => (n, callsign (message frame))
  else none

theorem positionUnidentified {code : Nat} (position : isPosition code = true) :
    isIdentification code = false := by
  simp only [isPosition, isIdentification, Bool.or_eq_true, Bool.and_eq_true, decide_eq_true_eq,
    Bool.and_eq_false_iff, decide_eq_false_iff_not] at position ⊢
  omega

theorem receiveRemembers (i : Identities) (station : Station) (frame : Octets) :
    (receive i station frame).2 = match identification frame with
      | some (n, text) => i.remember n text
      | none => i := by
  have refused : ¬ (frame.length = 14 ∧
      (downlinkFormat frame = some 17 ∨ downlinkFormat frame = some 18) ∧
      parityClean frame = true ∧ isIdentification (typeCode (message frame)) = true ∧
      callsign (message frame) ≠ "") → identification frame = none := fun fails => if_neg fails
  unfold receive
  split
  · rename_i format n headed named
    simp only [headed, Option.some.injEq] at refused
    simp only
    split
    · rename_i long
      rw [refused fun all => long all.1]
    split
    · rename_i wrong
      rw [refused fun all => by omega]
    split
    · rename_i unclean
      rw [refused fun all => by simp [all.2.2.1] at unclean]
    split
    · rename_i position
      rw [refused fun all => by simp [positionUnidentified position] at all]
    rename_i long supported clean _
    have known : format = 17 ∨ format = 18 := by omega
    split
    · rename_i identified
      have told : identification frame = some (n, callsign (message frame)) := by
        rw [identification, headed, named, if_pos ⟨not_not.mp long, by simpa using known,
          by simpa using clean, identified⟩]
        rfl
      rw [told]
    · rename_i other
      rw [refused fun all => other all.2.2.2]
  · rename_i missing
    split
    · rename_i n text told
      simp only [identification, Option.ite_none_right_eq_some, Option.map_eq_some_iff] at told
      obtain ⟨⟨_, headed | headed, _⟩, n, named, _⟩ := told
      · exact absurd named (missing _ n headed)
      · exact absurd named (missing _ n headed)
    · rfl

theorem sightingNamed {i : Identities} {station : Station} {frame : Octets} {s : Sighting} {n : Nat}
    (seen : (receive i station frame).1 = .ok s) (named : address frame = some n) :
    s.callsign = i.find n := by
  obtain ⟨other, known, same⟩ | ⟨fault, same⟩ | ⟨fault, _, _, same⟩ := receiveCases i station frame
  · cases named.symm.trans known
    rw [same] at seen
    unfold sight at seen
    simp only at seen
    split at seen
    · contradiction
    · split at seen
      · contradiction
      · cases seen
        rfl
  · simp [same] at seen
  · simp [same] at seen

namespace Identities

def after (i : Identities) (frames : List (Station × Octets)) : Identities :=
  frames.foldl (fun i frame => (receive i frame.1 frame.2).2) i

def newcomer (i : Identities) (frame : Octets) : Option Nat :=
  (identification frame).bind fun name => if i.callsigns.contains name.1 then none else some name.1

def entered (i : Identities) : List (Station × Octets) → List Nat
  | [] => []
  | (station, frame) :: rest =>
    (i.newcomer frame).toList ++ (receive i station frame).2.entered rest

theorem afterNext (i : Identities) (frames : List (Station × Octets)) (station : Station)
    (frame : Octets) :
    i.after (frames ++ [(station, frame)]) = (receive (i.after frames) station frame).2 := by
  simp only [after, List.foldl_append, List.foldl_cons, List.foldl_nil]

theorem enteredNext (i : Identities) (frames : List (Station × Octets)) (station : Station)
    (frame : Octets) :
    i.entered (frames ++ [(station, frame)]) =
      i.entered frames ++ ((i.after frames).newcomer frame).toList := by
  induction frames generalizing i with
  | nil => simp [entered, after]
  | cons first rest ih =>
    rw [List.cons_append, entered, ih, entered, List.append_assoc]
    rfl

end Identities

def lastName (frames : List (Station × Octets)) (n : Nat) : Option String :=
  ((frames.filterMap fun frame => identification frame.2).filter (·.1 == n)).getLast?.map (·.2)

theorem lastNameNext (frames : List (Station × Octets)) (station : Station) (frame : Octets)
    (n : Nat) :
    lastName (frames ++ [(station, frame)]) n = match identification frame with
      | some (m, text) => if m = n then some text else lastName frames n
      | none => lastName frames n := by
  cases told : identification frame with
  | none => simp [lastName, told]
  | some name =>
    by_cases same : name.1 = n
    · simp [lastName, told, same]
    · simp [lastName, told, same]

def Lately (room : Nat) (entered : List Nat) (n : Nat) : Prop :=
  ∃ before after, entered = before ++ n :: after ∧ n ∉ after ∧ after.length < room

/- How a table stands after frames: its order is what was entered last, and each callsign in it is
the last one that was heard. -/
structure Standing (capacity : Nat) (frames : List (Station × Octets)) (i : Identities) : Prop where
  sound : i.Sound
  room : i.capacity = max capacity 1
  order : i.order = ((Identities.empty capacity).entered frames).rtake i.capacity
  names : ∀ n ∈ i.order, i.find n = lastName frames n

theorem runStands (capacity : Nat) (frames : List (Station × Octets)) :
    Standing capacity frames ((Identities.empty capacity).after frames) := by
  induction frames using List.reverseRecOn with
  | nil => exact ⟨Identities.emptySound capacity, rfl, by simp [Identities.after, Identities.entered,
      Identities.empty], by simp [Identities.after, Identities.empty]⟩
  | append_singleton frames last ih =>
    obtain ⟨station, frame⟩ := last
    obtain ⟨sound, room, order, names⟩ := ih
    have remembers := receiveRemembers ((Identities.empty capacity).after frames) station frame
    have entered := (Identities.empty capacity).enteredNext frames station frame
    have named := lastNameNext frames station frame
    rw [Identities.afterNext]
    generalize (Identities.empty capacity).after frames = i at *
    cases told : identification frame with
    | none =>
      simp only [told, Identities.newcomer, Option.bind_none, Option.toList_none,
        List.append_nil] at remembers entered named
      rw [remembers]
      exact ⟨sound, room, by rw [order, entered], fun n inside => by rw [names n inside, named]⟩
    | some name =>
      obtain ⟨n, text⟩ := name
      simp only [told, Identities.newcomer, Option.bind_some, sound.keys] at remembers entered named
      obtain ⟨kept, placed⟩ := Identities.rememberOrder sound n text
      rw [remembers]
      refine ⟨Identities.rememberSound sound n text, kept.trans room, ?_, fun m inside => ?_⟩
      · rw [placed, kept, entered]
        split
        · rw [order, Option.toList_none, List.append_nil]
        · -- a newcomer takes the last place, and pushes out the first if there is no room
          obtain ⟨less, same⟩ := Nat.exists_eq_succ_of_ne_zero (Nat.ne_of_gt sound.room)
          rw [same] at order ⊢
          rw [Option.toList_some, rtakeNext, ← order]
      · rw [Identities.rememberFind sound n text inside, named]
        split
        · rfl
        · rename_i apart
          refine names m ?_
          rw [placed] at inside
          split at inside
          · exact inside
          · have before := (List.mem_append.mp inside).resolve_right (by simpa using Ne.symm apart)
            split at before
            · exact List.mem_of_mem_tail before
            · exact before

/-- Whatever frames have been heard, and at whatever stations, a receiver's table is in step with
its order, which is the last aircraft that were entered, as many as there is room for. Only an
identification changes it. A sighting carries the last callsign that was heard of its aircraft if
fewer others than there is room for were entered since it was entered last, and none otherwise. -/
theorem oldestForgotten (capacity : Nat) (frames : List (Station × Octets)) :
    let i := (Identities.empty capacity).after frames
    let entered := (Identities.empty capacity).entered frames
    let room := max capacity 1
    i.order.Nodup ∧ (∀ n, n ∈ i.order ↔ i.callsigns.contains n = true) ∧ i.order.length ≤ room ∧
    i.order = entered.drop (entered.length - room) ∧
    (∀ station frame, identification frame = none → (receive i station frame).2 = i) ∧
    ∀ station frame s n, (receive i station frame).1 = .ok s → address frame = some n →
      (s.callsign.isSome = true ↔ Lately room entered n) ∧
      ∀ text, s.callsign = some text → lastName frames n = some text := by
  intro i entered room
  obtain ⟨sound, same, order, names⟩ := runStands capacity frames
  have bounded := sound.bounded
  rw [same] at order bounded
  refine ⟨sound.unique, fun n => (sound.keys n).symm, bounded, order, ?_, ?_⟩
  · intro station frame silent
    rw [receiveRemembers, silent]
  · intro station frame s n seen named
    have carried := sightingNamed seen named
    have known := Identities.foundKnown sound n
    rw [carried]
    refine ⟨?_, fun text found => ?_⟩
    · rw [known, order, rtakeMember]
      rfl
    · rw [← names n (known.mp (found ▸ rfl)), ← found]

/- Room for two: the first of four aircraft is forgotten, entered again, and then gets another name,
which does not move it. -/
def calling (aircraft : UInt8) (name : Octets) : Station × Octets :=
  (⟨"S1", "Ridge", 88, 10⟩, sealed ([0x8D, 0xA0, 0x00, aircraft, 0x20] ++ name))

def callings : List (Station × Octets) :=
  let polar := [0x40, 0xF3, 0x01, 0x4B, 0x18, 0x20]
  [calling 1 polar, calling 2 polar, calling 3 polar, calling 1 polar,
    calling 1 [0x2C, 0xC3, 0x71, 0xC3, 0x2C, 0xE0], calling 4 polar]

def passing : Octets :=
  sealed [0x8D, 0xA0, 0x00, 0x01, 0x58, 0x33, 0x02, 0xBB, 0xBC, 0x0E, 0x82]

theorem returningNamed : ∃ s,
    (receive ((Identities.empty 2).after callings) ⟨"S2", "Vale", 88, 11⟩ passing).1 = .ok s ∧
    s.callsign = some "KLM1023" ∧ lastName callings 0xA00001 = some "KLM1023" ∧
    Lately 2 ((Identities.empty 2).entered callings) 0xA00001 := by
  have carried : (receive ((Identities.empty 2).after callings) ⟨"S2", "Vale", 88, 11⟩
      passing).1.toOption.map (·.callsign) = some (some "KLM1023") := by decide +kernel
  cases seen : (receive ((Identities.empty 2).after callings) ⟨"S2", "Vale", 88, 11⟩ passing).1 with
  | error fault =>
    rw [seen] at carried
    contradiction
  | ok s =>
    rw [seen] at carried
    have named : s.callsign = some "KLM1023" := Option.some.inj carried
    obtain ⟨_, _, _, _, _, carries⟩ := oldestForgotten 2 callings
    obtain ⟨lately, name⟩ := carries _ _ s 0xA00001 seen (by decide +kernel)
    exact ⟨s, rfl, named, name _ named, lately.mp (by rw [named]; rfl)⟩

end AirPicture.Feed
