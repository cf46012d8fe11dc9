import AirPicture.Wire.Messages
import AirPicture.Proofs.Wire.Items
import AirPicture.Proofs.Text.Octets

/-! A message that is written and read is the same message, but for the sign of a double that
is zero. Octets carry a reader from one message to another if they spell fields whose merging
does; the fields of a message carry it from the blank one, each to the next. -/
namespace AirPicture.Wire
open Text (Octets)

def unsigned (bits : UInt64) : UInt64 := if bits <<< 1 = 0 then 0 else bits

theorem encodeDecode (s : String) : Text.decode (Text.encode s) = some s := by
  unfold Text.decode Text.encode String.fromUTF8?
  rw [String.toUTF8_eq_toByteArray, Array.toArray_toList, dif_pos s.isValidUTF8]
  rfl

theorem wordFits (n : Int) : word n ≤ greatestVarint := by
  unfold word greatestVarint
  omega

theorem wordInt32 (x : Int32) : Int32.ofNat (word x.toInt) = x := by
  apply Int32.toInt_inj.mp
  have low := x.le_toInt
  have high := x.toInt_lt
  rw [Int32.toInt_ofNat', Int.bmod_def]
  simp only [word, Int32.size]
  omega

theorem wordInt64 (x : Int64) : Int64.ofNat (word x.toInt) = x := by
  apply Int64.toInt_inj.mp
  have low := x.le_toInt
  have high := x.toInt_lt
  rw [Int64.toInt_ofNat', Int.bmod_def]
  simp only [word, Int64.size]
  omega

def integerFields (number n : Nat) : List Field :=
  if n = 0 then [] else [⟨number, .integer n⟩]

def negativeZero : UInt64 := 0x8000000000000000

def doubleFields (number : Nat) (bits : UInt64) : List Field :=
  if bits = 0 ∨ bits = negativeZero then [] else [⟨number, .double bits⟩]

def textFields (number : Nat) (s : String) : List Field :=
  if s = "" then [] else [⟨number, .run (Text.encode s)⟩]

def optionalFields (number : Nat) (text : Option String) : List Field :=
  text.toList.map fun s => ⟨number, .run (Text.encode s)⟩

theorem shiftedOut (bits : UInt64) : bits <<< 1 = 0 ↔ bits = 0 ∨ bits = negativeZero := by
  have shifted : (bits <<< 1).toNat = bits.toNat * 2 % 2 ^ 64 := by
    rw [UInt64.toNat_shiftLeft]
    simp [Nat.shiftLeft_eq]
  have small := bits.toNat_lt
  simp only [← UInt64.toNat_inj, shifted, negativeZero, UInt64.reduceToNat]
  omega

theorem unsignedExact (bits : UInt64) :
    unsigned bits = if bits = negativeZero then 0 else bits := by
  unfold unsigned
  by_cases negative : bits = negativeZero
  · rw [if_pos negative, if_pos ((shiftedOut bits).mpr (.inr negative))]
  · rw [if_neg negative]
    split
    · rename_i gone
      exact (((shiftedOut bits).mp gone).resolve_right negative).symm
    · rfl

section Spelling
variable {number : Nat} (known : IsNumber number)
include known

theorem integerSpelt {n : Nat} (fits : n ≤ greatestVarint) :
    Spells (integerField number n) (integerFields number n) := by
  unfold integerField integerFields
  split
  · exact spellsNothing
  · exact spellsField (by simp [Item.Plain]) (integerWritten known fits)

theorem doubleSpelt (bits : UInt64) :
    Spells (doubleField number bits) (doubleFields number bits) := by
  unfold doubleField doubleFields
  simp only [shiftedOut]
  split
  · exact spellsNothing
  · exact spellsField (by simp [Item.Plain]) (doubleWritten known bits)

theorem runSpelt {octets : Octets} (fits : octets.length ≤ greatestVarint) :
    Spells (writeRun number octets) [⟨number, .run octets⟩] :=
  spellsField (by simp [Item.Plain]) (runWritten known fits)

theorem textSpelt {s : String} (fits : (Text.encode s).length ≤ greatestVarint) :
    Spells (textField number s) (textFields number s) := by
  unfold textField textFields
  split
  · exact spellsNothing
  · exact runSpelt known fits

theorem optionalSpelt {text : Option String}
    (fits : ∀ s, text = some s → (Text.encode s).length ≤ greatestVarint) :
    Spells (optionalField number text) (optionalFields number text) := by
  cases text with
  | none => exact spellsNothing
  | some s => exact runSpelt known (fits s rfl)

end Spelling

section Carrying
variable {α : Type} (merge : α → Field → Option α)

def Carries (octets : Octets) (before after : α) : Prop :=
  ∃ fields, Spells octets fields ∧ fields.foldlM merge before = some after

variable {merge}

theorem carriesNothing (message : α) : Carries merge [] message message :=
  ⟨[], spellsNothing, rfl⟩

theorem carriesField {octets : Octets} {field : Field} {before after : α}
    (spells : Spells octets [field]) (merged : merge before field = some after) :
    Carries merge octets before after :=
  ⟨[field], spells, by simp [merged]⟩

theorem carriesAppend {first second : Octets} {before middle after : α}
    (left : Carries merge first before middle) (right : Carries merge second middle after) :
    Carries merge (first ++ second) before after := by
  obtain ⟨fields, spells, merged⟩ := left
  obtain ⟨others, spelt, finished⟩ := right
  exact ⟨fields ++ others, spellsAppend spells spelt, by simp [merged, finished]⟩

theorem carriesRead (limit : Nat) {octets : Octets} {before after : α}
    (carries : Carries merge octets before after) :
    readMessage merge limit before octets = some after := by
  obtain ⟨fields, spells, merged⟩ := carries
  simp [readMessage, spellsRead limit spells, merged]

variable {number : Nat} (known : IsNumber number) {before after : α}
include known

theorem integerCarries {n : Nat} (fits : n ≤ greatestVarint) (default : n = 0 → before = after)
    (merged : merge before ⟨number, .integer n⟩ = some after) :
    Carries merge (integerField number n) before after := by
  refine ⟨integerFields number n, integerSpelt known fits, ?_⟩
  unfold integerFields
  split
  · rename_i zero
    exact congrArg some (default zero)
  · simpa using merged

theorem doubleCarries {bits : UInt64} (default : unsigned bits = 0 → before = after)
    (merged : merge before ⟨number, .double (unsigned bits)⟩ = some after) :
    Carries merge (doubleField number bits) before after := by
  refine ⟨doubleFields number bits, doubleSpelt known bits, ?_⟩
  unfold doubleFields
  split
  · rename_i zero
    exact congrArg some (default (if_pos ((shiftedOut bits).mpr zero)))
  · rename_i other
    rw [show unsigned bits = bits from if_neg (mt (shiftedOut bits).mp other)] at merged
    simpa using merged

theorem runCarries {octets : Octets} (fits : octets.length ≤ greatestVarint)
    (merged : merge before ⟨number, .run octets⟩ = some after) :
    Carries merge (writeRun number octets) before after :=
  carriesField (runSpelt known fits) merged

theorem textCarries {s : String} (fits : (Text.encode s).length ≤ greatestVarint)
    (default : s = "" → before = after)
    (merged : merge before ⟨number, .run (Text.encode s)⟩ = some after) :
    Carries merge (textField number s) before after := by
  unfold textField
  split
  · rename_i empty
    exact default empty ▸ carriesNothing before
  · exact runCarries known fits merged

theorem optionalCarries {text : Option String}
    (fits : ∀ s, text = some s → (Text.encode s).length ≤ greatestVarint)
    (default : text = none → before = after)
    (merged : ∀ s, text = some s → merge before ⟨number, .run (Text.encode s)⟩ = some after) :
    Carries merge (optionalField number text) before after := by
  cases text with
  | none => exact default rfl ▸ carriesNothing before
  | some s => exact runCarries known (fits s rfl) (merged s rfl)

end Carrying

structure StationSized (s : StationMessage) : Prop where
  id : (Text.encode s.id).length ≤ greatestVarint
  name : (Text.encode s.name).length ≤ greatestVarint

structure Sized (o : ObservationMessage) : Prop where
  icao : (Text.encode o.icao).length ≤ greatestVarint
  callsign : ∀ s, o.callsign = some s → (Text.encode s).length ≤ greatestVarint
  squawk : ∀ s, o.squawk = some s → (Text.encode s).length ≤ greatestVarint
  station : ∀ s, o.station = some s → (encodeStation s).length ≤ greatestVarint

theorem stationCarries {s : StationMessage} (sized : StationSized s) :
    Carries mergeStation (encodeStation s) (.blank 0) (s.map unsigned) := by
  have id : Carries mergeStation (textField 1 s.id) (.blank 0) ⟨s.id, "", 0, 0⟩ :=
    textCarries (by decide) sized.id (fun empty => by rw [empty]; rfl)
      (by simp [mergeStation, textOf, encodeDecode, StationOf.blank])
  have name : Carries mergeStation (textField 2 s.name) ⟨s.id, "", 0, 0⟩ ⟨s.id, s.name, 0, 0⟩ :=
    textCarries (by decide) sized.name (fun empty => by rw [empty])
      (by simp [mergeStation, textOf, encodeDecode])
  have latitude : Carries mergeStation (doubleField 3 s.latitude) ⟨s.id, s.name, 0, 0⟩
      ⟨s.id, s.name, unsigned s.latitude, 0⟩ :=
    doubleCarries (by decide) (fun zero => by rw [zero]) rfl
  have longitude : Carries mergeStation (doubleField 4 s.longitude)
      ⟨s.id, s.name, unsigned s.latitude, 0⟩ (s.map unsigned) :=
    doubleCarries (by decide) (fun zero => by simp [StationOf.map, zero]) rfl
  exact carriesAppend (carriesAppend (carriesAppend id name) latitude) longitude

theorem runLength (number : Nat) (octets : Octets) :
    octets.length ≤ (writeRun number octets).length := by
  simp only [writeRun, List.length_append]
  omega

theorem textLength (number : Nat) (s : String) :
    (Text.encode s).length ≤ (textField number s).length := by
  unfold textField
  split
  · rename_i empty
    subst s
    decide
  · exact runLength number (Text.encode s)

theorem stationSized {s : StationMessage} (fits : (encodeStation s).length ≤ greatestVarint) :
    StationSized s where
  id := by
    have text := textLength 1 s.id
    simp only [encodeStation, List.length_append] at fits
    omega
  name := by
    have text := textLength 2 s.name
    simp only [encodeStation, List.length_append] at fits
    omega

theorem stationRead {s : StationMessage} (sized : StationSized s) :
    decodeStation (encodeStation s) = some (s.map unsigned) :=
  carriesRead deepest (stationCarries sized)

theorem observationCarries {o : ObservationMessage} (sized : Sized o) :
    Carries mergeObservation (encodeObservation o) (.blank 0) (o.map unsigned) := by
  have icao : Carries mergeObservation (textField 1 o.icao) (.blank 0)
      ⟨o.icao, 0, 0, 0, none, none, none, 0⟩ :=
    textCarries (by decide) sized.icao (fun empty => by rw [empty]; rfl)
      (by simp [mergeObservation, textOf, encodeDecode, ObservationOf.blank])
  have altitude : Carries mergeObservation (integerField 2 (word o.altitude.toInt))
      ⟨o.icao, 0, 0, 0, none, none, none, 0⟩ ⟨o.icao, o.altitude, 0, 0, none, none, none, 0⟩ :=
    integerCarries (by decide) (wordFits _)
      (fun zero => by
        have none : o.altitude = 0 := by rw [← wordInt32 o.altitude, zero]; rfl
        rw [none])
      (by simp [mergeObservation, integerOf, wordInt32])
  have latitude : Carries mergeObservation (doubleField 3 o.latitude)
      ⟨o.icao, o.altitude, 0, 0, none, none, none, 0⟩
      ⟨o.icao, o.altitude, unsigned o.latitude, 0, none, none, none, 0⟩ :=
    doubleCarries (by decide) (fun zero => by rw [zero]) rfl
  have longitude : Carries mergeObservation (doubleField 4 o.longitude)
      ⟨o.icao, o.altitude, unsigned o.latitude, 0, none, none, none, 0⟩
      ⟨o.icao, o.altitude, unsigned o.latitude, unsigned o.longitude, none, none, none, 0⟩ :=
    doubleCarries (by decide) (fun zero => by rw [zero]) rfl
  have callsign : Carries mergeObservation (optionalField 5 o.callsign)
      ⟨o.icao, o.altitude, unsigned o.latitude, unsigned o.longitude, none, none, none, 0⟩
      ⟨o.icao, o.altitude, unsigned o.latitude, unsigned o.longitude, o.callsign, none, none, 0⟩ :=
    optionalCarries (by decide) sized.callsign (fun absent => by rw [absent])
      (fun s there => by simp [mergeObservation, textOf, encodeDecode, there])
  have squawk : Carries mergeObservation (optionalField 6 o.squawk)
      ⟨o.icao, o.altitude, unsigned o.latitude, unsigned o.longitude, o.callsign, none, none, 0⟩
      ⟨o.icao, o.altitude, unsigned o.latitude, unsigned o.longitude, o.callsign, o.squawk, none,
        0⟩ :=
    optionalCarries (by decide) sized.squawk (fun absent => by rw [absent])
      (fun s there => by simp [mergeObservation, textOf, encodeDecode, there])
  have station : Carries mergeObservation (stationField 7 o.station)
      ⟨o.icao, o.altitude, unsigned o.latitude, unsigned o.longitude, o.callsign, o.squawk, none, 0⟩
      { o.map unsigned with timestamp := 0 } := by
    cases there : o.station with
    | none =>
      have absent : ({ o.map unsigned with timestamp := 0 } : ObservationMessage) =
          ⟨o.icao, o.altitude, unsigned o.latitude, unsigned o.longitude, o.callsign, o.squawk,
            none, 0⟩ := by simp [ObservationOf.map, there]
      exact absent ▸ carriesNothing _
    | some s =>
      have fits := sized.station s there
      have inner := carriesRead (deepest - 1) (stationCarries (stationSized fits))
      exact runCarries (by decide) fits
        (by simp [mergeObservation, stationOf, inner, ObservationOf.map, there])
  have timestamp : Carries mergeObservation (integerField 8 o.timestamp.toNat)
      { o.map unsigned with timestamp := 0 } (o.map unsigned) :=
    integerCarries (by decide) (Nat.le_of_lt_succ o.timestamp.toNat_lt)
      (fun zero => by
        have none : o.timestamp = 0 := UInt64.toNat_inj.mp zero
        simp [ObservationOf.map, none])
      (by simp [mergeObservation, integerOf, ObservationOf.map])
  exact carriesAppend (carriesAppend (carriesAppend (carriesAppend (carriesAppend (carriesAppend
    (carriesAppend icao altitude) latitude) longitude) callsign) squawk) station) timestamp

theorem observationRead {o : ObservationMessage} (sized : Sized o) :
    decodeObservation (encodeObservation o) = some (o.map unsigned) :=
  carriesRead deepest (observationCarries sized)

theorem ackRead (a : Ack) : decodeAck (encodeAck a) = some a := by
  have accepted : Carries mergeAck (integerField 1 (if a.accepted then 1 else 0)) .blank
      ⟨a.accepted, 0⟩ := by
    refine integerCarries (by decide) (by split <;> decide) ?_ ?_
    · cases h : a.accepted <;> simp [Ack.blank]
    · cases h : a.accepted <;> simp [mergeAck, integerOf, Ack.blank]
  have observations : Carries mergeAck (integerField 2 (word a.observations.toInt))
      ⟨a.accepted, 0⟩ a :=
    integerCarries (by decide) (wordFits _)
      (fun zero => by
        have none : a.observations = 0 := by rw [← wordInt64 a.observations, zero]; rfl
        rw [← none])
      (by simp [mergeAck, integerOf, wordInt64])
  exact carriesRead deepest (carriesAppend accepted observations)

end AirPicture.Wire
