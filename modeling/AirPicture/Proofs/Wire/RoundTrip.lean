import AirPicture.Proofs.Wire.Messages

/-! The fields of each message as they are declared, and what comes back of a message that is
written and read. A reader is told the length of whatever it reads, as a number of 64 bits. -/
namespace AirPicture.Wire

def stationFields (s : StationMessage) : List Field :=
  textFields 1 s.id ++ textFields 2 s.name ++ doubleFields 3 s.latitude ++
    doubleFields 4 s.longitude

def observationFields (o : ObservationMessage) : List Field :=
  textFields 1 o.icao ++ integerFields 2 (word o.altitude.toInt) ++ doubleFields 3 o.latitude ++
    doubleFields 4 o.longitude ++ optionalFields 5 o.callsign ++ optionalFields 6 o.squawk ++
    (o.station.toList.map fun s => ⟨7, .run (encodeStation s)⟩) ++
    integerFields 8 o.timestamp.toNat

def ackFields (a : Ack) : List Field :=
  integerFields 1 (if a.accepted then 1 else 0) ++ integerFields 2 (word a.observations.toInt)

theorem stationSpelt {s : StationMessage} (sized : StationSized s) :
    Spells (encodeStation s) (stationFields s) :=
  spellsAppend (spellsAppend (spellsAppend (textSpelt (by decide) sized.id)
    (textSpelt (by decide) sized.name)) (doubleSpelt (by decide) _)) (doubleSpelt (by decide) _)

theorem observationSpelt {o : ObservationMessage} (sized : Sized o) :
    Spells (encodeObservation o) (observationFields o) := by
  have station : Spells (stationField 7 o.station)
      (o.station.toList.map fun s => ⟨7, .run (encodeStation s)⟩) := by
    cases there : o.station with
    | none => exact spellsNothing
    | some s => exact runSpelt (by decide) (sized.station s there)
  refine spellsAppend (spellsAppend (spellsAppend (spellsAppend (spellsAppend (spellsAppend
    (spellsAppend ?_ ?_) ?_) ?_) ?_) ?_) station) ?_
  · exact textSpelt (by decide) sized.icao
  · exact integerSpelt (by decide) (wordFits _)
  · exact doubleSpelt (by decide) _
  · exact doubleSpelt (by decide) _
  · exact optionalSpelt (by decide) sized.callsign
  · exact optionalSpelt (by decide) sized.squawk
  · exact integerSpelt (by decide) (Nat.le_of_lt_succ o.timestamp.toNat_lt)

theorem ackSpelt (a : Ack) : Spells (encodeAck a) (ackFields a) :=
  spellsAppend (integerSpelt (by decide) (by split <;> decide))
    (integerSpelt (by decide) (wordFits _))

theorem optionalLength (number : Nat) {text : Option String} {s : String} (there : text = some s) :
    (Text.encode s).length ≤ (optionalField number text).length := by
  subst there
  exact runLength number (Text.encode s)

theorem observationSized {o : ObservationMessage}
    (fits : (encodeObservation o).length ≤ greatestVarint) : Sized o := by
  simp only [encodeObservation, List.length_append] at fits
  constructor
  case icao =>
    have text := textLength 1 o.icao
    omega
  case callsign =>
    intro s there
    have text := optionalLength 5 there
    omega
  case squawk =>
    intro s there
    have text := optionalLength 6 there
    omega
  case station =>
    intro s there
    have run : (encodeStation s).length ≤ (stationField 7 o.station).length := by
      rw [there]
      exact runLength 7 (encodeStation s)
    omega

/-- Every message that can be held, its length being a number of 64 bits, is read as the fields that
are declared for it, and comes back as it was but for the sign of a double that is zero. No other
bits change, and no optional text appears, vanishes or becomes empty. -/
theorem messagesReturn :
    (∀ s : StationMessage, (encodeStation s).length ≤ greatestVarint →
      readFields deepest (encodeStation s) = some (stationFields s) ∧
      decodeStation (encodeStation s) = some (s.map unsigned)) ∧
    (∀ o : ObservationMessage, (encodeObservation o).length ≤ greatestVarint →
      readFields deepest (encodeObservation o) = some (observationFields o) ∧
      decodeObservation (encodeObservation o) = some (o.map unsigned)) ∧
    (∀ a : Ack, readFields deepest (encodeAck a) = some (ackFields a) ∧
      decodeAck (encodeAck a) = some a) ∧
    ∀ bits : UInt64, unsigned bits = if bits = negativeZero then 0 else bits := by
  refine ⟨fun s fits => ?_, fun o fits => ?_, fun a => ?_, unsignedExact⟩
  · have sized := stationSized fits
    exact ⟨spellsRead deepest (stationSpelt sized), stationRead sized⟩
  · have sized := observationSized fits
    exact ⟨spellsRead deepest (observationSpelt sized), observationRead sized⟩
  · exact ⟨spellsRead deepest (ackSpelt a), ackRead a⟩

def bareObservation : ObservationMessage :=
  ⟨"4B1806", -25, 0, negativeZero, some "", none, some (.blank 0), 18446744073709551615⟩

theorem bareReturns :
    readFields deepest (encodeObservation bareObservation) = some
      [⟨1, .run (Text.encode "4B1806")⟩, ⟨2, .integer 18446744073709551591⟩, ⟨5, .run []⟩,
        ⟨7, .run []⟩, ⟨8, .integer 18446744073709551615⟩] ∧
    decodeObservation (encodeObservation bareObservation) =
      some { bareObservation with longitude := 0 } := by
  have short : (encodeObservation bareObservation).length ≤ greatestVarint := by decide +kernel
  have same : bareObservation.map unsigned = { bareObservation with longitude := 0 } := by decide
  obtain ⟨spelt, back⟩ := messagesReturn.2.1 bareObservation short
  rw [spelt, back, same]
  exact ⟨by decide +kernel, rfl⟩

end AirPicture.Wire
