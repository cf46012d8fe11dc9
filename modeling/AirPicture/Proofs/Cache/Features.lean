import AirPicture.Proofs.Cache.Surface
import AirPicture.Proofs.Decimal.Written

/-! What a feature says of itself. It is read as an object with the members that every feature of
its kind has, each with what was observed: texts of any characters and the altitude as they are, the
longitude before the latitude, both as decimals that are read as the same floats, and null where a
coordinate is not finite. So two features are one text only if they say the same of everything. -/
namespace AirPicture.Cache
open Binary64 (Rounds Stands)
open Decimal (Means Writes readMeans)
open Json (Value)

/- A coordinate as it is read: a number that is rounded to the float and is read as it, or null. -/
inductive Located (x : Float) : Value → Prop
  | finite {token : List Char} {q r : ℚ} (number : Json.isNumber token = true)
      (means : Means token x) (writes : Writes token q) (stands : Stands x r) (rounds : Rounds q r) :
      Located x (.number token)
  | lost (infinite : x.isFinite = false) : Located x .null

def Figured (n : Int) (v : Value) : Prop :=
  ∃ token, v = .number token ∧ Json.isNumber token = true ∧ (String.ofList token).toInt? = some n

def Alike (x y : Float) : Prop := x = y ∨ x.isFinite = false ∧ y.isFinite = false

theorem coordinateLocated (x : Float) : Located x (coordinate x) := by
  unfold coordinate
  split
  · rename_i finite
    obtain ⟨means, q, r, writes, stands, rounds⟩ := Decimal.finiteMeans coordinateLayout finite
    exact .finite (Decimal.finiteNumber coordinateLayout x) means writes stands rounds
  · rename_i infinite
    exact .lost (Bool.eq_false_iff.mpr infinite)

theorem locatedAlike {x y : Float} {v : Value} (first : Located x v) (second : Located y v) :
    Alike x y := by
  cases first with
  | finite number means =>
    cases second with
    | finite _ others =>
      exact .inl (Option.some.inj ((readMeans.mpr means).symm.trans (readMeans.mpr others)))
  | lost infinite =>
    cases second with
    | lost other => exact .inr ⟨infinite, other⟩

theorem coordinateAlike {x y : Float} : coordinate x = coordinate y ↔ Alike x y := by
  constructor
  · intro same
    exact locatedAlike (coordinateLocated x) (same ▸ coordinateLocated y)
  · rintro (rfl | ⟨first, second⟩)
    · rfl
    · simp only [coordinate, first, second, Bool.false_eq_true, ↓reduceIte]

theorem integerFigured (n : Int) : Figured n (Json.integer n) := by
  refine ⟨_, rfl, Decimal.integerNumber n, ?_⟩
  have spelt :
      String.ofList ((if n < 0 then ['-'] else []) ++ Nat.toDigits 10 n.natAbs) = n.repr := by
    cases n with
    | ofNat m =>
      have positive : ¬ Int.ofNat m < 0 := Int.not_lt.mpr (Int.natCast_nonneg m)
      rw [if_neg positive, List.nil_append]
      exact Nat.repr_eq_ofList_toDigits.symm
    | negSucc m =>
      rw [if_pos (Int.negSucc_lt_zero m), String.ofList_append]
      exact congrArg ("-" ++ ·) Nat.repr_eq_ofList_toDigits.symm
  rw [spelt, Int.toInt?_repr]

theorem figuredSame {m n : Int} {v : Value} (first : Figured m v) (second : Figured n v) :
    m = n := by
  obtain ⟨token, rfl, _, left⟩ := first
  obtain ⟨other, same, _, right⟩ := second
  cases same
  exact Option.some.inj (left.symm.trans right)

theorem readSame {feature : String} {v w : Value} (first : ReadAs feature v)
    (second : ReadAs feature w) : v = w :=
  congrArg Prod.fst (Except.ok.inj (first.symm.trans second))

theorem contactFields {o p : Observation} (same : contactFeature o = contactFeature p) :
    o.icao = p.icao ∧ o.altitude = p.altitude ∧ o.callsign.getD "" = p.callsign.getD "" ∧
      o.squawk.getD "" = p.squawk.getD "" ∧ Alike o.longitude p.longitude ∧
      Alike o.latitude p.latitude := by
  have read : ReadAs (contactFeature o) (contact p) := same ▸ keptRead (contactKept p)
  have value := readSame (keptRead (contactKept o)) read
  simp only [contact, feature, point, Value.object.injEq, Value.array.injEq, Value.text.injEq,
    List.cons.injEq, Prod.mk.injEq, true_and, and_true] at value
  obtain ⟨⟨longitude, latitude⟩, altitude, callsign, icao, squawk⟩ := value
  have height := figuredSame (integerFigured _) (altitude ▸ integerFigured p.altitude.toInt)
  exact ⟨icao, Int32.toInt_inj.mp height, callsign, squawk, coordinateAlike.mp longitude,
    coordinateAlike.mp latitude⟩

theorem stationFields {s t : Station} (same : stationFeature s = stationFeature t) :
    s.id = t.id ∧ s.name = t.name ∧ Alike s.longitude t.longitude ∧
      Alike s.latitude t.latitude := by
  have read : ReadAs (stationFeature s) (site t) := same ▸ keptRead (siteKept t)
  have value := readSame (keptRead (siteKept s)) read
  simp only [site, feature, point, Value.object.injEq, Value.array.injEq, Value.text.injEq,
    List.cons.injEq, Prod.mk.injEq, true_and, and_true] at value
  obtain ⟨⟨longitude, latitude⟩, id, name⟩ := value
  exact ⟨id, name, coordinateAlike.mp longitude, coordinateAlike.mp latitude⟩

/-- Features are read as what they say, the longitude before the latitude, and say no less than what
they were made of. -/
theorem featuresSayAll :
    (∀ o : Observation, ∃ longitude latitude altitude,
      ReadAs (contactFeature o) (.object [
        ("geometry", .object [
          ("coordinates", .array [longitude, latitude]),
          ("type", .text "Point")]),
        ("properties", .object [
          ("altitude", altitude),
          ("callsign", .text (o.callsign.getD "")),
          ("icao", .text o.icao),
          ("squawk", .text (o.squawk.getD "")),
          ("type", .text "contact")]),
        ("type", .text "Feature")]) ∧
      Located o.longitude longitude ∧ Located o.latitude latitude ∧
      Figured o.altitude.toInt altitude) ∧
    (∀ s : Station, ∃ longitude latitude,
      ReadAs (stationFeature s) (.object [
        ("geometry", .object [
          ("coordinates", .array [longitude, latitude]),
          ("type", .text "Point")]),
        ("properties", .object [
          ("id", .text s.id),
          ("name", .text s.name),
          ("type", .text "station")]),
        ("type", .text "Feature")]) ∧
      Located s.longitude longitude ∧ Located s.latitude latitude) ∧
    (∀ o p : Observation, contactFeature o = contactFeature p ↔
      o.icao = p.icao ∧ o.altitude = p.altitude ∧ o.callsign.getD "" = p.callsign.getD "" ∧
        o.squawk.getD "" = p.squawk.getD "" ∧ Alike o.longitude p.longitude ∧
        Alike o.latitude p.latitude) ∧
    (∀ s t : Station, stationFeature s = stationFeature t ↔
      s.id = t.id ∧ s.name = t.name ∧ Alike s.longitude t.longitude ∧
        Alike s.latitude t.latitude) ∧
    ∀ o s, contactFeature o ≠ stationFeature s := by
  refine ⟨fun o => ⟨_, _, _, keptRead (contactKept o), coordinateLocated _, coordinateLocated _,
      integerFigured _⟩,
    fun s => ⟨_, _, keptRead (siteKept s), coordinateLocated _, coordinateLocated _⟩,
    fun o p => ⟨contactFields, ?_⟩, fun s t => ⟨stationFields, ?_⟩, fun o s same => ?_⟩
  · rintro ⟨icao, altitude, callsign, squawk, longitude, latitude⟩
    simp only [contactFeature, contact, point, icao, altitude, callsign, squawk,
      coordinateAlike.mpr longitude, coordinateAlike.mpr latitude]
  · rintro ⟨id, name, longitude, latitude⟩
    simp only [stationFeature, site, point, id, name, coordinateAlike.mpr longitude,
      coordinateAlike.mpr latitude]
  · have read : ReadAs (contactFeature o) (site s) := same ▸ keptRead (siteKept s)
    have value := readSame (keptRead (contactKept o)) read
    simp [contact, site, feature] at value

end AirPicture.Cache
