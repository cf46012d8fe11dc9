import AirPicture.Proofs.Decimal.Values
import AirPicture.Proofs.Feed.Coordinates
import AirPicture.Proofs.Text.Trimming

/-! Which entries are usable, as they stand. Blanks around what is said do not count; of several
faults the first is told, in the order of what is missing, the latitude, the longitude and the port.
The address that follows has its port after its last colon. -/
namespace AirPicture.Feed
open Binary64 (Becomes Rounds Stands)
open Decimal (IntegerFault Means Whole Writes figures meansWrites readMeans readWhole writesMeans)
open Text (Blank trim)

section Coordinates
variable {axis : Axis} {text : List Char} {result : Except SettingFault Float}

inductive Places (axis : Axis) (text : List Char) : Except SettingFault Float → Prop
  | held {x : Float} (means : Means text x) (holds : axis.Holds x) : Places axis text (.ok x)
  | unreadable (nothing : ∀ x, ¬ Means text x) :
      Places axis text (.error (.unreadable axis (String.ofList text)))
  | outOfRange {x : Float} (means : Means text x) (beyond : ¬ axis.Holds x) :
      Places axis text (.error (.outOfRange axis x))

theorem placesRead (places : Places axis text result) : readAxis axis text = result := by
  unfold readAxis
  cases places with
  | held means holds => simp only [readMeans.mpr means, admitsHolds.mpr holds, ↓reduceIte]
  | unreadable nothing =>
    have none : Decimal.readFloat text = none :=
      Option.eq_none_iff_forall_ne_some.mpr fun x read => nothing x (readMeans.mp read)
    simp only [none]
  | outOfRange means beyond =>
    simp only [readMeans.mpr means, if_neg (mt admitsHolds.mp beyond)]

theorem readPlaces : readAxis axis text = result ↔ Places axis text result := by
  refine ⟨?_, placesRead⟩
  rintro rfl
  unfold readAxis
  split
  · rename_i none
    refine .unreadable fun x means => ?_
    rw [readMeans.mpr means] at none
    contradiction
  · rename_i read
    split
    · rename_i admitted
      exact .held (readMeans.mp read) (admitsHolds.mp admitted)
    · rename_i refused
      exact .outOfRange (readMeans.mp read) (mt admitsHolds.mpr refused)

theorem placesHeld {x : Float} : Places axis text (.ok x) ↔ Means text x ∧ axis.Holds x := by
  constructor
  · rintro ⟨means, holds⟩
    exact ⟨means, holds⟩
  · rintro ⟨means, holds⟩
    exact .held means holds

theorem heldWrites {x : Float} (means : Means text x) (holds : axis.Holds x) :
    ∃ q r, Writes text q ∧ Rounds q r ∧ Stands x r ∧ |r| ≤ axis.degrees := by
  obtain ⟨q, r, writes, stands, rounds⟩ := meansWrites means holds.finite
  exact ⟨q, r, writes, rounds, stands, (holdsExact stands).mp holds⟩

theorem degreesPlaced (axis : Axis) : ∃ j : Int, -1074 ≤ j ∧ axis.degrees = (45 : Int) * 2 ^ j := by
  cases axis with
  | latitude => exact ⟨1, by decide, by norm_num [Axis.degrees]⟩
  | longitude => exact ⟨2, by decide, by norm_num [Axis.degrees]⟩

theorem degreesFew (axis : Axis) : axis.degrees ≤ 2 ^ (8 : Int) := by
  cases axis <;> norm_num [Axis.degrees]

theorem becomesHolds {x : Float} {q : ℚ} (becomes : Becomes x q) (small : |q| ≤ axis.degrees) :
    axis.Holds x := by
  obtain ⟨stands, rounds⟩ | ⟨-, great⟩ := becomes
  · obtain ⟨j, low, limit⟩ := degreesPlaced axis
    rw [holdsExact stands]
    rw [limit] at small ⊢
    exact rounds.abs.most (abs_nonneg q) small (by decide) low
  · have few : |q| ≤ 2 ^ (1000 : Int) :=
      (small.trans (degreesFew axis)).trans (zpow_le_zpow_right₀ one_le_two (by decide))
    exact absurd few (not_le.mpr (Binary64.overflowGreat.trans_le great))

theorem writtenHeld {q : ℚ} (writes : Writes text q) (small : |q| ≤ axis.degrees) :
    ∃ x, Places axis text (.ok x) := by
  obtain ⟨x, means, becomes⟩ := writesMeans writes
  exact ⟨x, .held means (becomesHolds becomes small)⟩

end Coordinates

section Ports
variable {text : List Char} {result : Except SettingFault Nat}

inductive Serves (text : List Char) : Except SettingFault Nat → Prop
  | usual (unsaid : text = []) : Serves text (.ok usualPort)
  | port {n : Nat} (said : text ≠ []) (whole : Whole greatestPort text (.ok n)) :
      Serves text (.ok n)
  | fault {f : IntegerFault} (said : text ≠ []) (whole : Whole greatestPort text (.error f)) :
      Serves text (.error (.port (String.ofList text) f))

theorem servesRead (serves : Serves text result) : readPort text = result := by
  unfold readPort
  cases serves with
  | usual unsaid => rw [if_pos unsaid]
  | port said whole => rw [if_neg said, readWhole.mpr whole]
  | fault said whole => rw [if_neg said, readWhole.mpr whole]

theorem readServes : readPort text = result ↔ Serves text result := by
  refine ⟨?_, servesRead⟩
  rintro rfl
  unfold readPort
  split
  · rename_i unsaid
    exact .usual unsaid
  · rename_i said
    split
    · rename_i read
      exact .port said (readWhole.mp read)
    · rename_i read
      exact .fault said (readWhole.mp read)

theorem servesSmall {n : Nat} (serves : Serves text (.ok n)) : n ≤ greatestPort := by
  cases serves with
  | usual => decide
  | port said whole =>
    cases whole with
    | number signed shown fitting => exact fitting.small

end Ports

def Entry.place (e : Entry) : Axis → List Char
  | .latitude => trim e.latitude.toList
  | .longitude => trim e.longitude.toList

def Entry.site (e : Entry) : List Char := trim e.host.toList

def Entry.door (e : Entry) : List Char := trim e.port.toList

structure Entry.Complete (e : Entry) : Prop where
  placed : ∀ axis, e.place axis ≠ []
  hosted : e.site ≠ []

def Settings.coordinate (s : Settings) : Axis → Float
  | .latitude => s.latitude
  | .longitude => s.longitude

structure Entry.Usable (e : Entry) (s : Settings) : Prop where
  complete : e.Complete
  placed : ∀ axis, Means (e.place axis) (s.coordinate axis) ∧ axis.Holds (s.coordinate axis)
  port : Serves e.door (.ok s.port)
  host : s.host = String.ofList e.site
  named : s.stationName = e.stationName

inductive Entry.Fails (e : Entry) : SettingFault → Prop
  | missing (incomplete : ¬ e.Complete) : e.Fails .missing
  | latitude {f : SettingFault} (complete : e.Complete)
      (fault : Places .latitude (e.place .latitude) (.error f)) : e.Fails f
  | longitude {f : SettingFault} {x : Float} (complete : e.Complete)
      (first : Places .latitude (e.place .latitude) (.ok x))
      (fault : Places .longitude (e.place .longitude) (.error f)) : e.Fails f
  | port {f : SettingFault} {x y : Float} (complete : e.Complete)
      (first : Places .latitude (e.place .latitude) (.ok x))
      (second : Places .longitude (e.place .longitude) (.ok y))
      (fault : Serves e.door (.error f)) : e.Fails f

section Settling
variable {e : Entry} {s : Settings} {f : SettingFault}

theorem incompleteExact : e.place .latitude = [] ∨ e.place .longitude = [] ∨ e.site = [] ↔
    ¬ e.Complete := by
  constructor
  · rintro (none | none | none) complete
    · exact complete.placed _ none
    · exact complete.placed _ none
    · exact complete.hosted none
  · intro incomplete
    by_contra some
    simp only [not_or] at some
    exact incomplete ⟨fun axis => by cases axis <;> simp [some], some.2.2⟩

theorem settleMissing (incomplete : ¬ e.Complete) : e.settle = .error .missing :=
  if_pos (incompleteExact.mpr incomplete)

theorem settleComplete (complete : e.Complete) : e.settle = (do
    let latitude ← readAxis .latitude (e.place .latitude)
    let longitude ← readAxis .longitude (e.place .longitude)
    let port ← readPort e.door
    pure ⟨e.stationName, latitude, longitude, String.ofList e.site, port⟩) :=
  if_neg fun none => incompleteExact.mp none complete

theorem settleUsable (usable : e.Usable s) : e.settle = .ok s := by
  obtain ⟨stationName, latitude, longitude, host, port⟩ := s
  obtain ⟨complete, placed, serves, rfl, rfl⟩ := usable
  rw [settleComplete complete, placesRead (placesHeld.mpr (placed .latitude)),
    placesRead (placesHeld.mpr (placed .longitude)), servesRead serves]
  rfl

theorem settleFails (fails : e.Fails f) : e.settle = .error f := by
  cases fails with
  | missing incomplete => exact settleMissing incomplete
  | latitude complete fault =>
    rw [settleComplete complete, placesRead fault]
    rfl
  | longitude complete first fault =>
    rw [settleComplete complete, placesRead first, placesRead fault]
    rfl
  | port complete first second fault =>
    rw [settleComplete complete, placesRead first, placesRead second, servesRead fault]
    rfl

theorem entryKnown (e : Entry) : (∃ s, e.Usable s) ∨ ∃ f, e.Fails f := by
  by_cases complete : e.Complete
  · cases north : readAxis .latitude (e.place .latitude) with
    | error f => exact .inr ⟨f, .latitude complete (readPlaces.mp north)⟩
    | ok latitude =>
      have first := readPlaces.mp north
      cases east : readAxis .longitude (e.place .longitude) with
      | error f => exact .inr ⟨f, .longitude complete first (readPlaces.mp east)⟩
      | ok longitude =>
        have second := readPlaces.mp east
        cases door : readPort e.door with
        | error f => exact .inr ⟨f, .port complete first second (readServes.mp door)⟩
        | ok port =>
          refine .inl ⟨⟨e.stationName, latitude, longitude, String.ofList e.site, port⟩, complete,
            fun axis => ?_, readServes.mp door, rfl, rfl⟩
          cases axis with
          | latitude => exact placesHeld.mp first
          | longitude => exact placesHeld.mp second
  · exact .inr ⟨_, .missing complete⟩

theorem settledUsable : e.settle = .ok s ↔ e.Usable s := by
  refine ⟨fun settled => ?_, settleUsable⟩
  obtain ⟨known, usable⟩ | ⟨f, fails⟩ := entryKnown e
  · rw [settleUsable usable] at settled
    cases settled
    exact usable
  · rw [settleFails fails] at settled
    contradiction

theorem settledHolds (settled : e.settle = .ok s) :
    Axis.latitude.Holds s.latitude ∧ Axis.longitude.Holds s.longitude := by
  have usable := settledUsable.mp settled
  exact ⟨(usable.placed .latitude).2, (usable.placed .longitude).2⟩

theorem settledFails : e.settle = .error f ↔ e.Fails f := by
  refine ⟨fun settled => ?_, settleFails⟩
  obtain ⟨known, usable⟩ | ⟨f, fails⟩ := entryKnown e
  · rw [settleUsable usable] at settled
    contradiction
  · rw [settleFails fails] at settled
    cases settled
    exact fails

end Settling

section Addresses
variable {s : Settings} {before after host port : List Char}

theorem lastColon (plain : ':' ∉ after) (bare : ':' ∉ port)
    (same : before ++ ':' :: after = host ++ ':' :: port) : before = host ∧ after = port := by
  obtain ⟨middle, rfl, rest⟩ | ⟨middle, rfl, rest⟩ := List.append_eq_append_iff.mp same
  · cases middle with
    | nil => exact ⟨(List.append_nil _).symm, (List.cons.inj rest).2⟩
    | cons c middle =>
      obtain ⟨rfl, rfl⟩ := List.cons.inj rest
      simp at plain
  · cases middle with
    | nil => exact ⟨List.append_nil _, (List.cons.inj rest).2.symm⟩
    | cons c middle =>
      obtain ⟨rfl, rfl⟩ := List.cons.inj rest
      simp at bare

theorem figuresPlain (n : Nat) : ':' ∉ figures n := by
  intro inside
  have figure := Decimal.figuresKnown n ':' inside
  contradiction

theorem addressParts (s : Settings) :
    s.address.toList = s.host.toList ++ ':' :: figures s.port := by
  simp [Settings.address, figures, Nat.repr]

theorem addressSplits (plain : ':' ∉ after) : s.address.toList = before ++ ':' :: after ↔
    before = s.host.toList ∧ after = figures s.port := by
  rw [addressParts]
  constructor
  · intro same
    exact lastColon plain (figuresPlain s.port) same.symm
  · rintro ⟨rfl, rfl⟩
    rfl

end Addresses

section Padding

def Wraps (outer inner : String) : Prop :=
  ∃ lead trail, Blank lead ∧ Blank trail ∧ outer.toList = lead ++ inner.toList ++ trail

structure Entry.Wraps (outer inner : Entry) : Prop where
  latitude : Feed.Wraps outer.latitude inner.latitude
  longitude : Feed.Wraps outer.longitude inner.longitude
  host : Feed.Wraps outer.host inner.host
  port : Feed.Wraps outer.port inner.port
  named : outer.stationName = inner.stationName

theorem wrapsTrim {outer inner : String} (wraps : Wraps outer inner) :
    trim outer.toList = trim inner.toList := by
  obtain ⟨lead, trail, before, after, same⟩ := wraps
  obtain ⟨first, last, start, ending, bare, split⟩ := Text.trimSplit inner.toList
  have around : outer.toList = (lead ++ first) ++ trim inner.toList ++ (last ++ trail) := by
    nth_rewrite 1 [same, split]
    simp only [List.append_assoc]
  rw [around]
  exact Text.trimMiddle (List.forall_mem_append.mpr ⟨before, start⟩)
    (List.forall_mem_append.mpr ⟨ending, after⟩) bare

theorem wrapsSettle {outer inner : Entry} (wraps : outer.Wraps inner) :
    outer.settle = inner.settle := by
  simp only [Entry.settle, wrapsTrim wraps.latitude, wrapsTrim wraps.longitude,
    wrapsTrim wraps.host, wrapsTrim wraps.port, wraps.named]

end Padding

/-- An entry settles exactly if it is usable, and otherwise with its first fault. Its coordinates
are what the numbers that are written are rounded to, and none within the limits is refused; its
address splits at the last colon into the host and the port; and blanks around what is said make
no difference. -/
theorem entriesSettled (e : Entry) :
    (∀ s, e.settle = .ok s ↔ e.Usable s) ∧
    (∀ f, e.settle = .error f ↔ e.Fails f) ∧
    (∀ s, e.Usable s →
      (∀ axis, ∃ q r, Writes (e.place axis) q ∧ Rounds q r ∧ Stands (s.coordinate axis) r ∧
        |r| ≤ axis.degrees) ∧
      Whole greatestPort (figures s.port) (.ok s.port) ∧
      ∀ before after, ':' ∉ after → (s.address.toList = before ++ ':' :: after ↔
        before = e.site ∧ after = figures s.port)) ∧
    (∀ axis q, Writes (e.place axis) q → |q| ≤ axis.degrees →
      ∃ x, Places axis (e.place axis) (.ok x)) ∧
    ∀ outer : Entry, outer.Wraps e → outer.settle = e.settle := by
  refine ⟨fun _ => settledUsable, fun _ => settledFails, fun s usable => ⟨fun axis => ?_, ?_, ?_⟩,
    fun _ _ => writtenHeld, fun _ => wrapsSettle⟩
  · exact heldWrites (usable.placed axis).1 (usable.placed axis).2
  · exact Decimal.figuresWhole (servesSmall usable.port)
  · have host : s.host.toList = e.site := by rw [usable.host, String.toList_ofList]
    exact fun before after plain => host ▸ addressSplits plain

def pierEntry : Entry := ⟨"", "Pier", "+40.5", "-75", "pier:1", ""⟩

def widePier : Entry := ⟨"", "Pier", " +40.5", "-75\t", "\u00A0pier:1", "\n"⟩

def farPier : Entry := ⟨"", "Pier", "90.5", "-75", "pier:1", "65536"⟩

def pierSettings : Settings := ⟨"Pier", 40.5, -75, "pier:1", 30002⟩

theorem pierWritten : Writes (pierEntry.place .latitude) (81 / 2) := by
  have spelt : Decimal.Numerals "40.5".toList ⟨"40".toList, "5".toList, 0⟩ :=
    @Decimal.Numerals.mk "40".toList ['.'] "5".toList [] 0 (List.all_eq_true.mp rfl)
      (List.all_eq_true.mp rfl) (.inl (by decide)) (.inr rfl) .none
  have value : (⟨"40".toList, "5".toList, 0⟩ : Decimal.Numeral).value = 81 / 2 := by
    have digits : Decimal.number ("40".toList ++ "5".toList) = 405 := by decide
    have places : "5".toList.length = 1 := rfl
    rw [Decimal.Numeral.value, digits, places]
    norm_num
  have writes := Writes.mk .plus spelt
  rwa [if_neg (by decide), value] at writes

theorem pierSettled :
    pierEntry.Usable pierSettings ∧ widePier.settle = .ok pierSettings ∧
    pierSettings.address.toList = "pier:1".toList ++ ':' :: "30002".toList ∧
    (∃ x, Places .latitude (pierEntry.place .latitude) (.ok x)) ∧
    farPier.Fails (.outOfRange .latitude 90.5) := by
  obtain ⟨settled, -, addressed, written, wrapped⟩ := entriesSettled pierEntry
  have usable : pierEntry.Usable pierSettings := (settled _).mp (by decide +kernel)
  have none : Blank [] := by simp [Blank]
  have one {c : Char} (blank : Text.isBlank c = true) : Blank [c] := by simpa [Blank] using blank
  have wide : widePier.Wraps pierEntry :=
    ⟨⟨[' '], [], one rfl, none, rfl⟩, ⟨[], ['\t'], none, one rfl, rfl⟩,
      ⟨['\u00A0'], [], one rfl, none, rfl⟩, ⟨['\n'], [], one rfl, none, rfl⟩, rfl⟩
  obtain ⟨-, -, splits⟩ := addressed _ usable
  refine ⟨usable, (wrapped _ wide).trans ((settled _).mpr usable), ?_, ?_, ?_⟩
  · exact (splits _ _ (by decide)).mpr ⟨rfl, by decide⟩
  · exact written .latitude (81 / 2) pierWritten (by norm_num [Axis.degrees, abs_of_pos])
  · exact ((entriesSettled farPier).2.1 _).mp (by decide +kernel)

end AirPicture.Feed
