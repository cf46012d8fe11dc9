import AirPicture.Cache.Surface
import AirPicture.Proofs.Cache.Separation
import AirPicture.Proofs.Decimal.Tokens
import AirPicture.Proofs.Json.Reading

/-! What the read surface answers. Nothing but written features is ever kept, and their texts
stand in the answers as they are. So every answer is JSON, and holds for each feature the very
value that its text is read as: strings of any characters come back as they were observed. -/
namespace AirPicture.Cache
open Json (Value Writes WritesMember)

theorem coordinateProper (x : Float) : (coordinate x).Proper := by
  unfold coordinate
  split
  · exact Decimal.finiteNumber coordinateLayout x
  · trivial

theorem contactProper (o : Observation) : (contact o).Proper :=
  ⟨⟨⟨coordinateProper _, coordinateProper _, trivial⟩, trivial, trivial⟩,
    ⟨Decimal.integerNumber _, trivial, trivial, trivial, trivial, trivial⟩, trivial, trivial⟩

theorem siteProper (s : Station) : (site s).Proper :=
  ⟨⟨⟨coordinateProper _, coordinateProper _, trivial⟩, trivial, trivial⟩,
    ⟨trivial, trivial, trivial, trivial⟩, trivial, trivial⟩

theorem trimmedObject (members : List (String × List Char)) :
    Json.trimmed (Json.writeObject members) = Json.writeObject members := by
  have opening : Json.isSpace '\x7b' = false := rfl
  have closing : Json.isSpace '\x7d' = false := rfl
  simp [Json.trimmed, Json.writeObject, opening, closing]

def Accepted.value (a : Accepted) : Category → Value
  | .contacts => contact a.observation
  | .stations => site a.station

def ReadAs (feature : String) (v : Value) : Prop := Json.read feature.toList = .ok (v, false)

def Kept (feature : String) (v : Value) : Prop :=
  feature = String.ofList v.write ∧ Writes v.write v ∧ Json.trimmed v.write = v.write

theorem contactKept (o : Observation) : Kept (contactFeature o) (contact o) :=
  ⟨rfl, Json.valueWritten _ (contactProper o), trimmedObject _⟩

theorem siteKept (s : Station) : Kept (stationFeature s) (site s) :=
  ⟨rfl, Json.valueWritten _ (siteProper s), trimmedObject _⟩

theorem featureKept (a : Accepted) (c : Category) : Kept (a.feature c) (a.value c) := by
  cases c with
  | contacts => exact contactKept a.observation
  | stations => exact siteKept a.station

theorem keptRead {feature : String} {v : Value} (kept : Kept feature v) : ReadAs feature v := by
  obtain ⟨rfl, writes, _⟩ := kept
  rw [ReadAs, String.toList_ofList]
  exact Json.readWritten writes

theorem keptChecked {feature : String} {v : Value} (kept : Kept feature v) :
    checked feature = .ok v.write := by
  have read := keptRead kept
  obtain ⟨rfl, _, same⟩ := kept
  rw [checked, show Json.read _ = _ from read]
  simp [same]

theorem valuesFound {α β : Type} {related : α → β → Prop} {items : List α}
    (each : ∀ item ∈ items, ∃ value, related item value) :
    ∃ values, List.Forall₂ related items values := by
  induction items with
  | nil => exact ⟨[], .nil⟩
  | cons item rest ih =>
    obtain ⟨⟨value, first⟩, others⟩ := List.forall_mem_cons.mp each
    obtain ⟨values, later⟩ := ih others
    exact ⟨value :: values, .cons first later⟩

def KeptAs (entry : String × String) (member : String × Value) : Prop :=
  entry.1 = member.1 ∧ Kept entry.2 member.2

theorem entriesChecked {entries : List (String × String)} {members : List (String × Value)}
    (kept : List.Forall₂ KeptAs entries members) :
    ∃ texts, entries.mapM checkedEntry = .ok texts ∧ List.Forall₂ WritesMember texts members := by
  induction kept with
  | nil => exact ⟨[], rfl, .nil⟩
  | @cons entry member _ _ first _ ih =>
    obtain ⟨texts, checkedAll, written⟩ := ih
    refine ⟨(entry.1, member.2.write) :: texts, ?_, .cons ⟨first.1, first.2.2.1⟩ written⟩
    rw [List.mapM_cons, checkedAll, checkedEntry, keptChecked first.2]
    rfl

theorem featuresChecked {features : List String} {values : List Value}
    (kept : List.Forall₂ Kept features values) :
    ∃ texts, features.mapM checked = .ok texts ∧ List.Forall₂ Writes texts values := by
  induction kept with
  | nil => exact ⟨[], rfl, .nil⟩
  | @cons feature value _ _ first _ ih =>
    obtain ⟨texts, checkedAll, written⟩ := ih
    refine ⟨value.write :: texts, ?_, .cons first.2.1 written⟩
    rw [List.mapM_cons, checkedAll, keptChecked first]
    rfl

theorem listingRead (c : Category) {entries : List (String × String)}
    {members : List (String × Value)} (kept : List.Forall₂ KeptAs entries members) :
    ∃ body, listingBody c entries = .ok body ∧
      ReadAs body (.object [(c.index, .object members)]) := by
  obtain ⟨texts, checkedAll, written⟩ := entriesChecked kept
  refine ⟨_, by rw [listingBody, checkedAll]; rfl, ?_⟩
  rw [ReadAs, String.toList_ofList]
  exact Json.readWritten (Json.objectWritten (.cons ⟨rfl, Json.objectWritten written⟩ .nil))

theorem collectionRead {features : List String} {values : List Value}
    (kept : List.Forall₂ Kept features values) :
    ∃ body, collectionBody features = .ok body ∧
      ReadAs body (.object [("type", .text "FeatureCollection"), ("features", .array values)]) := by
  obtain ⟨texts, checkedAll, written⟩ := featuresChecked kept
  refine ⟨_, by rw [collectionBody, checkedAll]; rfl, ?_⟩
  rw [ReadAs, String.toList_ofList]
  exact Json.readWritten (Json.objectWritten
    (.cons ⟨rfl, Json.textWritten _⟩ (.cons ⟨rfl, Json.arrayWritten written⟩ .nil)))

theorem respondReading {counted : Bool} {r : Request} {found : Resource} {now : Nat} (w : World)
    (reads : r.method = "GET") (known : resource r.address = some found) :
    respond (Program.run now) counted r w =
      (answered ((found.body counted).run now w).1, ((found.body counted).run now w).2) := by
  simp [respond, known, reads]

theorem entriesRun (counted : Bool) (c : Category) (now : Nat) (w : World) :
    (Resource.body counted (.entries c)).run now w =
      (.ok (listingBody c (w.holdings.shown c now)), ((listing counted c).run now w).2) := by
  have ran := listingRun counted c now w
  unfold Resource.body
  rw [Program.runAfter ran, Program.runDone, ran]

theorem mergedRun (counted : Bool) (now : Nat) (w : World) :
    (Resource.body counted .merged).run now w =
      (.ok (collectionBody ((w.holdings.shown .contacts now).map Prod.snd ++
        (w.holdings.shown .stations now).map Prod.snd)), ((collection counted).run now w).2) := by
  have ran := collectionRun counted now w
  unfold Resource.body
  rw [Program.runAfter ran, Program.runDone, ran]

namespace Session

def Records (s : Session) (v : Value) : Prop := ∃ a ∈ s.log, ∃ c, v = a.value c

structure ListedAs (s : Session) (entry : String × String) (member : String × Value) : Prop where
  key : entry.1 = member.1
  value : ReadAs entry.2 member.2
  recorded : s.Records member.2

structure CollectedAs (s : Session) (feature : String) (v : Value) : Prop where
  value : ReadAs feature v
  recorded : s.Records v

theorem shownKept {life : Nat} {s : Session} (valid : Faithful life s) {c : Category}
    {entry : String × String} (inside : entry ∈ s.world.holdings.shown c s.now) :
    ∃ v, Kept entry.2 v ∧ s.Records v := by
  obtain ⟨_, a, last, same⟩ := shownWritten valid inside
  rcases lastTouchFeature last c with ⟨b, logged, _, written⟩ | ⟨b, logged, _, written⟩
  · exact ⟨b.value c, same ▸ written ▸ featureKept b c, b, logged, c, rfl⟩
  · exact ⟨b.value c.other, same ▸ written ▸ featureKept b c.other, b, logged, c.other, rfl⟩

theorem membersFound {life : Nat} {s : Session} (valid : Faithful life s) (c : Category) :
    ∃ members : List (String × Value),
      List.Forall₂ (fun entry member => KeptAs entry member ∧ s.Records member.2)
        (s.world.holdings.shown c s.now) members := by
  refine valuesFound fun entry inside => ?_
  obtain ⟨v, kept, recorded⟩ := shownKept valid inside
  exact ⟨(entry.1, v), ⟨rfl, kept⟩, recorded⟩

theorem featuresFound {life : Nat} {s : Session} (valid : Faithful life s) :
    ∃ values, List.Forall₂ (fun feature v => Kept feature v ∧ s.Records v)
      ((s.world.holdings.shown .contacts s.now).map Prod.snd ++
        (s.world.holdings.shown .stations s.now).map Prod.snd) values := by
  refine valuesFound fun feature inside => ?_
  rcases List.mem_append.mp inside with contact | station
  · obtain ⟨entry, shown, rfl⟩ := List.mem_map.mp contact
    exact shownKept valid shown
  · obtain ⟨entry, shown, rfl⟩ := List.mem_map.mp station
    exact shownKept valid shown

end Session
open Session

/-- Whatever was observed and read before, each of the three paths answers with JSON. A listing
holds just the keys that are listed, which differ from one another, and for each the value of its
feature; a collection holds the values of its features in their order. Every value is that of an
observation or of a station, as it was accepted. -/
theorem answersAreFaithful (life start : Nat) (counted : Bool) (actions : List Action) :
    let s := (fresh start).run life counted actions
    (∀ (r : Request) (c : Category), r.method = "GET" → resource r.address = some (.entries c) →
      ∃ entries members body, s.listed counted c = .ok entries ∧
        entries.Pairwise (fun a b => a.1 < b.1) ∧ List.Forall₂ s.ListedAs entries members ∧
        respond (Program.run s.now) counted r s.world =
          (⟨200, asJson, body⟩, (s.step life counted (.list c)).world) ∧
        ReadAs body (.object [(c.index, .object members)])) ∧
    (∀ r : Request, r.method = "GET" → resource r.address = some .merged →
      ∃ features values body, s.collected counted = .ok features ∧
        List.Forall₂ s.CollectedAs features values ∧
        respond (Program.run s.now) counted r s.world =
          (⟨200, asJson, body⟩, (s.step life counted .collect).world) ∧
        ReadAs body (.object
          [("type", .text "FeatureCollection"), ("features", .array values)])) ∧
    resource "/contacts" = some (.entries .contacts) ∧
    resource "/stations" = some (.entries .stations) ∧ resource "/geojson" = some .merged := by
  intro s
  have valid : Faithful life s := runFaithful counted (freshFaithful life start) actions
  refine ⟨fun r c reads known => ?_, fun r reads known => ?_, by decide, by decide, by decide⟩
  · obtain ⟨members, found⟩ := membersFound valid c
    obtain ⟨body, made, read⟩ := listingRead c (found.imp fun _ _ both => both.1)
    refine ⟨_, members, body, listedShown counted s c, Holdings.shownOrdered _ _ _,
      found.imp fun _ _ both => ⟨both.1.1, keptRead both.1.2, both.2⟩, ?_, read⟩
    rw [respondReading s.world reads known, entriesRun, made]
    rfl
  · obtain ⟨values, found⟩ := featuresFound valid
    obtain ⟨body, made, read⟩ := collectionRead (found.imp fun _ _ both => both.1)
    refine ⟨_, values, body, collectedShown counted s,
      found.imp fun _ _ both => ⟨keptRead both.1, both.2⟩, ?_, read⟩
    rw [respondReading s.world reads known, mergedRun, made]
    rfl

def oddlyNamed : Observation :=
  ⟨"A\"\\\n\x01é", -25, Float.ofBits 0x7FF8000000000000, Float.ofBits 0xFFF0000000000000, some "",
    none, some ⟨"S\u2028", "\t", 1.0e300, -0.0⟩, 0⟩

theorem oddlyNamedAnswered :
    let s := (fresh 0).run 600000 true [.observe oddlyNamed, .collect, .wait 599999]
    ∃ body, (respond (Program.run s.now) true ⟨"GET", "/contacts?all", []⟩ s.world).1 =
        ⟨200, asJson, body⟩ ∧
      ReadAs body (.object [("contacts", .object [("A\"\\\n\x01é", contact oddlyNamed)])]) := by
  intro s
  obtain ⟨entries, members, body, listed, _, shown, answer, read⟩ :=
    (answersAreFaithful 600000 0 true [.observe oddlyNamed, .collect, .wait 599999]).1
      ⟨"GET", "/contacts?all", []⟩ .contacts rfl (by decide)
  have known : s.listed true .contacts = .ok [("A\"\\\n\x01é", contactFeature oddlyNamed)] := rfl
  cases Except.ok.inj (listed.symm.trans known)
  cases shown with
  | @cons _ member _ _ first none =>
    cases none
    obtain ⟨key, v⟩ := member
    obtain ⟨named, value, _⟩ := first
    have same := congrArg Prod.fst
      (Except.ok.inj (value.symm.trans (keptRead (contactKept oddlyNamed))))
    cases named
    cases same
    exact ⟨body, congrArg Prod.fst answer, read⟩

end AirPicture.Cache
