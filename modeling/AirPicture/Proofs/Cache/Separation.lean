import AirPicture.Proofs.Cache.Snapshot

/-! Aircraft and stations share one space of keys. Whatever the keys are, a listing shows
nothing but keys of its own category, each with the feature that was written there last.
That is a feature of the other category only under a key that both of them have, and only
there does an observation touch a listing outside of its own key. -/
namespace AirPicture.Cache

def Category.other : Category → Category
  | .contacts => .stations
  | .stations => .contacts

def keyOf (o : Observation) : Category → Option String
  | .contacts => some o.icao
  | .stations => o.station.map (·.id)

theorem acceptedKey (a : Accepted) (c : Category) : keyOf a.observation c = some (a.key c) := by
  cases c with
  | contacts => rfl
  | stations => simp [keyOf, (vetExact.mp a.vetted).1, Accepted.key]

theorem touchesOwnOrOther (a : Accepted) (c : Category) (key : String) :
    a.touches key = true ↔ a.key c = key ∨ a.key c.other = key := by
  rw [Accepted.touchesExact]
  constructor
  · rintro ⟨category, same⟩
    cases c <;> cases category <;> simp [Category.other, same]
  · rintro (same | same)
    · exact ⟨c, same⟩
    · exact ⟨c.other, same⟩

theorem writtenFeature {a : Accepted} {key : String} (touched : a.touches key = true)
    (c : Category) : (a.key c = key ∧ a.written key = a.feature c) ∨
      (a.key c.other = key ∧ a.written key = a.feature c.other) := by
  unfold Accepted.written
  by_cases station : a.station.id = key
  · rw [if_pos station]
    cases c
    · exact Or.inr ⟨station, rfl⟩
    · exact Or.inl ⟨station, rfl⟩
  · rw [if_neg station]
    have contact : a.key .contacts = key := by
      rcases (touchesOwnOrOther a .contacts key).mp touched with same | same
      · exact same
      · exact False.elim (station same)
    cases c
    · exact Or.inl ⟨contact, rfl⟩
    · exact Or.inr ⟨contact, rfl⟩

namespace Session

theorem shownWritten {life : Nat} {s : Session} (valid : Faithful life s) {c : Category}
    {key feature : String} (inside : (key, feature) ∈ s.world.holdings.shown c s.now) :
    (∃ a ∈ s.log, a.key c = key) ∧
      ∃ a, lastTouch s.log key = some a ∧ a.written key = feature := by
  obtain ⟨member, found⟩ := Holdings.shownExact.mp inside
  obtain ⟨a, last, _, same⟩ := (valid.current s.now (Nat.le_refl _) key feature).mp found
  exact ⟨valid.known c key member, a, last, same⟩

theorem lastTouchFeature {log : List Accepted} {key : String} {a : Accepted}
    (last : lastTouch log key = some a) (c : Category) :
    (∃ b ∈ log, b.key c = key ∧ a.written key = b.feature c) ∨
      (∃ b ∈ log, b.key c.other = key ∧ a.written key = b.feature c.other) := by
  obtain ⟨inside, touched⟩ := lastWhereMember last
  rcases writtenFeature touched c with ⟨same, written⟩ | ⟨same, written⟩
  · exact Or.inl ⟨a, inside, same, written⟩
  · exact Or.inr ⟨a, inside, same, written⟩

theorem keptShown {life : Nat} {s : Session} (valid : Faithful life s) (a : Accepted)
    {c : Category} {key : String} (own : a.key c ≠ key)
    (shared : a.key c.other = key → ∀ b ∈ s.log, b.key c ≠ key) (feature : String) :
    (key, feature) ∈ (s.world.holdings.kept a.observation a.station
        (a.instant + life)).shown c s.now ↔
      (key, feature) ∈ s.world.holdings.shown c s.now := by
  have untouched : key ∈ s.world.holdings.members c.index → a.touches key ≠ true := by
    intro member touched
    obtain ⟨b, inside, named⟩ := valid.known c key member
    rcases (touchesOwnOrOther a c key).mp touched with same | same
    · exact own same
    · exact shared same b inside named
  rw [Holdings.shownExact, Holdings.shownExact, keptMembers, keptCurrent]
  constructor
  · rintro ⟨same | member, found⟩
    · exact False.elim (own same)
    · exact ⟨member, by simpa only [untouched member, Bool.false_eq_true, ↓reduceIte] using found⟩
  · rintro ⟨member, found⟩
    exact ⟨Or.inr member, by simpa only [untouched member, Bool.false_eq_true, ↓reduceIte] using found⟩

theorem observeShown {life : Nat} (counted : Bool) {s : Session} (valid : Faithful life s)
    {o : Observation} {c : Category} {key : String} (own : keyOf o c ≠ some key)
    (shared : keyOf o c.other = some key → ∀ a ∈ s.log, a.key c ≠ key) (feature : String) :
    (key, feature) ∈ (s.step life counted (.observe o)).world.holdings.shown c
        (s.step life counted (.observe o)).now ↔
      (key, feature) ∈ s.world.holdings.shown c s.now := by
  by_cases accepted : (∃ station, vet o = .ok station) ∧ Room s.now life
  · obtain ⟨⟨station, vetted⟩, room⟩ := accepted
    obtain ⟨_, _, stepped⟩ := acceptedStep counted vetted room valid.numeric
    rw [stepped]
    let a : Accepted := ⟨s.now, o, station, vetted⟩
    have keys := acceptedKey a
    refine keptShown valid a ?_ ?_ feature
    · intro same
      exact own ((keys c).trans (congrArg some same))
    · intro same
      exact shared ((keys c.other).trans (congrArg some same))
  · rw [refusedStep counted accepted valid.numeric]

end Session
open Session

/-- The second part compares the listings before and after one more observation. -/
theorem listingsHoldTheirKeys (life start : Nat) (counted : Bool) (actions : List Action) :
    let s := (fresh start).run life counted actions
    (∀ c, ∃ entries, s.listed counted c = .ok entries ∧
      ∀ key feature, (key, feature) ∈ entries →
        (∃ a ∈ s.log, a.key c = key) ∧
        (∃ a, lastTouch s.log key = some a ∧ a.written key = feature) ∧
        ((∃ a ∈ s.log, a.key c = key ∧ feature = a.feature c) ∨
          (∃ a ∈ s.log, a.key c.other = key ∧ feature = a.feature c.other))) ∧
    ∀ o c, ∃ before after, s.listed counted c = .ok before ∧
      (s.step life counted (.observe o)).listed counted c = .ok after ∧
      ∀ key, keyOf o c ≠ some key →
        (keyOf o c.other = some key → ∀ a ∈ s.log, a.key c ≠ key) →
        ∀ feature, (key, feature) ∈ after ↔ (key, feature) ∈ before := by
  intro s
  have valid : Faithful life s := runFaithful counted (freshFaithful life start) actions
  refine ⟨fun c => ⟨_, listedShown counted s c, ?_⟩,
    fun o c => ⟨_, _, listedShown counted s c, listedShown counted _ c, ?_⟩⟩
  · intro key feature inside
    obtain ⟨named, a, last, same⟩ := shownWritten valid inside
    refine ⟨named, ⟨a, last, same⟩, ?_⟩
    rw [← same]
    exact lastTouchFeature last c
  · intro key own shared feature
    exact observeShown counted valid own shared feature

theorem contactShownAsStation :
    let s := (fresh 0).run 600000 true [.observe (overHarbour "S1" 9000)]
    s.listed true .contacts = .ok [("S1", stationFeature harbour)] ∧
      ∀ a ∈ s.log, a.feature .contacts ≠ stationFeature harbour := by
  refine ⟨rfl, ?_⟩
  intro a inside
  have logged : ((fresh 0).run 600000 true [.observe (overHarbour "S1" 9000)]).log =
      [⟨0, overHarbour "S1" 9000, harbour, rfl⟩] := rfl
  rw [logged, List.mem_singleton] at inside
  subst a
  change contactFeature (overHarbour "S1" 9000) ≠ stationFeature harbour
  decide +kernel

theorem sharedKeyWritten :
    ∃ a ∈ ((fresh 0).run 600000 true [.observe (overHarbour "S1" 9000)]).log,
      a.key Category.contacts.other = "S1" ∧
        stationFeature harbour = a.feature Category.contacts.other := by
  have listed : ((fresh 0).run 600000 true [.observe (overHarbour "S1" 9000)]).listed true
      .contacts = .ok [("S1", stationFeature harbour)] := rfl
  obtain ⟨entries, shown, exactly⟩ :=
    (listingsHoldTheirKeys 600000 0 true [.observe (overHarbour "S1" 9000)]).1 .contacts
  cases shown.symm.trans listed
  obtain ⟨_, _, ⟨a, inside, _, same⟩ | other⟩ := exactly "S1" _ (List.mem_singleton_self _)
  · have logged : ((fresh 0).run 600000 true [.observe (overHarbour "S1" 9000)]).log =
        [⟨0, overHarbour "S1" 9000, harbour, rfl⟩] := rfl
    rw [logged, List.mem_singleton] at inside
    subst a
    exact False.elim (absurd same (by decide +kernel))
  · exact other

end AirPicture.Cache
