import AirPicture.Proofs.Cache.Session

/-! Where no aircraft has the address that is some station's id, a read is a snapshot of the
log: for each key that was accepted, the feature of its latest entry unless that expired.
What was read before, and when, makes no difference to it. -/
namespace AirPicture.Cache

namespace Session

def Apart (actions : List Action) : Prop :=
  ∀ o p s t, .observe o ∈ actions → .observe p ∈ actions →
    vet o = .ok s → vet p = .ok t → o.icao ≠ t.id

def KeysApart (log : List Accepted) : Prop :=
  ∀ a ∈ log, ∀ b ∈ log, a.key .contacts ≠ b.key .stations

structure Snapshot (life : Nat) (s : Session) (c : Category) (entries : List (String × String)) :
    Prop where
  ordered : entries.Pairwise (fun a b => a.1 < b.1)
  complete : ∀ key feature, (key, feature) ∈ entries ↔
    ∃ a, latest c s.log key = some a ∧ s.now < a.instant + life ∧ a.feature c = feature

theorem stepLog {life : Nat} {counted : Bool} {s : Session} {action : Action} {a : Accepted}
    (inside : a ∈ (s.step life counted action).log) :
    a ∈ s.log ∨ action = .observe a.observation := by
  cases action with
  | observe o =>
    simp only [step] at inside
    split at inside
    · rcases List.mem_append.mp inside with before | last
      · exact Or.inl before
      · rw [List.mem_singleton.mp last]
        exact Or.inr rfl
    · exact Or.inl inside
  | wait time => exact Or.inl inside
  | list c => exact Or.inl inside
  | collect => exact Or.inl inside

theorem runLog {life : Nat} {counted : Bool} {s : Session} {actions : List Action} {a : Accepted}
    (inside : a ∈ (s.run life counted actions).log) :
    a ∈ s.log ∨ .observe a.observation ∈ actions := by
  induction actions generalizing s with
  | nil => exact Or.inl inside
  | cons action rest ih =>
    rcases ih inside with before | later
    · rcases stepLog before with before | same
      · exact Or.inl before
      · exact Or.inr (by simp [same])
    · exact Or.inr (List.mem_cons_of_mem _ later)

theorem runKeysApart {life : Nat} {counted : Bool} {start : Nat} {actions : List Action}
    (apart : Apart actions) : KeysApart ((fresh start).run life counted actions).log := by
  have observed : ∀ a ∈ ((fresh start).run life counted actions).log,
      .observe a.observation ∈ actions := by
    intro a inside
    rcases runLog inside with before | later
    · simp [fresh] at before
    · exact later
  intro a first b second
  exact apart _ _ _ _ (observed a first) (observed b second) a.vetted b.vetted

theorem touchedKey {log : List Accepted} (apart : KeysApart log) {a b : Accepted}
    (first : a ∈ log) (second : b ∈ log) {c : Category} :
    a.touches (b.key c) = true ↔ a.key c = b.key c := by
  have forward := apart a first b second
  have backward := (apart b second a first).symm
  rw [Accepted.touchesExact]
  constructor
  · rintro ⟨other, same⟩
    cases c with
    | contacts =>
      cases other with
      | contacts => exact same
      | stations => exact False.elim (backward same)
    | stations =>
      cases other with
      | contacts => exact False.elim (forward same)
      | stations => exact same
  · intro same
    exact ⟨c, same⟩

theorem writtenKey {log : List Accepted} (apart : KeysApart log) {a : Accepted}
    (inside : a ∈ log) (c : Category) : a.written (a.key c) = a.feature c := by
  have different : a.station.id ≠ a.observation.icao := (apart a inside a inside).symm
  cases c
  · exact if_neg different
  · exact if_pos rfl

theorem touchedLatest {log : List Accepted} (apart : KeysApart log) {b : Accepted}
    (inside : b ∈ log) (c : Category) : lastTouch log (b.key c) = latest c log (b.key c) := by
  unfold lastTouch latest lastWhere
  congr 1
  apply List.filter_congr
  intro a member
  rw [Bool.eq_iff_iff, decide_eq_true_iff]
  exact touchedKey apart member inside

theorem shownSnapshot {life : Nat} {s : Session} (valid : Faithful life s)
    (apart : KeysApart s.log) (c : Category) :
    Snapshot life s c (s.world.holdings.shown c s.now) where
  ordered := Holdings.shownOrdered _ _ _
  complete key feature := by
    rw [Holdings.shownExact, valid.current s.now (Nat.le_refl _)]
    constructor
    · rintro ⟨member, a, last, soon, rfl⟩
      obtain ⟨b, inside, rfl⟩ := valid.known c key member
      rw [touchedLatest apart inside] at last
      obtain ⟨logged, same⟩ := lastWhereMember last
      have same : a.key c = b.key c := of_decide_eq_true same
      refine ⟨a, last, soon, ?_⟩
      rw [← same, writtenKey apart logged]
    · rintro ⟨a, last, soon, rfl⟩
      obtain ⟨logged, same⟩ := lastWhereMember last
      have same : a.key c = key := of_decide_eq_true same
      subst key
      exact ⟨valid.indexed c a logged soon, a, (touchedLatest apart logged c).trans last, soon,
        writtenKey apart logged c⟩

def Agree (r s : Session) : Prop := r.now = s.now ∧ r.log = s.log

theorem observeAgree {life : Nat} (counted : Bool) {r s : Session} (agree : Agree r s)
    (first : Faithful life r) (second : Faithful life s) (o : Observation) :
    Agree (r.step life counted (.observe o)) (s.step life counted (.observe o)) := by
  by_cases accepted : (∃ station, vet o = .ok station) ∧ Room s.now life
  · obtain ⟨⟨station, vetted⟩, room⟩ := accepted
    obtain ⟨_, _, left⟩ := acceptedStep counted vetted (agree.1 ▸ room) first.numeric
    obtain ⟨_, _, right⟩ := acceptedStep counted vetted room second.numeric
    rw [left, right]
    exact ⟨agree.1, by simp only [agree.1, agree.2]⟩
  · rw [refusedStep counted (agree.1 ▸ accepted) first.numeric,
      refusedStep counted accepted second.numeric]
    exact agree

theorem lastingAgree {life : Nat} (counted : Bool) {r s : Session} (agree : Agree r s)
    (first : Faithful life r) (second : Faithful life s) (actions : List Action) :
    Agree (r.run life counted actions)
      (s.run life counted (actions.filter fun action => !action.reads)) := by
  induction actions generalizing r s with
  | nil => exact agree
  | cons action rest ih =>
    have stepped := stepFaithful counted first action
    cases reads : action.reads with
    | true =>
      obtain ⟨world, same, _⟩ := readStep life counted r reads
      simp only [reads, Bool.not_true, Bool.false_eq_true, not_false_eq_true, List.filter_cons_of_neg]
      exact ih (by rw [same]; exact agree) stepped second
    | false =>
      have other := stepFaithful counted second action
      simp only [reads, Bool.not_false, List.filter_cons_of_pos]
      refine ih ?_ stepped other
      cases action with
      | observe o => exact observeAgree counted agree first second o
      | wait time => exact ⟨congrArg (· + time) agree.1, agree.2⟩
      | list c => contradiction
      | collect => contradiction

theorem snapshotAgree {life : Nat} {r s : Session} (agree : Agree r s) {c : Category}
    {left right : List (String × String)} (first : Snapshot life r c left)
    (second : Snapshot life s c right) : left = right := by
  apply entriesUnique first.ordered second.ordered
  intro key feature
  rw [first.complete, second.complete, agree.1, agree.2]

end Session
open Session

/-- Reads of any run are snapshots of its log, and depend on nothing but what was observed and
when: the same observations with other reads between them are shown alike. -/
theorem readsAreSnapshots (life start : Nat) (counted : Bool) (actions : List Action)
    (apart : Apart actions) :
    let s := (fresh start).run life counted actions
    ∃ contacts stations,
      s.listed counted .contacts = .ok contacts ∧ Snapshot life s .contacts contacts ∧
      s.listed counted .stations = .ok stations ∧ Snapshot life s .stations stations ∧
      s.collected counted = .ok (contacts.map Prod.snd ++ stations.map Prod.snd) ∧
      ∀ others : List Action,
        others.filter (fun action => !action.reads) =
          actions.filter (fun action => !action.reads) →
        let r := (fresh start).run life counted others
        (∀ c, r.listed counted c = s.listed counted c) ∧
          r.collected counted = s.collected counted := by
  intro s
  have begun := freshFaithful life start
  have valid : Faithful life s := runFaithful counted begun actions
  have keys : KeysApart s.log := runKeysApart apart
  refine ⟨_, _, listedShown counted s .contacts, shownSnapshot valid keys .contacts,
    listedShown counted s .stations, shownSnapshot valid keys .stations,
    collectedShown counted s, ?_⟩
  intro others lasting r
  have agree : Agree r s := by
    have left := lastingAgree counted ⟨rfl, rfl⟩ begun begun others
    have right := lastingAgree counted ⟨rfl, rfl⟩ begun begun actions
    rw [lasting] at left
    exact ⟨left.1.trans right.1.symm, left.2.trans right.2.symm⟩
  have other : Faithful life r := runFaithful counted begun others
  have same : ∀ c, r.world.holdings.shown c r.now = s.world.holdings.shown c s.now := fun c =>
    snapshotAgree agree (shownSnapshot other (agree.2 ▸ keys) c) (shownSnapshot valid keys c)
  refine ⟨fun c => ?_, ?_⟩
  · rw [listedShown, listedShown, same]
  · rw [collectedShown, collectedShown, same, same]

def twoAircraft : List Action :=
  [.observe (overHarbour "A00001" 9000), .collect, .wait 400000,
    .observe (overHarbour "ABCD12" 12000), .list .stations, .wait 300000]

theorem twoAircraftSnapshots : Apart twoAircraft ∧
    ((fresh 0).run 600000 true twoAircraft).listed true .contacts =
      .ok [("ABCD12", contactFeature (overHarbour "ABCD12" 12000))] ∧
    let s := (fresh 0).run 600000 true twoAircraft
    ∃ contacts stations,
      s.listed true .contacts = .ok contacts ∧ Snapshot 600000 s .contacts contacts ∧
      s.listed true .stations = .ok stations ∧ Snapshot 600000 s .stations stations ∧
      s.collected true = .ok (contacts.map Prod.snd ++ stations.map Prod.snd) ∧
      ∀ others : List Action,
        others.filter (fun action => !action.reads) =
          twoAircraft.filter (fun action => !action.reads) →
        let r := (fresh 0).run 600000 true others
        (∀ c, r.listed true c = s.listed true c) ∧ r.collected true = s.collected true := by
  have known : ∀ o, .observe o ∈ twoAircraft → o.icao ≠ "S1" ∧ o.station = some harbour := by
    intro o inside
    simp only [twoAircraft, List.mem_cons, Action.observe.injEq, reduceCtorEq, List.not_mem_nil,
      or_false, false_or] at inside
    rcases inside with rfl | rfl <;> exact ⟨by decide, rfl⟩
  have apart : Apart twoAircraft := by
    intro o p s t first second _ vetted same
    have station := (known p second).2.symm.trans (vetExact.mp vetted).1
    cases Option.some.inj station
    exact (known o first).1 same
  exact ⟨apart, rfl, readsAreSnapshots 600000 0 true twoAircraft apart⟩

end AirPicture.Cache
