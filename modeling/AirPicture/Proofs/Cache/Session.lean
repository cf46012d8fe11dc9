import AirPicture.Proofs.Cache.Listing
import AirPicture.Proofs.Cache.Intake

/-! One cache in sequential use: observations, reads and waiting, one after another, from
an empty cache on. Beside the cache stands the log of what was accepted and when. At every
moment the current value under a key is what the log says was last written there, an index
holds no key that was not accepted for it, and it holds every key that has not expired. -/
namespace AirPicture.Cache

inductive Action where
  | observe (o : Observation)
  | wait (time : Nat)
  | list (c : Category)
  | collect

def Action.reads : Action → Bool
  | .list _ | .collect => true
  | .observe _ | .wait _ => false

def lastWhere (condition : Accepted → Bool) (log : List Accepted) : Option Accepted :=
  (log.filter condition).getLast?

theorem lastWhereAppend (condition : Accepted → Bool) (log : List Accepted) (a : Accepted) :
    lastWhere condition (log ++ [a]) = if condition a then some a else lastWhere condition log := by
  unfold lastWhere
  cases met : condition a <;> simp [met]

theorem lastWhereMember {condition log a} (last : lastWhere condition log = some a) :
    a ∈ log ∧ condition a = true :=
  List.mem_filter.mp (List.mem_of_getLast? last)

theorem lastWhereLatest (condition : Accepted → Bool) {log a}
    (order : log.Pairwise (fun a b => a.instant ≤ b.instant)) (inside : a ∈ log)
    (met : condition a = true) :
    ∃ b, lastWhere condition log = some b ∧ a.instant ≤ b.instant := by
  have member : a ∈ log.filter condition := List.mem_filter.mpr ⟨inside, met⟩
  have nonempty := List.ne_nil_of_mem member
  refine ⟨(log.filter condition).getLast nonempty, List.getLast?_eq_some_getLast nonempty, ?_⟩
  have sorted := List.Pairwise.filter condition order
  rw [← List.dropLast_append_getLast nonempty] at sorted member
  rcases List.mem_append.mp member with before | last
  · exact (List.pairwise_append.mp sorted).2.2 a before _ (List.mem_singleton_self _)
  · rw [List.mem_singleton.mp last]

def latest (c : Category) (log : List Accepted) (key : String) : Option Accepted :=
  lastWhere (fun a => a.key c = key) log

def lastTouch (log : List Accepted) (key : String) : Option Accepted :=
  lastWhere (fun a => a.touches key) log

structure Session where
  world : World
  now : Nat
  log : List Accepted

namespace Session

def fresh (start : Nat) : Session := ⟨.empty, start, []⟩

def step (life : Nat) (counted : Bool) (s : Session) : Action → Session
  | .observe o =>
    let (answer, world) := receive (Program.run s.now) life o s.world
    match answer, vetted : vet o with
    | .ok ⟨true, _⟩, .ok station => ⟨world, s.now, s.log ++ [⟨s.now, o, station, vetted⟩]⟩
    | _, _ => { s with world }
  | .wait time => { s with now := s.now + time }
  | .list c => { s with world := ((listing counted c).run s.now s.world).2 }
  | .collect => { s with world := ((collection counted).run s.now s.world).2 }

def run (life : Nat) (counted : Bool) (s : Session) (actions : List Action) : Session :=
  actions.foldl (step life counted) s

def listed (counted : Bool) (s : Session) (c : Category) :
    Except Failure (List (String × String)) :=
  ((listing counted c).run s.now s.world).1

def collected (counted : Bool) (s : Session) : Except Failure (List String) :=
  ((collection counted).run s.now s.world).1

theorem listedShown (counted : Bool) (s : Session) (c : Category) :
    s.listed counted c = .ok (s.world.holdings.shown c s.now) := by
  unfold listed
  rw [listingRun]

theorem collectedShown (counted : Bool) (s : Session) :
    s.collected counted = .ok ((s.world.holdings.shown .contacts s.now).map Prod.snd ++
      (s.world.holdings.shown .stations s.now).map Prod.snd) := by
  unfold collected
  rw [collectionRun]

theorem readStep (life : Nat) (counted : Bool) (s : Session) {action : Action}
    (reads : action.reads = true) :
    ∃ world, s.step life counted action = { s with world } ∧
      World.Tidied s.now s.world world := by
  cases action with
  | observe o => contradiction
  | wait time => contradiction
  | list c => exact ⟨_, rfl, listingTidied counted c s.now s.world⟩
  | collect => exact ⟨_, rfl, collectionTidied counted s.now s.world⟩

theorem acceptedStep {life : Nat} (counted : Bool) {s : Session} {o : Observation}
    {station : Station} (vetted : vet o = .ok station) (room : Room s.now life)
    (numeric : s.world.tallies.Numeric) :
    ∃ tallies, tallies.Numeric ∧ s.step life counted (.observe o) =
      ⟨⟨s.world.holdings.kept o station (s.now + life), tallies⟩, s.now,
        s.log ++ [⟨s.now, o, station, vetted⟩]⟩ := by
  obtain ⟨_, n, tallies, answered, clean⟩ | ⟨late, _⟩ := receiveRun s.now life vetted numeric
  · refine ⟨tallies, clean, ?_⟩
    simp only [step, answered]
    split
    · rename_i other again
      cases Except.ok.inj (vetted.symm.trans again)
      rfl
    · rename_i otherwise
      exact False.elim (otherwise n station rfl vetted)
  · exact False.elim (late room)

theorem refusedStep {life : Nat} (counted : Bool) {s : Session} {o : Observation}
    (refused : ¬ ((∃ station, vet o = .ok station) ∧ Room s.now life))
    (numeric : s.world.tallies.Numeric) : s.step life counted (.observe o) = s := by
  cases vetted : vet o with
  | error refusal =>
    have answered : receive (Program.run s.now) life o s.world =
        (.error refusal, s.world) := by simp [receive, vetted]
    simp only [step, answered]
  | ok station =>
    obtain ⟨room, _⟩ | ⟨_, answered⟩ := receiveRun s.now life vetted numeric
    · exact False.elim (refused ⟨⟨station, vetted⟩, room⟩)
    · simp only [step, answered]

structure Faithful (life : Nat) (s : Session) : Prop where
  numeric : s.world.tallies.Numeric
  order : s.log.Pairwise (fun a b => a.instant ≤ b.instant)
  past : ∀ a ∈ s.log, a.instant ≤ s.now
  current : ∀ later, s.now ≤ later → ∀ key feature,
    s.world.holdings.current later key = some feature ↔
      ∃ a, lastTouch s.log key = some a ∧ later < a.instant + life ∧ a.written key = feature
  known : ∀ c key, key ∈ s.world.holdings.members c.index → ∃ a ∈ s.log, a.key c = key
  indexed : ∀ c, ∀ a ∈ s.log, s.now < a.instant + life →
    a.key c ∈ s.world.holdings.members c.index

theorem freshFaithful (life start : Nat) : Faithful life (fresh start) where
  numeric := Tallies.emptyNumeric
  order := List.Pairwise.nil
  past := by simp [fresh]
  current later _ key feature := by
    rw [Holdings.currentEntry]
    simp [fresh, World.empty, Holdings.empty, lastTouch, lastWhere]
  known c key inside := by simp [fresh, World.empty, Holdings.empty, Holdings.members] at inside
  indexed := by simp [fresh]

theorem waitFaithful {life : Nat} {s : Session} (valid : Faithful life s) (time : Nat) :
    Faithful life { s with now := s.now + time } where
  numeric := valid.numeric
  order := valid.order
  past a inside := (valid.past a inside).trans (Nat.le_add_right _ _)
  current later order := valid.current later ((Nat.le_add_right _ _).trans order)
  known := valid.known
  indexed c a inside soon :=
    valid.indexed c a inside (Nat.lt_of_le_of_lt (Nat.le_add_right _ _) soon)

theorem Faithful.found {life : Nat} {s : Session} (valid : Faithful life s) {a : Accepted}
    (inside : a ∈ s.log) (soon : s.now < a.instant + life) (c : Category) :
    s.world.holdings.current s.now (a.key c) ≠ none := by
  obtain ⟨b, last, order⟩ :=
    lastWhereLatest (fun b => b.touches (a.key c)) valid.order inside (a.touchesKey c)
  have shown := (valid.current s.now (Nat.le_refl _) (a.key c) _).mpr
    ⟨b, last, Nat.lt_of_lt_of_le soon (Nat.add_le_add_right order life), rfl⟩
  simp [shown]

theorem tidiedFaithful {life : Nat} {s : Session} (valid : Faithful life s) {world : World}
    (tidied : World.Tidied s.now s.world world) : Faithful life { s with world } where
  numeric := tidied.numeric valid.numeric
  order := valid.order
  past := valid.past
  current later order key feature := by
    rw [tidied.current later order key]
    exact valid.current later order key feature
  known c key inside := valid.known c key (tidied.fewer c.index key inside)
  indexed c a inside soon :=
    tidied.kept c.index (a.key c) (valid.indexed c a inside soon) (valid.found inside soon c)

theorem keptFaithful {life : Nat} {s : Session} (valid : Faithful life s) (a : Accepted)
    (instant : a.instant = s.now) {tallies : Tallies} (numeric : tallies.Numeric) :
    Faithful life ⟨⟨s.world.holdings.kept a.observation a.station (a.instant + life), tallies⟩,
      s.now, s.log ++ [a]⟩ where
  numeric := numeric
  order := by
    refine List.pairwise_append.mpr ⟨valid.order, List.pairwise_singleton _ _, ?_⟩
    intro b inside last same
    rw [List.mem_singleton.mp same, instant]
    exact valid.past b inside
  past b inside := by
    rcases List.mem_append.mp inside with before | last
    · exact valid.past b before
    · rw [List.mem_singleton.mp last, instant]
  current later order key feature := by
    simp only [keptCurrent, lastTouch, lastWhereAppend]
    by_cases touched : a.touches key = true
    · by_cases soon : later < a.instant + life <;> simp [touched, soon]
    · simp only [touched, Bool.false_eq_true, ↓reduceIte]
      exact valid.current later order key feature
  known c key inside := by
    rcases (keptMembers _ a _ c key).mp inside with same | before
    · exact ⟨a, by simp, same⟩
    · obtain ⟨b, member, same⟩ := valid.known c key before
      exact ⟨b, List.mem_append_left _ member, same⟩
  indexed c b inside soon := by
    refine (keptMembers _ a _ c _).mpr ?_
    rcases List.mem_append.mp inside with before | last
    · exact Or.inr (valid.indexed c b before soon)
    · rw [List.mem_singleton.mp last]
      exact Or.inl rfl

theorem stepFaithful {life : Nat} (counted : Bool) {s : Session} (valid : Faithful life s)
    (action : Action) : Faithful life (s.step life counted action) := by
  cases action with
  | observe o =>
    by_cases accepted : (∃ station, vet o = .ok station) ∧ Room s.now life
    · obtain ⟨⟨station, vetted⟩, room⟩ := accepted
      obtain ⟨tallies, clean, stepped⟩ := acceptedStep counted vetted room valid.numeric
      rw [stepped]
      exact keptFaithful valid ⟨s.now, o, station, vetted⟩ rfl clean
    · rw [refusedStep counted accepted valid.numeric]
      exact valid
  | wait time => exact waitFaithful valid time
  | list c => exact tidiedFaithful valid (listingTidied counted c s.now s.world)
  | collect => exact tidiedFaithful valid (collectionTidied counted s.now s.world)

theorem runFaithful {life : Nat} (counted : Bool) {s : Session} (valid : Faithful life s)
    (actions : List Action) : Faithful life (s.run life counted actions) := by
  induction actions generalizing s with
  | nil => exact valid
  | cons action rest ih => exact ih (stepFaithful counted valid action)

end Session

end AirPicture.Cache
