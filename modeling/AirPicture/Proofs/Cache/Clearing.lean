import Mathlib.Data.List.Induction
import AirPicture.Proofs.Cache.Snapshot
import AirPicture.Proofs.Cache.Tenancy

/-! What the number means that an observation is told, in sequential use. It is one more than the
observations of its station that were accepted since a read of the stations last came upon the
station when all that was seen by it had expired. Nothing else takes a count away. -/
namespace AirPicture.Cache

section Tidying
variable (now : Nat)

theorem tidyTallies (counted : Bool) (w : World) (key : String) :
    (w.tidy counted .contacts now key).tallies = w.tallies := by
  unfold World.tidy World.pruned
  split <;> simp

theorem tidyAllTallies (counted : Bool) (w : World) (keys : List String) :
    (w.tidyAll counted .contacts now keys).tallies = w.tallies := by
  induction keys generalizing w with
  | nil => rfl
  | cons key rest ih => exact (ih _).trans (tidyTallies now counted w key)

theorem tidyStanding (w : World) (key id : String) :
    (w.tidy true .stations now key).tallies.standing id =
      if key = id ∧ w.holdings.current now key = none then .count 0
      else w.tallies.standing id := by
  unfold World.tidy World.pruned
  split
  · rename_i gone
    have dropped : (w.tallies.drop key).2.standing id =
        if key = id then .count 0 else w.tallies.standing id :=
      Tallies.dropStanding w.tallies key id
    simp [dropped, gone]
  · rename_i found
    simp [found]

theorem tidyAllStanding (w : World) (keys : List String) (id : String) :
    (w.tidyAll true .stations now keys).tallies.standing id =
      if id ∈ keys ∧ w.holdings.current now id = none then .count 0
      else w.tallies.standing id := by
  induction keys generalizing w with
  | nil => simp [World.tidyAll]
  | cons key rest ih =>
    change ((w.tidy true .stations now key).tidyAll true .stations now rest).tallies.standing id = _
    rw [ih, tidyStanding, tidyCurrent true .stations now (Nat.le_refl _)]
    by_cases gone : w.holdings.current now id = none
    · by_cases first : key = id
      · subst key
        simp [gone]
      · simp [gone, first, Ne.symm first]
    · by_cases first : key = id
      · subst key
        simp [gone]
      · simp [gone, first]

theorem listingStanding {most : Nat} {w : World} (tenanted : Tenanted most w) (id : String) :
    ((listing true .stations).run now w).2.tallies.standing id =
      if w.holdings.current now id = none then .count 0 else w.tallies.standing id := by
  rw [listingRun, tidyAllStanding]
  simp only [Std.ExtTreeSet.mem_toList]
  by_cases gone : w.holdings.current now id = none
  · by_cases member : id ∈ w.holdings.members Category.stations.index
    · simp [gone, member]
    · have absent : w.tallies.tenants[id]? = none := by
        simpa [Tallies.Registered] using mt (tenanted.same id).mp member
      simp [gone, member, Tallies.standing, absent]
  · simp [gone]

theorem collectionStanding {most : Nat} {w : World} (tenanted : Tenanted most w) (id : String) :
    ((collection true).run now w).2.tallies.standing id =
      if w.holdings.current now id = none then .count 0 else w.tallies.standing id := by
  have middle : Tenanted most (w.tidyIndex true .contacts now) := by
    refine ⟨fun other => ?_, fun other table found => ?_⟩
    · rw [World.tidyIndex, tidyAllTallies, tenanted.same, tidyAllMembers]
      simp [Category.index]
    · rw [World.tidyIndex, tidyAllTallies] at found
      exact tenanted.proper other table found
  have read := listingStanding now middle id
  rw [listingRun, World.tidyIndex, tidyAllCurrent true .contacts now (Nat.le_refl _),
    tidyAllTallies] at read
  rw [collectionRun, ← read]
  rfl

end Tidying

def Action.readsStations : Action → Bool
  | .list .stations | .collect => true
  | _ => false

namespace Session
variable {life : Nat} {s : Session} {id : String}

def Expired (life : Nat) (s : Session) (id : String) : Prop :=
  ∃ a, latest .stations s.log id = some a ∧ a.instant + life ≤ s.now

def Clears (life : Nat) (s : Session) (id : String) (action : Action) : Prop :=
  action.readsStations = true ∧ s.Expired life id

theorem latestSome {log : List Accepted} {c : Category} {a : Accepted} (inside : a ∈ log) :
    latest c log (a.key c) ≠ none := by
  simpa [latest, lastWhere] using ⟨a, inside, rfl⟩

theorem expiredCurrent {most : Nat} (valid : Faithful life s) (apart : KeysApart s.log)
    (tenanted : Tenanted most s.world) (id : String) :
    (s.Expired life id ∧ s.world.holdings.current s.now id = none) ∨
    (¬ s.Expired life id ∧ (s.world.holdings.current s.now id ≠ none ∨
      s.world.tallies.standing id = .count 0)) := by
  cases last : latest .stations s.log id with
  | none =>
    refine .inr ⟨by simp [Expired, last], .inr ?_⟩
    have absent : id ∉ s.world.holdings.members Category.stations.index := by
      intro member
      obtain ⟨a, inside, rfl⟩ := valid.known .stations id member
      exact latestSome inside last
    have unknown : s.world.tallies.tenants[id]? = none := by
      simpa [Tallies.Registered] using mt (tenanted.same id).mp absent
    simp [Tallies.standing, unknown]
  | some a =>
    obtain ⟨inside, same⟩ := lastWhereMember last
    have own : a.key .stations = id := of_decide_eq_true same
    subst id
    have touched := (touchedLatest apart inside .stations).trans last
    by_cases soon : s.now < a.instant + life
    · have shown := (valid.current s.now (Nat.le_refl _) (a.key .stations) _).mpr
        ⟨a, touched, soon, rfl⟩
      refine .inr ⟨?_, .inl (by simp [shown])⟩
      rintro ⟨b, latest, gone⟩
      cases Option.some.inj (last.symm.trans latest)
      omega
    · refine .inl ⟨⟨a, last, Nat.not_lt.mp soon⟩, ?_⟩
      rw [Option.eq_none_iff_forall_ne_some]
      intro feature found
      obtain ⟨b, latest, still, _⟩ := (valid.current s.now (Nat.le_refl _) _ feature).mp found
      cases Option.some.inj (touched.symm.trans latest)
      exact soon still

theorem readStanding {most : Nat} (valid : Faithful life s) (apart : KeysApart s.log)
    (tenanted : Tenanted most s.world) {action : Action} (reads : action.readsStations = true)
    (id : String) :
    (s.Expired life id ∧ (s.step life true action).world.tallies.standing id = .count 0) ∨
    (¬ s.Expired life id ∧ (s.step life true action).world.tallies.standing id =
      s.world.tallies.standing id) := by
  have stands : (s.step life true action).world.tallies.standing id =
      if s.world.holdings.current s.now id = none then .count 0
      else s.world.tallies.standing id := by
    cases action with
    | observe o => contradiction
    | wait time => contradiction
    | list c =>
      cases c with
      | contacts => contradiction
      | stations => exact listingStanding s.now tenanted id
    | collect => exact collectionStanding s.now tenanted id
  rw [stands]
  obtain ⟨expired, gone⟩ | ⟨unexpired, found | none⟩ := expiredCurrent valid apart tenanted id
  · exact .inl ⟨expired, if_pos gone⟩
  · exact .inr ⟨unexpired, if_neg found⟩
  · exact .inr ⟨unexpired, by simp [none]⟩

theorem observeWorld (life : Nat) (s : Session) (o : Observation) :
    (s.step life true (.observe o)).world = (receive (Program.run s.now) life o s.world).2 := by
  simp only [step]
  split <;> rfl

def acknowledged (life : Nat) (s : Session) (o : Observation) : Except Refusal Receipt :=
  (receive (Program.run s.now) life o s.world).1

theorem acknowledgedNext (life : Nat) (numeric : s.world.tallies.Numeric) {o : Observation}
    {station : Station}
    (vetted : vet o = .ok station) {n : Int}
    (stands : s.world.tallies.standing station.id = .count n) :
    (Room s.now life → s.acknowledged life o = .ok ⟨true, n + 1⟩) ∧
      (¬ Room s.now life → s.acknowledged life o = .error (.failed .expiry)) := by
  unfold acknowledged
  constructor
  · intro room
    obtain ⟨_, received, _⟩ := receiveCounted room vetted stands
    rw [received]
  · intro late
    obtain ⟨room, _⟩ | ⟨_, refused⟩ := receiveRun s.now life vetted numeric
    · exact absurd room late
    · rw [refused]

def heardOf (id : String) (log : List Accepted) : Nat := log.countP fun a => a.station.id = id

theorem stepStanding {most : Nat} (valid : Faithful life s) (apart : KeysApart s.log)
    (tenanted : Tenanted most s.world) (id : String) (action : Action) :
    (s.Clears life id action ∧ (s.step life true action).log = s.log ∧
      (s.step life true action).world.tallies.standing id = .count 0) ∨
    (¬ s.Clears life id action ∧ ∃ new, (s.step life true action).log = s.log ++ new ∧
      ∀ n : Int, s.world.tallies.standing id = .count n →
        (s.step life true action).world.tallies.standing id = .count (n + heardOf id new)) := by
  cases reads : action.readsStations with
  | true =>
    have logged : (s.step life true action).log = s.log := by
      cases action with
      | observe o => contradiction
      | _ => rfl
    obtain ⟨expired, cleared⟩ | ⟨unexpired, still⟩ := readStanding valid apart tenanted reads id
    · exact .inl ⟨⟨reads, expired⟩, logged, cleared⟩
    · refine .inr ⟨fun clears => unexpired clears.2, [], by simp [logged], fun n stands => ?_⟩
      simp [still, stands, heardOf]
  | false =>
    refine .inr ⟨fun clears => by simp [clears.1] at reads, ?_⟩
    cases action with
    | observe o =>
      by_cases accepted : (∃ station, vet o = .ok station) ∧ Room s.now life
      · obtain ⟨⟨station, vetted⟩, room⟩ := accepted
        obtain ⟨_, _, stepped⟩ := acceptedStep true vetted room valid.numeric
        obtain ⟨m, before⟩ := Tallies.numericCount valid.numeric station.id
        obtain ⟨tallies, received, after, _⟩ := receiveCounted room vetted before
        refine ⟨[⟨s.now, o, station, vetted⟩], by rw [stepped], fun n stands => ?_⟩
        rw [observeWorld, received, after]
        by_cases own : station.id = id
        · subst id
          cases before.symm.trans stands
          simp [heardOf]
        · simp [own, stands, heardOf]
      · refine ⟨[], ?_⟩
        rw [refusedStep true accepted valid.numeric]
        exact ⟨by simp, fun n stands => by simp [stands, heardOf]⟩
    | wait time => exact ⟨[], by simp [step], fun n stands => by simp [step, stands, heardOf]⟩
    | list c =>
      cases c with
      | stations => contradiction
      | contacts =>
        refine ⟨[], by simp [step], fun n stands => ?_⟩
        simp only [step, listingRun, tidyAllTallies, stands]
        simp [heardOf]
    | collect => contradiction

/- A run up to the last read that has cleared a station, or up to its start, and the rest. -/
structure ClearedLast (life start : Nat) (id : String) (early late : List Action) : Prop where
  last : early = [] ∨ ∃ before read, early = before ++ [read] ∧
    ((fresh start).run life true before).Clears life id read
  quiet : ∀ before action after, late = before ++ action :: after →
    ¬ ((fresh start).run life true (early ++ before)).Clears life id action

theorem runTenanted (life start : Nat) (actions : List Action) :
    ∃ most, Tenanted most ((fresh start).run life true actions).world := by
  induction actions using List.reverseRecOn with
  | nil => exact ⟨0, emptyTenanted⟩
  | append_singleton actions action ih =>
    obtain ⟨most, tenanted⟩ := ih
    rw [run, List.foldl_append, List.foldl_cons, List.foldl_nil, stepUndergone]
    exact ⟨most + 1, undergoTenanted life tenanted _⟩

theorem apartAppend {first second : List Action} (apart : Apart (first ++ second)) :
    Apart first :=
  fun o p s t left right =>
    apart o p s t (List.mem_append_left _ left) (List.mem_append_left _ right)

theorem runStanding (life start : Nat) (id : String) (actions : List Action)
    (apart : Apart actions) :
    ∃ early late since, actions = early ++ late ∧ ClearedLast life start id early late ∧
      ((fresh start).run life true actions).log =
        ((fresh start).run life true early).log ++ since ∧
      ((fresh start).run life true actions).world.tallies.standing id =
        .count (heardOf id since) := by
  induction actions using List.reverseRecOn with
  | nil =>
    refine ⟨[], [], [], rfl, ⟨.inl rfl, by simp⟩, rfl, ?_⟩
    simp [run, fresh, World.empty, Tallies.empty, Tallies.standing, heardOf]
  | append_singleton actions action ih =>
    obtain ⟨early, late, since, split, cleared, logged, stands⟩ := ih (apartAppend apart)
    obtain ⟨most, tenanted⟩ := runTenanted life start actions
    have valid : Faithful life ((fresh start).run life true actions) :=
      runFaithful true (freshFaithful life start) actions
    have stepped : (fresh start).run life true (actions ++ [action]) =
        ((fresh start).run life true actions).step life true action := by
      rw [run, List.foldl_append]
      rfl
    rw [stepped]
    obtain ⟨clears, same, none⟩ | ⟨unclear, new, grown, more⟩ :=
      stepStanding valid (runKeysApart (apartAppend apart)) tenanted id action
    · refine ⟨actions ++ [action], [], [], by simp, ⟨.inr ⟨actions, action, rfl, clears⟩, by simp⟩,
        ?_, none⟩
      rw [stepped, List.append_nil]
    · refine ⟨early, late ++ [action], since ++ new, by simp [split], ⟨cleared.last, ?_⟩, ?_, ?_⟩
      · intro before other after ends
        rcases List.eq_nil_or_concat after with rfl | ⟨after, last, rfl⟩
        · obtain ⟨rfl, same⟩ := List.append_inj' ends rfl
          cases same
          rwa [← split]
        · have inner : late ++ [action] = (before ++ other :: after) ++ [last] := by simp [ends]
          exact cleared.quiet before other after (List.append_inj' inner rfl).1
      · rw [grown, logged, List.append_assoc]
      · rw [more _ stands, heardOf, heardOf, heardOf, List.countP_append, Int.natCast_add]

end Session
open Session

/-- An observation is told one more than the number of observations of its station that were
accepted since a read of the stations last found the station expired, or since the start. Nothing
changes by what is refused, by reads of the contacts alone and by reads while the station has not
expired. -/
theorem numberedSinceCleared (life start : Nat) (actions : List Action) (o : Observation)
    (station : Station) (vetted : vet o = .ok station) (apart : Apart actions) :
    let s := (fresh start).run life true actions
    (∃ early late since, actions = early ++ late ∧ ClearedLast life start station.id early late ∧
      s.log = ((fresh start).run life true early).log ++ since ∧
      (Room s.now life → s.acknowledged life o = .ok ⟨true, 1 + heardOf station.id since⟩) ∧
      (¬ Room s.now life → s.acknowledged life o = .error (.failed .expiry))) ∧
    ∀ action, (∃ p refusal, action = .observe p ∧ vet p = .error refusal) ∨
        action = .list .contacts ∨
        (action.readsStations = true ∧ ¬ s.Expired life station.id) →
      (s.step life true action).acknowledged life o = s.acknowledged life o := by
  intro s
  have valid : Faithful life s := runFaithful true (freshFaithful life start) actions
  obtain ⟨early, late, since, split, cleared, logged, stands⟩ :=
    runStanding life start station.id actions apart
  have next := acknowledgedNext life valid.numeric vetted stands
  refine ⟨⟨early, late, since, split, cleared, logged, by rwa [Int.add_comm 1]⟩, ?_⟩
  intro action idle
  obtain ⟨unclear, same, still⟩ : ¬ s.Clears life station.id action ∧
      (s.step life true action).log = s.log ∧ (s.step life true action).now = s.now := by
    rcases idle with ⟨p, refusal, rfl, refused⟩ | rfl | ⟨reads, unexpired⟩
    · rw [refusedStep true (by simp [refused]) valid.numeric]
      exact ⟨fun clears => absurd clears.1 (by simp [Action.readsStations]), rfl, rfl⟩
    · exact ⟨fun clears => absurd clears.1 (by simp [Action.readsStations]), rfl, rfl⟩
    · refine ⟨fun clears => unexpired clears.2, ?_⟩
      cases action with
      | observe p => contradiction
      | wait time => contradiction
      | _ => exact ⟨rfl, rfl⟩
  obtain ⟨most, tenanted⟩ := runTenanted life start actions
  obtain ⟨clears, _⟩ | ⟨_, new, grown, after⟩ :=
    stepStanding valid (runKeysApart apart) tenanted station.id action
  · exact absurd clears unclear
  · have none : new = [] := by simpa [same] using grown
    subst new
    have later := acknowledgedNext life (stepFaithful true valid action).numeric vetted
      (after _ stands)
    rw [still] at later
    by_cases room : Room s.now life
    · rw [next.1 room, later.1 room]
      simp [heardOf]
    · rw [next.2 room, later.2 room]

def clearedOnce : List Action :=
  [.observe (overHarbour "A00001" 9000), .observe (overHarbour "A00002" 9000), .wait 1000,
    .list .contacts, .collect, .observe (overHarbour "A00001" 9100), .list .stations]

theorem clearedOnceNumbered :
    let s := (fresh 0).run 1000 true clearedOnce
    s.acknowledged 1000 (overHarbour "A00002" 9200) = .ok ⟨true, 2⟩ ∧
    ∃ early late since, clearedOnce = early ++ late ∧ ClearedLast 1000 0 "S1" early late ∧
      s.log = ((fresh 0).run 1000 true early).log ++ since ∧ heardOf "S1" since = 1 := by
  have apart : Apart clearedOnce := by
    have known : ∀ o, .observe o ∈ clearedOnce → o.icao ≠ "S1" ∧ o.station = some harbour := by
      intro o inside
      simp only [clearedOnce, List.mem_cons, Action.observe.injEq, reduceCtorEq, List.not_mem_nil,
        or_false, false_or] at inside
      rcases inside with rfl | rfl | rfl <;> exact ⟨by decide, rfl⟩
    intro o p s t first second _ vetted same
    have station := (known p second).2.symm.trans (vetExact.mp vetted).1
    cases Option.some.inj station
    exact (known o first).1 same
  have told : ((fresh 0).run 1000 true clearedOnce).acknowledged 1000 (overHarbour "A00002" 9200) =
      .ok ⟨true, 2⟩ := rfl
  obtain ⟨⟨early, late, since, split, cleared, logged, numbered, _⟩, _⟩ :=
    numberedSinceCleared 1000 0 clearedOnce (overHarbour "A00002" 9200) harbour rfl apart
  have number := (numbered (by unfold Room; decide +kernel)).symm.trans told
  refine ⟨told, early, late, since, split, cleared, logged, ?_⟩
  simp only [Except.ok.injEq, Receipt.mk.injEq, true_and] at number
  change 1 + (heardOf "S1" since : Int) = 2 at number
  omega

end AirPicture.Cache
