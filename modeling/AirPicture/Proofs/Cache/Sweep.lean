import Mathlib.Order.Monotone.Defs
import AirPicture.Proofs.Cache.Listing

/-! Readings while the clock goes on. Every call on the holdings looks at the clock for itself, so
that a feature may expire between the look for its key and the look for the feature. Whichever of
the two finds nothing removes the key, and by then its feature had expired. What is returned is what
the index holds in the end, and nothing else is touched but what had expired. -/
namespace AirPicture.Cache

namespace Watched

def tick (clock : Nat → Nat) : Program.Handler Watched
  | .tallies c, w => w.reach (clock w.log.length) (.tallies c)
  | .holdings c, w => { w with log := w.log ++ [c] }.reach (clock w.log.length) (.holdings c)

def looksFor (w : Watched) (i : Nat) (key : String) : Prop :=
  w.log[i]? = some (.has key) ∨ w.log[i]? = some (.get key)

def looked (clock : Nat → Nat) (w : Watched) (c : Holdings.Call) (key : String) : Watched :=
  ⟨⟨w.world.holdings.evict (clock w.log.length) key, w.world.tallies⟩, w.log ++ [c]⟩

def pruned (counted : Bool) (c : Category) (w : Watched) (key : String) : Watched :=
  ⟨w.world.pruned counted c key, w.log ++ [.remove c.index key]⟩

theorem loggedStill {s t : Watched} (longer : s.log <+: t.log) {i : Nat} {c : Holdings.Call}
    (logged : s.log[i]? = some c) : t.log[i]? = some c := by
  obtain ⟨inside, rfl⟩ := List.getElem?_eq_some_iff.mp logged
  exact List.prefix_iff_getElem?.mp longer i inside

theorem looksStill {s t : Watched} (longer : s.log <+: t.log) {i : Nat} {key : String}
    (looks : s.looksFor i key) : t.looksFor i key :=
  looks.imp (loggedStill longer) (loggedStill longer)

theorem looksInside {s : Watched} {i : Nat} {key : String} (looks : s.looksFor i key) :
    i < s.log.length := by
  rcases looks with found | found <;> exact (List.getElem?_eq_some_iff.mp found).1

end Watched

/- What lies between two moments of a reading that has removed keys from the indexes of their
categories: each of them after a look that found nothing, and nothing else is lost but what had
expired when it was looked for. -/
structure Sweep (clock : Nat → Nat) (counted : Bool) (s t : Watched)
    (gone : List (Category × String)) : Prop where
  log : s.log <+: t.log
  members : ∀ set key, key ∈ t.world.holdings.members set ↔
    key ∈ s.world.holdings.members set ∧ ∀ c : Category, c.index = set → (c, key) ∉ gone
  entries : ∀ key : String, t.world.holdings.entries[key]? = s.world.holdings.entries[key]? ∨
    t.world.holdings.entries[key]? = none ∧ ∃ i, s.log.length ≤ i ∧ t.looksFor i key ∧
      s.world.holdings.current (clock i) key = none
  tenants : ∀ id : String, t.world.tallies.tenants[id]? =
    if counted = true ∧ (Category.stations, id) ∈ gone then none else s.world.tallies.tenants[id]?
  removed : ∀ c key, (c, key) ∈ gone → ∃ i, s.log.length ≤ i ∧ t.looksFor i key ∧
    t.log[i + 1]? = some (.remove c.index key) ∧ s.world.holdings.current (clock i) key = none

section Sweeping
variable {clock : Nat → Nat} {counted : Bool} {s t u : Watched}
variable {gone lost : List (Category × String)}

theorem sweepCurrent (forward : Monotone clock) (sweep : Sweep clock counted s t gone) {i : Nat}
    (later : t.log.length ≤ i) (key : String) :
    t.world.holdings.current (clock i) key = s.world.holdings.current (clock i) key := by
  rcases sweep.entries key with same | ⟨bare, j, _, looks, expired⟩
  · rw [Holdings.currentEntry, same, ← Holdings.currentEntry]
  · have before : j ≤ i := by
      have := Watched.looksInside looks
      omega
    rw [Holdings.currentEntry, bare, Holdings.currentLater (forward before) expired]
    rfl

theorem quietSweep (longer : s.log <+: t.log) (same : t.world = s.world) :
    Sweep clock counted s t [] where
  log := longer
  members set key := by simp [same]
  entries key := .inl (by rw [same])
  tenants id := by simp [same]
  removed c key inside := by simp at inside

theorem sweepTrans (forward : Monotone clock) (first : Sweep clock counted s t gone)
    (second : Sweep clock counted t u lost) : Sweep clock counted s u (gone ++ lost) where
  log := first.log.trans second.log
  members set key := by
    rw [second.members, first.members, and_assoc]
    simp only [List.mem_append, not_or, ← forall_and]
  entries key := by
    rcases second.entries key with same | ⟨bare, i, later, looks, expired⟩
    · rw [same]
      refine (first.entries key).imp id ?_
      rintro ⟨bare, i, later, looks, expired⟩
      exact ⟨bare, i, later, Watched.looksStill second.log looks, expired⟩
    · rw [sweepCurrent forward first later] at expired
      exact .inr ⟨bare, i, first.log.length_le.trans later, looks, expired⟩
  tenants id := by
    rw [second.tenants, first.tenants]
    by_cases inFirst : (Category.stations, id) ∈ gone <;>
      by_cases inSecond : (Category.stations, id) ∈ lost <;>
      cases counted <;> simp [inFirst, inSecond]
  removed c key inside := by
    rcases List.mem_append.mp inside with inside | inside
    · obtain ⟨i, later, looks, next, expired⟩ := first.removed c key inside
      exact ⟨i, later, Watched.looksStill second.log looks,
        Watched.loggedStill second.log next, expired⟩
    · obtain ⟨i, later, looks, next, expired⟩ := second.removed c key inside
      rw [sweepCurrent forward first later] at expired
      exact ⟨i, first.log.length_le.trans later, looks, next, expired⟩

theorem lookedSweep (s : Watched) {look : Holdings.Call} {key : String}
    (asks : look = .has key ∨ look = .get key) :
    Sweep clock counted s (s.looked clock look key) [] where
  log := List.prefix_append _ _
  members set other := by simp [Watched.looked, Holdings.evictMembers]
  entries other := by
    simp only [Watched.looked, Holdings.evictEntry]
    split
    · rename_i absent
      obtain ⟨rfl, expired⟩ := absent
      refine .inr ⟨rfl, s.log.length, Nat.le_refl _, ?_, expired⟩
      simpa [Watched.looksFor] using asks
    · exact .inl rfl
  tenants id := by simp [Watched.looked]
  removed c other inside := by simp at inside

theorem missedSweep (s : Watched) (c : Category) {look : Holdings.Call} {key : String}
    (asks : look = .has key ∨ look = .get key)
    (expired : s.world.holdings.current (clock s.log.length) key = none) :
    Sweep clock counted s ((s.looked clock look key).pruned counted c key) [(c, key)] where
  log := (List.prefix_append _ _).trans (List.prefix_append _ _)
  members set other := by
    simp only [Watched.pruned, World.pruned, Watched.looked, Holdings.removeMembers,
      Holdings.evictMembers, List.mem_singleton, Prod.mk.injEq]
    refine and_congr_right fun _ => ⟨?_, ?_⟩
    · rintro apart _ index ⟨rfl, rfl⟩
      exact apart ⟨index, rfl⟩
    · rintro apart ⟨index, rfl⟩
      exact apart c index ⟨rfl, rfl⟩
  entries other := by
    simp only [Watched.pruned, World.pruned, Holdings.removeEntries]
    have look : Sweep clock counted s (s.looked clock look key) [] := lookedSweep s asks
    refine (look.entries other).imp id ?_
    rintro ⟨bare, i, later, looks, gone⟩
    exact ⟨bare, i, later, Watched.looksStill (List.prefix_append _ _) looks, gone⟩
  tenants id := by
    simp only [Watched.pruned, World.pruned, Watched.looked, List.mem_singleton, Prod.mk.injEq,
      eq_comm (a := Category.stations), eq_comm (a := id), ← and_assoc]
    by_cases dropped : counted = true ∧ c = .stations <;>
      simp [dropped, Tallies.drop, Std.ExtTreeMap.getElem?_erase]
  removed other name inside := by
    obtain ⟨rfl, rfl⟩ : other = c ∧ name = key := by simpa using inside
    refine ⟨s.log.length, Nat.le_refl _, ?_, ?_, expired⟩
    · refine Watched.looksStill (s := s.looked clock look name) (List.prefix_append _ _) ?_
      simpa [Watched.looksFor, Watched.looked] using asks
    · simp [Watched.pruned, Watched.looked]

end Sweeping

section Passing
variable (clock : Nat → Nat) (counted : Bool) (c : Category)

open Program Watched

theorem hasTicked (w : Watched) (key : String) :
    (ofHoldings (.has key)).interpret (tick clock) w =
      (.ok (w.world.holdings.current (clock w.log.length) key).isSome,
        w.looked clock (.has key) key) := by
  simp [ofHoldings, interpret, tick, reach, World.performHoldings, Holdings.perform,
    Holdings.lookExact, looked]

theorem getTicked (w : Watched) (key : String) :
    (ofHoldings (.get key)).interpret (tick clock) w =
      (.ok (w.world.holdings.current (clock w.log.length) key),
        w.looked clock (.get key) key) := by
  simp [ofHoldings, interpret, tick, reach, World.performHoldings, Holdings.perform,
    Holdings.lookExact, looked]

theorem listTicked (w : Watched) (set : String) :
    (ofHoldings (.list set)).interpret (tick clock) w =
      (.ok (w.world.holdings.members set).toList, ⟨w.world, w.log ++ [.list set]⟩) := rfl

theorem pruneTicked (w : Watched) (key : String) :
    (prune counted c key).interpret (tick clock) w = (.ok (), w.pruned counted c key) := by
  unfold prune Watched.pruned World.pruned
  by_cases dropped : counted = true ∧ c = .stations
  · obtain ⟨rfl, rfl⟩ := dropped
    rfl
  · simp only [dropped]
    rfl

end Passing

section Loops
variable {clock : Nat → Nat} (forward : Monotone clock) (counted : Bool) (c : Category)
include forward

open Program Watched

theorem liveKeysSweep (s : Watched) (keys : List String) :
    ∃ live lost t, (liveKeys counted c keys).interpret (tick clock) s = (.ok live, t) ∧
      Sweep clock counted s t (lost.map (c, ·)) ∧ live.Sublist keys ∧
      keys.Perm (live ++ lost) := by
  induction keys generalizing s with
  | nil => exact ⟨[], [], s, rfl, quietSweep List.prefix_rfl rfl, .slnil, .nil⟩
  | cons key rest ih =>
    unfold liveKeys
    rw [interpretAfter (hasTicked clock s key)]
    cases found : s.world.holdings.current (clock s.log.length) key with
    | none =>
      simp only [Option.isSome_none, Bool.false_eq_true, ↓reduceIte]
      rw [interpretAfter (pruneTicked clock counted c _ key)]
      obtain ⟨live, lost, t, ran, sweep, inner, parted⟩ :=
        ih ((s.looked clock (.has key) key).pruned counted c key)
      exact ⟨live, key :: lost, t, ran, sweepTrans forward (missedSweep s c (.inl rfl) found) sweep,
        inner.cons key, (parted.cons key).trans List.perm_middle.symm⟩
    | some feature =>
      simp only [Option.isSome_some, ↓reduceIte]
      obtain ⟨live, lost, t, ran, sweep, inner, parted⟩ := ih (s.looked clock (.has key) key)
      rw [interpretAfter ran]
      exact ⟨key :: live, lost, t, rfl, sweepTrans forward (lookedSweep s (.inl rfl)) sweep,
        inner.cons_cons key, parted.cons key⟩

theorem featuresSweep (s : Watched) (keys : List String) :
    ∃ l lost t, (features counted c keys).interpret (tick clock) s = (.ok l, t) ∧
      Sweep clock counted s t (lost.map (c, ·)) ∧ (l.map Prod.fst).Sublist keys ∧
      keys.Perm (l.map Prod.fst ++ lost) ∧
      ∀ key feature, (key, feature) ∈ l → ∃ i, s.log.length ≤ i ∧ t.log[i]? = some (.get key) ∧
        s.world.holdings.current (clock i) key = some feature := by
  induction keys generalizing s with
  | nil => exact ⟨[], [], s, rfl, quietSweep List.prefix_rfl rfl, .slnil, .nil, by simp⟩
  | cons key rest ih =>
    unfold features
    rw [interpretAfter (getTicked clock s key)]
    cases found : s.world.holdings.current (clock s.log.length) key with
    | none =>
      simp only
      rw [interpretAfter (pruneTicked clock counted c _ key)]
      obtain ⟨l, lost, t, ran, sweep, inner, parted, got⟩ :=
        ih ((s.looked clock (.get key) key).pruned counted c key)
      have missed : Sweep clock counted s _ [(c, key)] := missedSweep s c (.inr rfl) found
      refine ⟨l, key :: lost, t, ran, sweepTrans forward missed sweep, inner.cons key,
        (parted.cons key).trans List.perm_middle.symm, ?_⟩
      intro other feature inside
      obtain ⟨i, later, read, shown⟩ := got other feature inside
      -- the look took out nothing that had not expired, so the same was current at first
      rw [sweepCurrent forward missed later] at shown
      exact ⟨i, missed.log.length_le.trans later, read, shown⟩
    | some feature =>
      simp only
      obtain ⟨l, lost, t, ran, sweep, inner, parted, got⟩ := ih (s.looked clock (.get key) key)
      rw [interpretAfter ran]
      have hit : Sweep clock counted s (s.looked clock (.get key) key) [] :=
        lookedSweep s (.inr rfl)
      refine ⟨(key, feature) :: l, lost, t, rfl, sweepTrans forward hit sweep,
        inner.cons_cons key, parted.cons key, ?_⟩
      intro other value inside
      rcases List.mem_cons.mp inside with same | inside
      · obtain ⟨rfl, rfl⟩ := Prod.mk.inj same
        refine ⟨s.log.length, Nat.le_refl _, ?_, found⟩
        exact loggedStill sweep.log (by simp [looked])
      · obtain ⟨i, later, read, shown⟩ := got other value inside
        rw [sweepCurrent forward hit later] at shown
        exact ⟨i, hit.log.length_le.trans later, read, shown⟩

end Loops

theorem indexApart {c d : Category} (same : c.index = d.index) : c = d := by
  cases c <;> cases d <;> simp [Category.index] at same ⊢

structure Returned (clock : Nat → Nat) (s t : Watched) (gone : List (Category × String))
    (c : Category) (l : List (String × String)) : Prop where
  ordered : l.Pairwise (fun a b => a.1 < b.1)
  indexed : ∀ key, key ∈ t.world.holdings.members c.index ↔ key ∈ l.map Prod.fst
  parted : ∀ key, key ∈ s.world.holdings.members c.index ↔
    key ∈ l.map Prod.fst ∨ (c, key) ∈ gone
  read : ∀ key feature, (key, feature) ∈ l → ∃ i, s.log.length ≤ i ∧ t.log[i]? = some (.get key) ∧
    s.world.holdings.current (clock i) key = some feature

section Readings
variable {clock : Nat → Nat} (forward : Monotone clock) {counted : Bool} {s t u : Watched}
variable {gone lost : List (Category × String)} {c : Category} {l : List (String × String)}

theorem sweepElsewhere (sweep : Sweep clock counted s t gone)
    (apart : ∀ key, (c, key) ∉ gone) (key : String) :
    key ∈ t.world.holdings.members c.index ↔ key ∈ s.world.holdings.members c.index := by
  rw [sweep.members]
  refine and_iff_left ?_
  intro d same
  rw [indexApart same]
  exact apart key

theorem returnedLater (returned : Returned clock s t gone c l)
    (second : Sweep clock counted t u lost) (apart : ∀ key, (c, key) ∉ lost) :
    Returned clock s u (gone ++ lost) c l where
  ordered := returned.ordered
  indexed key := (sweepElsewhere second apart key).trans (returned.indexed key)
  parted key := by simp [returned.parted key, apart key]
  read key feature inside := by
    obtain ⟨i, later, read, shown⟩ := returned.read key feature inside
    exact ⟨i, later, Watched.loggedStill second.log read, shown⟩

include forward in
theorem returnedAfter (first : Sweep clock counted s t gone) (apart : ∀ key, (c, key) ∉ gone)
    (returned : Returned clock t u lost c l) : Returned clock s u (gone ++ lost) c l where
  ordered := returned.ordered
  indexed := returned.indexed
  parted key := by
    rw [← sweepElsewhere first apart, returned.parted key]
    simp [apart key]
  read key feature inside := by
    obtain ⟨i, later, read, shown⟩ := returned.read key feature inside
    rw [sweepCurrent forward first later] at shown
    exact ⟨i, first.log.length_le.trans later, read, shown⟩

theorem returnedParted (sweep : Sweep clock counted s t gone) {lost : List String}
    (own : ∀ key, (c, key) ∈ gone ↔ key ∈ lost)
    (inner : (l.map Prod.fst).Sublist (s.world.holdings.members c.index).toList)
    (parted : (s.world.holdings.members c.index).toList.Perm (l.map Prod.fst ++ lost))
    (read : ∀ key feature, (key, feature) ∈ l → ∃ i, s.log.length ≤ i ∧
      t.log[i]? = some (.get key) ∧ s.world.holdings.current (clock i) key = some feature) :
    Returned clock s t gone c l where
  ordered := List.pairwise_map.mp ((s.world.holdings.orderedMembers c.index).sublist inner)
  indexed key := by
    have each : ((l.map Prod.fst) ++ lost).Nodup :=
      parted.nodup_iff.mp ((s.world.holdings.orderedMembers c.index).imp ne_of_lt)
    rw [sweep.members, ← Std.ExtTreeSet.mem_toList, parted.mem_iff, List.mem_append]
    constructor
    · rintro ⟨shown | removed, kept⟩
      · exact shown
      · exact absurd ((own key).mpr removed) (kept c rfl)
    · intro shown
      refine ⟨.inl shown, ?_⟩
      intro d same removed
      rw [indexApart same, own] at removed
      exact (List.nodup_append.mp each).2.2 key shown key removed rfl
  parted key := by
    rw [← Std.ExtTreeSet.mem_toList, parted.mem_iff, List.mem_append, own]
  read := read

include forward in
theorem listingSweep (counted : Bool) (c : Category) (s : Watched) :
    ∃ l, ∃ lost : List String, ∃ t,
      (listing counted c).interpret (Watched.tick clock) s = (.ok l, t) ∧
      Sweep clock counted s t (lost.map (c, ·)) ∧ Returned clock s t (lost.map (c, ·)) c l := by
  have start : Sweep clock counted s ⟨s.world, s.log ++ [.list c.index]⟩ [] :=
    quietSweep (List.prefix_append _ _) rfl
  obtain ⟨live, early, t, ranKeys, firstSweep, firstInner, firstParted⟩ :=
    liveKeysSweep forward counted c ⟨s.world, s.log ++ [.list c.index]⟩
      (s.world.holdings.members c.index).toList
  obtain ⟨l, late, u, ranFeatures, secondSweep, secondInner, secondParted, got⟩ :=
    featuresSweep forward counted c t live
  have toFeatures : Sweep clock counted s t (early.map (c, ·)) :=
    sweepTrans forward start firstSweep
  have whole : Sweep clock counted s u ((early ++ late).map (c, ·)) := by
    rw [List.map_append]
    exact sweepTrans forward toFeatures secondSweep
  have parted : (s.world.holdings.members c.index).toList.Perm
      (l.map Prod.fst ++ (early ++ late)) := by
    refine firstParted.trans ((secondParted.append_right early).trans ?_)
    rw [List.append_assoc]
    exact List.perm_append_comm.append_left _
  refine ⟨l, early ++ late, u, ?_, whole,
    returnedParted whole (by simp) (secondInner.trans firstInner) parted ?_⟩
  · unfold listing
    rw [Program.interpretAfter (listTicked clock s c.index), Program.interpretAfter ranKeys,
      ranFeatures]
  · intro key feature inside
    obtain ⟨i, later, read, shown⟩ := got key feature inside
    rw [sweepCurrent forward toFeatures later] at shown
    exact ⟨i, toFeatures.log.length_le.trans later, read, shown⟩

/-- Whatever expires between the calls of a reading, what it returns and what it leaves agree: in
order, just what is left in the index, each feature as it stood unexpired when it was read; what has
been removed was looked for and had no feature any more. -/
theorem readingsAgree (forward : Monotone clock) (counted : Bool) (s : Watched) :
    (∀ c, ∃ l, ∃ lost : List String, ∃ t,
      (listing counted c).interpret (Watched.tick clock) s = (.ok l, t) ∧
      Sweep clock counted s t (lost.map (c, ·)) ∧ Returned clock s t (lost.map (c, ·)) c l) ∧
    ∃ contacts stations gone t,
      (collection counted).interpret (Watched.tick clock) s =
        (.ok (contacts.map Prod.snd ++ stations.map Prod.snd), t) ∧
      Sweep clock counted s t gone ∧ Returned clock s t gone .contacts contacts ∧
      Returned clock s t gone .stations stations := by
  refine ⟨fun c => listingSweep forward counted c s, ?_⟩
  obtain ⟨contacts, early, t, ranContacts, firstSweep, firstReturned⟩ :=
    listingSweep forward counted .contacts s
  obtain ⟨stations, late, u, ranStations, secondSweep, secondReturned⟩ :=
    listingSweep forward counted .stations t
  refine ⟨contacts, stations, _, u, ?_, sweepTrans forward firstSweep secondSweep,
    returnedLater firstReturned secondSweep (by simp),
    returnedAfter forward firstSweep (by simp) secondReturned⟩
  unfold collection
  rw [Program.interpretAfter ranContacts, Program.interpretAfter ranStations]
  rfl

end Readings

/- The first station has no feature any more, and that of the second ends at the call that is to
read it. -/
def halfExpired : Watched :=
  ⟨⟨((((Holdings.empty.add "stations" "S1").add "stations" "S2").add "stations" "S3").put
      "S2" ⟨"2", some 5⟩).put "S3" ⟨"3", some 9⟩,
    (((Tallies.empty.register "S1").2.register "S2").2.register "S3").2⟩, []⟩

theorem halfExpiredAgrees :
    Monotone (id : Nat → Nat) ∧
    ∃ lost : List String, ∃ t,
      (listing true .stations).interpret (Watched.tick id) halfExpired = (.ok [("S3", "3")], t) ∧
      Sweep id true halfExpired t (lost.map (Category.stations, ·)) ∧
      "S1" ∈ lost ∧ "S2" ∈ lost ∧
      t.world.tallies.tenants["S2"]? = none ∧ "S3" ∈ t.world.holdings.members "stations" := by
  obtain ⟨l, lost, t, ran, sweep, returned⟩ :=
    (readingsAgree monotone_id true halfExpired).1 .stations
  have answer : ((listing true .stations).interpret (Watched.tick id) halfExpired).1 =
      .ok [("S3", "3")] := by decide +kernel
  rw [ran] at answer
  cases answer
  have first : "S1" ∈ lost := by
    simpa using (returned.parted "S1").mp (by decide +kernel)
  have second : "S2" ∈ lost := by
    simpa using (returned.parted "S2").mp (by decide +kernel)
  refine ⟨monotone_id, lost, t, ran, sweep, first, second, ?_,
    (returned.indexed "S3").mpr (by simp)⟩
  rw [sweep.tenants]
  simp [second]

end AirPicture.Cache
