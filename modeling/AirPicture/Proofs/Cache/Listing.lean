import Mathlib.Data.List.Sort
import AirPicture.Proofs.Cache.Holdings
import AirPicture.Proofs.Cache.Tallies

/-! A listing that runs alone at one instant. It returns what is shown: the members of its
index that have a current value, in order, each with that value. Every other member is
tidied away, and tidying changes nothing that is shown then or later. -/
namespace AirPicture.Cache

namespace Holdings

def shown (h : Holdings) (c : Category) (now : Nat) : List (String × String) :=
  (h.members c.index).toList.filterMap fun key => (h.current now key).map (key, ·)

theorem shownExact {h : Holdings} {c now key feature} :
    (key, feature) ∈ h.shown c now ↔
      key ∈ h.members c.index ∧ h.current now key = some feature := by
  simp only [shown, List.mem_filterMap, Option.map_eq_some_iff, Prod.mk.injEq,
    Std.ExtTreeSet.mem_toList]
  constructor
  · rintro ⟨other, member, value, found, rfl, rfl⟩
    exact ⟨member, found⟩
  · rintro ⟨member, found⟩
    exact ⟨key, member, feature, found, rfl, rfl⟩

theorem shownOrdered (h : Holdings) (c : Category) (now : Nat) :
    (h.shown c now).Pairwise (fun a b => a.1 < b.1) := by
  refine List.pairwise_filterMap.mpr ((h.orderedMembers c.index).imp ?_)
  intro a b order x hx y hy
  obtain ⟨_, _, rfl⟩ := Option.map_eq_some_iff.mp hx
  obtain ⟨_, _, rfl⟩ := Option.map_eq_some_iff.mp hy
  exact order

end Holdings

theorem entriesUnique {left right : List (String × String)}
    (first : left.Pairwise (fun a b => a.1 < b.1)) (second : right.Pairwise (fun a b => a.1 < b.1))
    (same : ∀ key feature, (key, feature) ∈ left ↔ (key, feature) ∈ right) : left = right := by
  have : Std.Irrefl (fun a b : String × String => a.1 < b.1) := ⟨fun a => lt_irrefl a.1⟩
  exact first.eq_of_mem_iff second fun pair => same pair.1 pair.2

def World.pruned (counted : Bool) (c : Category) (w : World) (key : String) : World :=
  ⟨w.holdings.remove c.index key,
    if counted ∧ c = .stations then (w.tallies.drop key).2 else w.tallies⟩

def World.tidy (counted : Bool) (c : Category) (now : Nat) (w : World) (key : String) : World :=
  if w.holdings.current now key = none then
    World.pruned counted c ⟨w.holdings.evict now key, w.tallies⟩ key
  else w

def World.tidyAll (counted : Bool) (c : Category) (now : Nat) (w : World) (keys : List String) :
    World :=
  keys.foldl (World.tidy counted c now) w

section Tidying
variable (counted : Bool) (c : Category) (now : Nat)

theorem tidyCurrent {later : Nat} (order : now ≤ later) (w : World) (key other : String) :
    (w.tidy counted c now key).holdings.current later other =
      w.holdings.current later other := by
  unfold World.tidy World.pruned
  split
  · rw [Holdings.removeCurrent, Holdings.evictCurrent _ order]
  · rfl

theorem tidyMembers (w : World) (key set other : String) :
    other ∈ (w.tidy counted c now key).holdings.members set ↔
      other ∈ w.holdings.members set ∧
        ¬ (c.index = set ∧ key = other ∧ w.holdings.current now key = none) := by
  unfold World.tidy World.pruned
  split
  · rename_i gone
    rw [Holdings.removeMembers, Holdings.evictMembers]
    simp [gone]
  · rename_i found
    simp [found]

theorem tidyAllCurrent {later : Nat} (order : now ≤ later) (w : World) (keys : List String)
    (other : String) :
    (w.tidyAll counted c now keys).holdings.current later other =
      w.holdings.current later other := by
  induction keys generalizing w with
  | nil => rfl
  | cons key rest ih => exact (ih _).trans (tidyCurrent counted c now order w key other)

theorem tidyAllMembers (w : World) (keys : List String) (set other : String) :
    other ∈ (w.tidyAll counted c now keys).holdings.members set ↔
      other ∈ w.holdings.members set ∧
        ¬ (c.index = set ∧ other ∈ keys ∧ w.holdings.current now other = none) := by
  induction keys generalizing w with
  | nil => simp [World.tidyAll]
  | cons key rest ih =>
    change other ∈ ((w.tidy counted c now key).tidyAll counted c now rest).holdings.members set ↔ _
    rw [ih, tidyMembers, tidyCurrent counted c now (Nat.le_refl _)]
    constructor
    · rintro ⟨⟨member, apart⟩, later⟩
      refine ⟨member, ?_⟩
      rintro ⟨index, inside, gone⟩
      rcases List.mem_cons.mp inside with rfl | inside
      · exact apart ⟨index, rfl, gone⟩
      · exact later ⟨index, inside, gone⟩
    · rintro ⟨member, apart⟩
      refine ⟨⟨member, ?_⟩, ?_⟩
      · rintro ⟨index, rfl, gone⟩
        exact apart ⟨index, List.mem_cons_self, gone⟩
      · rintro ⟨index, inside, gone⟩
        exact apart ⟨index, List.mem_cons_of_mem _ inside, gone⟩

theorem tidyAllShown {later : Nat} (order : now ≤ later) (w : World) (keys : List String)
    (category : Category) :
    (w.tidyAll counted c now keys).holdings.shown category later =
      w.holdings.shown category later := by
  apply entriesUnique (Holdings.shownOrdered _ _ _) (Holdings.shownOrdered _ _ _)
  intro key feature
  rw [Holdings.shownExact, Holdings.shownExact, tidyAllMembers,
    tidyAllCurrent counted c now order]
  constructor
  · rintro ⟨⟨member, _⟩, found⟩
    exact ⟨member, found⟩
  · rintro ⟨member, found⟩
    refine ⟨⟨member, ?_⟩, found⟩
    rintro ⟨_, _, gone⟩
    rw [Holdings.currentLater order gone] at found
    contradiction

theorem pruneRun (w : World) (key : String) :
    (prune counted c key).run now w = (.ok (), w.pruned counted c key) := by
  unfold prune
  rw [Program.runAfter (Program.runHoldings now (.remove c.index key) w)]
  unfold World.pruned
  split
  · rw [Program.runAfter (Program.runTallies now (.drop key) _), Program.runDone]
    rfl
  · rw [Program.runDone]
    rfl

theorem hasRun (w : World) (key : String) :
    (Program.ofHoldings (.has key)).run now w =
      (.ok (w.holdings.current now key).isSome, ⟨w.holdings.evict now key, w.tallies⟩) := by
  rw [Program.runHoldings]
  simp [Holdings.perform, Holdings.lookExact]

theorem getRun (w : World) (key : String) :
    (Program.ofHoldings (.get key)).run now w =
      (.ok (w.holdings.current now key), ⟨w.holdings.evict now key, w.tallies⟩) := by
  rw [Program.runHoldings]
  simp [Holdings.perform, Holdings.lookExact]

theorem evictKept {h : Holdings} {key value} (found : h.current now key = some value) :
    h.evict now key = h := by
  unfold Holdings.evict
  split
  · rename_i stale
    obtain ⟨e, entry, expired⟩ := (Holdings.staleExact h now key).mp stale
    simp [Holdings.currentEntry, entry, expired] at found
  · rfl

theorem liveKeysRun (w : World) (keys : List String) :
    (liveKeys counted c keys).run now w =
      (.ok (keys.filter fun key => (w.holdings.current now key).isSome),
        w.tidyAll counted c now keys) := by
  induction keys generalizing w with
  | nil => rfl
  | cons key rest ih =>
    unfold liveKeys
    rw [Program.runAfter (hasRun now w key)]
    cases found : w.holdings.current now key with
    | none =>
      have tidied : World.pruned counted c ⟨w.holdings.evict now key, w.tallies⟩ key =
          w.tidy counted c now key := by simp [World.tidy, found]
      simp only [Option.isSome_none, Bool.false_eq_true, ↓reduceIte]
      rw [Program.runAfter (pruneRun counted c now _ key), tidied, ih]
      simp only [tidyCurrent counted c now (Nat.le_refl _)]
      simp [found, World.tidyAll]
    | some value =>
      have untouched : w.tidy counted c now key = w := by simp [World.tidy, found]
      simp only [Option.isSome_some, ↓reduceIte, evictKept now found]
      rw [Program.runAfter (ih w), Program.runDone]
      simp [found, World.tidyAll, untouched]

theorem featuresRun (w : World) (keys : List String)
    (live : ∀ key ∈ keys, (w.holdings.current now key).isSome = true) :
    (features counted c keys).run now w =
      (.ok (keys.filterMap fun key => (w.holdings.current now key).map (key, ·)), w) := by
  induction keys with
  | nil => rfl
  | cons key rest ih =>
    obtain ⟨value, found⟩ := Option.isSome_iff_exists.mp (live key List.mem_cons_self)
    have later := ih fun other inside => live other (List.mem_cons_of_mem _ inside)
    unfold features
    rw [Program.runAfter (getRun now w key)]
    simp only [found, evictKept now found]
    rw [Program.runAfter later, Program.runDone]
    simp [found]

theorem listingRun (w : World) :
    (listing counted c).run now w =
      (.ok (w.holdings.shown c now),
        w.tidyAll counted c now (w.holdings.members c.index).toList) := by
  unfold listing
  rw [Program.runAfter (Program.runHoldings now (.list c.index) w)]
  simp only [Holdings.perform]
  rw [Program.runAfter (liveKeysRun counted c now w _), featuresRun]
  · simp only [tidyAllCurrent counted c now (Nat.le_refl _), Holdings.shown]
    congr 2
    rw [List.filterMap_filter]
    apply List.filterMap_congr
    intro key _
    cases w.holdings.current now key <;> simp
  · intro key inside
    rw [tidyAllCurrent counted c now (Nat.le_refl _)]
    exact (List.mem_filter.mp inside).2

end Tidying

def World.tidyIndex (counted : Bool) (c : Category) (now : Nat) (w : World) : World :=
  w.tidyAll counted c now (w.holdings.members c.index).toList

theorem collectionRun (counted : Bool) (now : Nat) (w : World) :
    (collection counted).run now w =
      (.ok ((w.holdings.shown .contacts now).map Prod.snd ++
          (w.holdings.shown .stations now).map Prod.snd),
        (w.tidyIndex counted .contacts now).tidyIndex counted .stations now) := by
  unfold collection
  rw [Program.runAfter (listingRun counted .contacts now w),
    Program.runAfter (listingRun counted .stations now _), Program.runDone,
    tidyAllShown counted .contacts now (Nat.le_refl _)]
  rfl

structure World.Tidied (now : Nat) (before after : World) : Prop where
  current : ∀ later, now ≤ later → ∀ key,
    after.holdings.current later key = before.holdings.current later key
  fewer : ∀ set key, key ∈ after.holdings.members set → key ∈ before.holdings.members set
  kept : ∀ set key, key ∈ before.holdings.members set →
    before.holdings.current now key ≠ none → key ∈ after.holdings.members set
  numeric : before.tallies.Numeric → after.tallies.Numeric

theorem tidyNumeric (counted : Bool) (c : Category) (now : Nat) {w : World}
    (numeric : w.tallies.Numeric) (key : String) :
    (w.tidy counted c now key).tallies.Numeric := by
  unfold World.tidy World.pruned
  split
  · simp only
    split
    · exact Tallies.performNumeric numeric (c := .drop key) rfl
    · exact numeric
  · exact numeric

theorem tidyAllNumeric (counted : Bool) (c : Category) (now : Nat) (keys : List String) {w : World}
    (numeric : w.tallies.Numeric) : (w.tidyAll counted c now keys).tallies.Numeric := by
  induction keys generalizing w with
  | nil => exact numeric
  | cons key rest ih => exact ih (tidyNumeric counted c now numeric key)

theorem tidyAllTidied (counted : Bool) (c : Category) (now : Nat) (w : World)
    (keys : List String) : World.Tidied now w (w.tidyAll counted c now keys) where
  current _ order key := tidyAllCurrent counted c now order w keys key
  fewer set key inside := ((tidyAllMembers counted c now w keys set key).mp inside).1
  kept set key inside found :=
    (tidyAllMembers counted c now w keys set key).mpr ⟨inside, fun gone => found gone.2.2⟩
  numeric := tidyAllNumeric counted c now keys

theorem World.Tidied.trans {now : Nat} {first second third : World}
    (before : World.Tidied now first second) (after : World.Tidied now second third) :
    World.Tidied now first third where
  current later order key := (after.current later order key).trans (before.current later order key)
  fewer set key inside := before.fewer set key (after.fewer set key inside)
  kept set key inside found := after.kept set key (before.kept set key inside found)
    (by rw [before.current now (Nat.le_refl _)]; exact found)
  numeric pure := after.numeric (before.numeric pure)

theorem listingTidied (counted : Bool) (c : Category) (now : Nat) (w : World) :
    World.Tidied now w ((listing counted c).run now w).2 := by
  rw [listingRun]
  exact tidyAllTidied counted c now w _

theorem collectionTidied (counted : Bool) (now : Nat) (w : World) :
    World.Tidied now w ((collection counted).run now w).2 := by
  rw [collectionRun]
  exact (tidyAllTidied counted .contacts now w _).trans (tidyAllTidied counted .stations now _ _)

end AirPicture.Cache
