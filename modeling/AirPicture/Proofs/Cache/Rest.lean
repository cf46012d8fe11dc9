import Mathlib.Data.List.Induction
import AirPicture.Proofs.Cache.FaultyRuns

/-! The cache at rest. No value is kept under a key that no index holds, so everything that is
kept can be collected by a read. After a collection at one instant the indexes hold just the
keys that are kept, none of them has expired, and a further collection finds nothing to do. -/
namespace AirPicture.Cache

def Holdings.Covered (spare : String → Prop) (h : Holdings) : Prop :=
  ∀ key : String, h.entries[key]? ≠ none → spare key ∨ ∃ c : Category, key ∈ h.members c.index

def Holdings.Indexed (h : Holdings) : Prop :=
  ∀ key : String, h.entries[key]? ≠ none → ∃ c : Category, key ∈ h.members c.index

theorem emptyIndexed : Holdings.empty.Indexed := by
  intro key kept
  simp [Holdings.empty] at kept

theorem evictIndexed {h : Holdings} (indexed : h.Indexed) (now : Nat) (key : String) :
    (h.evict now key).Indexed := by
  intro other kept
  simp only [Holdings.evictMembers]
  rw [Holdings.evictEntry] at kept
  split at kept
  · contradiction
  · exact indexed other kept

theorem evictBare {h : Holdings} {now : Nat} {key : String} (gone : h.current now key = none) :
    (h.evict now key).entries[key]? = none := by
  rw [Holdings.evictEntry, if_pos ⟨rfl, gone⟩]

theorem removeIndexed {h : Holdings} (indexed : h.Indexed) {key : String}
    (bare : h.entries[key]? = none) (set : String) : (h.remove set key).Indexed := by
  intro other kept
  rw [Holdings.removeEntries] at kept
  obtain ⟨c, inside⟩ := indexed other kept
  refine ⟨c, (Holdings.removeMembers ..).mpr ⟨inside, ?_⟩⟩
  rintro ⟨_, rfl⟩
  exact kept bare

theorem putCovered {h : Holdings} {spare : String → Prop} (covered : h.Covered spare)
    (key : String) (e : Entry) : (h.put key e).Covered fun other => key = other ∨ spare other := by
  intro other kept
  rw [Holdings.putEntry] at kept
  split at kept
  · rename_i same
    exact .inl (.inl same)
  · exact (covered other kept).imp_left .inr

theorem addCovered {h : Holdings} {spare : String → Prop} (covered : h.Covered spare)
    (c : Category) (key : String) :
    (h.add c.index key).Covered fun other => key ≠ other ∧ spare other := by
  intro other kept
  by_cases same : key = other
  · exact .inr ⟨c, (Holdings.addMembers ..).mpr (.inl ⟨rfl, same⟩)⟩
  · rcases covered other kept with spared | ⟨category, inside⟩
    · exact .inl ⟨same, spared⟩
    · exact .inr ⟨category, (Holdings.addMembers ..).mpr (.inr inside)⟩

abbrev Program.Calm {α : Type} (allowed : Circumstance → Prop) (before : World → Prop)
    (p : Program α) (good : α → World → Prop) : Prop :=
  p.Contract allowed (fun _ w => w.holdings.Indexed) before good

section Contracts
variable {allowed : Circumstance → Prop} (calm : ∀ x, allowed x → x.fails = false)
include calm

theorem calmCall {c : Holdings.Call} {before : World → Prop} {good : c.Answer → World → Prop}
    (works : ∀ x, allowed x → ∀ w, before w →
      match w.holdings.perform x.now c with
      | (.ok a, h) => good a ⟨h, w.tallies⟩
      | (.error _, h) => h.Indexed) :
    (Program.ofHoldings c).Calm allowed before good :=
  .holdings (fun x fair fails => absurd fails (by simp [calm x fair])) fun x fair _ => works x fair

theorem hasIndexed (key : String) :
    (Program.ofHoldings (.has key)).Calm allowed (·.holdings.Indexed) fun found w =>
      match found with
      | true => w.holdings.Indexed
      | false => w.holdings.Indexed ∧ w.holdings.entries[key]? = none := by
  refine calmCall calm fun x _ w indexed => ?_
  have kept := evictIndexed indexed x.now key
  simp only [Holdings.perform, Holdings.lookExact]
  cases held : w.holdings.current x.now key with
  | none => exact ⟨kept, evictBare held⟩
  | some feature => exact kept

theorem getIndexed (key : String) :
    (Program.ofHoldings (.get key)).Calm allowed (·.holdings.Indexed) fun found w =>
      match found with
      | some _ => w.holdings.Indexed
      | none => w.holdings.Indexed ∧ w.holdings.entries[key]? = none := by
  refine calmCall calm fun x _ w indexed => ?_
  have kept := evictIndexed indexed x.now key
  simp only [Holdings.perform, Holdings.lookExact]
  cases held : w.holdings.current x.now key with
  | none => exact ⟨kept, evictBare held⟩
  | some feature => exact kept

theorem pruneIndexed (counted : Bool) (c : Category) (key : String) :
    (prune counted c key).Calm allowed
      (fun w => w.holdings.Indexed ∧ w.holdings.entries[key]? = none)
      fun _ w => w.holdings.Indexed := by
  have removed : (Program.ofHoldings (.remove c.index key)).Calm allowed
      (fun w => w.holdings.Indexed ∧ w.holdings.entries[key]? = none)
      fun _ w => w.holdings.Indexed :=
    calmCall calm fun _ _ _ ⟨indexed, bare⟩ => removeIndexed indexed bare c.index
  have dropped : (Program.ofTallies (.drop key)).Calm allowed (·.holdings.Indexed)
      fun _ w => w.holdings.Indexed :=
    .tallies fun w indexed => indexed
  unfold prune
  refine .bind removed fun _ => ?_
  split
  · exact .bind dropped fun _ => .kept
  · exact .kept

theorem indexedKeeping (counted : Bool) (c : Category) :
    Keeping allowed (fun _ w => w.holdings.Indexed) counted c (fun _ => True) (·.holdings.Indexed)
      fun key w => w.holdings.Indexed ∧ w.holdings.entries[key]? = none where
  lists := calmCall calm fun _ _ _ indexed => ⟨fun _ _ => trivial, indexed⟩
  has key _ := hasIndexed calm key
  gets key _ := getIndexed calm key
  prunes key _ := pruneIndexed calm counted c key

theorem listingIndexed (counted : Bool) (c : Category) :
    (listing counted c).Calm allowed (·.holdings.Indexed) fun _ w => w.holdings.Indexed :=
  listingKeeps (indexedKeeping calm counted c)

theorem collectionIndexed (counted : Bool) :
    (collection counted).Calm allowed (·.holdings.Indexed) fun _ w => w.holdings.Indexed :=
  collectionKeeps (indexedKeeping calm counted .contacts) (indexedKeeping calm counted .stations)

end Contracts

def Circumstance.Roomy (life : Nat) (x : Circumstance) : Prop := x.fails = false ∧ Room x.now life

def Circumstance.Cramped (life : Nat) (x : Circumstance) : Prop :=
  x.fails = false ∧ ¬ Room x.now life

section Intake
variable {life : Nat}

theorem putIndexed (spare : String → Prop) (key value : String) :
    (Program.ofHoldings (.put key value (some life))).Calm (Circumstance.Roomy life)
      (·.holdings.Covered spare) fun _ w =>
        w.holdings.Covered fun other => key = other ∨ spare other := by
  refine calmCall (fun _ => And.left) fun x fair w covered => ?_
  have timely : ¬ Holdings.lastSecond ≤ (x.now + life) / 1000 := Nat.not_le.mpr fair.2
  simp only [Holdings.perform, Holdings.expiry, timely, ↓reduceIte]
  exact putCovered covered key _

theorem putRefused (key value : String) :
    (Program.ofHoldings (.put key value (some life))).Calm (Circumstance.Cramped life)
      (·.holdings.Indexed) fun _ _ => False := by
  refine calmCall (fun _ => And.left) fun x cramped w indexed => ?_
  have late : Holdings.lastSecond ≤ (x.now + life) / 1000 := Nat.not_lt.mp cramped.2
  simp only [Holdings.perform, Holdings.expiry, late, ↓reduceIte]
  exact indexed

theorem addIndexed (spare : String → Prop) (c : Category) (key : String) :
    (Program.ofHoldings (.add c.index key)).Calm (Circumstance.Roomy life)
      (·.holdings.Covered spare) fun _ w =>
        w.holdings.Covered fun other => key ≠ other ∧ spare other :=
  calmCall (fun _ => And.left) fun _ _ _ covered => addCovered covered c key

theorem keepIndexed (o : Observation) (s : Station) :
    (keep life o s).Calm (Circumstance.Roomy life) (·.holdings.Indexed)
      fun _ w => w.holdings.Indexed := by
  have kept : (keep life o s).Calm (Circumstance.Roomy life)
      (·.holdings.Covered fun _ => False) fun _ w =>
        w.holdings.Covered fun other =>
          s.id ≠ other ∧ o.icao ≠ other ∧ (s.id = other ∨ o.icao = other ∨ False) :=
    .bind (putIndexed _ o.icao _) fun _ => .bind (putIndexed _ s.id _) fun _ =>
      .bind (addIndexed _ .contacts o.icao) fun _ => .bind (addIndexed _ .stations s.id) fun _ =>
        .kept
  refine .weaken kept (fun w indexed key held => .inr (indexed key held)) ?_
  intro _ w covered key held
  rcases covered key held with ⟨station, contact, same | same | none⟩ | inside
  · exact absurd same station
  · exact absurd same contact
  · exact none.elim
  · exact inside

theorem countIndexed (allowed : Circumstance → Prop) (s : Station) :
    (count s).Calm allowed (·.holdings.Indexed) fun _ w => w.holdings.Indexed := by
  have told (c : Tallies.Call) : (Program.ofTallies c).Calm allowed
      (·.holdings.Indexed) fun _ w => w.holdings.Indexed := by
    refine .tallies fun w indexed => ?_
    rcases w.tallies.perform c with ⟨_ | _, t⟩ <;> exact indexed
  unfold count
  refine .bind (told _) fun fresh => ?_
  cases fresh with
  | true => exact .bind (told _) fun _ => told _
  | false => exact told _

theorem intakeIndexed (o : Observation) (s : Station) :
    (intake life o s).Calm (Circumstance.Roomy life) (·.holdings.Indexed)
      fun _ w => w.holdings.Indexed :=
  .bind (keepIndexed o s) fun _ => countIndexed _ s

theorem intakeRefused (o : Observation) (s : Station) :
    (intake life o s).Calm (Circumstance.Cramped life) (·.holdings.Indexed) fun _ _ => False := by
  have refused : (keep life o s).Calm (Circumstance.Cramped life) (·.holdings.Indexed)
      fun _ _ => False :=
    .bind (putRefused o.icao _) fun _ => .never
  exact .bind refused fun _ => .never

end Intake

/- No call fails, and the last moment that an expiry can name does not pass in the middle of an
observation. -/
structure Attempt.Fair (life : Nat) (a : Attempt) : Prop where
  calm : ∀ n, (a.course n).fails = false
  room : ∀ o, a.action = .observe o →
    ∀ n m, Room (a.course n).now life → Room (a.course m).now life

theorem steadyFair (life : Nat) (action : Action) (now : Nat) :
    (Attempt.mk action (.steady now)).Fair life where
  calm _ := rfl
  room _ _ _ _ room := room

theorem undergoIndexed {life : Nat} (counted : Bool) {w : World} (indexed : w.holdings.Indexed)
    {a : Attempt} (fair : a.Fair life) : (w.undergo life counted a).holdings.Indexed := by
  obtain ⟨action, course⟩ := a
  obtain ⟨calm, room⟩ := fair
  cases action with
  | observe o =>
    cases vetted : vet o with
    | error refusal =>
      rw [undergoRefused life counted w course vetted]
      exact indexed
    | ok station =>
      rw [undergoTaken life counted w course vetted]
      by_cases roomy : Room (course 0).now life
      · have fair : ∀ n, (course n).Roomy life := fun n => ⟨calm n, room o rfl 0 n roomy⟩
        exact (intakeIndexed o station).leaves fair indexed 0 (fun _ _ kept => kept)
          fun _ _ kept => kept
      · have fair : ∀ n, (course n).Cramped life :=
          fun n => ⟨calm n, fun room' => roomy (room o rfl n 0 room')⟩
        exact (intakeRefused o station).leaves fair indexed 0 (fun _ _ none => none.elim)
          fun _ _ kept => kept
  | wait time => exact indexed
  | list c =>
    exact (listingIndexed (fun _ still => still) counted c).leaves calm indexed 0
      (fun _ _ kept => kept) fun _ _ kept => kept
  | collect =>
    exact (collectionIndexed (fun _ still => still) counted).leaves calm indexed 0
      (fun _ _ kept => kept) fun _ _ kept => kept

theorem undergoneIndexed {life : Nat} (counted : Bool) {attempts : List Attempt}
    (fair : ∀ a ∈ attempts, a.Fair life) :
    (World.empty.undergoAll life counted attempts).holdings.Indexed := by
  induction attempts using List.reverseRecOn with
  | nil => exact emptyIndexed
  | append_singleton attempts a ih =>
    rw [World.undergoAll, List.foldl_append]
    exact undergoIndexed counted (ih fun a inside => fair a (List.mem_append_left _ inside))
      (fair a (by simp))

section Collecting
variable (counted : Bool) (now : Nat)

theorem tidyIndexLive {w : World} {c : Category} {key : String}
    (inside : key ∈ (w.tidyIndex counted c now).holdings.members c.index) :
    w.holdings.current now key ≠ none := by
  obtain ⟨member, kept⟩ := (tidyAllMembers counted c now w _ c.index key).mp inside
  intro gone
  exact kept ⟨rfl, Std.ExtTreeSet.mem_toList.mpr member, gone⟩

theorem tidyIndexIdle {w : World} {c : Category}
    (live : ∀ key ∈ w.holdings.members c.index, w.holdings.current now key ≠ none) :
    w.tidyIndex counted c now = w := by
  have idle : ∀ keys : List String, (∀ key ∈ keys, w.holdings.current now key ≠ none) →
      w.tidyAll counted c now keys = w := by
    intro keys live
    induction keys with
    | nil => rfl
    | cons key rest ih =>
      obtain ⟨first, later⟩ := List.forall_mem_cons.mp live
      rw [World.tidyAll, List.foldl_cons, World.tidy, if_neg first]
      exact ih later
  exact idle _ fun key inside => live key (Std.ExtTreeSet.mem_toList.mp inside)

theorem collectedLive (w : World) (c : Category) {key : String}
    (inside : key ∈ ((collection counted).run now w).2.holdings.members c.index) :
    ((collection counted).run now w).2.holdings.current now key ≠ none := by
  rw [(collectionTidied counted now w).current now (Nat.le_refl _)]
  rw [collectionRun] at inside
  cases c with
  | contacts =>
    exact tidyIndexLive counted now ((tidyAllTidied counted .stations now _ _).fewer _ _ inside)
  | stations =>
    have live := tidyIndexLive counted now inside
    rwa [World.tidyIndex, tidyAllCurrent counted .contacts now (Nat.le_refl _)] at live

theorem collectedAgain (w : World) :
    (collection counted).run now ((collection counted).run now w).2 =
      (collection counted).run now w := by
  have live (c : Category) : ∀ key ∈ ((collection counted).run now w).2.holdings.members c.index,
      ((collection counted).run now w).2.holdings.current now key ≠ none :=
    fun _ inside => collectedLive counted now w c inside
  have shown : ∀ c, ((collection counted).run now w).2.holdings.shown c now =
      w.holdings.shown c now := by
    intro c
    rw [collectionRun, World.tidyIndex, tidyAllShown counted .stations now (Nat.le_refl _),
      World.tidyIndex, tidyAllShown counted .contacts now (Nat.le_refl _)]
  rw [collectionRun counted now ((collection counted).run now w).2, shown, shown,
    tidyIndexIdle counted now (live .contacts), tidyIndexIdle counted now (live .stations)]
  rw [collectionRun]

theorem collectedIndexed {w : World} (indexed : w.holdings.Indexed) :
    ((collection counted).run now w).2.holdings.Indexed := by
  obtain ⟨last, same⟩ := steadyRun now (collection counted) w 0
  have still : ∀ n, (Course.steady now n).fails = false := fun _ => rfl
  have left := (collectionIndexed (fun _ calm => calm) counted).leaves still indexed 0
    (fun _ _ kept => kept) fun _ _ kept => kept
  rwa [same] at left

end Collecting

/-- In a run without failures, whatever is kept stands under a key that an index holds. And
after a collection at one instant, an index holds only keys with a value that has not expired,
values are kept under just the keys of the two indexes, and another collection at that instant
returns the same and changes nothing. -/
theorem restsIndexed (life : Nat) (counted : Bool) (attempts : List Attempt)
    (fair : ∀ a ∈ attempts, a.Fair life) :
    let w := World.empty.undergoAll life counted attempts
    (∀ key : String, w.holdings.entries[key]? ≠ none →
      ∃ c : Category, key ∈ w.holdings.members c.index) ∧
    ∀ now,
      let after := ((collection counted).run now w).2
      (∀ (c : Category) key, key ∈ after.holdings.members c.index →
        ∃ e, after.holdings.entries[key]? = some e ∧ e.live now = true) ∧
      (∀ key : String, after.holdings.entries[key]? ≠ none ↔
        ∃ c : Category, key ∈ after.holdings.members c.index) ∧
      ∃ features, (collection counted).run now w = (.ok features, after) ∧
        (collection counted).run now after = (.ok features, after) := by
  intro w
  have indexed := undergoneIndexed counted fair
  refine ⟨indexed, fun now => ?_⟩
  intro after
  have live : ∀ (c : Category) key, key ∈ after.holdings.members c.index →
      ∃ e, after.holdings.entries[key]? = some e ∧ e.live now = true := by
    intro c key inside
    obtain ⟨value, found⟩ := Option.ne_none_iff_exists'.mp (collectedLive counted now w c inside)
    obtain ⟨e, entry, live, _⟩ := Holdings.currentSome.mp found
    exact ⟨e, entry, live⟩
  refine ⟨live, fun key => ⟨collectedIndexed counted now indexed key, ?_⟩, ?_⟩
  · rintro ⟨c, inside⟩
    obtain ⟨e, entry, _⟩ := live c key inside
    simp [entry]
  · obtain ⟨features, told⟩ : ∃ features, ((collection counted).run now w).1 = .ok features :=
      ⟨_, congrArg Prod.fst (collectionRun counted now w)⟩
    have first : (collection counted).run now w = (.ok features, after) := Prod.ext told rfl
    exact ⟨features, first, (collectedAgain counted now w).trans first⟩

/- An aircraft expires between the check and the get of a reader, and its successor later on. -/
def expiringAttempts : List Attempt :=
  [⟨.observe (overHarbour "A00001" 9000), .steady 0⟩,
    ⟨.list .contacts, fun n => ⟨500 + 400 * n, false⟩⟩,
    ⟨.observe (overHarbour "A00002" 9000), fun n => ⟨1200 + n % 4, false⟩⟩]

theorem expiringFair : ∀ a ∈ expiringAttempts, a.Fair 1000 := by
  intro a inside
  simp only [expiringAttempts, List.mem_cons, List.not_mem_nil, or_false] at inside
  rcases inside with rfl | rfl | rfl
  · exact steadyFair 1000 _ 0
  · exact ⟨fun _ => rfl, fun o observes => by contradiction⟩
  · refine ⟨fun _ => rfl, fun _ _ _ m _ => ?_⟩
    have early : 1200 + m % 4 < 5000 := by omega
    simp only [Room, Holdings.lastSecond, Holdings.uptime]
    omega

theorem expiringIndexed :
    let w := World.empty.undergoAll 1000 true expiringAttempts
    let after := ((collection true).run 2200 w).2
    "A00001" ∉ w.holdings.members Category.contacts.index ∧
    "A00002" ∈ w.holdings.members Category.contacts.index ∧
    after.holdings.entries["A00002"]? = none ∧
    (∃ e, after.holdings.entries["S1"]? = some e ∧ e.live 2200 = true) ∧
    ∃ features, (collection true).run 2200 w = (.ok features, after) ∧
      (collection true).run 2200 after = (.ok features, after) := by
  obtain ⟨_, rest⟩ := restsIndexed 1000 true expiringAttempts expiringFair
  obtain ⟨live, _, again⟩ := rest 2200
  exact ⟨by decide +kernel, by decide +kernel, by decide +kernel,
    live .stations "S1" (by decide +kernel), again⟩

end AirPicture.Cache
