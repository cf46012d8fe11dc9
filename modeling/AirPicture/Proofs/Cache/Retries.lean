import AirPicture.Cache.Surface
import AirPicture.Proofs.Cache.ConcurrentReaders
import AirPicture.Proofs.Cache.FaultyRuns
import AirPicture.Proofs.Cache.Interruption

/-! Reads that fail. A read that stops halfway has taken away nothing that had not expired, and what
it has left behind is no obstacle: the same read, made again at the same instant, comes to the same
end as if there had been no other before it. -/
namespace AirPicture.Cache

namespace Program

theorem faultyAmid {α : Type} (now : Nat) (fault : Nat → Option Failure) (p : Program α)
    {s after : Watched} {e : Failure}
    (failed : p.interpret (Watched.faulty (fun _ => now) fault) s = (.error e, after)) :
    ∃ f calls, p.interpret (amid fun n => ⟨now, (fault n).isSome⟩) (s.world, s.log.length) =
      (.error f, (after.world, calls)) := by
  induction p generalizing s with
  | done a => cases failed
  | call c next ih =>
    cases c with
    | tallies c =>
      simp only [interpret, Watched.faulty, Watched.reach, amid, World.performTallies] at failed ⊢
      rcases met : s.world.tallies.perform c with ⟨f | answer, t⟩
      · rw [met] at failed
        cases failed
        exact ⟨_, _, rfl⟩
      · rw [met] at failed
        exact ih answer failed
    | holdings c =>
      cases struck : fault s.log.length with
      | some f =>
        simp only [interpret, Watched.faulty, struck] at failed
        cases failed
        exact ⟨.unavailable, _, by simp only [interpret, amid, struck]; rfl⟩
      | none =>
        simp only [interpret, Watched.faulty, amid, struck, Option.isSome_none,
          Bool.false_eq_true, ↓reduceIte, World.performHoldings] at failed ⊢
        rcases met : s.world.holdings.perform now c with ⟨f | answer, h⟩
        · rw [met] at failed
          cases failed
          exact ⟨_, _, rfl⟩
        · rw [met] at failed
          have later := ih answer failed
          rwa [List.length_append, List.length_singleton] at later

end Program

structure Partway (lapsed : Category → String → Prop) (counted : Bool) (w v : World) : Prop where
  trims : Trims lapsed counted w v
  parted : counted = true → ∀ key : String, lapsed .stations key →
    key ∈ v.holdings.members Category.stations.index ∨ v.tallies.tenants[key]? = none

/- What a read that failed has left untouched: what has not expired, and the tallies of all stations
but those that have. -/
structure Unharmed (now : Nat) (w v : World) : Prop where
  entries : ∀ key : String, v.holdings.entries[key]? = w.holdings.entries[key]? ∨
    w.holdings.current now key = none ∧ v.holdings.entries[key]? = none
  members : ∀ set key, (key ∈ v.holdings.members set ↔ key ∈ w.holdings.members set) ∨
    w.holdings.current now key = none ∧ key ∉ v.holdings.members set
  tenants : ∀ key : String, v.tallies.tenants[key]? = w.tallies.tenants[key]? ∨
    (key ∈ w.holdings.members Category.stations.index ∧ w.holdings.current now key = none) ∧
      v.tallies.tenants[key]? = none

section Partway
variable {w v : World} {now : Nat} {reads : Category → Prop} {counted : Bool}

theorem partwayStart (w : World) : Partway (w.Lapsed now reads) counted w w where
  trims := trimsRefl w
  parted _ _ lapsed := .inl lapsed.2.1

theorem partwayUnharmed (partway : Partway (w.Lapsed now reads) counted w v) :
    Unharmed now w v where
  entries key := (partway.trims.entries key).imp_right fun ⟨⟨_, lapsed⟩, bare⟩ =>
    ⟨lapsed.2.2, bare⟩
  members set key := (partway.trims.members set key).imp_right fun ⟨⟨_, _, lapsed⟩, left, _⟩ =>
    ⟨lapsed.2.2, left⟩
  tenants key := (partway.trims.tenants key).imp_right fun ⟨⟨_, lapsed⟩, gone⟩ =>
    ⟨lapsed.2, gone⟩

end Partway

section Reading
variable (w : World) (now : Nat) (reads : Category → Prop) (counted : Bool)

abbrev Program.Furthers {α : Type} (before : World → Prop) (p : Program α)
    (good : α → World → Prop) : Prop :=
  p.Contract (fun x => x.now = now)
    (fun _ => Partway (w.Lapsed now reads) counted w) before good

variable {w now reads counted} {c : Category} {key : String}

theorem lookPartway {v : World} (partway : Partway (w.Lapsed now reads) counted w v)
    (read : reads c) (listed : key ∈ w.holdings.members c.index) :
    Partway (w.Lapsed now reads) counted w ⟨v.holdings.evict now key, v.tallies⟩ where
  trims := trimsTrans partway.trims (lookTrims partway.trims read listed)
  parted counts other lapsed := by
    rw [Holdings.evictMembers]
    exact partway.parted counts other lapsed

def Emptied (w : World) (now : Nat) (reads : Category → Prop) (counted : Bool) (key : String)
    (v : World) : Prop :=
  w.holdings.current now key = none ∧ v.holdings.entries[key]? = none ∧
    Partway (w.Lapsed now reads) counted w v

theorem lookEmptied {v : World} (partway : Partway (w.Lapsed now reads) counted w v)
    (read : reads c) (listed : key ∈ w.holdings.members c.index)
    (gone : w.holdings.current now key = none) :
    Emptied w now reads counted key ⟨v.holdings.evict now key, v.tallies⟩ := by
  refine ⟨gone, ?_, lookPartway partway read listed⟩
  rw [Holdings.evictEntry, if_pos ⟨rfl, (trimmedCurrent partway.trims key).trans gone⟩]

structure Departing (lapsed : Category → String → Prop) (counted : Bool) (w : World) (c : Category)
    (key : String) (v : World) : Prop where
  trims : Trims lapsed counted w v
  parted : counted = true → ∀ other : String, lapsed .stations other → c = .stations ∧ key = other ∨
    other ∈ v.holdings.members Category.stations.index ∨ v.tallies.tenants[other]? = none

theorem removeFurthers (lapsed : w.Lapsed now reads c key) :
    (Program.ofHoldings (.remove c.index key)).Furthers w now reads counted
      (fun v => v.holdings.entries[key]? = none ∧ Partway (w.Lapsed now reads) counted w v)
      fun _ => Departing (w.Lapsed now reads) counted w c key := by
  refine .holdings (fun _ _ _ _ start => start.2) ?_
  rintro _ _ _ v ⟨bare, partway⟩
  refine ⟨trimsTrans partway.trims (removeTrims lapsed bare), fun counts other free => ?_⟩
  by_cases own : c = .stations ∧ key = other
  · exact .inl own
  · have apart : ¬ (c.index = Category.stations.index ∧ key = other) := by
      cases c with
      | contacts => simp [Category.index]
      | stations => exact fun same => own ⟨rfl, same.2⟩
    refine .inr ((partway.parted counts other free).imp_left fun inside => ?_)
    exact (Holdings.removeMembers ..).mpr ⟨inside, apart⟩

theorem dropFurthers (counts : counted = true) (lapsed : w.Lapsed now reads .stations key) :
    (Program.ofTallies (.drop key)).Furthers w now reads counted
      (Departing (w.Lapsed now reads) counted w .stations key)
      fun _ => Partway (w.Lapsed now reads) counted w := by
  refine .tallies fun v departing => ⟨trimsTrans departing.trims (dropTrims counts lapsed), ?_⟩
  intro _ other free
  simp only [Std.ExtTreeMap.getElem?_erase, compare_eq_iff_eq]
  rcases departing.parted counts other free with ⟨-, same⟩ | inside | gone
  · exact .inr (if_pos same)
  · exact .inl inside
  · exact .inr (by rw [gone, ite_self])

theorem pruneFurthers (lapsed : w.Lapsed now reads c key) :
    (prune counted c key).Furthers w now reads counted
      (fun v => v.holdings.entries[key]? = none ∧ Partway (w.Lapsed now reads) counted w v)
      fun _ => Partway (w.Lapsed now reads) counted w := by
  unfold prune
  refine .bind (removeFurthers lapsed) fun _ => ?_
  split
  · rename_i both
    obtain ⟨counts, rfl⟩ := both
    exact .bind (dropFurthers counts lapsed) fun _ => .kept
  · rename_i others
    refine .done fun v departing => ⟨departing.trims, fun counts other free => ?_⟩
    exact (departing.parted counts other free).resolve_left fun own => others ⟨counts, own.1⟩

theorem partwayKeeping (read : reads c) :
    Keeping (fun x => x.now = now) (fun _ => Partway (w.Lapsed now reads) counted w) counted c
      (· ∈ w.holdings.members c.index) (Partway (w.Lapsed now reads) counted w)
      (Emptied w now reads counted) where
  lists := .holdings (fun _ _ _ _ partway => partway) fun _ _ _ v partway =>
    ⟨fun key inside => trimmedMembers partway.trims (Std.ExtTreeSet.mem_toList.mp inside), partway⟩
  has key listed := by
    refine .holdings (fun _ _ _ _ partway => partway) ?_
    rintro x rfl _ v partway
    simp only [Holdings.perform, lookedUp partway.trims]
    cases found : w.holdings.current x.now key with
    | none => exact lookEmptied partway read listed found
    | some feature => exact lookPartway partway read listed
  gets key listed := by
    refine .holdings (fun _ _ _ _ partway => partway) ?_
    rintro x rfl _ v partway
    simp only [Holdings.perform, lookedUp partway.trims]
    cases found : w.holdings.current x.now key with
    | none => exact lookEmptied partway read listed found
    | some feature => exact lookPartway partway read listed
  prunes key listed := .given fun gone => pruneFurthers ⟨read, listed, gone⟩

theorem listingFurthers (read : reads c) :
    (listing counted c).Furthers w now reads counted
      (Partway (w.Lapsed now reads) counted w) fun _ => Partway (w.Lapsed now reads) counted w :=
  listingKeeps (partwayKeeping read)

theorem collectionFurthers (contacts : reads .contacts) (stations : reads .stations) :
    (collection counted).Furthers w now reads counted
      (Partway (w.Lapsed now reads) counted w) fun _ => Partway (w.Lapsed now reads) counted w :=
  collectionKeeps (partwayKeeping contacts) (partwayKeeping stations)

theorem partwaySwept {u : World} (partway : Partway (w.Lapsed now reads) counted w u)
    (left : ∀ c key, w.Lapsed now reads c key → key ∉ u.holdings.members c.index) :
    Swept (w.Lapsed now reads) counted w u where
  trims := partway.trims
  left := left
  dropped counts key lapsed :=
    (partway.parted counts key lapsed).resolve_left (left .stations key lapsed)

theorem listingSwept {v : World} (partway : Partway (w.Lapsed now (· = c)) counted w v) :
    ∃ u, (listing counted c).run now v = (.ok (w.holdings.shown c now), u) ∧
      Swept (w.Lapsed now (· = c)) counted w u := by
  have ran := listingRun counted c now v
  rw [trimmedShown partway.trims] at ran
  have further : (listing counted c).Furthers w now (· = c) counted _ fun _ => _ :=
    listingFurthers rfl
  refine ⟨_, ran, partwaySwept (further.alone rfl partway ran) ?_⟩
  rintro category key lapsed inside
  obtain ⟨rfl, -, gone⟩ := lapsed
  obtain ⟨member, kept⟩ := (tidyAllMembers ..).mp inside
  exact kept ⟨rfl, Std.ExtTreeSet.mem_toList.mpr member,
    (trimmedCurrent partway.trims key).trans gone⟩

theorem collectionSwept {v : World} (partway : Partway (w.Lapsed now fun _ => True) counted w v) :
    ∃ u, (collection counted).run now v =
        (.ok ((w.holdings.shown .contacts now).map Prod.snd ++
          (w.holdings.shown .stations now).map Prod.snd), u) ∧
      Swept (w.Lapsed now fun _ => True) counted w u := by
  have ran := collectionRun counted now v
  rw [trimmedShown partway.trims, trimmedShown partway.trims] at ran
  refine ⟨_, ran, partwaySwept ((collectionFurthers trivial trivial).alone rfl partway ran) ?_⟩
  rintro category key ⟨-, -, lapsed⟩ inside
  have gone := (trimmedCurrent partway.trims key).trans lapsed
  obtain ⟨member, kept⟩ := (tidyAllMembers ..).mp inside
  cases category with
  | contacts =>
    obtain ⟨before, first⟩ := (tidyAllMembers ..).mp member
    exact first ⟨rfl, Std.ExtTreeSet.mem_toList.mpr before, gone⟩
  | stations =>
    refine kept ⟨rfl, Std.ExtTreeSet.mem_toList.mpr member, ?_⟩
    exact (tidyAllCurrent counted .contacts now (Nat.le_refl _) v _ key).trans gone

structure Rereads {α : Type} (w : World) (now : Nat) (reads : Category → Prop) (counted : Bool)
    (p : Program α) : Prop where
  furthers : p.Furthers w now reads counted
    (Partway (w.Lapsed now reads) counted w) fun _ => Partway (w.Lapsed now reads) counted w
  sweeps : ∃ a, ∀ v, Partway (w.Lapsed now reads) counted w v →
    ∃ u, p.run now v = (.ok a, u) ∧ Swept (w.Lapsed now reads) counted w u

theorem listingRereads (w : World) (now : Nat) (counted : Bool) (c : Category) :
    Rereads w now (· = c) counted (listing counted c) :=
  ⟨listingFurthers rfl, _, fun _ => listingSwept⟩

theorem collectionRereads (w : World) (now : Nat) (counted : Bool) :
    Rereads w now (fun _ => True) counted (collection counted) :=
  ⟨collectionFurthers trivial trivial, _, fun _ => collectionSwept⟩

theorem Rereads.andThen {α β : Type} {p : Program α} (rereads : Rereads w now reads counted p)
    (f : α → β) : Rereads w now reads counted (p >>= fun a => pure (f a)) where
  furthers := .bind rereads.furthers fun _ => .kept
  sweeps := by
    obtain ⟨a, sweeps⟩ := rereads.sweeps
    refine ⟨f a, fun v partway => ?_⟩
    obtain ⟨u, ran, swept⟩ := sweeps v partway
    exact ⟨u, Program.runAfter ran _, swept⟩

end Reading

/- Whichever of its calls on the holdings fails, a program tells this failure, having made the calls
before it. It has done no harm, and runs afterwards as if it had not been run before. -/
def Retried {α : Type} (w : World) (now : Nat) (p : Program α) : Prop :=
  let whole := p.interpret (Watched.faulty (fun _ => now) Watched.noFault) ⟨w, []⟩
  ∀ k e, k < whole.2.log.length → ∃ t,
    p.interpret (Watched.faulty (fun _ => now) (Watched.faultAt k e)) ⟨w, []⟩ =
        (.error e, ⟨t, whole.2.log.take k⟩) ∧
      Unharmed now w t ∧ p.run now t = p.run now w

theorem Rereads.retried {α : Type} {w : World} {now : Nat} {reads : Category → Prop}
    {counted : Bool} {p : Program α} (rereads : Rereads w now reads counted p) :
    Retried w now p := by
  intro k e reached
  have clear : ∀ n < k, Watched.faultAt k e n = none := fun n before => if_neg (Nat.ne_of_lt before)
  obtain ⟨failed, log⟩ := Program.faultyCut (fun _ => now) (if_pos rfl) clear p
    (s := ⟨w, []⟩) (Nat.zero_le k) reached
  rcases ran : p.interpret (Watched.faulty (fun _ => now) (Watched.faultAt k e)) ⟨w, []⟩ with
    ⟨outcome, t, made⟩
  rw [ran] at failed log
  simp only at failed log
  subst failed log
  obtain ⟨f, calls, ended⟩ := Program.faultyAmid now _ p ran
  simp only [List.length_nil] at ended
  have partway : Partway (w.Lapsed now reads) counted w t := by
    have met := rereads.furthers (fun n => ⟨now, (Watched.faultAt k e n).isSome⟩) (fun _ => rfl) w 0
      (partwayStart w)
    rwa [ended] at met
  obtain ⟨a, sweeps⟩ := rereads.sweeps
  obtain ⟨u, again, left⟩ := sweeps t partway
  obtain ⟨v, first, leaves⟩ := sweeps w (partwayStart w)
  refine ⟨t, rfl, partwayUnharmed partway, ?_⟩
  rw [again, first, sweptUnique left leaves]

/-- A read of which any call on the holdings fails at a frozen clock tells this failure. What has
not expired is kept, with its place in the indexes, and so are the tallies of all stations but
those in the index that have. Made again, the read replies and leaves what it would have
replied and left at first. -/
theorem failedReadsHarmless (counted : Bool) (now : Nat) (w : World) :
    (∀ c, Retried w now (listing counted c)) ∧ Retried w now (collection counted) ∧
      ∀ r : Resource, Retried w now (r.body counted) := by
  refine ⟨fun c => (listingRereads w now counted c).retried,
    (collectionRereads w now counted).retried, fun r => ?_⟩
  cases r with
  | entries c => exact ((listingRereads w now counted c).andThen (listingBody c)).retried
  | merged => exact ((collectionRereads w now counted).andThen collectionBody).retried

theorem partlyExpiredRetried :
    ∃ t, (listing true .stations).interpret
        (Watched.faulty (fun _ => 1000) (Watched.faultAt 3 .unavailable)) ⟨partlyExpired, []⟩ =
        (.error .unavailable, t) ∧
      ¬ t.world.tallies.Registered "S1" ∧ partlyExpired.tallies.Registered "S1" ∧
      (listing true .stations).run 1000 t.world =
        (listing true .stations).run 1000 partlyExpired := by
  obtain ⟨t, failed, _, again⟩ :=
    (failedReadsHarmless true 1000 partlyExpired).1 .stations 3 .unavailable (by decide +kernel)
  have dropped : ¬ ((listing true .stations).interpret
      (Watched.faulty (fun _ => 1000) (Watched.faultAt 3 .unavailable))
        ⟨partlyExpired, []⟩).2.world.tallies.Registered "S1" := by
    unfold Tallies.Registered
    decide +kernel
  rw [failed] at dropped
  refine ⟨_, failed, dropped, ?_, again⟩
  unfold Tallies.Registered
  decide +kernel

end AirPicture.Cache
