import AirPicture.Proofs.Cache.RelyGuarantee
import AirPicture.Proofs.Cache.Stranding

/-! Readers among readers at one instant. What they take away had expired by then, and is gone
for all of them alike: a reader that comes upon a key later finds that there is nothing left to
do, and what has not expired is out of their reach. So each of them reads what it would read
alone, and what they leave is the same in every order. -/
namespace AirPicture.Cache
open Operation

/- An index that is read holds the key, but nothing that has not expired is kept under it. -/
def World.Lapsed (w : World) (now : Nat) (reads : Category → Prop) (c : Category) (key : String) :
    Prop :=
  reads c ∧ key ∈ w.holdings.members c.index ∧ w.holdings.current now key = none

structure Trims (lapsed : Category → String → Prop) (counted : Bool) (v u : World) : Prop where
  present : ∀ set : String, u.holdings.sets[set]?.isSome = v.holdings.sets[set]?.isSome
  members : ∀ set key, (key ∈ u.holdings.members set ↔ key ∈ v.holdings.members set) ∨
    (∃ c : Category, c.index = set ∧ lapsed c key) ∧ key ∉ u.holdings.members set ∧
      u.holdings.entries[key]? = none
  entries : ∀ key : String, u.holdings.entries[key]? = v.holdings.entries[key]? ∨
    (∃ c, lapsed c key) ∧ u.holdings.entries[key]? = none
  tenants : ∀ key : String, u.tallies.tenants[key]? = v.tallies.tenants[key]? ∨
    (counted = true ∧ lapsed .stations key) ∧ u.tallies.tenants[key]? = none

section Trimming
variable {lapsed : Category → String → Prop} {counted : Bool} {t u v : World}

theorem trimsRefl (v : World) : Trims lapsed counted v v where
  present _ := rfl
  members _ _ := .inl .rfl
  entries _ := .inl rfl
  tenants _ := .inl rfl

theorem bareLater {key : String} (trims : Trims lapsed counted v u)
    (bare : v.holdings.entries[key]? = none) : u.holdings.entries[key]? = none := by
  rcases trims.entries key with same | lost
  · rw [same, bare]
  · exact lost.2

theorem leftLater {set key : String} (trims : Trims lapsed counted v u)
    (left : key ∉ v.holdings.members set) : key ∉ u.holdings.members set := by
  rcases trims.members set key with same | lost
  · exact fun inside => left (same.mp inside)
  · exact lost.2.1

theorem trimsTrans (first : Trims lapsed counted v u) (second : Trims lapsed counted u t) :
    Trims lapsed counted v t where
  present set := (second.present set).trans (first.present set)
  members set key := by
    rcases second.members set key with same | lost
    · rcases first.members set key with before | lost
      · exact .inl (same.trans before)
      · exact .inr ⟨lost.1, leftLater second lost.2.1, bareLater second lost.2.2⟩
    · exact .inr lost
  entries key := by
    rcases second.entries key with same | lost
    · rw [same]
      exact first.entries key
    · exact .inr lost
  tenants key := by
    rcases second.tenants key with same | lost
    · rw [same]
      exact first.tenants key
    · exact .inr lost

instance : IsPreorder World (Trims lapsed counted) where
  refl := trimsRefl
  trans _ _ _ := trimsTrans

theorem evictTrims {now : Nat} {key : String}
    (free : v.holdings.current now key = none → ∃ c, lapsed c key) :
    Trims lapsed counted v ⟨v.holdings.evict now key, v.tallies⟩ where
  present set := by
    unfold Holdings.evict
    split <;> rfl
  members set other := .inl (by rw [Holdings.evictMembers])
  entries other := by
    simp only [Holdings.evictEntry]
    split
    · rename_i gone
      exact .inr ⟨gone.1 ▸ free gone.2, rfl⟩
    · exact .inl rfl
  tenants _ := .inl rfl

theorem removeTrims {c : Category} {key : String} (free : lapsed c key)
    (bare : v.holdings.entries[key]? = none) :
    Trims lapsed counted v ⟨v.holdings.remove c.index key, v.tallies⟩ where
  present set := by
    simp only [Holdings.remove]
    cases found : v.holdings.sets[c.index]? with
    | none => rfl
    | some kept =>
      simp only [Std.ExtTreeMap.getElem?_insert]
      split
      · rename_i same
        rw [← compare_eq_iff_eq.mp same, found]
        rfl
      · rfl
  members set other := by
    by_cases own : c.index = set ∧ key = other
    · obtain ⟨rfl, rfl⟩ := own
      refine .inr ⟨⟨c, rfl, free⟩, by simp [Holdings.removeMembers], ?_⟩
      rw [Holdings.removeEntries]
      exact bare
    · exact .inl (by simp [Holdings.removeMembers, own])
  entries other := .inl (by rw [Holdings.removeEntries])
  tenants _ := .inl rfl

theorem dropTrims {key : String} (counts : counted = true) (free : lapsed .stations key) :
    Trims lapsed counted v ⟨v.holdings, (v.tallies.drop key).2⟩ where
  present _ := rfl
  members _ _ := .inl .rfl
  entries _ := .inl rfl
  tenants other := by
    simp only [Tallies.drop, Std.ExtTreeMap.getElem?_erase]
    split
    · rename_i same
      rw [compare_eq_iff_eq.mp same] at free
      exact .inr ⟨⟨counts, free⟩, rfl⟩
    · exact .inl rfl

end Trimming

section Readers
variable {w : World} {now : Nat} {reads : Category → Prop} {counted : Bool} {v : World}

theorem trimmedCurrent (past : Trims (w.Lapsed now reads) counted w v) (key : String) :
    v.holdings.current now key = w.holdings.current now key := by
  rw [Holdings.currentEntry]
  rcases past.entries key with same | ⟨⟨c, lapsed⟩, bare⟩
  · rw [same, Holdings.currentEntry]
  · rw [bare, lapsed.2.2]
    rfl

theorem trimmedMembers (past : Trims (w.Lapsed now reads) counted w v) {set key : String}
    (inside : key ∈ v.holdings.members set) : key ∈ w.holdings.members set := by
  rcases past.members set key with same | lost
  · exact same.mp inside
  · exact absurd inside lost.2.1

theorem trimmedFewer (past : Trims (w.Lapsed now reads) counted w v) (set : String) :
    (v.holdings.members set).toList.length ≤ (w.holdings.members set).size := by
  have once : (v.holdings.members set).toList.Nodup := (v.holdings.orderedMembers set).imp ne_of_lt
  rw [← Std.ExtTreeSet.length_toList]
  refine (List.subperm_of_subset once fun key inside => ?_).length_le
  exact Std.ExtTreeSet.mem_toList.mpr (trimmedMembers past (Std.ExtTreeSet.mem_toList.mp inside))

theorem trimmedShown (past : Trims (w.Lapsed now reads) counted w v) (c : Category) :
    v.holdings.shown c now = w.holdings.shown c now := by
  refine entriesUnique (Holdings.shownOrdered _ _ _) (Holdings.shownOrdered _ _ _) ?_
  intro key feature
  rw [Holdings.shownExact, Holdings.shownExact, trimmedCurrent past]
  refine and_congr_left fun found => ?_
  rcases past.members c.index key with same | ⟨⟨_, _, lapsed⟩, _⟩
  · exact same
  · rw [lapsed.2.2] at found
    contradiction

theorem pruneAmong {c : Category} {key : String} (lapsed : w.Lapsed now reads c key)
    (bare : v.holdings.entries[key]? = none) :
    (prune counted c key).Among (Trims (w.Lapsed now reads) counted) now
      (fun _ u => key ∉ u.holdings.members c.index) 2 v := by
  refine Program.amongCall fun u kept => ?_
  refine ⟨_, _, rfl, removeTrims lapsed (bareLater kept bare), ?_⟩
  have left : key ∉ (u.holdings.remove c.index key).members c.index := by
    simp [Holdings.removeMembers]
  split
  · rename_i both
    obtain ⟨counts, rfl⟩ := both
    refine Program.amongCall fun t later => ⟨_, _, rfl, dropTrims counts lapsed, ?_⟩
    exact fun s last => leftLater (trimsTrans later (trimsTrans (dropTrims counts lapsed) last)) left
  · exact fun s last => leftLater last left

theorem lookTrims {c : Category} {key : String} (past : Trims (w.Lapsed now reads) counted w v)
    (read : reads c) (listed : key ∈ w.holdings.members c.index) :
    Trims (w.Lapsed now reads) counted v ⟨v.holdings.evict now key, v.tallies⟩ :=
  evictTrims fun gone => ⟨c, read, listed, (trimmedCurrent past key).symm.trans gone⟩

theorem lookedUp (past : Trims (w.Lapsed now reads) counted w v) (key : String) :
    v.holdings.look now key = (w.holdings.current now key, v.holdings.evict now key) := by
  rw [Holdings.lookExact, trimmedCurrent past]

theorem liveKeysAmong {c : Category} (read : reads c) (keys : List String)
    (listed : ∀ key ∈ keys, key ∈ w.holdings.members c.index)
    (past : Trims (w.Lapsed now reads) counted w v) :
    (liveKeys counted c keys).Among (Trims (w.Lapsed now reads) counted) now
      (fun live u => live = keys.filter (fun key => (w.holdings.current now key).isSome) ∧
        ∀ key ∈ keys, w.holdings.current now key = none → key ∉ u.holdings.members c.index)
      (3 * keys.length) v := by
  induction keys generalizing v with
  | nil => exact fun _ _ => ⟨rfl, fun key inside => by simp at inside⟩
  | cons key rest ih =>
    have held := listed key List.mem_cons_self
    have others := fun other inside => listed other (List.mem_cons_of_mem key inside)
    refine Program.amongCall (n := 3 * rest.length + 2) fun u kept => ?_
    have sofar := trimsTrans past kept
    have looked := lookTrims sofar read held
    refine ⟨(w.holdings.current now key).isSome, _, ?_, looked, ?_⟩
    · simp only [World.performHoldings, Holdings.perform, lookedUp sofar]
    cases found : w.holdings.current now key with
    | none =>
      have bare : (u.holdings.evict now key).entries[key]? = none := by
        rw [Holdings.evictEntry, if_pos ⟨rfl, (trimmedCurrent sofar key).trans found⟩]
      have pruned : (prune counted c key).Among _ now _ 2 ⟨u.holdings.evict now key, u.tallies⟩ :=
        pruneAmong ⟨read, held, found⟩ bare
      rw [Nat.add_comm]
      refine Program.amongBind _ pruned fun _ t later left => ?_
      -- from here on the key is out of its index, whoever has removed it
      have rested := ih others (trimsTrans sofar (trimsTrans looked later))
      refine Program.amongMono (Nat.le_refl _) ?_ rested
      rintro live s last ⟨rfl, gone⟩
      refine ⟨by simp [found], fun other inside lapsed => ?_⟩
      rcases List.mem_cons.mp inside with rfl | inside
      · exact leftLater last left
      · exact gone other inside lapsed
    | some feature =>
      have rested := ih others (trimsTrans sofar looked)
      refine Program.amongBind (n := 3 * rest.length) (m := 2) _ rested fun live t _ shown => ?_
      obtain ⟨rfl, gone⟩ := shown
      refine fun s last => ⟨by simp [found], fun other inside lapsed => ?_⟩
      rcases List.mem_cons.mp inside with rfl | inside
      · rw [found] at lapsed
        contradiction
      · exact leftLater last (gone other inside lapsed)

theorem featuresAmong {c : Category} (read : reads c) (keys : List String)
    (listed : ∀ key ∈ keys, key ∈ w.holdings.members c.index)
    (live : ∀ key ∈ keys, (w.holdings.current now key).isSome = true)
    (past : Trims (w.Lapsed now reads) counted w v) :
    (features counted c keys).Among (Trims (w.Lapsed now reads) counted) now
      (fun l _ => l = keys.filterMap fun key => (w.holdings.current now key).map (key, ·))
      keys.length v := by
  induction keys generalizing v with
  | nil => exact fun _ _ => rfl
  | cons key rest ih =>
    obtain ⟨feature, found⟩ := Option.isSome_iff_exists.mp (live key List.mem_cons_self)
    refine Program.amongCall (n := rest.length) fun u kept => ?_
    have sofar := trimsTrans past kept
    have looked := lookTrims sofar read (listed key List.mem_cons_self)
    refine ⟨some feature, _, ?_, looked, ?_⟩
    · simp only [World.performHoldings, Holdings.perform, lookedUp sofar, found]
    · have rested := ih (fun other inside => listed other (List.mem_cons_of_mem key inside))
        (fun other inside => live other (List.mem_cons_of_mem key inside)) (trimsTrans sofar looked)
      refine Program.amongBind (m := 0) _ rested fun l t _ same => fun s last => ?_
      rw [same]
      simp [found]

def Holdings.calls (h : Holdings) (c : Category) : Nat := 1 + 4 * (h.members c.index).size

theorem listingAmong {c : Category} (read : reads c)
    (past : Trims (w.Lapsed now reads) counted w v) :
    (listing counted c).Among (Trims (w.Lapsed now reads) counted) now
      (fun l u => l = w.holdings.shown c now ∧
        ∀ key, w.Lapsed now reads c key → key ∉ u.holdings.members c.index)
      (w.holdings.calls c) v := by
  rw [Holdings.calls, Nat.add_comm]
  refine Program.amongCall fun u kept => ⟨_, _, rfl, trimsRefl _, ?_⟩
  have sofar := trimsTrans past kept
  have listed : ∀ key ∈ (u.holdings.members c.index).toList, key ∈ w.holdings.members c.index :=
    fun key inside => trimmedMembers sofar (Std.ExtTreeSet.mem_toList.mp inside)
  have few := trimmedFewer sofar c.index
  refine Program.amongMono (n := 3 * (u.holdings.members c.index).toList.length +
    (u.holdings.members c.index).toList.length) (by omega) (fun _ _ _ reached => reached) ?_
  refine Program.amongBind _ (liveKeysAmong read _ listed sofar) fun live t later found => ?_
  obtain ⟨rfl, gone⟩ := found
  have shown := featuresAmong read _ (fun key inside => listed key (List.mem_of_mem_filter inside))
    (fun key inside => (List.mem_filter.mp inside).2) (trimsTrans sofar later)
  refine Program.amongMono (List.length_filter_le _ _) ?_ shown
  rintro l s last rfl
  refine ⟨?_, fun key lapsed => leftLater last ?_⟩
  · rw [← trimmedShown sofar, Holdings.shown, List.filterMap_filter]
    apply List.filterMap_congr
    intro key _
    rw [trimmedCurrent sofar]
    cases w.holdings.current now key <;> simp
  · by_cases inside : key ∈ u.holdings.members c.index
    · exact gone key (Std.ExtTreeSet.mem_toList.mpr inside) lapsed.2.2
    · exact leftLater later inside

theorem collectionAmong (contacts : reads .contacts) (stations : reads .stations)
    (past : Trims (w.Lapsed now reads) counted w v) :
    (collection counted).Among (Trims (w.Lapsed now reads) counted) now
      (fun l u => l = (w.holdings.shown .contacts now).map Prod.snd ++
          (w.holdings.shown .stations now).map Prod.snd ∧
        ∀ c key, w.Lapsed now reads c key → key ∉ u.holdings.members c.index)
      (w.holdings.calls .contacts + w.holdings.calls .stations) v := by
  refine Program.amongBind _ (listingAmong contacts past) fun l t first found => ?_
  obtain ⟨rfl, gone⟩ := found
  refine Program.amongBind (m := 0) _ (listingAmong stations (trimsTrans past first))
    fun l u second found => ?_
  obtain ⟨rfl, also⟩ := found
  refine fun s last => ⟨rfl, fun c key lapsed => ?_⟩
  cases c with
  | contacts => exact leftLater (trimsTrans second last) (gone key lapsed)
  | stations => exact leftLater last (also key lapsed)

end Readers

namespace Operation

def categories : Operation → List Category
  | .list c => [c]
  | .collect => [.contacts, .stations]
  | .record _ _ | .observe _ => []

def longest (w : World) : Operation → Nat
  | .list c => w.holdings.calls c
  | .collect => w.holdings.calls .contacts + w.holdings.calls .stations
  | .record _ _ | .observe _ => 0

/- A read has replied what it replies alone, and no lapsed key is left in its indexes. -/
def Agrees (life : Nat) (counted : Bool) (w : World) (now : Nat) (reads : Category → Prop)
    (op : Operation) (reply : Reply) (u : World) : Prop :=
  ((op.program life counted).run now w).1 = .ok reply ∧
    ∀ c ∈ op.categories, ∀ key, w.Lapsed now reads c key → key ∉ u.holdings.members c.index

theorem readAmong {op : Operation} (life : Nat) {counted : Bool} {w v : World} {now : Nat}
    {reads : Category → Prop} (reading : op.reads = true) (own : ∀ c ∈ op.categories, reads c)
    (past : Trims (w.Lapsed now reads) counted w v) :
    (op.program life counted).Among (Trims (w.Lapsed now reads) counted) now
      (op.Agrees life counted w now reads) (op.longest w) v := by
  cases op with
  | record o s => contradiction
  | observe o => contradiction
  | list c =>
    have alone : ((list c).program life counted).run now w =
        (.ok (.entries (w.holdings.shown c now)), w.tidyIndex counted c now) :=
      Program.runAfter (listingRun counted c now w) _
    refine Program.amongBind (m := 0) _ (listingAmong (own c (by simp [categories])) past)
      fun l u _ found s last => ?_
    obtain ⟨rfl, gone⟩ := found
    refine ⟨by rw [alone], fun category inside key lapsed => ?_⟩
    rw [List.mem_singleton.mp inside] at lapsed ⊢
    exact leftLater last (gone key lapsed)
  | collect =>
    have alone : (collect.program life counted).run now w = (.ok (.features _), _) :=
      Program.runAfter (collectionRun counted now w) _
    refine Program.amongBind (m := 0) _
      (collectionAmong (own .contacts (by simp [categories])) (own .stations (by simp [categories]))
        past) fun l u _ found s last => ?_
    obtain ⟨rfl, gone⟩ := found
    refine ⟨by rw [alone], fun category _ key lapsed => leftLater last (gone category key lapsed)⟩

end Operation

structure Swept (lapsed : Category → String → Prop) (counted : Bool) (w u : World) : Prop where
  trims : Trims lapsed counted w u
  left : ∀ c key, lapsed c key → key ∉ u.holdings.members c.index
  dropped : counted = true → ∀ key : String, lapsed .stations key → u.tallies.tenants[key]? = none

section Sweeping
variable {w u v : World} {now : Nat} {reads : Category → Prop} {counted : Bool}

theorem sweptBare (swept : Swept (w.Lapsed now reads) counted w u) {c : Category} {key : String}
    (lapsed : w.Lapsed now reads c key) : u.holdings.entries[key]? = none := by
  rcases swept.trims.members c.index key with same | lost
  · exact absurd (same.mpr lapsed.2.1) (swept.left c key lapsed)
  · exact lost.2.2

theorem sweptMembers (swept : Swept (w.Lapsed now reads) counted w u) (set key : String) :
    key ∈ u.holdings.members set ↔
      key ∈ w.holdings.members set ∧ ¬ ∃ c : Category, c.index = set ∧ w.Lapsed now reads c key := by
  constructor
  · intro inside
    refine ⟨trimmedMembers swept.trims inside, ?_⟩
    rintro ⟨c, rfl, lapsed⟩
    exact swept.left c key lapsed inside
  · rintro ⟨inside, kept⟩
    exact ((swept.trims.members set key).resolve_right fun lost => kept lost.1).mpr inside

theorem sweptUnique (first : Swept (w.Lapsed now reads) counted w u)
    (second : Swept (w.Lapsed now reads) counted w v) : u = v := by
  have entries : u.holdings.entries = v.holdings.entries := by
    refine Std.ExtTreeMap.ext_getElem? fun key => ?_
    by_cases lost : ∃ c, w.Lapsed now reads c key
    · obtain ⟨c, lapsed⟩ := lost
      rw [sweptBare first lapsed, sweptBare second lapsed]
    · rw [(first.trims.entries key).resolve_right fun gone => lost gone.1,
        (second.trims.entries key).resolve_right fun gone => lost gone.1]
  have sets : u.holdings.sets = v.holdings.sets := by
    refine Std.ExtTreeMap.ext_getElem? fun set => ?_
    have same : u.holdings.members set = v.holdings.members set :=
      Std.ExtTreeSet.ext_mem fun key => (sweptMembers first set key).trans
        (sweptMembers second set key).symm
    have present := (first.trims.present set).trans (second.trims.present set).symm
    unfold Holdings.members at same
    cases left : u.holdings.sets[set]? <;> cases right : v.holdings.sets[set]? <;>
      simp_all
  have tenants : u.tallies.tenants = v.tallies.tenants := by
    refine Std.ExtTreeMap.ext_getElem? fun key => ?_
    by_cases lost : counted = true ∧ w.Lapsed now reads .stations key
    · rw [first.dropped lost.1 key lost.2, second.dropped lost.1 key lost.2]
    · rw [(first.trims.tenants key).resolve_right fun gone => lost gone.1,
        (second.trims.tenants key).resolve_right fun gone => lost gone.1]
  obtain ⟨⟨_, _⟩, ⟨_⟩⟩ := u
  obtain ⟨⟨_, _⟩, ⟨_⟩⟩ := v
  cases entries
  cases sets
  cases tenants
  rfl

end Sweeping

def readBy (ops : List Operation) (c : Category) : Prop := ∃ op ∈ ops, c ∈ op.categories

section Crowds
variable {w : World} {life now : Nat} {counted : Bool} {ops : List Operation} {turns : List Turn}
variable (reading : ∀ op ∈ ops, op.reads = true) (still : ∀ t ∈ turns, t.now = now)
include reading still

theorem crowdAccord :
    Trims (w.Lapsed now (readBy ops)) counted w ((crowd w life counted ops).run turns).world ∧
    ∀ (i : Nat) op, ops[i]? = some op → ∃ p : Program Reply,
      ((crowd w life counted ops).run turns).threads[i]? = some (.ok p) ∧
      p.Among (Trims (w.Lapsed now (readBy ops)) counted) now
        (op.Agrees life counted w now (readBy ops)) (op.longest w - turns.countP fun t => t.thread = i)
        ((crowd w life counted ops).run turns).world := by
  have begun : (crowd w life counted ops).Accord (Trims (w.Lapsed now (readBy ops)) counted) now
      (fun i reply u => ∀ op, ops[i]? = some op →
        op.Agrees life counted w now (readBy ops) reply u)
      (fun i => ((ops[i]?).map (longest w)).getD 0) := by
    intro i thread held
    cases own : ops[i]? with
    | none => simp [crowd, Crowd.start, own] at held
    | some op =>
      rw [crowdThread own] at held
      cases held
      have member := List.mem_of_getElem? own
      have among : (op.program life counted).Among _ now (op.Agrees life counted w now (readBy ops))
          (op.longest w) w :=
        readAmong life (reading op member) (fun c inside => ⟨op, member, inside⟩) (trimsRefl w)
      refine ⟨_, rfl, Program.amongMono (by simp [own]) ?_ among⟩
      intro reply u _ reached other same
      rw [own] at same
      cases same
      exact reached
  obtain ⟨trims, accord⟩ := Crowd.runAccord begun still
  refine ⟨trims, fun i op own => ?_⟩
  have held : (crowd w life counted ops).threads[i]? = some (.ok (op.program life counted)) :=
    crowdThread own
  obtain ⟨thread, ran, _⟩ := Crowd.runThread held turns
  obtain ⟨p, rfl, among⟩ := accord i thread ran
  refine ⟨p, ran, Program.amongMono (by simp [own]) (fun _ _ _ reached => reached op own) among⟩

variable (ended : ∀ thread ∈ ((crowd w life counted ops).run turns).threads, thread.ended = true)
include ended

theorem lapsedLeft {c : Category} {key : String} (lapsed : w.Lapsed now (readBy ops) c key) :
    key ∉ ((crowd w life counted ops).run turns).world.holdings.members c.index := by
  obtain ⟨op, member, inside⟩ := lapsed.1
  obtain ⟨i, own⟩ := List.getElem?_of_mem member
  obtain ⟨p, ran, among⟩ := (crowdAccord reading still).2 i op own
  have finished := ended _ (List.mem_of_getElem? ran)
  cases p with
  | call c next => contradiction
  | done reply => exact (among _ (trimsRefl _)).2 c inside key lapsed

/- Whoever has taken a station out of its index has dropped it before it ended. This is read off
the events, as what the readers keep to does not tell which of them has yet to drop it. -/
theorem lapsedDropped (counts : counted = true) {key : String}
    (lapsed : w.Lapsed now (readBy ops) .stations key) :
    ((crowd w life counted ops).run turns).world.tallies.tenants[key]? = none := by
  subst counts
  have missing := lapsedLeft reading still ended lapsed
  rw [Crowd.runWorld] at missing ⊢
  obtain ⟨before, removal, after, split, removes, _⟩ :=
    lostBy (fun w => key ∈ w.holdings.members Category.stations.index)
      (uponMembers Category.stations.index key) lapsed.2.1 missing
  obtain ⟨between, drop, later, rfl, _, drops⟩ := leaverDrops ended split removes
  rw [show before ++ removal :: (between ++ drop :: later) =
    (before ++ removal :: between) ++ drop :: later by simp] at split
  have unregistered : ¬ (w.after ((crowd w life true ops).events turns)).tallies.Registered key := by
    rw [split, afterAppend]
    refine staysDropped (w := World.upon _ drop) ?_ ?_
    · rw [uponRegistered, drops]
      simp
    · intro e inside registers
      obtain ⟨first, second, whole⟩ := List.append_of_mem inside
      rw [whole, ← List.cons_append, ← List.append_assoc] at split
      obtain ⟨op, own, allowed⟩ := eventAllowed split
      have reads := reading op (List.mem_of_getElem? own)
      rw [registers] at allowed
      cases op with
      | _ => contradiction
  exact Std.ExtTreeMap.getElem?_eq_none unregistered

theorem crowdSwept :
    Swept (w.Lapsed now (readBy ops)) counted w ((crowd w life counted ops).run turns).world where
  trims := (crowdAccord reading still).1
  left _ _ := lapsedLeft reading still ended
  dropped counts _ := lapsedDropped reading still ended counts

end Crowds

/-- Reads that share the cache at one instant all succeed, after a bounded number of calls each,
and each replies what it replies alone. When all are over, what they have left is what they leave
when they are run one after another, in whatever order. -/
theorem readersAgree (w : World) (life now : Nat) (counted : Bool) (ops : List Operation)
    (turns : List Turn) (reading : ∀ op ∈ ops, op.reads = true) (still : ∀ t ∈ turns, t.now = now) :
    let last := (crowd w life counted ops).run turns
    (∀ (i : Nat) op, ops[i]? = some op → ∃ thread, last.threads[i]? = some thread ∧
      (op.longest w ≤ turns.countP (fun t => t.thread = i) → thread.ended = true) ∧
      (thread.ended = true → ∃ reply, thread = .ok (.done reply) ∧
        ((op.program life counted).run now w).1 = .ok reply)) ∧
    ((∀ thread ∈ last.threads, thread.ended = true) → ∀ order : List Operation, order.Perm ops →
      last.world = order.foldl (fun w op => ((op.program life counted).run now w).2) w) := by
  intro last
  refine ⟨fun i op own => ?_, fun ended order same => ?_⟩
  · obtain ⟨p, ran, among⟩ := (crowdAccord reading still).2 i op own
    refine ⟨.ok p, ran, fun enough => ?_, fun ended => ?_⟩
    · rw [Nat.sub_eq_zero_of_le enough] at among
      cases p with
      | done reply => rfl
      | call c next => exact among.elim
    · cases p with
      | done reply => exact ⟨reply, rfl, (among _ (trimsRefl _)).1⟩
      | call c next => contradiction
  · obtain ⟨inTurn, frozen, world, finished⟩ :=
      Crowd.runInTurn now w (order.map (Operation.program life counted))
    rw [List.foldl_map] at world
    rw [← world]
    have read : readBy order = readBy ops := by
      funext c
      simp only [readBy, same.mem_iff]
    have swept : Swept (w.Lapsed now (readBy order)) counted w
        ((crowd w life counted order).run inTurn).world :=
      crowdSwept (fun op inside => reading op (same.mem_iff.mp inside)) frozen finished
    rw [read] at swept
    exact sweptUnique (crowdSwept reading still ended) swept

/- A station and an aircraft have expired, others have not. Two readers find the station gone
before either of them has removed it, and a third lists the index between their removals. -/
def partlyExpired : World :=
  ((crowd .empty 1000 true [.observe (overHarbour "A00001" 9000),
    .observe { overHarbour "A00002" 9100 with station := some { harbour with id := "S2" } }]).run
      (.replicate 7 ⟨0, 0⟩ ++ .replicate 7 ⟨1, 500⟩)).world

def threeReaders : List Operation := [.list .stations, .collect, .list .stations]

def threeReaderTurns : List Turn :=
  .replicate 2 ⟨0, 1000⟩ ++ .replicate 7 ⟨1, 1000⟩ ++ .replicate 1 ⟨0, 1000⟩ ++
    .replicate 2 ⟨2, 1000⟩ ++ .replicate 6 ⟨1, 1000⟩ ++ .replicate 4 ⟨0, 1000⟩ ++
    .replicate 3 ⟨2, 1000⟩

theorem threeReadersAgree :
    let last := (crowd partlyExpired 1000 true threeReaders).run threeReaderTurns
    (∃ reply, last.threads[1]? = some (.ok (.done reply)) ∧
      ((collect.program 1000 true).run 1000 partlyExpired).1 = .ok reply) ∧
    last.world =
      threeReaders.reverse.foldl (fun w op => ((op.program 1000 true).run 1000 w).2) partlyExpired ∧
    partlyExpired.tallies.Registered "S1" ∧ ¬ last.world.tallies.Registered "S1" := by
  obtain ⟨replies, same⟩ := readersAgree partlyExpired 1000 1000 true threeReaders
    threeReaderTurns (by decide) (by decide)
  obtain ⟨thread, ran, _, agrees⟩ := replies 1 .collect rfl
  have ended : ∀ thread ∈ ((crowd partlyExpired 1000 true threeReaders).run threeReaderTurns).threads,
      thread.ended = true := by decide +kernel
  obtain ⟨reply, rfl, alone⟩ := agrees (ended thread (List.mem_of_getElem? ran))
  refine ⟨⟨reply, ran, alone⟩,
    same ended threeReaders.reverse (List.reverse_perm threeReaders), ?_, ?_⟩
  · unfold Tallies.Registered
    decide +kernel
  · unfold Tallies.Registered
    decide +kernel

end AirPicture.Cache
