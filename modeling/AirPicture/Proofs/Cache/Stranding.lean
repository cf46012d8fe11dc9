import AirPicture.Proofs.Cache.Overtaking
import AirPicture.Proofs.Cache.Hiding
import AirPicture.Proofs.Cache.Listing

/-! Which tenants outlive their place in the index. An observation enters its station in the
index and registers it afterwards; a reader removes a station and drops it afterwards. Where
both calls of a reader fall between the two of an observation, the station stays registered
without being in its index, and in no other way. -/
namespace AirPicture.Cache
open Operation

def Leaving (past : List Exchange) (id : String) : Prop :=
  ∃ before x, past = before ++ [x] ∧ x.call = .holdings (.remove Category.stations.index id)

def Orderly (past : List Exchange) (c : Call) : Prop :=
  (∀ id, Leaving past id → c = .tallies (.drop id)) ∧
  ∀ id, c = .tallies (.register id) → Asked past (.holdings (.add Category.stations.index id))

def Settled (past : List Exchange) : Prop := ∀ id, ¬ Leaving past id

theorem settledStart : Settled [] := by
  rintro id ⟨before, x, split, _⟩
  simp at split

theorem leavingLast {past : List Exchange} {c : Call} {answer : Except Failure c.Answer}
    {id : String} : Leaving (past ++ [⟨c, answer⟩]) id ↔
      c = .holdings (.remove Category.stations.index id) := by
  constructor
  · rintro ⟨before, x, split, removes⟩
    obtain ⟨_, same⟩ := List.append_inj' split rfl
    cases same
    exact removes
  · exact fun same => ⟨past, _, rfl, same⟩

theorem settledLast {past : List Exchange} {c : Call} {answer : Except Failure c.Answer}
    (stays : ∀ id, c ≠ .holdings (.remove Category.stations.index id)) :
    Settled (past ++ [⟨c, answer⟩]) :=
  fun id leaving => stays id (leavingLast.mp leaving)

theorem settledOrderly {past : List Exchange} {c : Call} (settled : Settled past)
    (plain : ∀ id, c ≠ .tallies (.register id)) : Orderly past c :=
  ⟨fun id leaving => absurd leaving (settled id), fun id same => absurd same (plain id)⟩

section Programs
variable {past : List Exchange}

theorem plainObeys {α : Type} {goal : List Exchange → α → Prop} (settled : Settled past) {c : Call}
    {f : c.Answer → Program α} (unregistering : ∀ id, c ≠ .tallies (.register id))
    (stays : ∀ id, c ≠ .holdings (.remove Category.stations.index id))
    (next : ∀ a, Settled (past ++ [⟨c, .ok a⟩]) → (f a).Obeys Orderly goal (past ++ [⟨c, .ok a⟩])) :
    ((Program.call c .done) >>= f).Obeys Orderly goal past :=
  Program.obeysCall (settledOrderly settled unregistering) fun a => next a (settledLast stays)

theorem pruneOrderly (c : Category) (key : String) (settled : Settled past) :
    (prune true c key).Obeys Orderly (fun later _ => Settled later) past := by
  refine Program.obeysCall (settledOrderly settled (by simp)) fun removed => ?_
  cases c with
  | contacts => exact settledLast (by simp [Category.index])
  | stations =>
    refine Program.obeysCall ⟨?_, by simp⟩ fun _ => settledLast (by simp)
    intro id leaving
    cases leavingLast.mp leaving
    rfl

theorem liveKeysOrderly (c : Category) (keys : List String) (settled : Settled past) :
    (liveKeys true c keys).Obeys Orderly (fun later _ => Settled later) past := by
  induction keys generalizing past with
  | nil => exact settled
  | cons key rest ih =>
    refine plainObeys settled (by simp) (by simp) fun live settled => ?_
    cases live with
    | false => exact Program.obeysBind _ (pruneOrderly c key settled) fun _ _ _ => ih
    | true => exact Program.obeysBind _ (ih settled) fun _ _ _ settled => settled

theorem featuresOrderly (c : Category) (keys : List String) (settled : Settled past) :
    (features true c keys).Obeys Orderly (fun later _ => Settled later) past := by
  induction keys generalizing past with
  | nil => exact settled
  | cons key rest ih =>
    refine plainObeys settled (by simp) (by simp) fun found settled => ?_
    cases found with
    | none => exact Program.obeysBind _ (pruneOrderly c key settled) fun _ _ _ => ih
    | some feature => exact Program.obeysBind _ (ih settled) fun _ _ _ settled => settled

theorem listingOrderly (c : Category) (settled : Settled past) :
    (listing true c).Obeys Orderly (fun later _ => Settled later) past :=
  plainObeys settled (by simp) (by simp) fun keys settled =>
    Program.obeysBind _ (liveKeysOrderly c keys settled) fun _ live _ => featuresOrderly c live

theorem collectionOrderly (settled : Settled past) :
    (collection true).Obeys Orderly (fun later _ => Settled later) past :=
  Program.obeysBind _ (listingOrderly .contacts settled) fun _ _ _ settled =>
    Program.obeysBind _ (listingOrderly .stations settled) fun _ _ _ settled => settled

theorem keepOrderly (life : Nat) (o : Observation) (s : Station) (settled : Settled past) :
    (keep life o s).Obeys Orderly (fun later _ => Settled later ∧
      Asked later (.holdings (.add Category.stations.index s.id))) past := by
  refine plainObeys settled (by simp) (by simp) fun _ settled => ?_
  refine plainObeys settled (by simp) (by simp) fun _ settled => ?_
  refine plainObeys settled (by simp) (by simp) fun _ settled => ?_
  exact plainObeys settled (by simp) (by simp) fun _ settled => ⟨settled, askedLast _ _ _⟩

theorem countOrderly (s : Station) (settled : Settled past)
    (entered : Asked past (.holdings (.add Category.stations.index s.id))) :
    (count s).Obeys Orderly (fun later _ => Settled later) past := by
  have registers : Orderly past (.tallies (.register s.id)) := by
    refine ⟨fun id leaving => absurd leaving (settled id), ?_⟩
    intro id same
    cases same
    exact entered
  refine Program.obeysCall registers fun fresh => ?_
  have settled : Settled (past ++ [⟨.tallies (.register s.id), .ok fresh⟩]) :=
    settledLast (by simp)
  cases fresh with
  | false => exact ⟨settledOrderly settled (by simp), fun _ => settledLast (by simp)⟩
  | true =>
    refine plainObeys settled (by simp) (by simp) fun _ settled => ?_
    exact ⟨settledOrderly settled (by simp), fun _ => settledLast (by simp)⟩

theorem programOrderly (life : Nat) (op : Operation) :
    (op.program life true).Obeys Orderly (fun later _ => Settled later) [] := by
  cases op with
  | record o s =>
    exact Program.obeysBind _ (keepOrderly life o s settledStart) fun _ _ _ kept => kept.1
  | observe o =>
    cases vetted : vet o with
    | error refusal =>
      simp only [program, vetted]
      exact settledStart
    | ok s =>
      rw [observeBegun life true vetted]
      refine Program.obeysBind (fun later _ => Settled later) ?_ fun _ _ _ settled => settled
      exact Program.obeysBind _ (keepOrderly life o s settledStart) fun _ _ _ kept =>
        countOrderly s kept.1 kept.2
  | list c =>
    exact Program.obeysBind _ (listingOrderly c settledStart) fun _ _ _ settled => settled
  | collect =>
    exact Program.obeysBind _ (collectionOrderly settledStart) fun _ _ _ settled => settled

end Programs

/- Between its entry in the index and its registration by one observation, a station is removed
and dropped by one reader. Nobody enters it after that removal, and nobody drops it after that
registration. -/
def Stranded (ops : List Operation) (events : List Event) (id : String) : Prop :=
  ∃ before entry first removal second drop third registration after,
    events = before ++ entry :: first ++ removal :: second ++ drop :: third ++
      registration :: after ∧
    entry.thread = registration.thread ∧
    (∃ o, ops[entry.thread]? = some (.observe o)) ∧
    entry.call = .holdings (.add Category.stations.index id) ∧
    registration.call = .tallies (.register id) ∧
    removal.thread = drop.thread ∧
    (∃ op, ops[removal.thread]? = some op ∧ op.reads = true) ∧
    removal.call = .holdings (.remove Category.stations.index id) ∧
    drop.call = .tallies (.drop id) ∧
    (∀ e ∈ second ++ drop :: third ++ registration :: after,
      e.call ≠ .holdings (.add Category.stations.index id)) ∧
    ∀ e ∈ after, e.call ≠ .tallies (.drop id)

section Histories
variable {w : World} {events : List Event} {id : String}

theorem registeredLast (first : ¬ w.tallies.Registered id)
    (last : (w.after events).tallies.Registered id) :
    ∃ before e after, events = before ++ e :: after ∧ e.call = .tallies (.register id) ∧
      ∀ later ∈ after, later.call ≠ .tallies (.drop id) := by
  have exactly : ∀ (w : World) (e : Event), ¬ (w.upon e).tallies.Registered id ↔
      e.call = .tallies (.drop id) ∨
        (¬ e.call = .tallies (.register id) ∧ ¬ w.tallies.Registered id) := by
    intro w e
    rw [uponRegistered]
    by_cases drops : e.call = .tallies (.drop id)
    · simp [drops]
    · simp [drops]
  exact lostBy (fun w => ¬ w.tallies.Registered id) exactly first (not_not_intro last)

theorem staysRegistered (present : w.tallies.Registered id)
    (kept : ∀ e ∈ events, e.call ≠ .tallies (.drop id)) :
    (w.after events).tallies.Registered id := by
  by_contra absent
  obtain ⟨before, e, after, rfl, drops, _⟩ := lostBy (fun w => w.tallies.Registered id)
    (fun w e => uponRegistered w e id) present absent
  exact kept e (by simp) drops

theorem staysRemoved {set : String} (absent : id ∉ w.holdings.members set)
    (quiet : ∀ e ∈ events, e.call ≠ .holdings (.add set id)) :
    id ∉ (w.after events).holdings.members set := by
  intro present
  obtain ⟨e, inside, adds⟩ := gainedBy (fun w => id ∈ w.holdings.members set)
    (fun w e absent present => ((uponMembers set id w e).mp present).resolve_right
      fun kept => absent kept.2) absent present
  exact quiet e inside adds

theorem strandedApart {ops : List Operation} (stranded : Stranded ops events id) :
    (w.after events).tallies.Registered id ∧
      id ∉ (w.after events).holdings.members Category.stations.index := by
  obtain ⟨before, entry, first, removal, second, drop, third, registration, after, rfl, _, _, _,
    registers, _, _, removes, _, quiet, kept⟩ := stranded
  constructor
  · rw [afterAppend]
    exact staysRegistered (w := World.upon _ registration)
      ((uponRegistered _ _ _).mpr (.inl registers)) kept
  · rw [List.append_assoc, List.append_assoc, afterAppend]
    refine staysRemoved (w := World.upon _ removal) ?_ (by simpa using quiet)
    rw [uponMembers, removes]
    simp

end Histories

section Crowds
variable {w : World} {life : Nat} {ops : List Operation} {turns : List Turn}

theorem eventOrderly {before after : List Event} {e : Event}
    (split : (crowd w life true ops).events turns = before ++ e :: after) :
    Orderly (past e.thread before) e.call := by
  obtain ⟨op, own, _⟩ := eventAllowed split
  obtain ⟨last, _, follows⟩ := Crowd.runThread (crowdThread own) turns
  obtain ⟨rules, _⟩ := Program.obeysFollows (programOrderly life op) follows
  refine rules (past e.thread before) e.toExchange (past e.thread after) ?_
  rw [split, pastAppend, pastOwn rfl]

theorem leaverDrops (ended : ∀ thread ∈ ((crowd w life true ops).run turns).threads,
      thread.ended = true)
    {before after : List Event} {removal : Event} {id : String}
    (split : (crowd w life true ops).events turns = before ++ removal :: after)
    (removes : removal.call = .holdings (.remove Category.stations.index id)) :
    ∃ between drop later, after = between ++ drop :: later ∧ drop.thread = removal.thread ∧
      drop.call = .tallies (.drop id) := by
  obtain ⟨op, own, _⟩ := eventAllowed split
  obtain ⟨last, ran, follows⟩ := Crowd.runThread (crowdThread own) turns
  have finished := ended last (List.mem_of_getElem? ran)
  have answered := eventAnswer split
  rw [split, pastAppend, pastOwn rfl] at follows
  cases further : past removal.thread after with
  | cons x rest =>
    rw [further] at follows
    obtain ⟨between, drop, later, rfl, mine, rfl⟩ := pastMember (i := removal.thread)
      (by rw [further]; exact List.mem_cons_self)
    refine ⟨between, drop, later, rfl, mine, ?_⟩
    obtain ⟨rules, _⟩ := Program.obeysFollows (programOrderly life op) follows
    have orderly := rules (past removal.thread before ++ [removal.toExchange]) drop.toExchange rest
      (by simp)
    exact orderly.1 id ⟨_, _, rfl, removes⟩
  | nil =>
    -- the removal itself would be the last call, and it has not failed
    rw [further] at follows
    match last with
    | .ok (.call c next) => contradiction
    | .ok (.done reply) =>
      obtain ⟨_, settled⟩ := Program.obeysFollows (programOrderly life op) follows
      exact absurd ⟨_, _, rfl, removes⟩ (settled reply rfl id)
    | .error f =>
      obtain ⟨earlier, c, ends⟩ := failureFollows follows
      obtain ⟨_, same⟩ := List.append_inj' ends rfl
      obtain ⟨⟨call, answer⟩, thread, now⟩ := removal
      cases removes
      cases same
      contradiction

theorem registeredEntered (indexed : ∀ id, w.tallies.Registered id →
      id ∈ w.holdings.members Category.stations.index) {id : String}
    (registered : (w.after ((crowd w life true ops).events turns)).tallies.Registered id) :
    Indexed w ((crowd w life true ops).events turns) .stations id := by
  by_cases first : w.tallies.Registered id
  · exact ⟨[], _, rfl, indexed id first⟩
  · obtain ⟨before, registration, after, split, registers, _⟩ := registeredLast first registered
    have asked := (eventOrderly split).2 id registers
    have grown : past registration.thread before <+:
        past registration.thread ((crowd w life true ops).events turns) := by
      rw [split, pastAppend]
      exact List.prefix_append _ _
    exact addedIndexed (askedLater grown asked)

theorem enteredBefore {early quietly after : List Event} {registration : Event} {id : String}
    (split : (crowd w life true ops).events turns = early ++ quietly ++ registration :: after)
    (registers : registration.call = .tallies (.register id))
    (quiet : ∀ e ∈ quietly, e.call ≠ .holdings (.add Category.stations.index id)) :
    ∃ before entry first, early = before ++ entry :: first ∧
      entry.thread = registration.thread ∧ (∃ o, ops[entry.thread]? = some (.observe o)) ∧
      entry.call = .holdings (.add Category.stations.index id) := by
  obtain ⟨x, asked, adds⟩ := (eventOrderly split).2 id registers
  obtain ⟨_, entry, _, found, same, rfl⟩ := pastMember asked
  have member : entry ∈ early ++ quietly := by
    rw [found]
    simp
  have earlier : entry ∈ early :=
    (List.mem_append.mp member).resolve_right fun inside => quiet entry inside adds
  obtain ⟨before, first, rfl⟩ := List.append_of_mem earlier
  obtain ⟨writer, own, tenant⟩ := eventAllowed split
  rw [registers] at tenant
  have observes : ∃ o, ops[entry.thread]? = some (.observe o) := by
    rw [same, own]
    cases writer with
    | observe o => exact ⟨o, rfl⟩
    | _ => contradiction
  exact ⟨before, entry, first, rfl, same, observes, adds⟩

theorem registeredStranded (indexed : ∀ id, w.tallies.Registered id →
      id ∈ w.holdings.members Category.stations.index)
    (ended : ∀ thread ∈ ((crowd w life true ops).run turns).threads, thread.ended = true)
    {id : String}
    (registered : (w.after ((crowd w life true ops).events turns)).tallies.Registered id)
    (missing : id ∉ (w.after ((crowd w life true ops).events turns)).holdings.members
      Category.stations.index) :
    Stranded ops ((crowd w life true ops).events turns) id := by
  obtain ⟨start, late, split, inside⟩ := registeredEntered indexed registered
  rw [split, afterAppend] at missing
  -- the last removal, after which nobody enters the station again
  obtain ⟨between, removal, rest, rfl, removes, quiet⟩ :=
    lostBy (fun w => id ∈ w.holdings.members Category.stations.index)
      (uponMembers Category.stations.index id) inside missing
  rw [← List.append_assoc] at split
  generalize start ++ between = early at split
  obtain ⟨reader, theirs, reads⟩ := eventAllowed split
  rw [removes] at reads
  obtain ⟨second, drop, later, rfl, mine, drops⟩ := leaverDrops ended split removes
  have dropped : ¬ ((w.after (early ++ removal :: second)).upon drop).tallies.Registered id := by
    rw [uponRegistered, drops]
    simp
  have whole : (crowd w life true ops).events turns =
      (early ++ removal :: second) ++ drop :: later := by simp [split]
  rw [whole, afterAppend] at registered
  -- it is registered in the end, so somebody has registered it after the drop
  obtain ⟨third, registration, after, rfl, registers, kept⟩ := registeredLast dropped registered
  have placed : (crowd w life true ops).events turns =
      early ++ (removal :: second ++ drop :: third) ++ registration :: after := by simp [split]
  -- whoever did so had entered it, and that can only have been before the removal
  obtain ⟨before, entry, first, rfl, same, observes, adds⟩ := enteredBefore placed registers (by
    intro e member
    rcases List.mem_cons.mp member with rfl | member
    · simp [removes]
    · exact quiet e (by
        rcases List.mem_append.mp member with one | other
        · exact List.mem_append_left _ one
        · exact List.mem_append_right _ (List.mem_append_left (registration :: after) other)))
  exact ⟨before, entry, first, removal, second, drop, third, registration, after, by simp [placed],
    same, observes, adds, registers, mine.symm, ⟨reader, theirs, reads.1⟩, removes, drops,
    by simpa using quiet, kept⟩

end Crowds

section Dropping
variable (now : Nat)

theorem tidyDropped (w : World) (key id : String) :
    (w.tidy true .stations now key).tallies.Registered id ↔
      w.tallies.Registered id ∧ ¬ (key = id ∧ w.holdings.current now key = none) := by
  unfold World.tidy World.pruned
  split
  · rename_i gone
    have dropped : (w.tallies.drop key).2.Registered id ↔ key ≠ id ∧ w.tallies.Registered id :=
      Tallies.dropRegistered w.tallies key id
    simp [dropped, gone, and_comm]
  · rename_i found
    simp [found]

theorem tidyAllDropped (w : World) (keys : List String) (id : String) :
    (w.tidyAll true .stations now keys).tallies.Registered id ↔
      w.tallies.Registered id ∧ ¬ (id ∈ keys ∧ w.holdings.current now id = none) := by
  induction keys generalizing w with
  | nil => simp [World.tidyAll]
  | cons key rest ih =>
    change ((w.tidy true .stations now key).tidyAll true .stations now rest).tallies.Registered id ↔ _
    rw [ih, tidyDropped, tidyCurrent true .stations now (Nat.le_refl _), List.mem_cons]
    constructor
    · rintro ⟨⟨present, apart⟩, later⟩
      refine ⟨present, ?_⟩
      rintro ⟨rfl | inside, gone⟩
      · exact apart ⟨rfl, gone⟩
      · exact later ⟨inside, gone⟩
    · rintro ⟨present, apart⟩
      refine ⟨⟨present, ?_⟩, ?_⟩
      · rintro ⟨rfl, gone⟩
        exact apart ⟨.inl rfl, gone⟩
      · rintro ⟨inside, gone⟩
        exact apart ⟨.inr inside, gone⟩

theorem listingDropped (w : World) (id : String) :
    ((listing true .stations).run now w).2.tallies.Registered id ↔ w.tallies.Registered id ∧
      ¬ (id ∈ w.holdings.members Category.stations.index ∧ w.holdings.current now id = none) := by
  rw [listingRun, tidyAllDropped, Std.ExtTreeSet.mem_toList]

end Dropping

/-- Once no operation is under way, the tenants that are not in the index of the stations are
exactly the stranded ones. Any other tenant is dropped by the first listing that finds its
feature expired, which a stranded one survives. -/
theorem registeredUnlessStranded (w : World) (life : Nat) (ops : List Operation)
    (turns : List Turn)
    (indexed : ∀ id, w.tallies.Registered id → id ∈ w.holdings.members Category.stations.index)
    (ended : ∀ thread ∈ ((crowd w life true ops).run turns).threads, thread.ended = true)
    (id : String) :
    let events := (crowd w life true ops).events turns
    let last := ((crowd w life true ops).run turns).world
    (last.tallies.Registered id ∧ id ∉ last.holdings.members Category.stations.index ↔
      Stranded ops events id) ∧
    (last.tallies.Registered id → ∀ now, last.holdings.current now id = none →
      (((listing true .stations).run now last).2.tallies.Registered id ↔
        Stranded ops events id)) := by
  intro events last
  have exactly : last.tallies.Registered id ∧
      id ∉ last.holdings.members Category.stations.index ↔ Stranded ops events id := by
    simp only [last, Crowd.runWorld]
    exact ⟨fun apart => registeredStranded indexed ended apart.1 apart.2, strandedApart⟩
  refine ⟨exactly, fun registered now gone => ?_⟩
  rw [listingDropped, ← exactly]
  simp [gone]

/- A station expires, and a reader finds it so. It is back in its index before the reader
removes it, and registered anew after the reader has dropped it. -/
def crossing : List Operation :=
  [.observe (overHarbour "A00001" 9000), .list .stations, .observe (overHarbour "A00001" 9100)]

def crossingTurns : List Turn :=
  .replicate 7 ⟨0, 0⟩ ++ .replicate 2 ⟨1, 1000⟩ ++ .replicate 4 ⟨2, 1000⟩ ++
    .replicate 2 ⟨1, 1000⟩ ++ .replicate 3 ⟨2, 1000⟩

theorem tenantLeft :
    crossingTurns.Pairwise (fun a b => a.now ≤ b.now) ∧
    (∀ e ∈ (crowd .empty 1000 true crossing).events crossingTurns, e.toExchange.faulty = false) ∧
    let last := (crowd .empty 1000 true crossing).run crossingTurns
    (∀ thread ∈ last.threads, thread.ended = true) ∧
      last.world.tallies.Registered "S1" ∧
      "S1" ∉ last.world.holdings.members Category.stations.index :=
  ⟨by decide, by decide +kernel, by decide, rfl, by decide +kernel⟩

theorem crossingStranded :
    Stranded crossing ((crowd .empty 1000 true crossing).events crossingTurns) "S1" :=
  (registeredUnlessStranded .empty 1000 crossing crossingTurns
    (fun id registered => absurd registered (by simp [Tallies.Registered, World.empty, Tallies.empty]))
    (by decide) "S1").1.mp ⟨rfl, by decide +kernel⟩

end AirPicture.Cache
