import Mathlib.Data.List.Induction
import AirPicture.Proofs.Cache.FaultyRuns

/-! Who has tallies. Whatever fails and whenever, tallies are kept for the members of the index
of stations and for no one else, and each of them has its name and its count. -/
namespace AirPicture.Cache

def Proper (most : Nat) (table : Std.ExtTreeMap String Datum) : Prop :=
  (∃ name, table["name"]? = some (.text name)) ∧
    ∃ n : Int, table["observations"]? = some (.count n) ∧ 1 ≤ n ∧ n ≤ most

structure Tenanted (most : Nat) (w : World) : Prop where
  same : ∀ id, w.tallies.Registered id ↔ id ∈ w.holdings.members Category.stations.index
  proper : ∀ (id : String) table, w.tallies.tenants[id]? = some table → Proper most table

theorem Proper.later {most : Nat} {table : Std.ExtTreeMap String Datum}
    (proper : Proper most table) : Proper (most + 1) table := by
  obtain ⟨named, n, counted, some, fits⟩ := proper
  exact ⟨named, n, counted, some, by omega⟩

theorem Tenanted.later {most : Nat} {w : World} (tenanted : Tenanted most w) :
    Tenanted (most + 1) w where
  same := tenanted.same
  proper id table found := (tenanted.proper id table found).later

theorem emptyTenanted : Tenanted 0 .empty where
  same id := by
    simp [Tallies.Registered, World.empty, Tallies.empty, Holdings.empty, Holdings.members]
  proper id table found := by simp [World.empty, Tallies.empty] at found

def Harmless (most : Nat) (e : Failure) (w : World) : Prop :=
  Tenanted most w ∧ (e = .unavailable ∨ e = .expiry)

def Holdings.Call.aside : Holdings.Call → Bool
  | .add set _ | .remove set _ => set ≠ Category.stations.index
  | _ => true

theorem asideMembers (now : Nat) (h : Holdings) {c : Holdings.Call} (aside : c.aside = true)
    (id : String) : id ∈ (h.perform now c).2.members Category.stations.index ↔
      id ∈ h.members Category.stations.index := by
  have apart : c ≠ .add Category.stations.index id ∧ c ≠ .remove Category.stations.index id := by
    constructor <;> rintro rfl <;> simp [Holdings.Call.aside] at aside
  simp [Holdings.performMembers, apart]

theorem performFailure {now : Nat} {h : Holdings} {c : Holdings.Call} {e : Failure}
    (failed : (h.perform now c).1 = .error e) : e = .expiry := by
  cases c with
  | put key value life =>
    cases life with
    | none => contradiction
    | some life =>
      simp only [Holdings.perform, Holdings.expiry] at failed
      by_cases late : Holdings.lastSecond ≤ (now + life) / 1000
      · simpa [late] using failed.symm
      · simp [late] at failed
  | _ => contradiction

abbrev Program.Amid {α : Type} (most : Nat) (before : World → Prop) (p : Program α)
    (good : α → World → Prop) : Prop :=
  p.Contract (fun _ => True) (Harmless most) before good

section Contracts
variable {most : Nat}

theorem asideKept {c : Holdings.Call} (aside : c.aside = true) :
    (Program.ofHoldings c).Amid most (Tenanted most) fun _ => Tenanted most := by
  apply Program.Contract.holdings
  · exact fun _ _ _ w tenanted => ⟨tenanted, .inl rfl⟩
  · intro x _ _ w tenanted
    have kept : Tenanted most ⟨(w.holdings.perform x.now c).2, w.tallies⟩ :=
      ⟨fun id => (tenanted.same id).trans (asideMembers x.now w.holdings aside id).symm,
        tenanted.proper⟩
    rcases ran : w.holdings.perform x.now c with ⟨e | a, h⟩
    · rw [ran] at kept
      exact ⟨kept, .inr (performFailure (congrArg Prod.fst ran))⟩
    · rwa [ran] at kept

structure Parting (most : Nat) (id : String) (w : World) : Prop where
  same : ∀ other, other ∈ w.holdings.members Category.stations.index ↔
    id ≠ other ∧ w.tallies.Registered other
  proper : ∀ (id : String) table, w.tallies.tenants[id]? = some table → Proper most table

theorem removeParting (id : String) :
    (Program.ofHoldings (.remove Category.stations.index id)).Amid most (Tenanted most)
      fun _ => Parting most id := by
  apply Program.Contract.holdings
  · exact fun _ _ _ w tenanted => ⟨tenanted, .inl rfl⟩
  · intro x _ _ w tenanted
    refine ⟨fun other => ?_, tenanted.proper⟩
    rw [Holdings.removeMembers, tenanted.same]
    simp [and_comm]

theorem dropParted (id : String) :
    (Program.ofTallies (.drop id)).Amid most (Parting most id) fun _ => Tenanted most := by
  apply Program.Contract.tallies
  intro w parting
  refine ⟨fun other => ?_, fun other table found => ?_⟩
  · rw [parting.same]
    exact Tallies.dropRegistered w.tallies id other
  · change (w.tallies.tenants.erase id)[other]? = some table at found
    rw [Std.ExtTreeMap.getElem?_erase] at found
    split at found
    · contradiction
    · exact parting.proper other table found

theorem pruneKept (category : Category) (key : String) :
    (prune true category key).Amid most (Tenanted most) fun _ => Tenanted most := by
  unfold prune
  cases category with
  | contacts => exact .bind (asideKept rfl) fun _ => .kept
  | stations =>
    exact .bind (removeParting key) fun _ => .bind (dropParted key) fun _ => .kept

theorem tenantedKeeping (c : Category) :
    Keeping (fun _ => True) (Harmless most) true c (fun _ => True) (Tenanted most)
      fun _ => Tenanted most where
  lists := .weaken (asideKept rfl) (fun _ start => start) fun _ _ kept => ⟨fun _ _ => trivial, kept⟩
  has _ _ := .weaken (asideKept rfl) (fun _ start => start) fun found _ kept => by
    cases found <;> exact kept
  gets _ _ := .weaken (asideKept rfl) (fun _ start => start) fun found _ kept => by
    cases found <;> exact kept
  prunes key _ := pruneKept c key

theorem listingKept (c : Category) :
    (listing true c).Amid most (Tenanted most) fun _ => Tenanted most :=
  listingKeeps (tenantedKeeping c)

theorem collectionKept :
    (collection true).Amid most (Tenanted most) fun _ => Tenanted most :=
  collectionKeeps (tenantedKeeping .contacts) (tenantedKeeping .stations)

structure Entering (most : Nat) (id : String) (w : World) : Prop where
  same : ∀ other, other ∈ w.holdings.members Category.stations.index ↔
    id = other ∨ w.tallies.Registered other
  proper : ∀ (id : String) table, w.tallies.tenants[id]? = some table → Proper most table

structure Enrolled (most : Nat) (id : String) (table : Std.ExtTreeMap String Datum) (w : World) :
    Prop where
  same : ∀ other, w.tallies.Registered other ↔
    other ∈ w.holdings.members Category.stations.index
  held : w.tallies.tenants[id]? = some table
  others : ∀ (other : String) kept, id ≠ other → w.tallies.tenants[other]? = some kept →
    Proper most kept

def Countable (most : Nat) (table : Std.ExtTreeMap String Datum) : Prop :=
  (∃ name, table["name"]? = some (.text name)) ∧
    ∃ n : Int, table["observations"]?.getD (.count 0) = .count n ∧ 0 ≤ n ∧ n ≤ most

theorem Proper.countable {most : Nat} {table : Std.ExtTreeMap String Datum}
    (proper : Proper most table) : Countable most table := by
  obtain ⟨named, n, counted, some, fits⟩ := proper
  exact ⟨named, n, by rw [counted]; rfl, by omega, fits⟩

theorem Enrolled.refilled {id : String} {table : Std.ExtTreeMap String Datum} {w : World}
    (enrolled : Enrolled most id table w) (filled : Std.ExtTreeMap String Datum) :
    Enrolled most id filled ⟨w.holdings, ⟨w.tallies.tenants.insert id filled⟩⟩ where
  same other := (Tallies.insertRegistered (Tallies.registeredTable.mpr ⟨table, enrolled.held⟩)
    other).trans (enrolled.same other)
  held := by simp
  others other kept apart found := by
    simp only [Std.ExtTreeMap.getElem?_insert, Std.LawfulEqCmp.compare_eq_iff_eq, apart,
      ↓reduceIte] at found
    exact enrolled.others other kept apart found

theorem Enrolled.tenanted {id : String} {table : Std.ExtTreeMap String Datum} {w : World}
    (enrolled : Enrolled most id table w) (filled : Proper (most + 1) table) :
    Tenanted (most + 1) w where
  same := enrolled.same
  proper other kept found := by
    by_cases apart : id = other
    · subst other
      cases Option.some.inj (enrolled.held.symm.trans found)
      exact filled
    · exact (enrolled.others other kept apart found).later

theorem addEntering (id : String) :
    (Program.ofHoldings (.add Category.stations.index id)).Amid most (Tenanted most)
      fun _ => Entering most id := by
  apply Program.Contract.holdings
  · exact fun _ _ _ w tenanted => ⟨tenanted, .inl rfl⟩
  · intro x _ _ w tenanted
    refine ⟨fun other => ?_, tenanted.proper⟩
    rw [Holdings.addMembers, tenanted.same]
    simp

theorem registerEnrolled (id : String) :
    (Program.ofTallies (.register id)).Amid most (Entering most id) fun fresh w =>
      if fresh then Enrolled most id ∅ w
      else ∃ table, Countable most table ∧ Enrolled most id table w := by
  apply Program.Contract.tallies
  intro w entering
  have same := Tallies.registerRegistered w.tallies id
  simp only [Tallies.perform, Tallies.register] at same ⊢
  by_cases present : w.tallies.tenants.contains id = true
  · obtain ⟨table, held⟩ :=
      Tallies.registeredTable.mp (Std.ExtTreeMap.contains_iff_mem.mp present)
    simp only [present, ↓reduceIte, Bool.false_eq_true] at same ⊢
    exact ⟨table, (entering.proper id table held).countable,
      fun other => (same other).trans (entering.same other).symm, held,
      fun other kept _ found => entering.proper other kept found⟩
  · simp only [present, ↓reduceIte, Bool.false_eq_true] at same ⊢
    refine ⟨fun other => (same other).trans (entering.same other).symm, by simp, ?_⟩
    intro other kept apart found
    simp only [Std.ExtTreeMap.getElem?_insert, Std.LawfulEqCmp.compare_eq_iff_eq, apart,
      ↓reduceIte] at found
    exact entering.proper other kept found

theorem noteEnrolled (id name : String) :
    (Program.ofTallies (.note id "name" name)).Amid most (Enrolled most id ∅) fun _ w =>
      ∃ table, Countable most table ∧ Enrolled most id table w := by
  apply Program.Contract.tallies
  intro w enrolled
  simp only [Tallies.perform, Tallies.note, enrolled.held]
  refine ⟨_, ⟨⟨name, ?_⟩, 0, ?_, Int.le_refl _, Int.natCast_nonneg _⟩, enrolled.refilled _⟩
  · simp
  · simp

structure Counted (most : Nat) (n : Int) (w : World) : Prop where
  tenanted : Tenanted (most + 1) w
  first : 1 ≤ n
  fits : n ≤ most + 1

theorem increaseCounted (id : String) :
    (Program.ofTallies (.increase id "observations" 1)).Amid most
      (fun w => ∃ table, Countable most table ∧ Enrolled most id table w) (Counted most) := by
  apply Program.Contract.tallies
  rintro w ⟨table, ⟨⟨name, named⟩, n, counted, some, fits⟩, enrolled⟩
  simp only [Tallies.perform, Tallies.increase, enrolled.held, counted]
  refine ⟨(enrolled.refilled _).tenanted ⟨⟨name, ?_⟩, n + 1, ?_, ?_, ?_⟩, ?_, ?_⟩
  · simp [Std.ExtTreeMap.getElem?_insert, named]
  · simp
  all_goals omega

theorem countCounted (s : Station) :
    (count s).Amid most (Entering most s.id) (Counted most) := by
  unfold count
  refine .bind (registerEnrolled s.id) fun fresh => ?_
  cases fresh with
  | true => exact .bind (noteEnrolled s.id s.name) fun _ => increaseCounted s.id
  | false => exact increaseCounted s.id

theorem keepEntering (life : Nat) (o : Observation) (s : Station) :
    (keep life o s).Amid most (Tenanted most) fun _ => Entering most s.id :=
  .bind (asideKept rfl) fun _ => .bind (asideKept rfl) fun _ => .bind (asideKept rfl) fun _ =>
    .bind (addEntering s.id) fun _ => .kept

theorem intakeCounted (life : Nat) (o : Observation) (s : Station) :
    (intake life o s).Amid most (Tenanted most) (Counted most) :=
  .bind (keepEntering life o s) fun _ => countCounted s

end Contracts

theorem undergoTenanted (life : Nat) {most : Nat} {w : World} (tenanted : Tenanted most w)
    (a : Attempt) : Tenanted (most + 1) (w.undergo life true a) := by
  obtain ⟨action, course⟩ := a
  cases action with
  | observe o =>
    cases vetted : vet o with
    | error refusal =>
      rw [undergoRefused life true w course vetted]
      exact tenanted.later
    | ok station =>
      rw [undergoTaken life true w course vetted]
      exact (intakeCounted life o station).leaves (fun _ => trivial) tenanted 0
        (fun _ _ counted => counted.tenanted) fun _ _ harmless => harmless.1.later
  | wait time => exact tenanted.later
  | list c =>
    exact (listingKept c).leaves (fun _ => trivial) tenanted 0 (fun _ _ kept => kept.later)
      fun _ _ harmless => harmless.1.later
  | collect =>
    exact collectionKept.leaves (fun _ => trivial) tenanted 0 (fun _ _ kept => kept.later)
      fun _ _ harmless => harmless.1.later

theorem undergoneTenanted (life : Nat) (attempts : List Attempt) :
    Tenanted attempts.length (World.empty.undergoAll life true attempts) := by
  induction attempts using List.reverseRecOn with
  | nil => exact emptyTenanted
  | append_singleton attempts a ih =>
    rw [World.undergoAll, List.foldl_append, List.length_append]
    exact undergoTenanted life ih a

theorem receiveFailure (life : Nat) {most : Nat} {w : World} (tenanted : Tenanted most w)
    (course : Course) {o : Observation} {e : Failure}
    (failed : (receive (Program.interpret (amid course)) life o (w, 0)).1 = .error (.failed e)) :
    e = .unavailable ∨ e = .expiry := by
  cases vetted : vet o with
  | error refusal =>
    rw [receiveRefused _ life vetted] at failed
    cases Except.error.inj failed
    exact absurd vetted (vetUnfailed o e)
  | ok station =>
    have met := intakeCounted life o station course (fun _ => trivial) w 0 tenanted
    have stopped := (receiveTaken _ life vetted _).2.1 e failed
    rcases ran : (intake life o station).interpret (amid course) (w, 0) with ⟨f | n, after, calls⟩
    · rw [ran] at met stopped
      cases Except.error.inj stopped
      exact met.2
    · rw [ran] at stopped
      contradiction

theorem receiptFits (life : Nat) {most : Nat} {w : World} (tenanted : Tenanted most w)
    (course : Course) {o : Observation} {r : Receipt}
    (told : (receive (Program.interpret (amid course)) life o (w, 0)).1 = .ok r) :
    1 ≤ r.observations ∧ r.observations ≤ most + 1 := by
  cases vetted : vet o with
  | error refusal =>
    rw [receiveRefused _ life vetted] at told
    contradiction
  | ok station =>
    have met := intakeCounted life o station course (fun _ => trivial) w 0 tenanted
    have counted := (receiveTaken _ life vetted _).2.2 r told
    rcases ran : (intake life o station).interpret (amid course) (w, 0) with ⟨f | n, after, calls⟩
    · rw [ran] at counted
      contradiction
    · rw [ran] at met counted
      cases Except.ok.inj counted
      exact ⟨met.first, met.fits⟩

/-- After any operations amid any failures the tenants are the members of the index of stations,
each with its name and with a count that is at least one and at most the number of operations.
So an observation is never refused for want of a tenant or because a count is none. A word of 64
bits holds what it is told, if the operations are fewer than such a word can count. -/
theorem tenantsAreStations (life : Nat) (attempts : List Attempt) :
    let w := World.empty.undergoAll life true attempts
    (∀ id, w.tallies.Registered id ↔ id ∈ w.holdings.members Category.stations.index) ∧
    (∀ (id : String) table, w.tallies.tenants[id]? = some table →
      (∃ name, table["name"]? = some (.text name)) ∧
      ∃ n : Int, table["observations"]? = some (.count n) ∧ 1 ≤ n ∧ n ≤ attempts.length) ∧
    (∀ (course : Course) o e,
      (receive (Program.interpret (amid course)) life o (w, 0)).1 = .error (.failed e) →
      e = .unavailable ∨ e = .expiry) ∧
    (attempts.length < 2 ^ 63 - 1 → ∀ (course : Course) o r,
      (receive (Program.interpret (amid course)) life o (w, 0)).1 = .ok r →
      (Int64.ofInt r.observations).toInt = r.observations) := by
  intro w
  have tenanted := undergoneTenanted life attempts
  refine ⟨tenanted.same, tenanted.proper, fun course o e => receiveFailure life tenanted course, ?_⟩
  intro few course o r told
  obtain ⟨first, fits⟩ := receiptFits life tenanted course told
  exact Int64.toInt_ofInt_of_le (by omega) (by omega)

/- The last write of an observation fails, then the removal of a station that has expired. -/
def failingAttempts : List Attempt :=
  [⟨.observe (overHarbour "A00001" 9000), fun n => ⟨0, n == 3⟩⟩,
    ⟨.observe (overHarbour "A00001" 9100), .steady 500⟩,
    ⟨.list .stations, fun n => ⟨2000, n == 2⟩⟩]

theorem failingTenanted :
    let w := World.empty.undergoAll 1000 true failingAttempts
    w.tallies.Registered "S1" ∧ w.holdings.entries["S1"]? = none ∧
    ∃ name n, (w.tallies.tenants["S1"]?.bind (·["name"]?)) = some (.text name) ∧
      (w.tallies.tenants["S1"]?.bind (·["observations"]?)) = some (.count n) ∧ 1 ≤ n ∧ n ≤ 3 := by
  obtain ⟨same, proper, _⟩ := tenantsAreStations 1000 failingAttempts
  have registered := (same "S1").mpr (by decide +kernel)
  obtain ⟨table, found⟩ := Tallies.registeredTable.mp registered
  obtain ⟨⟨name, named⟩, n, counted, some, fits⟩ := proper "S1" table found
  exact ⟨registered, by decide +kernel, name, n, by simp [found, named], by simp [found, counted],
    some, fits⟩

end AirPicture.Cache
