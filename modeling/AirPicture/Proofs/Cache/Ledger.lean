import Mathlib
import AirPicture.Proofs.Cache.Tallies

/-! What is kept per tenant, read off the calls. Of these only those since the registration that
stands count: a key has the text that was noted last under it, and else the sum of its increases.
A call that fails changes nothing, no call changes another tenant, and only a drop another key. -/
namespace AirPicture.Cache

namespace Tallies

def Call.tenant : Call → String
  | .register tenant | .drop tenant | .note tenant _ _ | .increase tenant _ _ => tenant

def Call.key : Call → Option String
  | .note _ key _ | .increase _ key _ => some key
  | _ => none

def Call.text : Call → Option String
  | .note _ _ text => some text
  | _ => none

def Call.amount : Call → Option Int
  | .increase _ _ amount => some amount
  | _ => none

def Call.hits (tenant key : String) (c : Call) : Bool := c.tenant = tenant ∧ c.key = some key

def after (past : List Call) : Tallies := past.foldl (fun t c => (t.perform c).2) empty

def held (t : Tallies) (tenant key : String) : Option Datum := t.tenants[tenant]?.bind (·[key]?)

/- The calls since a tenant was dropped last, from its first registration on. To register again is
no new beginning, and without a registration there are none. -/
def tenure (tenant : String) (past : List Call) : List Call :=
  (past.rtakeWhile (· ≠ .drop tenant)).dropWhile (· ≠ .register tenant)

def writes (tenant key : String) (past : List Call) : List Call :=
  (tenure tenant past).filter (·.hits tenant key)

def texts (tenant key : String) (past : List Call) : List String :=
  (writes tenant key past).filterMap Call.text

def amounts (tenant key : String) (past : List Call) : List Int :=
  (writes tenant key past).filterMap Call.amount

def left (writes : List Call) : Option Datum :=
  if writes = [] then none
  else match (writes.filterMap Call.text).getLast? with
    | some text => some (.text text)
    | none => some (.count (writes.filterMap Call.amount).sum)

def Call.upon : Call → Option Datum → Option Datum
  | .note _ _ text, _ => some (.text text)
  | .increase _ _ amount, standing =>
    match standing.getD (.count 0) with
    | .count n => some (.count (n + amount))
    | .text text => some (.text text)
  | _, standing => standing

section Histories
variable {past : List Call} {c : Call} {tenant key : String}

theorem tenureAppend (past : List Call) (c : Call) (tenant : String) :
    tenure tenant (past ++ [c]) = if c = .drop tenant then []
      else if tenure tenant past ≠ [] then tenure tenant past ++ [c]
      else if c = .register tenant then [c] else [] := by
  unfold tenure
  rw [List.rtakeWhile_concat]
  by_cases dropped : c = .drop tenant
  · simp [dropped]
  · simp only [dropped, ne_eq, not_false_eq_true, decide_true, ↓reduceIte, List.dropWhile_append,
      List.isEmpty_iff, ite_not]
    split
    · by_cases registered : c = .register tenant <;> simp [registered]
    · rfl

theorem writesAppend (past : List Call) (c : Call) (tenant key : String) :
    writes tenant key (past ++ [c]) = if c = .drop tenant then []
      else if tenure tenant past ≠ [] ∧ c.hits tenant key = true then writes tenant key past ++ [c]
      else writes tenant key past := by
  unfold writes
  rw [tenureAppend]
  by_cases dropped : c = .drop tenant
  · simp [dropped]
  by_cases absent : tenure tenant past = []
  · by_cases registered : c = .register tenant
    · simp [absent, registered, Call.hits, Call.key]
    · simp [absent, registered]
  · cases hit : c.hits tenant key <;> simp [absent, dropped, hit]

theorem leftAppend (writes : List Call) (hit : c.key = some key) :
    left (writes ++ [c]) = c.upon (left writes) := by
  cases c with
  | register other => contradiction
  | drop other => contradiction
  | note other key text => simp [left, Call.upon, Call.text, List.filterMap_append]
  | increase other key amount =>
    have noText : [Call.increase other key amount].filterMap Call.text = [] := rfl
    unfold left
    rw [if_neg (by simp), List.filterMap_append, List.filterMap_append, noText, List.append_nil,
      List.sum_append]
    cases last : (writes.filterMap Call.text).getLast? with
    | some text =>
      have some : writes ≠ [] := by
        rintro rfl
        contradiction
      simp [some, Call.upon]
    | none =>
      by_cases none : writes = []
      · subst none
        simp [Call.upon, Call.amount]
      · simp [none, Call.upon, Call.amount]

end Histories

section Calls
variable {t : Tallies} {c : Call} {tenant key : String}

theorem unregisteredHeld (absent : ¬ t.Registered tenant) (key : String) :
    t.held tenant key = none := by
  have none : t.tenants[tenant]? = none := by simpa [Registered] using absent
  simp [held, none]

theorem performRegistered (t : Tallies) (c : Call) (tenant : String) :
    (t.perform c).2.Registered tenant ↔
      c = .register tenant ∨ (c ≠ .drop tenant ∧ t.Registered tenant) := by
  cases c with
  | register other => simp [registerRegistered]
  | drop other => simp [dropRegistered]
  | note other key text => simp [noteRegistered]
  | increase other key amount => simp [increaseRegistered]

theorem performElsewhere (t : Tallies) (c : Call) {other : String} (apart : c.tenant ≠ other) :
    (t.perform c).2.tenants[other]? = t.tenants[other]? := by
  cases c with
  | register tenant =>
    have apart : tenant ≠ other := apart
    simp only [perform, register]
    split
    · rfl
    · simp [Std.ExtTreeMap.getElem?_insert, apart]
  | drop tenant =>
    have apart : tenant ≠ other := apart
    simp [perform, drop, Std.ExtTreeMap.getElem?_erase, apart]
  | note tenant key text =>
    have apart : tenant ≠ other := apart
    simp only [perform, note]
    cases t.tenants[tenant]? with
    | none => rfl
    | some table => simp [Std.ExtTreeMap.getElem?_insert, apart]
  | increase tenant key amount =>
    have apart : tenant ≠ other := apart
    simp only [perform, increase]
    cases t.tenants[tenant]? with
    | none => rfl
    | some table =>
      simp only
      split
      · simp [Std.ExtTreeMap.getElem?_insert, apart]
      · rfl

theorem performBeside (t : Tallies) {c : Call} (stays : c ≠ .drop c.tenant) {key : String}
    (apart : c.key ≠ some key) :
    (t.perform c).2.held c.tenant key = t.held c.tenant key := by
  cases c with
  | register tenant =>
    simp only [perform, register, Call.tenant]
    split
    · rfl
    · rename_i absent
      have none : t.tenants[tenant]? = none := by simpa using absent
      simp [held, none]
  | drop tenant => exact absurd rfl stays
  | note tenant other text =>
    have apart : other ≠ key := fun same => apart (congrArg some same)
    simp only [perform, note, Call.tenant]
    cases found : t.tenants[tenant]? with
    | none => rfl
    | some table => simp [held, found, Std.ExtTreeMap.getElem?_insert, apart]
  | increase tenant other amount =>
    have apart : other ≠ key := fun same => apart (congrArg some same)
    simp only [perform, increase, Call.tenant]
    cases found : t.tenants[tenant]? with
    | none => rfl
    | some table =>
      simp only
      split
      · simp [held, found, Std.ExtTreeMap.getElem?_insert, apart]
      · rfl

theorem performWrites {t : Tallies} {c : Call} {key : String} (own : c.key = some key)
    (present : t.Registered c.tenant) :
    (t.perform c).2.held c.tenant key = c.upon (t.held c.tenant key) := by
  obtain ⟨table, found⟩ := registeredTable.mp present
  cases c with
  | register tenant => contradiction
  | drop tenant => contradiction
  | note tenant other text =>
    cases Option.some.inj own
    have found : t.tenants[tenant]? = some table := found
    simp [perform, note, found, held, Call.tenant, Call.upon]
  | increase tenant other amount =>
    cases Option.some.inj own
    have found : t.tenants[tenant]? = some table := found
    have standing : t.held tenant key = table[key]? := by simp [held, found]
    simp only [perform, increase, found, Call.tenant, Call.upon, standing]
    cases stands : table[key]?.getD (.count 0) with
    | count n => simp [held]
    | text text =>
      rw [standing]
      cases under : table[key]? with
      | none => simp [under] at stands
      | some datum => simpa [under] using stands

theorem unknownRefused {t : Tallies} {c : Call} {key : String} (own : c.key = some key)
    (absent : ¬ t.Registered c.tenant) : (t.perform c).1 = .error (.unknownTenant c.tenant) := by
  cases c with
  | register tenant => contradiction
  | drop tenant => contradiction
  | note tenant other text =>
    have none : t.tenants[tenant]? = none := by simpa [Registered, Call.tenant] using absent
    simp [perform, note, none, Call.tenant]
  | increase tenant other amount =>
    have none : t.tenants[tenant]? = none := by simpa [Registered, Call.tenant] using absent
    simp [perform, increase, none, Call.tenant]

theorem increaseTold {t : Tallies} {tenant : String} (present : t.Registered tenant)
    (key : String) (amount : Int) : (t.perform (.increase tenant key amount)).1 =
      match (t.held tenant key).getD (.count 0) with
      | .count n => .ok (n + amount)
      | .text _ => .error (.notNumeric key) := by
  obtain ⟨table, found⟩ := registeredTable.mp present
  simp only [perform, increase, held, found, Option.bind_some]
  cases table[key]?.getD (.count 0) <;> rfl

end Calls

structure Tells (past : List Call) (t : Tallies) : Prop where
  registered : ∀ tenant, t.Registered tenant ↔ tenure tenant past ≠ []
  held : ∀ tenant key, t.held tenant key = left (writes tenant key past)

theorem emptyTells : Tells [] empty where
  registered := by simp [Registered, empty, tenure]
  held := by simp [Tallies.held, empty, left, writes, tenure]

theorem performTells {past : List Call} {t : Tallies} (tells : Tells past t) (c : Call) :
    Tells (past ++ [c]) (t.perform c).2 where
  registered tenant := by
    rw [performRegistered, tenureAppend, tells.registered]
    by_cases dropped : c = .drop tenant
    · simp [dropped]
    · by_cases absent : tenure tenant past = [] <;> simp [dropped, absent]
  held tenant key := by
    rw [writesAppend]
    by_cases dropped : c = .drop tenant
    · have gone : ¬ (t.perform c).2.Registered tenant := by
        simp [performRegistered, dropped]
      rw [if_pos dropped, unregisteredHeld gone]
      rfl
    rw [if_neg dropped]
    by_cases mine : c.tenant = tenant
    · subst mine
      by_cases own : c.key = some key
      · by_cases present : t.Registered c.tenant
        · rw [if_pos ⟨(tells.registered _).mp present, by simp [Call.hits, own]⟩, leftAppend _ own,
            performWrites own present, tells.held]
        · rw [if_neg (fun both => present ((tells.registered _).mpr both.1)),
            failedSame (unknownRefused own present), tells.held]
      · rw [if_neg (by simp [Call.hits, own]), performBeside t dropped own, tells.held]
    · rw [if_neg (by simp [Call.hits, mine]), ← tells.held, Tallies.held,
        performElsewhere t c mine, Tallies.held]

theorem afterAppend (past : List Call) (c : Call) :
    after (past ++ [c]) = ((after past).perform c).2 := by
  rw [after, List.foldl_append]
  rfl

theorem afterTells (past : List Call) : Tells past (after past) := by
  induction past using List.reverseRecOn with
  | nil => exact emptyTells
  | append_singleton past c ih =>
    rw [afterAppend]
    exact performTells ih c

theorem leftStanding (writes : List Call) :
    (left writes).getD (.count 0) = match (writes.filterMap Call.text).getLast? with
      | some text => .text text
      | none => .count (writes.filterMap Call.amount).sum := by
  unfold left
  by_cases none : writes = []
  · subst none
    rfl
  · rw [if_neg none]
    split <;> rfl

/-- An increase is told the sum since the registration that stands, or that a text was noted since
or that no registration stands. A call that fails changes nothing, no call changes another tenant,
and another key only if it drops the tenant; and to register again changes nothing. -/
theorem callsAccounted (past : List Call) :
    (∀ tenant key amount, ((after past).perform (.increase tenant key amount)).1 =
      if tenure tenant past = [] then .error (.unknownTenant tenant)
      else if texts tenant key past = [] then .ok ((amounts tenant key past).sum + amount)
      else .error (.notNumeric key)) ∧
    (∀ c e, ((after past).perform c).1 = .error e → after (past ++ [c]) = after past) ∧
    (∀ c : Call, ∀ other, c.tenant ≠ other →
      (after (past ++ [c])).tenants[other]? = (after past).tenants[other]?) ∧
    (∀ c : Call, ∀ key, c.key ≠ some key → (after (past ++ [c])).held c.tenant key =
      if c = .drop c.tenant then none else (after past).held c.tenant key) ∧
    ∀ tenant, tenure tenant past ≠ [] →
      (after past).perform (.register tenant) = (.ok false, after past) := by
  have tells := afterTells past
  simp only [afterAppend]
  refine ⟨fun tenant key amount => ?_, fun c e => failedSame, fun c other => performElsewhere _ c,
    fun c key apart => ?_, fun tenant standing => ?_⟩
  · by_cases absent : tenure tenant past = []
    · rw [if_pos absent]
      exact unknownRefused (c := .increase tenant key amount) rfl
        fun present => (tells.registered tenant).mp present absent
    · rw [if_neg absent, increaseTold ((tells.registered tenant).mpr absent), tells.held,
        leftStanding]
      unfold texts amounts
      cases last : ((writes tenant key past).filterMap Call.text).getLast? with
      | none => rw [if_pos (List.getLast?_eq_none_iff.mp last)]
      | some text =>
        rw [if_neg]
        rintro none
        simp [none] at last
  · split
    · rename_i dropped
      refine unregisteredHeld (fun present => ?_) key
      exact ((performRegistered _ c _).mp present).elim (fun registers => by
        rw [registers] at dropped
        contradiction) (fun stays => stays.1 dropped)
    · rename_i stays
      exact performBeside _ stays apart
  · have known : (after past).tenants.contains tenant = true :=
      Std.ExtTreeMap.contains_iff_mem.mpr ((tells.registered tenant).mpr standing)
    simp [perform, register, known]

def returned : List Call :=
  [.register "S1", .note "S1" "name" "harbour", .increase "S1" "observations" 7, .drop "S1",
    .register "S1", .increase "S1" "observations" 2, .register "S1", .note "S1" "name" "pier",
    .increase "S1" "observations" 3]

theorem returnedAccounted :
    ((after returned).perform (.increase "S1" "observations" 1)).1 = .ok 6 ∧
    ((after returned).perform (.increase "S1" "name" 1)).1 = .error (.notNumeric "name") ∧
    after (returned ++ [.increase "S1" "name" 1]) = after returned ∧
    (after (returned ++ [.drop "S1"])).held "S1" "name" = none ∧
    (after (returned ++ [.drop "S1"])).tenants["S2"]? = (after returned).tenants["S2"]? ∧
    (after returned).perform (.register "S1") = (.ok false, after returned) := by
  obtain ⟨told, failed, elsewhere, beside, again⟩ := callsAccounted returned
  have texted : ((after returned).perform (.increase "S1" "name" 1)).1 =
      .error (.notNumeric "name") := told "S1" "name" 1
  refine ⟨told "S1" "observations" 1, texted, failed _ _ texted, ?_,
    elsewhere (.drop "S1") "S2" (by decide), again "S1" (by decide)⟩
  exact beside (.drop "S1") "name" (by decide)

end Tallies

end AirPicture.Cache
