import AirPicture.Proofs.Cache.Program

/-! Who is registered, and that what is counted stays a number. A note or a count is refused
only to a tenant that is not registered; only registering and dropping change who is. -/
namespace AirPicture.Cache

namespace Tallies

def Registered (t : Tallies) (tenant : String) : Prop := tenant ∈ t.tenants

theorem failedSame {t : Tallies} {c : Call} {e : Failure} (failed : (t.perform c).1 = .error e) :
    (t.perform c).2 = t := by
  cases c with
  | register tenant => contradiction
  | drop tenant => contradiction
  | note tenant key text =>
    simp only [perform, note] at failed ⊢
    cases found : t.tenants[tenant]? with
    | none => rfl
    | some table =>
      rw [found] at failed
      contradiction
  | increase tenant key amount =>
    simp only [perform, increase] at failed ⊢
    cases found : t.tenants[tenant]? with
    | none => rfl
    | some table =>
      simp only [found] at failed ⊢
      split
      · rename_i n counts
        rw [counts] at failed
        contradiction
      · rfl

def Numeric (t : Tallies) : Prop :=
  ∀ (tenant : String) table, t.tenants[tenant]? = some table →
    ∀ text : String, table["observations"]? ≠ some (Datum.text text)

theorem emptyNumeric : empty.Numeric := by
  intro tenant table found
  simp [empty] at found

theorem registeredTable {t : Tallies} {tenant} :
    t.Registered tenant ↔ ∃ table, t.tenants[tenant]? = some table := by
  unfold Registered
  rw [Std.ExtTreeMap.mem_iff_isSome_getElem?, Option.isSome_iff_exists]

theorem insertRegistered {t : Tallies} {tenant table} (present : t.Registered tenant)
    (other : String) : (⟨t.tenants.insert tenant table⟩ : Tallies).Registered other ↔
      t.Registered other := by
  unfold Registered at present ⊢
  simp only [Std.ExtTreeMap.mem_insert, Std.LawfulEqCmp.compare_eq_iff_eq]
  constructor
  · rintro (rfl | inside)
    · exact present
    · exact inside
  · exact Or.inr

theorem registerRegistered (t : Tallies) (tenant other : String) :
    (t.perform (.register tenant)).2.Registered other ↔ tenant = other ∨ t.Registered other := by
  unfold perform register Registered
  by_cases present : t.tenants.contains tenant = true
  · simp only [present, ↓reduceIte]
    constructor
    · exact Or.inr
    · rintro (rfl | inside)
      · exact Std.ExtTreeMap.contains_iff_mem.mp present
      · exact inside
  · simp [present]

theorem dropRegistered (t : Tallies) (tenant other : String) :
    (t.perform (.drop tenant)).2.Registered other ↔ tenant ≠ other ∧ t.Registered other := by
  simp [perform, drop, Registered]

theorem noteRegistered (t : Tallies) (tenant key text other : String) :
    (t.perform (.note tenant key text)).2.Registered other ↔ t.Registered other := by
  simp only [perform, note]
  cases found : t.tenants[tenant]? with
  | none => rfl
  | some table => exact insertRegistered (registeredTable.mpr ⟨table, found⟩) other

theorem increaseRegistered (t : Tallies) (tenant key : String) (amount : Int) (other : String) :
    (t.perform (.increase tenant key amount)).2.Registered other ↔ t.Registered other := by
  simp only [perform, increase]
  cases found : t.tenants[tenant]? with
  | none => rfl
  | some table =>
    simp only
    split
    · exact insertRegistered (registeredTable.mpr ⟨table, found⟩) other
    · rfl

theorem noteAnswer (t : Tallies) (tenant key text : String) :
    (t.Registered tenant ∧ (t.perform (.note tenant key text)).1 = .ok ()) ∨
    (¬ t.Registered tenant ∧
      (t.perform (.note tenant key text)).1 = .error (.unknownTenant tenant)) := by
  rw [registeredTable]
  simp only [perform, note]
  cases t.tenants[tenant]? with
  | none => simp
  | some table => simp

theorem increaseAnswer {t : Tallies} (numeric : t.Numeric) (tenant : String) (amount : Int) :
    (t.Registered tenant ∧ ∃ n, (t.perform (.increase tenant "observations" amount)).1 = .ok n) ∨
    (¬ t.Registered tenant ∧ (t.perform (.increase tenant "observations" amount)).1 =
      .error (.unknownTenant tenant)) := by
  rw [registeredTable]
  simp only [perform, increase]
  cases found : t.tenants[tenant]? with
  | none => simp
  | some table =>
    refine Or.inl ⟨⟨table, rfl⟩, ?_⟩
    cases standing : table["observations"]? with
    | none => simp [standing]
    | some datum =>
      cases datum with
      | count n => simp [standing]
      | text s => exact False.elim (numeric tenant table found s standing)

theorem insertNumeric {t : Tallies} (numeric : t.Numeric) (tenant : String)
    {table : Std.ExtTreeMap String Datum}
    (counts : ∀ text : String, table["observations"]? ≠ some (Datum.text text)) :
    (⟨t.tenants.insert tenant table⟩ : Tallies).Numeric := by
  intro other kept found
  simp only [Std.ExtTreeMap.getElem?_insert, Std.LawfulEqCmp.compare_eq_iff_eq] at found
  split at found
  · cases Option.some.inj found
    exact counts
  · exact numeric other kept found

def Call.keepsCounts : Call → Bool
  | .note _ key _ => key ≠ "observations"
  | _ => true

theorem performNumeric {t : Tallies} (numeric : t.Numeric) {c : Call}
    (apart : c.keepsCounts = true) : (t.perform c).2.Numeric := by
  cases c with
  | register tenant =>
    simp only [perform, register]
    split
    · exact numeric
    · exact insertNumeric numeric tenant (by simp)
  | drop tenant =>
    intro other table found
    simp only [perform, drop, Std.ExtTreeMap.getElem?_erase] at found
    split at found
    · contradiction
    · exact numeric other table found
  | note tenant key text =>
    have different : key ≠ "observations" := by simpa [Call.keepsCounts] using apart
    simp only [perform, note]
    cases found : t.tenants[tenant]? with
    | none => exact numeric
    | some table =>
      apply insertNumeric numeric tenant
      intro other
      simpa [Std.ExtTreeMap.getElem?_insert, different] using numeric tenant table found other
  | increase tenant key amount =>
    simp only [perform, increase]
    cases found : t.tenants[tenant]? with
    | none => exact numeric
    | some table =>
      simp only
      split
      · apply insertNumeric numeric tenant
        intro other
        rw [Std.ExtTreeMap.getElem?_insert]
        split
        · simp
        · exact numeric tenant table found other
      · exact numeric

def standing (t : Tallies) (tenant : String) : Datum :=
  (t.tenants[tenant]?.bind fun table => table["observations"]?).getD (.count 0)

theorem numericStanding {t : Tallies} :
    t.Numeric ↔ ∀ tenant text, t.standing tenant ≠ .text text := by
  constructor
  · intro numeric tenant text
    unfold standing
    cases found : t.tenants[tenant]? with
    | none => simp
    | some table =>
      cases held : table["observations"]? with
      | none => simp [held]
      | some datum =>
        intro same
        have reads : datum = .text text := by simpa [held] using same
        exact numeric tenant table found text (reads ▸ held)
  · intro stands tenant table found text held
    exact stands tenant text (by simp [standing, found, held])

theorem numericCount {t : Tallies} (numeric : t.Numeric) (tenant : String) :
    ∃ n, t.standing tenant = .count n := by
  cases stands : t.standing tenant with
  | count n => exact ⟨n, rfl⟩
  | text text => exact absurd stands (numericStanding.mp numeric tenant text)

theorem insertStanding (t : Tallies) (tenant other : String)
    (table : Std.ExtTreeMap String Datum) :
    (⟨t.tenants.insert tenant table⟩ : Tallies).standing other =
      if tenant = other then table["observations"]?.getD (.count 0) else t.standing other := by
  simp only [standing, Std.ExtTreeMap.getElem?_insert, Std.LawfulEqCmp.compare_eq_iff_eq]
  split <;> rfl

theorem registerStanding (t : Tallies) (tenant other : String) :
    (t.perform (.register tenant)).2.standing other = t.standing other := by
  simp only [perform, register]
  split
  · rfl
  · rename_i absent
    have none : t.tenants[tenant]? = none := by simpa using absent
    rw [insertStanding]
    split
    · rename_i same
      simp [standing, ← same, none]
    · rfl

theorem noteStanding (t : Tallies) (tenant other text : String) {key : String}
    (apart : key ≠ "observations") :
    (t.perform (.note tenant key text)).2.standing other = t.standing other := by
  simp only [perform, note]
  cases found : t.tenants[tenant]? with
  | none => rfl
  | some table =>
    simp only [insertStanding]
    split
    · rename_i same
      simp [standing, ← same, found, Std.ExtTreeMap.getElem?_insert, apart]
    · rfl

theorem dropStanding (t : Tallies) (tenant other : String) :
    (t.perform (.drop tenant)).2.standing other =
      if tenant = other then .count 0 else t.standing other := by
  simp only [perform, drop, standing, Std.ExtTreeMap.getElem?_erase,
    Std.LawfulEqCmp.compare_eq_iff_eq]
  split <;> rfl

theorem increaseElsewhere (t : Tallies) {tenant other : String} (apart : tenant ≠ other)
    (key : String) (amount : Int) :
    (t.perform (.increase tenant key amount)).2.standing other = t.standing other := by
  simp only [perform, increase]
  cases t.tenants[tenant]? with
  | none => rfl
  | some table =>
    simp only
    split
    · rw [insertStanding, if_neg apart]
    · rfl

theorem increaseStanding {t : Tallies} {tenant : String} (present : t.Registered tenant) {n : Int}
    (stands : t.standing tenant = .count n) (amount : Int) :
    (t.perform (.increase tenant "observations" amount)).1 = .ok (n + amount) ∧
    (t.perform (.increase tenant "observations" amount)).2.standing tenant =
      .count (n + amount) := by
  obtain ⟨table, found⟩ := registeredTable.mp present
  have counted : table["observations"]?.getD (.count 0) = .count n := by
    simpa [standing, found] using stands
  simp [perform, increase, found, counted, insertStanding]

end Tallies

theorem countEnters (now : Nat) (s : Station) (w : World) :
    ∃ t : Tallies, t.Registered s.id ∧ (∀ tenant, t.standing tenant = w.tallies.standing tenant) ∧
      (count s).run now w =
        (Program.ofTallies (.increase s.id "observations" 1)).run now ⟨w.holdings, t⟩ := by
  have known := (Tallies.registerRegistered w.tallies s.id s.id).mpr (Or.inl rfl)
  have still := Tallies.registerStanding w.tallies s.id
  obtain ⟨fresh, first⟩ : ∃ fresh, (w.tallies.perform (.register s.id)).1 = .ok fresh := ⟨_, rfl⟩
  have registered := Program.runTallies now (.register s.id) w
  rw [first] at registered
  unfold count
  rw [Program.runAfter registered]
  generalize (w.tallies.perform (.register s.id)).2 = tallies at known still
  cases fresh with
  | false => exact ⟨tallies, known, still, rfl⟩
  | true =>
    obtain ⟨_, answer⟩ | ⟨absent, _⟩ := Tallies.noteAnswer tallies s.id "name" s.name
    · have noted := Program.runTallies now (.note s.id "name" s.name) ⟨w.holdings, tallies⟩
      simp only [answer] at noted
      simp only [↓reduceIte]
      rw [Program.runAfter noted]
      exact ⟨_, (Tallies.noteRegistered tallies s.id "name" s.name s.id).mpr known,
        fun tenant => (Tallies.noteStanding tallies s.id tenant s.name (by decide)).trans
          (still tenant), rfl⟩
    · exact False.elim (absent known)

theorem countStanding (now : Nat) (s : Station) {w : World} {n : Int}
    (stands : w.tallies.standing s.id = .count n) :
    ∃ tallies, (count s).run now w = (.ok (n + 1), ⟨w.holdings, tallies⟩) ∧
      (∀ tenant, tallies.standing tenant =
        if s.id = tenant then .count (n + 1) else w.tallies.standing tenant) ∧
      (w.tallies.Numeric → tallies.Numeric) := by
  obtain ⟨t, known, still, same⟩ := countEnters now s w
  obtain ⟨answer, after⟩ := Tallies.increaseStanding known ((still s.id).trans stands) 1
  refine ⟨(t.perform (.increase s.id "observations" 1)).2, ?_, fun tenant => ?_, fun numeric => ?_⟩
  · rw [same, Program.runTallies, answer]
  · split
    · rename_i own
      exact own ▸ after
    · rename_i apart
      exact (Tallies.increaseElsewhere t apart "observations" 1).trans (still tenant)
  · have clean : t.Numeric := Tallies.numericStanding.mpr fun tenant text =>
      still tenant ▸ Tallies.numericStanding.mp numeric tenant text
    exact Tallies.performNumeric clean (c := .increase s.id "observations" 1) rfl

theorem countRun (now : Nat) (s : Station) {w : World} (numeric : w.tallies.Numeric) :
    ∃ n tallies, (count s).run now w = (.ok n, ⟨w.holdings, tallies⟩) ∧ tallies.Numeric := by
  obtain ⟨n, stands⟩ := Tallies.numericCount numeric s.id
  obtain ⟨tallies, counted, _, clean⟩ := countStanding now s stands
  exact ⟨n + 1, tallies, counted, clean numeric⟩

end AirPicture.Cache
