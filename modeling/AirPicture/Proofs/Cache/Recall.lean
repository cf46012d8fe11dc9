import AirPicture.Proofs.Cache.Chronicle
import AirPicture.Proofs.Cache.Holdings

/-! What the holdings should know. Beside them stands the log of what was put and when. A look
at a key is to find the latest value that was put under it, until that value expires; what
is held may fall short of the log only by a value that has expired. So the holdings answer
as a timed map does, in which nothing is ever taken out. -/
namespace AirPicture.Cache

structure Put where
  key : String
  value : String
  instant : Nat
  life : Option Nat
  deriving DecidableEq, Repr

namespace Put

def entry (p : Put) : Entry := ⟨p.value, p.life.map (p.instant + ·)⟩

def live (p : Put) (now : Nat) : Bool :=
  match p.life with
  | none => true
  | some life => now < p.instant + life

theorem entryLive (p : Put) (now : Nat) : p.entry.live now = p.live now := by
  unfold Entry.live entry live
  cases p.life <;> rfl

theorem liveBefore {p : Put} {earlier later : Nat} (order : earlier ≤ later)
    (live : p.live later = true) : p.live earlier = true := by
  rw [← entryLive] at live ⊢
  exact Entry.liveBefore order live

theorem goneLater {p : Put} {earlier later : Nat} (order : earlier ≤ later)
    (gone : p.live earlier = false) : p.live later = false := by
  by_contra live
  rw [Bool.not_eq_false] at live
  rw [liveBefore order live] at gone
  contradiction

end Put

def lastPut (log : List Put) (key : String) : Option Put :=
  log.reverse.find? fun p => p.key = key

def recalled (log : List Put) (now : Nat) (key : String) : Option String :=
  (lastPut log key).bind fun p => if p.live now then some p.value else none

section Logs
variable {log : List Put} {key : String}

theorem lastPutAppend (log : List Put) (p : Put) (key : String) :
    lastPut (log ++ [p]) key = if p.key = key then some p else lastPut log key := by
  unfold lastPut
  rw [List.reverse_append, List.reverse_singleton, List.singleton_append, List.find?_cons]
  by_cases own : p.key = key <;> simp [own]

theorem lastPutExact {p : Put} : lastPut log key = some p ↔
    ∃ before after, log = before ++ p :: after ∧ p.key = key ∧ ∀ q ∈ after, q.key ≠ key := by
  unfold lastPut
  rw [List.find?_eq_some_iff_append]
  constructor
  · rintro ⟨own, after, before, split, others⟩
    refine ⟨before.reverse, after.reverse, ?_, of_decide_eq_true own, ?_⟩
    · rw [← List.reverse_reverse log, split]
      simp
    · intro q inside
      simpa using others q (List.mem_reverse.mp inside)
  · rintro ⟨before, after, rfl, own, others⟩
    refine ⟨decide_eq_true own, after.reverse, before.reverse, by simp, ?_⟩
    intro q inside
    simpa using others q (List.mem_reverse.mp inside)

theorem recalledSome {now : Nat} {value : String} :
    recalled log now key = some value ↔
      ∃ p, lastPut log key = some p ∧ p.live now = true ∧ p.value = value := by
  unfold recalled
  cases lastPut log key with
  | none => simp
  | some p => cases live : p.live now <;> simp [live]

theorem recalledExact {now : Nat} {value : String} :
    recalled log now key = some value ↔
      ∃ before p after, log = before ++ p :: after ∧ p.key = key ∧ (∀ q ∈ after, q.key ≠ key) ∧
        p.live now = true ∧ p.value = value := by
  rw [recalledSome]
  constructor
  · rintro ⟨p, last, live, same⟩
    obtain ⟨before, after, split, own, others⟩ := lastPutExact.mp last
    exact ⟨before, p, after, split, own, others, live, same⟩
  · rintro ⟨before, p, after, split, own, others, live, same⟩
    exact ⟨p, lastPutExact.mpr ⟨before, after, split, own, others⟩, live, same⟩

end Logs

namespace Holdings

def Call.puts (now : Nat) : Call → List Put
  | .put key value life =>
    match expiry now life with
    | .ok _ => [⟨key, value, now, life⟩]
    | .error _ => []
  | _ => []

/- The latest put under a key is held as it was made, or has expired and is no longer held. -/
def Recalls (log : List Put) (now : Nat) (h : Holdings) : Prop :=
  ∀ key, h.entries[key]? = (lastPut log key).map Put.entry ∨
    (h.entries[key]? = none ∧ ∃ p, lastPut log key = some p ∧ p.live now = false)

section Recalling
variable {log : List Put} {now : Nat} {h : Holdings}

theorem emptyRecalls (now : Nat) : Recalls [] now empty :=
  fun key => .inl (by simp [empty, lastPut])

theorem recallsLater {later : Nat} (order : now ≤ later) (recalls : Recalls log now h) :
    Recalls log later h := by
  intro key
  obtain held | ⟨absent, p, last, gone⟩ := recalls key
  · exact .inl held
  · exact .inr ⟨absent, p, last, Put.goneLater order gone⟩

theorem currentHeld {key : String} (held : h.entries[key]? = (lastPut log key).map Put.entry)
    (now : Nat) : h.current now key = recalled log now key := by
  rw [currentEntry, held]
  unfold recalled
  cases lastPut log key with
  | none => rfl
  | some p =>
    simp only [Option.map_some, Option.bind_some, Put.entryLive]
    rfl

theorem recallsCurrent {later : Nat} (order : now ≤ later) (recalls : Recalls log now h)
    (key : String) : h.current later key = recalled log later key := by
  obtain held | ⟨absent, p, last, gone⟩ := recalls key
  · exact currentHeld held later
  · simp [currentEntry, recalled, absent, last, Put.goneLater order gone]

theorem recallsFound (recalls : Recalls log now h) {since : Nat} {key value : String}
    (found : h.current since key = some value) : recalled log since key = some value := by
  obtain held | ⟨absent, _⟩ := recalls key
  · rw [← currentHeld held, found]
  · simp [currentEntry, absent] at found

theorem recallsBetween {since : Nat} (order : since ≤ now) (recalls : Recalls log now h)
    (key : String) : ∃ instant, since ≤ instant ∧ instant ≤ now ∧
      h.current since key = recalled log instant key := by
  obtain held | ⟨absent, p, last, gone⟩ := recalls key
  · exact ⟨since, Nat.le_refl _, order, currentHeld held since⟩
  · exact ⟨now, order, Nat.le_refl _, by simp [currentEntry, recalled, absent, last, gone]⟩

theorem evictRecalls {since : Nat} (order : since ≤ now) (recalls : Recalls log now h)
    (key : String) : Recalls log now (h.evict since key) := by
  intro other
  rw [evictEntry]
  split
  · rename_i taken
    obtain ⟨rfl, gone⟩ := taken
    obtain held | ⟨_, expired⟩ := recalls key
    · cases last : lastPut log key with
      | none => exact .inl rfl
      | some p =>
        refine .inr ⟨rfl, p, rfl, Put.goneLater order ?_⟩
        rw [currentEntry, held, last] at gone
        simpa [Put.entryLive] using gone
    · exact .inr ⟨rfl, expired⟩
  · exact recalls other

theorem putRecalls (recalls : Recalls log now h) (p : Put) :
    Recalls (log ++ [p]) now (h.put p.key p.entry) := by
  intro key
  rw [putEntry, lastPutAppend]
  by_cases own : p.key = key
  · simp [own]
  · simpa [own] using recalls key

theorem lookSets (h : Holdings) (now : Nat) (key : String) : (h.look now key).2.sets = h.sets := by
  rw [lookExact]
  unfold evict
  split <;> rfl

theorem setsRecalls {other : Holdings} (same : other.entries = h.entries)
    (recalls : Recalls log now h) : Recalls log now other := by
  intro key
  rw [same]
  exact recalls key

/-- Every call keeps to the log of what was put, even one that is made with an earlier reading
of the clock. -/
theorem performRecalls {since : Nat} (order : since ≤ now) (recalls : Recalls log now h)
    (c : Call) : Recalls (log ++ c.puts since) now (h.perform since c).2 := by
  cases c with
  | get key =>
    simp only [perform, lookExact, Call.puts, List.append_nil]
    exact evictRecalls order recalls key
  | has key =>
    simp only [perform, lookExact, Call.puts, List.append_nil]
    exact evictRecalls order recalls key
  | put key value life =>
    simp only [perform, Call.puts]
    cases limit : expiry since life with
    | error f =>
      simp only [List.append_nil]
      exact recalls
    | ok instant =>
      rw [expiryExact limit]
      exact putRecalls recalls ⟨key, value, since, life⟩
  | add set member =>
    simp only [perform, Call.puts, List.append_nil]
    exact setsRecalls rfl recalls
  | remove set member =>
    simp only [perform, Call.puts, List.append_nil]
    exact setsRecalls (removeEntries h set member) recalls
  | list set =>
    simp only [perform, Call.puts, List.append_nil]
    exact recalls

end Recalling

end Holdings

/- A timed map. Its values stay in the log, and a look only reckons which one counts. -/
structure Ledger where
  log : List Put
  sets : Std.ExtTreeMap String (Std.ExtTreeSet String)

structure Dated where
  now : Nat
  call : Holdings.Call
  deriving DecidableEq, Repr

def Holdings.Call.sought : (c : Holdings.Call) → Option (String × (Option String → c.Answer))
  | .get key => some (key, id)
  | .has key => some (key, Option.isSome)
  | _ => none

namespace Ledger

def empty : Ledger := ⟨[], ∅⟩

def perform (now : Nat) (m : Ledger) : (c : Holdings.Call) → Except Failure c.Answer × Ledger
  | .get key => (.ok (recalled m.log now key), m)
  | .has key => (.ok (recalled m.log now key).isSome, m)
  | c =>
    let (answer, h) := Holdings.perform now ⟨∅, m.sets⟩ c
    (answer, ⟨m.log ++ c.puts now, h.sets⟩)

theorem performLook {m : Ledger} {now : Nat} {c : Holdings.Call} {key made}
    (looks : c.sought = some (key, made)) :
    m.perform now c = (.ok (made (recalled m.log now key)), m) := by
  cases c <;> cases looks <;> rfl

def answers (m : Ledger) : List Dated → List Exchange
  | [] => []
  | d :: rest => ⟨.holdings d.call, (m.perform d.now d.call).1⟩ ::
      (m.perform d.now d.call).2.answers rest

theorem answersSpared (m : Ledger) {marked : List (Dated × Bool)}
    (spared : ∀ x ∈ marked, x.2 = true → x.1.call.sought ≠ none) :
    ((marked.zip (m.answers (marked.map Prod.fst))).filter fun x => !x.1.2).map Prod.snd =
      m.answers ((marked.filter fun x => !x.2).map Prod.fst) := by
  induction marked generalizing m with
  | nil => rfl
  | cons x rest ih =>
    have later := fun m => ih m fun y inside => spared y (List.mem_cons_of_mem _ inside)
    obtain ⟨d, mark⟩ := x
    cases mark with
    | false => simp [answers, later]
    | true =>
      have looks := spared _ List.mem_cons_self rfl
      obtain ⟨⟨key, made⟩, sought⟩ := Option.ne_none_iff_exists'.mp looks
      simp [answers, later, performLook sought]

end Ledger

namespace Holdings

def after (h : Holdings) (calls : List Dated) : Holdings :=
  calls.foldl (fun h d => (h.perform d.now d.call).2) h

def answers (h : Holdings) : List Dated → List Exchange
  | [] => []
  | d :: rest => ⟨.holdings d.call, (h.perform d.now d.call).1⟩ ::
      (h.perform d.now d.call).2.answers rest

structure Refines (now : Nat) (h : Holdings) (m : Ledger) : Prop where
  recalls : Recalls m.log now h
  sets : h.sets = m.sets

section Refining
variable {now : Nat} {h : Holdings} {m : Ledger}

theorem emptyRefines (now : Nat) : Refines now empty .empty := ⟨emptyRecalls now, rfl⟩

theorem refinesLater {later : Nat} (order : now ≤ later) (refines : Refines now h m) :
    Refines later h m := ⟨recallsLater order refines.recalls, refines.sets⟩

theorem performRefines (refines : Refines now h m) (c : Call) :
    (h.perform now c).1 = (m.perform now c).1 ∧
      Refines now (h.perform now c).2 (m.perform now c).2 := by
  have kept := performRecalls (Nat.le_refl now) refines.recalls c
  cases c with
  | get key =>
    rw [Ledger.performLook rfl, ← recallsCurrent (Nat.le_refl now) refines.recalls key]
    simp only [Call.puts, List.append_nil] at kept
    exact ⟨rfl, kept, (lookSets h now key).trans refines.sets⟩
  | has key =>
    rw [Ledger.performLook rfl, ← recallsCurrent (Nat.le_refl now) refines.recalls key]
    simp only [Call.puts, List.append_nil] at kept
    exact ⟨rfl, kept, (lookSets h now key).trans refines.sets⟩
  | put key value life =>
    simp only [Ledger.perform, perform] at kept ⊢
    cases limit : expiry now life with
    | error f =>
      rw [limit] at kept
      exact ⟨rfl, kept, refines.sets⟩
    | ok instant =>
      rw [limit] at kept
      exact ⟨rfl, kept, refines.sets⟩
  | add set member =>
    have same : h.members set = (⟨∅, m.sets⟩ : Holdings).members set := by
      simp only [members, refines.sets]
    refine ⟨by simp only [perform, Ledger.perform, same], kept, ?_⟩
    simp only [perform, Ledger.perform, add, same, refines.sets]
  | remove set member =>
    have same : h.members set = (⟨∅, m.sets⟩ : Holdings).members set := by
      simp only [members, refines.sets]
    refine ⟨by simp only [perform, Ledger.perform, same], kept, ?_⟩
    simp only [perform, Ledger.perform, remove, refines.sets]
    cases m.sets[set]? with
    | none => exact refines.sets
    | some members => rfl
  | list set =>
    have same : h.members set = (⟨∅, m.sets⟩ : Holdings).members set := by
      simp only [members, refines.sets]
    exact ⟨by simp only [perform, Ledger.perform, same], kept, refines.sets⟩

theorem answersRefine {calls : List Dated} (refines : Refines now h m)
    (order : ∀ d ∈ calls, now ≤ d.now) (sorted : calls.Pairwise fun a b => a.now ≤ b.now) :
    h.answers calls = m.answers calls := by
  induction calls generalizing now h m with
  | nil => rfl
  | cons d rest ih =>
    obtain ⟨later, sorted⟩ := List.pairwise_cons.mp sorted
    obtain ⟨same, next⟩ :=
      performRefines (refinesLater (order d List.mem_cons_self) refines) d.call
    unfold answers Ledger.answers
    rw [same, ih next later sorted]

theorem afterRecalls {log : List Put} {calls : List Dated} (recalls : Recalls log now h)
    (past : ∀ d ∈ calls, d.now ≤ now) :
    Recalls (log ++ calls.flatMap fun d => d.call.puts d.now) now (h.after calls) := by
  induction calls generalizing log h with
  | nil =>
    rw [List.flatMap_nil, List.append_nil]
    exact recalls
  | cons d rest ih =>
    have next := performRecalls (past d List.mem_cons_self) recalls d.call
    rw [List.flatMap_cons, ← List.append_assoc]
    exact ih next fun e inside => past e (List.mem_cons_of_mem _ inside)

theorem afterCurrent {calls : List Dated} (past : ∀ d ∈ calls, d.now ≤ now) (key : String) :
    (empty.after calls).current now key =
      recalled (calls.flatMap fun d => d.call.puts d.now) now key :=
  recallsCurrent (Nat.le_refl now) (afterRecalls (emptyRecalls now) past) key

end Refining

end Holdings

end AirPicture.Cache
