import Mathlib.Data.Fin.VecNotation
import Mathlib.Data.List.FinRange
import AirPicture.Proofs.Cache.Intake
import AirPicture.Proofs.Cache.Writes

/-! Observations that can be received in either order. Where two share no key, each is kept under
its own keys and counted in its own table, and neither can tell which of them came first. So it is
with whole sequences, as long as those that share a key stay in their order. -/
namespace AirPicture.Cache

/- Two observations that are kept share a key if one is written over a feature of the other. -/
def Shares (o p : Observation) : Prop :=
  ∃ s t, vet o = .ok s ∧ vet p = .ok t ∧
    (o.icao = p.icao ∨ s.id = t.id ∨ o.icao = t.id ∨ p.icao = s.id)

theorem sharesBoth {o p : Observation} (shares : Shares o p) : Shares p o := by
  obtain ⟨s, t, first, second, keys⟩ := shares
  refine ⟨t, s, second, first, ?_⟩
  rcases keys with contact | station | left | right
  · exact .inl contact.symm
  · exact .inr (.inl station.symm)
  · exact .inr (.inr (.inr left))
  · exact .inr (.inr (.inl right))

section Counting

/- The number that a station's observation is given and what stands in its table then, from what
stood there before. The name is that of the first observation. -/
def tallied (s : Station) (old : Option (Std.ExtTreeMap String Datum)) :
    Except Failure Int × Std.ExtTreeMap String Datum :=
  let table := old.getD ((∅ : Std.ExtTreeMap String Datum).insert "name" (.text s.name))
  match table["observations"]?.getD (.count 0) with
  | .count n => (.ok (n + 1), table.insert "observations" (.count (n + 1)))
  | .text _ => (.error (.notNumeric "observations"), table)

theorem increaseTallied (now : Nat) {s : Station} {w : World}
    {table : Std.ExtTreeMap String Datum} (held : w.tallies.tenants[s.id]? = some table) :
    (Program.ofTallies (.increase s.id "observations" 1)).run now w =
      ((tallied s (some table)).1,
        ⟨w.holdings, ⟨w.tallies.tenants.insert s.id (tallied s (some table)).2⟩⟩) := by
  rw [Program.runTallies]
  simp only [Tallies.perform, Tallies.increase, held, tallied, Option.getD_some]
  cases table["observations"]?.getD (.count 0) with
  | count n => rfl
  | text _ => simp only [insertHeld _ held]

theorem countTallied (now : Nat) (s : Station) (w : World) :
    (count s).run now w = ((tallied s w.tallies.tenants[s.id]?).1,
      ⟨w.holdings, ⟨w.tallies.tenants.insert s.id (tallied s w.tallies.tenants[s.id]?).2⟩⟩) := by
  have registered := Program.runTallies now (.register s.id) w
  simp only [Tallies.perform, Tallies.register] at registered
  unfold count
  cases held : w.tallies.tenants[s.id]? with
  | some table =>
    have present : w.tallies.tenants.contains s.id = true := by
      rw [Std.ExtTreeMap.contains_eq_isSome_getElem?, held, Option.isSome_some]
    rw [if_pos present] at registered
    rw [Program.runAfter registered]
    simp only [Bool.false_eq_true, ↓reduceIte]
    exact increaseTallied now held
  | none =>
    have absent : ¬ w.tallies.tenants.contains s.id = true := by
      rw [Std.ExtTreeMap.contains_eq_isSome_getElem?, held, Option.isSome_none]
      exact Bool.false_ne_true
    rw [if_neg absent] at registered
    rw [Program.runAfter registered]
    have noted := Program.runTallies now (.note s.id "name" s.name)
      ⟨w.holdings, ⟨w.tallies.tenants.insert s.id ∅⟩⟩
    simp only [Tallies.perform, Tallies.note, Std.ExtTreeMap.getElem?_insert_self,
      insertTwice] at noted
    simp only [↓reduceIte]
    rw [Program.runAfter noted, increaseTallied now Std.ExtTreeMap.getElem?_insert_self,
      insertTwice]
    rfl

end Counting

namespace Holdings

theorem keptExchange (h : Holdings) {o p : Observation} {s t : Station}
    (contacts : o.icao ≠ p.icao) (stations : s.id ≠ t.id) (left : o.icao ≠ t.id)
    (right : p.icao ≠ s.id) (instant : Nat) :
    (h.kept o s instant).kept p t instant = (h.kept p t instant).kept o s instant := by
  have puts : ∀ a b c d : Entry,
      (((h.put o.icao a).put s.id b).put p.icao c).put t.id d =
        (((h.put p.icao c).put t.id d).put o.icao a).put s.id b := by
    intro a b c d
    rw [putExchange _ right.symm, putExchange _ stations, putExchange _ contacts,
      putExchange _ left]
  have adds : ∀ (h : Holdings) (a b c d : String),
      (((h.add a o.icao).add b s.id).add c p.icao).add d t.id =
        (((h.add c p.icao).add d t.id).add a o.icao).add b s.id := by
    intro h a b c d
    rw [addExchange _ b s.id c, addExchange _ b s.id d, addExchange _ a o.icao c,
      addExchange _ a o.icao d]
  -- Values and members do not meet, so all values can be put first.
  have together : ∀ (o p : Observation) (s t : Station), (h.kept o s instant).kept p t instant =
      (((((((h.put o.icao ⟨contactFeature o, some instant⟩).put s.id
        ⟨stationFeature s, some instant⟩).put p.icao ⟨contactFeature p, some instant⟩).put t.id
          ⟨stationFeature t, some instant⟩).add Category.contacts.index o.icao).add
            Category.stations.index s.id).add Category.contacts.index p.icao).add
              Category.stations.index t.id := by
    intro o p s t
    unfold kept
    rw [addPut, addPut, addPut, addPut]
  rw [together, together, puts, adds]

end Holdings

section Receiving
variable {now life : Nat} {o p : Observation} {s t : Station}

def acknowledged : Except Failure Int → Except Refusal Receipt
  | .ok n => .ok ⟨true, n⟩
  | .error f => .error (.failed f)

theorem receiveLate (late : ¬ Room now life) (vetted : vet o = .ok s) (w : World) :
    receive (Program.run now) life o w = (.error (.failed .expiry), w) := by
  obtain ⟨room, _⟩ | ⟨_, failed⟩ := keepRun now life o s w
  · exact absurd room late
  · simp only [receive, intake, vetted, Program.runFailed failed]

theorem receiveKept (room : Room now life) (vetted : vet o = .ok s) (w : World) :
    receive (Program.run now) life o w =
      (acknowledged (tallied s w.tallies.tenants[s.id]?).1,
        ⟨w.holdings.kept o s (now + life),
          ⟨w.tallies.tenants.insert s.id (tallied s w.tallies.tenants[s.id]?).2⟩⟩) := by
  obtain ⟨_, kept⟩ | ⟨late, _⟩ := keepRun now life o s w
  · simp only [receive, intake, vetted, Program.runAfter kept, countTallied]
    cases (tallied s w.tallies.tenants[s.id]?).1 <;> rfl
  · exact absurd room late

theorem receiveExchange (now life : Nat) (apart : ¬ Shares o p) (w : World) :
    receive (Program.run now) life p (receive (Program.run now) life o w).2 =
      ((receive (Program.run now) life p w).1,
        (receive (Program.run now) life o (receive (Program.run now) life p w).2).2) := by
  cases first : vet o with
  | error e => simp only [receiveRefused _ life first]
  | ok s =>
    cases second : vet p with
    | error e => simp only [receiveRefused _ life second]
    | ok t =>
      by_cases room : Room now life
      · have keys : ¬ (o.icao = p.icao ∨ s.id = t.id ∨ o.icao = t.id ∨ p.icao = s.id) :=
          fun shared => apart ⟨s, t, first, second, shared⟩
        simp only [not_or] at keys
        obtain ⟨contacts, stations, left, right⟩ := keys
        simp only [receiveKept room first, receiveKept room second, Std.ExtTreeMap.getElem?_insert,
          Std.LawfulEqCmp.compare_eq_iff_eq, if_neg stations, if_neg (Ne.symm stations),
          insertExchange _ stations, Holdings.keptExchange _ contacts stations left right]
      · simp only [receiveLate room first, receiveLate room second]

end Receiving

def receiveAll (life now : Nat) :
    List Observation → World → List (Except Refusal Receipt) × World
  | [], w => ([], w)
  | o :: rest, w =>
    let (answer, w) := receive (Program.run now) life o w
    let (answers, w) := receiveAll life now rest w
    (answer :: answers, w)

theorem receiveAllCons (life now : Nat) (o : Observation) (rest : List Observation) (w : World) :
    receiveAll life now (o :: rest) w =
      ((receive (Program.run now) life o w).1 ::
          (receiveAll life now rest (receive (Program.run now) life o w).2).1,
        (receiveAll life now rest (receive (Program.run now) life o w).2).2) := rfl

theorem receiveAllLength (life now : Nat) (l : List Observation) (w : World) :
    (receiveAll life now l w).1.length = l.length := by
  induction l generalizing w with
  | nil => rfl
  | cons o rest ih => simp only [receiveAllCons, List.length_cons, ih]

section Orders
variable {α : Type} (life now : Nat) (x : α → Observation)

def Agree (l r : List α) (w : World) : Prop :=
  (receiveAll life now (l.map x) w).2 = (receiveAll life now (r.map x) w).2 ∧
    (l.zip (receiveAll life now (l.map x) w).1).Perm (r.zip (receiveAll life now (r.map x) w).1)

variable {life now x} {l r m : List α}

theorem agreeTrans {w : World} (first : Agree life now x l r w) (second : Agree life now x r m w) :
    Agree life now x l m w :=
  ⟨first.1.trans second.1, first.2.trans second.2⟩

theorem agreeAfter (i : α) (agree : ∀ w, Agree life now x l r w) (w : World) :
    Agree life now x (i :: l) (i :: r) w := by
  obtain ⟨world, answers⟩ := agree (receive (Program.run now) life (x i) w).2
  exact ⟨world, answers.cons _⟩

theorem agreeSwapped {i j : α} (apart : ¬ Shares (x i) (x j)) (l : List α) (w : World) :
    Agree life now x (i :: j :: l) (j :: i :: l) w := by
  have forth := receiveExchange now life apart w
  have back := receiveExchange now life (mt sharesBoth apart) w
  have later := congrArg Prod.fst forth
  have sooner := congrArg Prod.fst back
  have world := congrArg Prod.snd forth
  simp only at later sooner world
  unfold Agree
  simp only [List.map_cons, receiveAllCons, List.zip_cons_cons, later, sooner, world]
  exact ⟨trivial, .swap _ _ _⟩

theorem agreeSooner {i : α} {before : List α} (apart : ∀ j ∈ before, ¬ Shares (x j) (x i))
    (after : List α) (w : World) :
    Agree life now x (i :: (before ++ after)) (before ++ i :: after) w := by
  induction before generalizing w with
  | nil => exact ⟨rfl, .refl _⟩
  | cons j rest ih =>
    obtain ⟨own, others⟩ := List.forall_mem_cons.mp apart
    exact agreeTrans (agreeSwapped (mt sharesBoth own) _ w)
      (agreeAfter j (ih others) w)

theorem agreeReordered {n : Nat} {x : Fin n → Observation} {l r : List (Fin n)}
    (sorted : l.Pairwise (· < ·)) (same : l.Perm r)
    (kept : r.Pairwise fun j i => i < j → ¬ Shares (x j) (x i)) (w : World) :
    Agree life now x l r w := by
  induction l generalizing r w with
  | nil =>
    cases List.nil_perm.mp same
    exact ⟨rfl, .refl _⟩
  | cons i rest ih =>
    obtain ⟨least, others⟩ := List.pairwise_cons.mp sorted
    obtain ⟨before, after, rfl⟩ := List.append_of_mem (same.subset List.mem_cons_self)
    have remain : rest.Perm (before ++ after) :=
      (same.trans List.perm_middle).cons_inv
    obtain ⟨front, back, across⟩ := List.pairwise_append.mp kept
    have apart : ∀ j ∈ before, ¬ Shares (x j) (x i) := fun j inside =>
      across j inside i List.mem_cons_self
        (least j (remain.symm.subset (List.mem_append_left _ inside)))
    have still : (before ++ after).Pairwise fun j i => i < j → ¬ Shares (x j) (x i) :=
      List.pairwise_append.mpr ⟨front, (List.pairwise_cons.mp back).2, fun j inside k behind =>
        across j inside k (List.mem_cons_of_mem _ behind)⟩
    exact agreeTrans (agreeAfter i (ih others remain still) w) (agreeSooner apart after w)

end Orders

/- The observations of one sequence in the order of another. Two that share a key stay in order. -/
structure Reordering {n : Nat} (x y : Fin n → Observation) where
  place : Equiv.Perm (Fin n)
  moved : ∀ i, y (place i) = x i
  kept : ∀ i j, i < j → Shares (x i) (x j) → place i < place j

namespace Reordering
variable {n : Nat} {x y : Fin n → Observation} (order : Reordering x y)

def names : List (Fin n) := (List.finRange n).map order.place.symm

theorem namesReceived : order.names.map x = List.ofFn y := by
  rw [List.ofFn_eq_map, names, List.map_map]
  refine List.map_congr_left fun i _ => ?_
  rw [Function.comp_apply, ← order.moved, Equiv.apply_symm_apply]

theorem nameFound {m : Nat} {i : Fin n} (found : order.names[m]? = some i) :
    m = order.place i := by
  obtain ⟨short, rfl⟩ := List.getElem?_eq_some_iff.mp found
  simp [names]

theorem namesKept : order.names.Pairwise fun j i => i < j → ¬ Shares (x j) (x i) := by
  refine List.pairwise_map.mpr ((List.pairwise_lt_finRange n).imp fun {a b} before => ?_)
  intro moved shared
  have after := order.kept _ _ moved (sharesBoth shared)
  rw [Equiv.apply_symm_apply, Equiv.apply_symm_apply] at after
  exact absurd after (lt_asymm before)

theorem namesAgree (life now : Nat) (w : World) :
    Agree life now x (List.finRange n) order.names w :=
  agreeReordered (List.pairwise_lt_finRange n)
    (Equiv.Perm.map_finRange_perm order.place.symm).symm order.namesKept w

end Reordering

/-- Observations received at one instant in another order, in which those that share a key have
kept theirs, leave the same features, indexes and tallies, and each is acknowledged the same. -/
theorem receivedReordered (life now : Nat) {n : Nat} {x y : Fin n → Observation}
    (order : Reordering x y) (w : World) :
    (receiveAll life now (List.ofFn x) w).2 = (receiveAll life now (List.ofFn y) w).2 ∧
      ∀ i : Fin n, ∃ answer, (receiveAll life now (List.ofFn x) w).1[i.val]? = some answer ∧
        (receiveAll life now (List.ofFn y) w).1[(order.place i).val]? = some answer := by
  obtain ⟨world, answers⟩ := order.namesAgree life now w
  rw [order.namesReceived, ← List.ofFn_eq_map] at world answers
  refine ⟨world, fun i => ?_⟩
  have short : i.val < (receiveAll life now (List.ofFn x) w).1.length := by
    rw [receiveAllLength, List.length_ofFn]
    exact i.isLt
  refine ⟨_, List.getElem?_eq_getElem short, ?_⟩
  -- An answer is found by the name it belongs to, and each name stands in one place.
  have given : (i, (receiveAll life now (List.ofFn x) w).1[i.val]) ∈
      (List.finRange n).zip (receiveAll life now (List.ofFn x) w).1 :=
    List.mem_of_getElem? (List.getElem?_zip_eq_some.mpr
      ⟨by simp, List.getElem?_eq_getElem short⟩)
  obtain ⟨m, met⟩ := List.mem_iff_getElem?.mp (answers.subset given)
  obtain ⟨found, answer⟩ := List.getElem?_zip_eq_some.mp met
  rwa [order.nameFound found] at answer

def island : Station := ⟨"S2", "island", 41, -74⟩

def overIsland : Observation := ⟨"A2", 8000, 41, -74, none, none, some island, 0⟩

def between : Fin 3 → Observation := ![overHarbour "A1" 9000, overIsland, overHarbour "A1" 9100]

def sooner : Fin 3 → Observation := ![overIsland, overHarbour "A1" 9000, overHarbour "A1" 9100]

theorem islandApart : ¬ Shares (overHarbour "A1" 9000) overIsland := by
  rintro ⟨s, t, first, second, keys⟩
  cases Option.some.inj (vetExact.mp first).1
  cases Option.some.inj (vetExact.mp second).1
  simp [overHarbour, overIsland, harbour, island] at keys

def islandFirst : Reordering between sooner where
  place := Equiv.swap 0 1
  moved i := by match i with
    | 0 | 1 | 2 => rfl
  kept i j before shared := by match i, j with
    | 0, 1 => exact absurd shared islandApart
    | 0, 2 | 1, 2 => decide
    | 0, 0 | 1, 0 | 1, 1 | 2, 0 | 2, 1 | 2, 2 => exact absurd before (by decide)

theorem islandSooner :
    (receiveAll 1000 500 (List.ofFn between) .empty).2 =
        (receiveAll 1000 500 (List.ofFn sooner) .empty).2 ∧
      (receiveAll 1000 500 (List.ofFn sooner) .empty).1[2]? = some (.ok ⟨true, 2⟩) := by
  obtain ⟨world, answers⟩ := receivedReordered 1000 500 islandFirst .empty
  obtain ⟨answer, first, second⟩ := answers 2
  have acknowledged : (receiveAll 1000 500 (List.ofFn between) .empty).1[2]? =
      some (.ok ⟨true, 2⟩) := by rfl
  exact ⟨world, second.trans (first.symm.trans acknowledged)⟩

end AirPicture.Cache
