import AirPicture.Proofs.Cache.FaultyRuns
import AirPicture.Proofs.Cache.Hiding
import AirPicture.Proofs.Cache.Recall
import AirPicture.Proofs.Cache.Rendering

/-! Operations one after another, any call of which may fail. What took effect is the history
of the run, whatever it was meant for. A read that succeeds returns values that were put last
under their keys, and every key that was kept and has not expired, no matter what failed. -/
namespace AirPicture.Cache
open Operation

theorem performFailed {now : Nat} {w : World} {c : Call} {e : Failure}
    (failed : (w.perform now c).1 = .error e) : (w.perform now c).2 = w := by
  cases c with
  | holdings c =>
    cases c with
    | put key value life =>
      simp only [World.performHoldings, Holdings.perform] at failed ⊢
      cases limit : Holdings.expiry now life with
      | error f => rfl
      | ok instant =>
        rw [limit] at failed
        contradiction
    | _ => contradiction
  | tallies c =>
    rw [World.performTallies] at failed ⊢
    rw [Tallies.failedSame failed]

theorem amidCases (course : Course) (c : Call) (s : World × Nat) :
    (∃ a calls, amid course c s = (.ok a, (s.1.perform (course s.2).now c).2, calls) ∧
      (s.1.perform (course s.2).now c).1 = .ok a) ∨
    ∃ e calls, amid course c s = (.error e, s.1, calls) := by
  obtain ⟨w, n⟩ := s
  have works (calls : Nat) : (∃ a more, ((w.perform (course n).now c).1,
        (w.perform (course n).now c).2, calls) = (.ok a, (w.perform (course n).now c).2, more) ∧
        (w.perform (course n).now c).1 = .ok a) ∨
      ∃ e more, ((w.perform (course n).now c).1, (w.perform (course n).now c).2, calls) =
        (.error e, w, more) := by
    cases met : (w.perform (course n).now c).1 with
    | ok a => exact .inl ⟨a, calls, rfl, rfl⟩
    | error e => exact .inr ⟨e, calls, by rw [performFailed met]⟩
  cases c with
  | tallies c => exact works n
  | holdings c =>
    cases fails : (course n).fails with
    | true =>
      refine .inr ⟨.unavailable, n + 1, ?_⟩
      simp only [amid, fails, ↓reduceIte]
    | false =>
      simp only [amid, fails, Bool.false_eq_true, ↓reduceIte]
      exact works (n + 1)

namespace Program
variable {α : Type}

def made (course : Course) : Program α → World × Nat → List Event
  | .done _, _ => []
  | .call c next, s =>
    match amid course c s with
    | (.ok answer, after) =>
      ⟨⟨c, .ok answer⟩, 0, (course s.2).now⟩ :: (next answer).made course after
    | (.error _, _) => []

theorem madeWorld (course : Course) (p : Program α) (s : World × Nat) :
    (p.interpret (amid course) s).2.1 = s.1.after (p.made course s) := by
  induction p generalizing s with
  | done a => rfl
  | call c next ih =>
    obtain ⟨a, calls, met, _⟩ | ⟨e, calls, met⟩ := amidCases course c s
    · simp only [interpret, made, met]
      exact ih a _
    · simp only [interpret, made, met]
      rfl

theorem madeLegal (course : Course) (p : Program α) (s : World × Nat) :
    Legal s.1 (p.made course s) := by
  induction p generalizing s with
  | done a => exact trivial
  | call c next ih =>
    obtain ⟨a, calls, met, answered⟩ | ⟨e, calls, met⟩ := amidCases course c s
    · simp only [made, met]
      exact ⟨answered.symm, ih a ((s.1.perform (course s.2).now c).2, calls)⟩
    · simp only [made, met]
      exact trivial

theorem madeTimes {course : Course} {p : Program α} {s : World × Nat} {e : Event}
    (inside : e ∈ p.made course s) : (∃ n, e.now = (course n).now) ∧ ∃ a, e.answer = .ok a := by
  induction p generalizing s with
  | done a => simp [made] at inside
  | call c next ih =>
    obtain ⟨a, calls, met, _⟩ | ⟨f, calls, met⟩ := amidCases course c s
    · simp only [made, met] at inside
      rcases List.mem_cons.mp inside with rfl | later
      · exact ⟨⟨_, rfl⟩, a, rfl⟩
      · exact ih a later
    · simp [made, met] at inside

theorem madeObeys {rule : List Exchange → Call → Prop} {goal : List Exchange → α → Prop}
    {past : List Exchange} {p : Program α} (obeys : p.Obeys rule goal past) (course : Course)
    (s : World × Nat) :
    (∀ before e after, p.made course s = before ++ e :: after →
      rule (past ++ before.map Event.toExchange) e.call) ∧
    ∀ a, (p.interpret (amid course) s).1 = .ok a →
      goal (past ++ (p.made course s).map Event.toExchange) a := by
  induction p generalizing past s with
  | done a =>
    refine ⟨by simp [made], ?_⟩
    intro b same
    cases same
    rw [made, List.map_nil, List.append_nil]
    exact obeys
  | call c next ih =>
    obtain ⟨a, calls, met, _⟩ | ⟨f, calls, met⟩ := amidCases course c s
    · simp only [interpret, made, met]
      obtain ⟨rules, reached⟩ := ih a (obeys.2 a) ((s.1.perform (course s.2).now c).2, calls)
      refine ⟨?_, by simpa using reached⟩
      intro before e after split
      cases before with
      | nil =>
        obtain ⟨rfl, rfl⟩ := List.cons.inj split
        simpa using obeys.1
      | cons head before =>
        obtain ⟨rfl, later⟩ := List.cons.inj split
        simpa using rules before e after later
    · simp only [interpret, made, met]
      exact ⟨by simp, by simp⟩

end Program

structure Errand where
  op : Operation
  course : Course

namespace Errand

def run (life : Nat) (counted : Bool) (w : World) (v : Errand) :
    Except Failure Reply × World × Nat :=
  (v.op.program life counted).interpret (amid v.course) (w, 0)

def made (life : Nat) (counted : Bool) (w : World) (v : Errand) : List Event :=
  (v.op.program life counted).made v.course (w, 0)

end Errand

def World.attend (life : Nat) (counted : Bool) (w : World) (errands : List Errand) : World :=
  errands.foldl (fun w v => (v.run life counted w).2.1) w

def history (life : Nat) (counted : Bool) (w : World) : List Errand → List Event
  | [] => []
  | v :: rest => v.made life counted w ++ history life counted (v.run life counted w).2.1 rest

def putsOf (events : List Event) : List Put :=
  events.flatMap fun e =>
    match e.call with
    | .holdings c => c.puts e.now
    | .tallies _ => []

section Errands
variable {life : Nat} {counted : Bool} {w : World}

theorem errandWorld (v : Errand) :
    (v.run life counted w).2.1 = w.after (v.made life counted w) :=
  Program.madeWorld v.course _ (w, 0)

theorem attendHistory (errands : List Errand) :
    w.attend life counted errands = w.after (history life counted w errands) := by
  induction errands generalizing w with
  | nil => rfl
  | cons v rest ih =>
    unfold history
    rw [afterAppend]
    change (v.run life counted w).2.1.attend life counted rest = _
    rw [ih, errandWorld]

theorem uponRecalls {log : List Put} {now : Nat} (recalls : w.holdings.Recalls log now)
    (e : Event) : ∃ later, (w.upon e).holdings.Recalls (log ++ putsOf [e]) later := by
  obtain ⟨⟨call, answer⟩, thread, instant⟩ := e
  cases call with
  | tallies c =>
    refine ⟨now, ?_⟩
    simp only [putsOf, List.flatMap_cons, List.flatMap_nil, List.append_nil]
    exact recalls
  | holdings c =>
    refine ⟨max now instant, ?_⟩
    simp only [putsOf, List.flatMap_cons, List.flatMap_nil, List.append_nil]
    exact Holdings.performRecalls (Nat.le_max_right _ _)
      (Holdings.recallsLater (Nat.le_max_left _ _) recalls) c

theorem historyRecalls {log : List Put} (recalls : ∃ now, w.holdings.Recalls log now)
    (events : List Event) :
    ∃ now, (w.after events).holdings.Recalls (log ++ putsOf events) now := by
  induction events generalizing w log with
  | nil => simpa [putsOf, World.after] using recalls
  | cons e rest ih =>
    obtain ⟨now, recalls⟩ := recalls
    have next := ih (uponRecalls recalls e)
    simpa [putsOf, World.after] using next

theorem errandLegal {v : Errand} {before after : List Event} {e : Event}
    (split : v.made life counted w = before ++ e :: after) :
    e.answer = ((w.after before).perform e.now e.call).1 := by
  have legal : Legal w (v.made life counted w) := Program.madeLegal v.course _ (w, 0)
  rw [split] at legal
  exact legalAnswer legal

theorem errandAllowed {v : Errand} {before after : List Event} {e : Event}
    (split : v.made life counted w = before ++ e :: after) :
    v.op.Allows (before.map Event.toExchange) e.call ∧
      v.op.Puts life (before.map Event.toExchange) e.call := by
  have both := Program.obeysAnd (programObeys life counted v.op) (programRenders life counted v.op)
  exact (Program.madeObeys both v.course (w, 0)).1 before e after split

theorem errandRenders {v : Errand} {reply : Reply}
    (told : (v.run life counted w).1 = .ok reply) :
    v.op.Settles ((v.made life counted w).map Event.toExchange) reply ∧
      v.op.Renders life ((v.made life counted w).map Event.toExchange) reply := by
  have both := Program.obeysAnd (programObeys life counted v.op) (programRenders life counted v.op)
  exact (Program.madeObeys both v.course (w, 0)).2 reply told

theorem readPuts {v : Errand} (reads : v.op.reads = true) {before after : List Event}
    (split : v.made life counted w = before ++ after) : putsOf before = [] := by
  refine List.flatMap_eq_nil_iff.mpr fun e inside => ?_
  obtain ⟨first, second, rfl⟩ := List.append_of_mem inside
  have allowed := (errandAllowed (split.trans (List.append_assoc first (e :: second) after))).2
  cases called : e.call with
  | tallies c => rfl
  | holdings c =>
    cases c with
    | put key value limit =>
      obtain ⟨writes, _⟩ := allowed key value limit called
      rw [reads] at writes
      contradiction
    | _ => rfl

end Errands

def Holdings.Lasts (h : Holdings) (key : String) (limit : Nat) : Prop :=
  ∀ now, now < limit → h.current now key ≠ none

section Lasting
variable {key : String} {limit : Nat} {w : World}

theorem evictLasts {h : Holdings} {now : Nat} (lasts : h.Lasts key limit) (early : now < limit)
    (other : String) : (h.evict now other).Lasts key limit := by
  intro later soon
  rw [Holdings.currentEntry, Holdings.evictEntry]
  split
  · rename_i taken
    obtain ⟨rfl, gone⟩ := taken
    exact absurd gone (lasts now early)
  · rw [← Holdings.currentEntry]
    exact lasts later soon

def Event.Timely (e : Event) (limit : Nat) : Prop :=
  e.now < limit ∧ ∀ key value life, e.call = .holdings (.put key value life) →
    ∃ time, life = some time ∧ limit ≤ e.now + time

theorem uponLasts {e : Event} (timely : e.Timely limit) (lasts : w.holdings.Lasts key limit) :
    (w.upon e).holdings.Lasts key limit := by
  obtain ⟨⟨call, answer⟩, thread, now⟩ := e
  obtain ⟨early, standing⟩ := timely
  cases call with
  | tallies c => exact lasts
  | holdings c =>
    simp only [World.upon, World.performHoldings]
    cases c with
    | get other =>
      simp only [Holdings.perform, Holdings.lookExact]
      exact evictLasts lasts early other
    | has other =>
      simp only [Holdings.perform, Holdings.lookExact]
      exact evictLasts lasts early other
    | put other value life =>
      obtain ⟨time, rfl, enough⟩ := standing other value life rfl
      simp only [Holdings.perform]
      cases expires : Holdings.expiry now (some time) with
      | error f => exact lasts
      | ok instant =>
        intro later soon
        rw [Holdings.expiryExact expires, Holdings.putCurrent]
        by_cases own : other = key
        · have live : later < now + time := Nat.lt_of_lt_of_le soon enough
          simp [own, Entry.live, live]
        · simpa [own] using lasts later soon
    | add set member =>
      intro later soon
      simpa [Holdings.perform, Holdings.addCurrent] using lasts later soon
    | remove set member =>
      intro later soon
      simpa [Holdings.perform, Holdings.removeCurrent] using lasts later soon
    | list set => exact lasts

theorem afterLasts {events : List Event} (timely : ∀ e ∈ events, e.Timely limit)
    (lasts : w.holdings.Lasts key limit) : (w.after events).holdings.Lasts key limit := by
  induction events generalizing w with
  | nil => exact lasts
  | cons e rest ih =>
    exact ih (fun later inside => timely later (List.mem_cons_of_mem _ inside))
      (uponLasts (timely e List.mem_cons_self) lasts)

theorem putLasts {e : Event} (timely : e.Timely limit) {value : String} {life : Option Nat}
    (puts : e.call = .holdings (.put key value life))
    (succeeds : ∃ a, (w.perform e.now e.call).1 = .ok a) :
    (w.upon e).holdings.Lasts key limit := by
  obtain ⟨_, standing⟩ := timely
  obtain ⟨time, rfl, enough⟩ := standing key value life puts
  obtain ⟨⟨call, answer⟩, thread, now⟩ := e
  cases puts
  obtain ⟨a, succeeds⟩ := succeeds
  simp only [World.upon, World.performHoldings, Holdings.perform] at succeeds ⊢
  cases expires : Holdings.expiry now (some time) with
  | error f =>
    rw [expires] at succeeds
    contradiction
  | ok instant =>
    intro later soon
    have live : later < now + time := Nat.lt_of_lt_of_le soon enough
    rw [Holdings.expiryExact expires, Holdings.putCurrent]
    simp [Entry.live, live]

end Lasting

structure Standing (c : Category) (key : String) (limit : Nat) (w : World) : Prop where
  lasts : w.holdings.Lasts key limit
  member : key ∈ w.holdings.members c.index

section Standing
variable {life start : Nat} {counted : Bool} {w : World} {v : Errand} {c : Category} {key : String}
variable (within : ∀ n, start ≤ (v.course n).now ∧ (v.course n).now < start + life)
include within

theorem errandTimely {e : Event} (inside : e ∈ v.made life counted w) :
    e.Timely (start + life) := by
  obtain ⟨n, instant⟩ := (Program.madeTimes inside).1
  obtain ⟨before, after, split⟩ := List.append_of_mem inside
  refine ⟨instant ▸ (within n).2, fun key value limit puts => ?_⟩
  obtain ⟨_, rfl⟩ := (errandAllowed split).2 key value limit puts
  exact ⟨life, rfl, Nat.add_le_add_right (instant ▸ (within n).1) life⟩

theorem errandLasts (lasts : w.holdings.Lasts key (start + life)) {before after : List Event}
    (split : v.made life counted w = before ++ after) :
    (w.after before).holdings.Lasts key (start + life) :=
  afterLasts (fun e inside => errandTimely within (by
    rw [split]
    exact List.mem_append_left _ inside)) lasts

theorem errandUnmissed (lasts : w.holdings.Lasts key (start + life)) {before after : List Event}
    (split : v.made life counted w = before ++ after) :
    ¬ Missed (before.map Event.toExchange) key := by
  rintro ⟨x, inside, missed⟩
  obtain ⟨e, member, rfl⟩ := List.mem_map.mp inside
  obtain ⟨first, second, rfl⟩ := List.append_of_mem member
  have whole := split.trans (List.append_assoc first (e :: second) after)
  have early := (errandTimely within (whole ▸ List.mem_append_right first List.mem_cons_self)).1
  exact errandLasts within lasts whole e.now early (missedCurrent (errandLegal whole) missed)

theorem errandStanding (standing : Standing c key (start + life) w) {before after : List Event}
    (split : v.made life counted w = before ++ after) :
    Standing c key (start + life) (w.after before) where
  lasts := errandLasts within standing.lasts split
  member := by
    by_contra missing
    obtain ⟨first, removal, second, rfl, removes, _⟩ :=
      lostBy (fun w => key ∈ w.holdings.members c.index) (uponMembers c.index key)
        standing.member missing
    have whole := split.trans (List.append_assoc first (removal :: second) after)
    obtain ⟨allowed, _⟩ := errandAllowed whole
    rw [removes] at allowed
    obtain ⟨_, earlier, x, ends, missed⟩ := allowed
    refine errandUnmissed within standing.lasts whole ⟨x, ?_, missed⟩
    rw [ends]
    exact List.mem_append_right _ (List.mem_singleton_self x)

omit within in
theorem entersWrites (enters : v.op.enters c = some key) : v.op.reads = false := by
  cases op : v.op <;> rw [op] at enters <;> first | rfl | contradiction

theorem writerLasts (enters : v.op.enters c = some key) {reply : Reply}
    (told : (v.run life counted w).1 = .ok reply) :
    (w.after (v.made life counted w)).holdings.Lasts key (start + life) := by
  have renders := (errandRenders told).2
  have writes := entersWrites enters
  obtain ⟨value, x, inside, puts⟩ : ∃ value, Asked ((v.made life counted w).map Event.toExchange)
      (.holdings (.put key value (some life))) := by
    cases op : v.op <;> rw [op] at enters renders writes <;>
      first | exact renders c key enters | contradiction
  obtain ⟨e, member, rfl⟩ := List.mem_map.mp inside
  obtain ⟨before, after, split⟩ := List.append_of_mem member
  have answered := (Program.madeTimes member).2
  rw [errandLegal split] at answered
  rw [split, afterAppend]
  exact afterLasts (w := World.upon _ e) (fun later inside => errandTimely within (by
      rw [split]
      exact List.mem_append_right before (List.mem_cons_of_mem e inside)))
    (putLasts (errandTimely within member) puts answered)

omit within in
theorem writerMember (enters : v.op.enters c = some key) {reply : Reply}
    (told : (v.run life counted w).1 = .ok reply) :
    key ∈ (w.after (v.made life counted w)).holdings.members c.index := by
  have settled := (errandRenders told).1
  obtain ⟨x, inside, adds⟩ := settledEntered settled c key enters
  obtain ⟨e, member, rfl⟩ := List.mem_map.mp inside
  obtain ⟨before, after, split⟩ := List.append_of_mem member
  have entered : key ∈ ((w.after before).upon e).holdings.members c.index :=
    (uponMembers c.index key _ e).mpr (.inl adds)
  rw [split, afterAppend]
  by_contra missing
  obtain ⟨first, removal, second, rfl, removes, _⟩ :=
    lostBy (fun w => key ∈ w.holdings.members c.index) (uponMembers c.index key) entered missing
  have whole : v.made life counted w = (before ++ e :: first) ++ removal :: second := by
    simp [split]
  have reads := (errandAllowed whole).1
  rw [removes] at reads
  have writes := entersWrites enters
  rw [reads.1] at writes
  contradiction

theorem writerStanding (enters : v.op.enters c = some key) {reply : Reply}
    (told : (v.run life counted w).1 = .ok reply) :
    Standing c key (start + life) (w.after (v.made life counted w)) where
  lasts := writerLasts within enters told
  member := writerMember enters told

theorem standingRendered {l : List (String × String)} (standing : Standing c key (start + life) w)
    (rendered : Rendered c ((v.made life counted w).map Event.toExchange) l) :
    ∃ feature, (key, feature) ∈ l := by
  obtain ⟨_, keys, listed, complete⟩ := rendered
  obtain ⟨e, member, same⟩ := List.mem_map.mp listed
  obtain ⟨before, after, split⟩ := List.append_of_mem member
  have inside : key ∈ keys := by
    have stands := (errandStanding within standing split).member
    have answered := errandLegal split
    obtain ⟨⟨call, answer⟩, thread, now⟩ := e
    cases same
    simp only [World.performHoldings, Holdings.perform] at answered
    rw [Except.ok.inj answered]
    exact Std.ExtTreeSet.mem_toList.mpr stands
  exact (complete key inside).resolve_right
    (errandUnmissed within standing.lasts (List.append_nil _).symm)

end Standing

section Runs
variable {life : Nat} {counted : Bool} {w : World}

theorem attendStanding {start : Nat} {c : Category} {key : String} {errands : List Errand}
    (within : ∀ v ∈ errands, ∀ n, start ≤ (v.course n).now ∧ (v.course n).now < start + life)
    (standing : Standing c key (start + life) w) :
    Standing c key (start + life) (w.attend life counted errands) := by
  induction errands generalizing w with
  | nil => exact standing
  | cons v rest ih =>
    refine ih (fun u inside => within u (List.mem_cons_of_mem v inside)) ?_
    have kept := errandStanding (within v List.mem_cons_self) standing
      (List.append_nil (v.made life counted w)).symm
    rwa [← errandWorld] at kept

theorem gotSound {v : Errand} (reads : v.op.reads = true) {log : List Put}
    (recalls : ∃ now, w.holdings.Recalls log now) {entry : String × String}
    (got : Got ((v.made life counted w).map Event.toExchange) entry) :
    ∃ n p, lastPut log entry.1 = some p ∧ p.live (v.course n).now = true ∧ p.value = entry.2 := by
  obtain ⟨x, inside, gets⟩ := got
  obtain ⟨e, member, rfl⟩ := List.mem_map.mp inside
  obtain ⟨n, instant⟩ := (Program.madeTimes member).1
  obtain ⟨before, after, split⟩ := List.append_of_mem member
  obtain ⟨now, recalls⟩ := historyRecalls recalls before
  rw [readPuts reads split, List.append_nil] at recalls
  have answered := errandLegal split
  obtain ⟨⟨call, answer⟩, thread, time⟩ := e
  cases gets
  simp only [World.performHoldings, Holdings.perform, Holdings.lookExact] at answered
  have found := Holdings.recallsFound recalls (Except.ok.inj answered).symm
  obtain ⟨p, last, live, same⟩ := recalledSome.mp found
  exact ⟨n, p, last, instant ▸ live, same⟩

end Runs

/- What a read that succeeds is to return: values that were put last under their keys and are
current, and every key that a successful writer has entered and that has not expired. -/
structure View (life : Nat) (counted : Bool) (before : List Errand) (v : Errand) (c : Category)
    (l : List (String × String)) : Prop where
  sound : ∀ entry ∈ l, ∃ n p,
    lastPut (putsOf (history life counted .empty before)) entry.1 = some p ∧
      p.live (v.course n).now = true ∧ p.value = entry.2
  complete : ∀ early r later key reply start, before = early ++ r :: later →
    r.op.enters c = some key →
    (r.run life counted (World.empty.attend life counted early)).1 = .ok reply →
    (∀ n, start ≤ (r.course n).now) → (∀ n, (v.course n).now < start + life) →
    ∃ feature, (key, feature) ∈ l

theorem renderedView {life : Nat} {counted : Bool} {before : List Errand} {v : Errand}
    (order : (before ++ [v]).Pairwise fun a b => ∀ n m, (a.course n).now ≤ (b.course m).now)
    (reads : v.op.reads = true) {c : Category} {l : List (String × String)}
    (rendered : Rendered c ((v.made life counted
      (World.empty.attend life counted before)).map Event.toExchange) l) :
    View life counted before v c l where
  sound entry inside := by
    refine gotSound reads ?_ (rendered.1 entry inside)
    rw [attendHistory]
    exact historyRecalls (w := .empty) ⟨0, Holdings.emptyRecalls 0⟩ _
  complete := by
    rintro early r later key reply start rfl enters told begun soon
    obtain ⟨sorted, _, last⟩ := List.pairwise_append.mp order
    obtain ⟨_, following, _⟩ := List.pairwise_append.mp sorted
    have next := (List.pairwise_cons.mp following).1
    -- the time is not up before the read is over, so nothing that is done until then is too late
    have ends : ∀ u ∈ early ++ r :: later, ∀ n, (u.course n).now < start + life := fun u inside n =>
      Nat.lt_of_le_of_lt (last u inside v (List.mem_singleton_self v) n 0) (soon 0)
    have own : ∀ n, start ≤ (r.course n).now ∧ (r.course n).now < start + life :=
      fun n => ⟨begun n, ends r (by simp) n⟩
    have others : ∀ u ∈ later, ∀ n, start ≤ (u.course n).now ∧ (u.course n).now < start + life :=
      fun u inside n => ⟨(begun 0).trans (next u inside 0 n), ends u (by simp [inside]) n⟩
    have within : ∀ n, start ≤ (v.course n).now ∧ (v.course n).now < start + life :=
      fun n => ⟨(begun 0).trans (last r (by simp) v (List.mem_singleton_self v) 0 n), soon n⟩
    have written := writerStanding own enters told
    rw [← errandWorld] at written
    have stands : Standing c key (start + life)
        (World.empty.attend life counted (early ++ r :: later)) := by
      rw [World.attend, List.foldl_append, List.foldl_cons]
      exact attendStanding others written
    exact standingRendered within stands rendered

/-- Whatever fails and whenever, a read that succeeds returns the values that were put last under
their keys, all of them current, and leaves out no key that a writer has entered successfully
and that has not expired. A watched world with such mishaps gives the same reply. -/
theorem viewsSurviveMishaps (life : Nat) (counted : Bool) (errands : List Errand)
    (order : errands.Pairwise fun a b => ∀ n m, (a.course n).now ≤ (b.course m).now)
    {before after : List Errand} {v : Errand} (split : errands = before ++ v :: after)
    {reply : Reply}
    (told : (v.run life counted (World.empty.attend life counted before)).1 = .ok reply) :
    (∀ c, v.op = .list c → ∃ l, reply = .entries l ∧ View life counted before v c l) ∧
    (v.op = .collect → ∃ contacts stations : List (String × String),
      reply = .features (contacts.map Prod.snd ++ stations.map Prod.snd) ∧
        View life counted before v .contacts contacts ∧
        View life counted before v .stations stations) ∧
    ∀ now mishap, (∀ n, mishap n ≠ some .absent) → v.course = .struck now mishap →
      let w := World.empty.attend life counted before
      ∃ log, Watched.run mishap now (v.op.program life counted) ⟨w, []⟩ =
        (.ok reply, ⟨(v.run life counted w).2.1, log⟩) := by
  have sorted : (before ++ [v]).Pairwise fun a b => ∀ n m, (a.course n).now ≤ (b.course m).now := by
    rw [split] at order
    refine order.sublist ?_
    simp
  have renders := (errandRenders told).2
  refine ⟨?_, ?_, ?_⟩
  · intro c lists
    rw [lists] at renders
    obtain ⟨l, same, rendered⟩ := renders
    exact ⟨l, same, renderedView sorted (by simp [lists, reads]) rendered⟩
  · intro collects
    rw [collects] at renders
    obtain ⟨contacts, stations, same, first, second⟩ := renders
    have reads : v.op.reads = true := by simp [collects, reads]
    exact ⟨contacts, stations, same, renderedView sorted reads first,
      renderedView sorted reads second⟩
  · intro now mishap plain struck w
    obtain ⟨log, ran⟩ := watchedRun now plain (v.op.program life counted) ⟨w, []⟩
    rw [Errand.run, struck] at told ⊢
    exact ⟨log, ran.trans (Prod.ext told rfl)⟩

def failingErrands : List Errand :=
  [⟨.record (overHarbour "A00001" 9000) harbour, .steady 0⟩,
    ⟨.record (overHarbour "A00002" 9100) harbour, fun n => ⟨100, n == 2⟩⟩,
    ⟨.list .contacts, fun n => ⟨200, n == 1⟩⟩]

def lateListing : Errand := ⟨.list .contacts, .steady 300⟩

theorem lateListingViewed :
    View 1000 true failingErrands lateListing .contacts
      [("A00001", contactFeature (overHarbour "A00001" 9000))] := by
  have order : (failingErrands ++ [lateListing]).Pairwise
      fun a b => ∀ n m, (a.course n).now ≤ (b.course m).now := by
    simp [failingErrands, lateListing, Course.steady]
  have told : (lateListing.run 1000 true (World.empty.attend 1000 true failingErrands)).1 =
      .ok (.entries [("A00001", contactFeature (overHarbour "A00001" 9000))]) := rfl
  obtain ⟨l, same, viewed⟩ := (viewsSurviveMishaps 1000 true _ order rfl told).1 .contacts rfl
  cases same
  exact viewed

end AirPicture.Cache
