import Mathlib.Data.List.Nodup
import Mathlib.Data.List.Perm.Basic
import AirPicture.Proofs.Cache.Overtaking

/-! Observations among observations. In whatever order their calls fall, the observations of a
station are counted one after another: each is told a number of its own, and the numbers go on
without a gap from where the count stood. Only a reader that drops the station could break this. -/
namespace AirPicture.Cache
open Operation

def Exchange.number (id : String) : Exchange → Option Int
  | ⟨.tallies (.increase tenant key _), .ok n⟩ =>
    if tenant = id ∧ key = "observations" then some n else none
  | _ => none

def Call.Counts : Call → Prop
  | .tallies (.drop _) => False
  | .tallies (.note _ key _) => key ≠ "observations"
  | .tallies (.increase _ key amount) => key = "observations" ∧ amount = 1
  | _ => True

def Call.drops : Call → Bool
  | .tallies (.drop _) => true
  | _ => false

section Histories
variable {w : World} {id : String} {c : Int}

theorem uponCounted {e : Event} (answered : e.answer = (w.perform e.now e.call).1)
    (counts : e.call.Counts) (stands : w.tallies.standing id = .count c) :
    (e.toExchange.number id = none ∧ (w.upon e).tallies.standing id = .count c) ∨
    (e.toExchange.number id = some (c + 1) ∧
      (w.upon e).tallies.standing id = .count (c + 1)) := by
  obtain ⟨⟨call, answer⟩, thread, now⟩ := e
  simp only [World.upon] at answered ⊢
  cases call with
  | holdings h => exact .inl ⟨rfl, stands⟩
  | tallies t =>
    rw [World.performTallies] at answered ⊢
    cases t with
    | register tenant => exact .inl ⟨rfl, (Tallies.registerStanding ..).trans stands⟩
    | drop tenant => exact counts.elim
    | note tenant key text => exact .inl ⟨rfl, (Tallies.noteStanding _ _ _ _ counts).trans stands⟩
    | increase tenant key amount =>
      obtain ⟨rfl, rfl⟩ := counts
      by_cases own : tenant = id
      · subst tenant
        by_cases present : w.tallies.Registered id
        · obtain ⟨told, after⟩ := Tallies.increaseStanding present stands 1
          rw [told] at answered
          subst answer
          exact .inr ⟨by simp [Exchange.number], after⟩
        · have absent : w.tallies.tenants[id]? = none := by
            simpa [Tallies.Registered] using present
          simp only [Tallies.perform, Tallies.increase, absent] at answered ⊢
          subst answer
          exact .inl ⟨rfl, stands⟩
      · refine .inl ⟨?_, (Tallies.increaseElsewhere _ own _ _).trans stands⟩
        cases answer <;> simp [Exchange.number, own]

theorem countedInTurn {events : List Event} (legal : Legal w events)
    (counting : ∀ e ∈ events, e.call.Counts) (stands : w.tallies.standing id = .count c) :
    ∃ n : Nat, (events.filterMap fun e => e.toExchange.number id) =
        (List.range n).map (fun k : Nat => c + 1 + (k : Int)) ∧
      (w.after events).tallies.standing id = .count (c + n) := by
  induction events using List.reverseRecOn with
  | nil => exact ⟨0, rfl, by simpa [World.after] using stands⟩
  | append_singleton events e ih =>
    obtain ⟨before, answered, _⟩ := legalAppend.mp legal
    obtain ⟨n, told, now⟩ := ih before fun e inside => counting e (List.mem_append_left _ inside)
    rw [afterAppend, List.filterMap_append, told]
    obtain ⟨none, still⟩ | ⟨next, grown⟩ := uponCounted answered (counting e (by simp)) now
    · exact ⟨n, by simp [none], still⟩
    · refine ⟨n + 1, ?_, ?_⟩
      · rw [List.range_succ]
        simp [next]
        omega
      · rw [Int.natCast_succ, ← Int.add_assoc]
        exact grown

end Histories

def Uncounted (past : List Exchange) : Prop := ∀ x ∈ past, ∀ id, x.number id = none

theorem uncountedLast {past : List Exchange} (uncounted : Uncounted past) {c : Call}
    (plain : ∀ tenant key amount, c ≠ .tallies (.increase tenant key amount))
    (answer : Except Failure c.Answer) : Uncounted (past ++ [⟨c, answer⟩]) := by
  intro x inside id
  rcases List.mem_append.mp inside with before | last
  · exact uncounted x before id
  · rw [List.mem_singleton.mp last]
    cases c with
    | holdings h => rfl
    | tallies t =>
      cases t with
      | increase tenant key amount => exact absurd rfl (plain tenant key amount)
      | _ => rfl

theorem uncountedNone {past : List Exchange} (uncounted : Uncounted past) (id : String) :
    past.filterMap (Exchange.number id) = [] :=
  List.filterMap_eq_nil_iff.mpr fun x inside => uncounted x inside id

def CountsLast (past : List Exchange) (c : Call) : Prop :=
  Uncounted past ∧ ∀ tenant key amount, c = .tallies (.increase tenant key amount) → amount = 1

def Numbered (id : String) (past : List Exchange) (n : Int) : Prop :=
  ∃ before, past = before ++ [⟨.tallies (.increase id "observations" 1), .ok n⟩] ∧ Uncounted before

section Programs
variable {past : List Exchange}

theorem uncountedObeys {α : Type} {goal : List Exchange → α → Prop} (uncounted : Uncounted past)
    {c : Call} {f : c.Answer → Program α}
    (plain : ∀ tenant key amount, c ≠ .tallies (.increase tenant key amount))
    (next : ∀ a, Uncounted (past ++ [⟨c, .ok a⟩]) →
      (f a).Obeys CountsLast goal (past ++ [⟨c, .ok a⟩])) :
    ((Program.call c .done) >>= f).Obeys CountsLast goal past :=
  Program.obeysCall ⟨uncounted, fun tenant key amount same => absurd same (plain tenant key amount)⟩
    fun a => next a (uncountedLast uncounted plain _)

theorem keepUncounted (life : Nat) (o : Observation) (s : Station) (uncounted : Uncounted past) :
    (keep life o s).Obeys CountsLast (fun later _ => Uncounted later) past := by
  refine uncountedObeys uncounted (by simp) fun _ uncounted => ?_
  refine uncountedObeys uncounted (by simp) fun _ uncounted => ?_
  refine uncountedObeys uncounted (by simp) fun _ uncounted => ?_
  exact uncountedObeys uncounted (by simp) fun _ uncounted => uncounted

theorem countNumbered (s : Station) (uncounted : Uncounted past) :
    (count s).Obeys CountsLast (Numbered s.id) past := by
  have increases {past : List Exchange} (uncounted : Uncounted past) :
      (Program.ofTallies (.increase s.id "observations" 1)).Obeys CountsLast (Numbered s.id) past :=
    ⟨⟨uncounted, by simp⟩, fun n => ⟨past, rfl, uncounted⟩⟩
  refine uncountedObeys uncounted (by simp) fun fresh uncounted => ?_
  cases fresh with
  | false => exact increases uncounted
  | true => exact uncountedObeys uncounted (by simp) fun _ uncounted => increases uncounted

theorem observeNumbered (life : Nat) (counted : Bool) {o : Observation} {s : Station}
    (vetted : vet o = .ok s) : ((observe o).program life counted).Obeys CountsLast
      (fun later reply => ∃ n, reply = .receipt (.ok ⟨true, n⟩) ∧ Numbered s.id later n) [] := by
  have taken : (intake life o s).Obeys CountsLast (Numbered s.id) [] :=
    Program.obeysBind _ (keepUncounted life o s (by simp [Uncounted])) fun _ _ _ uncounted =>
      countNumbered s uncounted
  rw [observeBegun life counted vetted]
  exact Program.obeysBind _ taken fun _ n _ numbered => ⟨n, rfl, numbered⟩

end Programs

theorem tenantVetted {op : Operation} {id : String} (counts : op.tenant = some id) :
    ∃ o s, op = .observe o ∧ vet o = .ok s ∧ s.id = id := by
  cases op with
  | observe o =>
    cases vetted : vet o with
    | error refusal => simp [Operation.tenant, vetted, Except.toOption] at counts
    | ok s =>
      exact ⟨o, s, rfl, vetted, by simpa [Operation.tenant, vetted, Except.toOption] using counts⟩
  | _ => contradiction

def told (thread : Thread Reply) : Option Int :=
  match answer thread with
  | some (.ok receipt) => some receipt.observations
  | _ => none

def toldFor (id : String) (ops : List Operation) (threads : List (Thread Reply)) : List Int :=
  ops.zipIdx.filterMap fun (op, i) =>
    if op.tenant = some id then threads[i]?.bind told else none

theorem onlyThere {β : Type} (l : List β) {i n : Nat} (inside : i < n) :
    ((List.range n).flatMap fun j => if i = j then l else []) = l := by
  obtain ⟨before, after, split⟩ := List.append_of_mem (List.mem_range.mpr inside)
  have once := List.nodup_range (n := n)
  rw [split, List.nodup_middle, List.nodup_cons] at once
  have elsewhere : ∀ rest, rest ⊆ before ++ after →
      (rest.flatMap fun j => if i = j then l else []) = [] := by
    intro rest part
    refine List.flatMap_eq_nil_iff.mpr fun j member => if_neg ?_
    rintro rfl
    exact once.1 (part member)
  rw [split, List.flatMap_append, List.flatMap_cons, elsewhere before (by simp),
    elsewhere after (by simp)]
  simp

theorem pastsWhole {β : Type} (f : Exchange → Option β) {n : Nat} {events : List Event}
    (within : ∀ e ∈ events, e.thread < n) :
    ((List.range n).flatMap fun i => (past i events).filterMap f).Perm
      (events.filterMap fun e => f e.toExchange) := by
  induction events with
  | nil => simp [past]
  | cons e rest ih =>
    have apart : ((List.range n).flatMap fun i => (past i (e :: rest)).filterMap f) =
        (List.range n).flatMap fun i =>
          (if e.thread = i then (f e.toExchange).toList else []) ++ (past i rest).filterMap f := by
      congr 1
      funext i
      by_cases own : e.thread = i
      · rw [pastOwn own, if_pos own, List.filterMap_cons]
        cases f e.toExchange <;> rfl
      · rw [pastOther own, if_neg own, List.nil_append]
    rw [apart]
    refine (List.flatMap_append_perm _ _ _).symm.trans ?_
    rw [onlyThere _ (within e List.mem_cons_self), List.filterMap_cons]
    have later := ih fun e inside => within e (List.mem_cons_of_mem _ inside)
    cases f e.toExchange with
    | none => exact later
    | some b => exact later.cons b

section Crowds
variable {w : World} {life : Nat} {counted : Bool} {ops : List Operation} {turns : List Turn}
variable {i : Nat} {op : Operation} (own : ops[i]? = some op) {id : String}
include own

theorem numberOwn {x : Exchange} (inside : x ∈ past i ((crowd w life counted ops).events turns))
    {n : Int} (numbered : x.number id = some n) : op.tenant = some id := by
  obtain ⟨before, e, after, split, mine, rfl⟩ := pastMember inside
  obtain ⟨other, theirs, allowed⟩ := eventAllowed split
  rw [mine, own] at theirs
  cases Option.some.inj theirs
  obtain ⟨⟨call, answer⟩, thread, now⟩ := e
  unfold Exchange.number at numbered
  split at numbered
  · rename_i same
    cases same
    obtain ⟨⟨rfl, _⟩, _⟩ := Option.ite_none_right_eq_some.mp numbered
    exact allowed.1
  · contradiction

theorem threadNumbers {thread : Thread Reply}
    (ran : ((crowd w life counted ops).run turns).threads[i]? = some thread) :
    (past i ((crowd w life counted ops).events turns)).filterMap (Exchange.number id) =
      (if op.tenant = some id then told thread else none).toList := by
  by_cases counts : op.tenant = some id
  · rw [if_pos counts]
    obtain ⟨o, s, rfl, vetted, rfl⟩ := tenantVetted counts
    obtain ⟨last, ran', follows⟩ := Crowd.runThread (crowdThread own) turns
    cases Option.some.inj (ran.symm.trans ran')
    have obeys := observeNumbered life counted vetted
    generalize past i ((crowd w life counted ops).events turns) = exchanges at follows
    match thread with
    | .ok (.done reply) =>
      obtain ⟨n, rfl, before, rfl, uncounted⟩ := (Program.obeysFollows obeys follows).2 reply rfl
      rw [List.filterMap_append, uncountedNone uncounted]
      simp [Exchange.number, told, answer]
    | .ok (.call c next) =>
      have rest := (Program.obeysRest obeys follows).1
      exact uncountedNone rest.1 s.id
    | .error f =>
      obtain ⟨before, c, rfl⟩ := failureFollows follows
      have rest := (Program.obeysFollows obeys follows).1 before _ [] rfl
      rw [List.filterMap_append, uncountedNone (by simpa using rest.1)]
      simp [Exchange.number, told, answer]
  · rw [if_neg counts]
    refine List.filterMap_eq_nil_iff.mpr fun x inside => ?_
    cases numbered : x.number id with
    | none => rfl
    | some n => exact absurd (numberOwn own inside numbered) counts

omit own in
theorem toldCounted (id : String) :
    (toldFor id ops ((crowd w life counted ops).run turns).threads).Perm
      (((crowd w life counted ops).events turns).filterMap fun e => e.toExchange.number id) := by
  have each : ∀ place ∈ ops.zipIdx, (if place.1.tenant = some id then
      ((crowd w life counted ops).run turns).threads[place.2]?.bind told else none).toList =
        (past place.2 ((crowd w life counted ops).events turns)).filterMap
          (Exchange.number id) := by
    rintro ⟨op, i⟩ inside
    have own := List.mk_mem_zipIdx_iff_getElem?.mp inside
    have begun : (crowd w life counted ops).threads[i]? = some (.ok (op.program life counted)) :=
      crowdThread own
    obtain ⟨thread, ran, _⟩ := Crowd.runThread begun turns
    rw [threadNumbers own ran, ran]
    rfl
  have within : ∀ e ∈ (crowd w life counted ops).events turns, e.thread < ops.length := by
    intro e inside
    simpa [crowd, Crowd.start] using Crowd.eventThread inside
  have same : toldFor id ops ((crowd w life counted ops).run turns).threads =
      (List.range ops.length).flatMap fun i =>
        (past i ((crowd w life counted ops).events turns)).filterMap (Exchange.number id) := by
    rw [toldFor, List.filterMap_eq_flatMap_toList, List.flatMap_congr each,
      List.range_eq_range', ← List.zipIdx_map_snd 0 ops, List.flatMap_map]
  rw [same]
  exact pastsWhole _ within

omit own in
theorem eventCounts
    (kept : ∀ e ∈ (crowd w life counted ops).events turns, e.call.drops = false) :
    ∀ e ∈ (crowd w life counted ops).events turns, e.call.Counts := by
  intro e inside
  obtain ⟨before, after, split⟩ := List.append_of_mem inside
  obtain ⟨op, own, allowed⟩ := eventAllowed split
  obtain ⟨last, _, follows⟩ := Crowd.runThread (crowdThread own) turns
  rw [split, pastAppend, pastOwn rfl] at follows
  obtain ⟨⟨call, answer⟩, thread, now⟩ := e
  cases call with
  | holdings c => trivial
  | tallies c =>
    cases c with
    | register tenant => trivial
    | drop tenant => exact absurd (kept _ inside) (by simp [Call.drops])
    | note tenant key text => exact allowed.2.1
    | increase tenant key amount =>
      obtain ⟨o, s, rfl, vetted, _⟩ := tenantVetted allowed.1
      have rules := (Program.obeysFollows (observeNumbered life counted vetted) follows).1
      exact ⟨allowed.2.1, (rules _ _ _ rfl).2 tenant key amount rfl⟩

theorem acceptedUndropped (numeric : w.tallies.Numeric)
    (faultless : ∀ e ∈ (crowd w life counted ops).events turns, e.toExchange.faulty = false)
    (kept : ∀ e ∈ (crowd w life counted ops).events turns, e.call.drops = false)
    (counts : op.tenant = some id) {thread : Thread Reply}
    (ran : ((crowd w life counted ops).run turns).threads[i]? = some thread)
    (ended : thread.ended = true) : ∃ n, answer thread = some (.ok ⟨true, n⟩) := by
  obtain ⟨o, s, rfl, vetted, rfl⟩ := tenantVetted counts
  match thread with
  | .ok (.done reply) =>
    have settled := replySettled own ran
    simp only [Settles, vetted] at settled
    obtain ⟨⟨n, rfl⟩, _⟩ := settled
    exact ⟨n, rfl⟩
  | .ok (.call c next) => contradiction
  | .error f =>
    obtain ⟨before, need, after, tenant, split, rfl, needs, asked, absent, _, _⟩ :=
      failureNeed numeric faultless own rfl ran
    obtain ⟨_, _, _, drop, _, _, _, whole, _, _, drops, _⟩ := lostOvertaken split needs asked absent
    have undropped := kept drop (by simp [whole])
    simp [drops, Call.drops] at undropped

end Crowds

def observedFor (id : String) (ops : List Operation) : Nat :=
  ops.countP fun op => op.tenant = some id

theorem toldLength {id : String} {ops : List Operation} {threads : List (Thread Reply)}
    (numbered : ∀ (i : Nat) op, ops[i]? = some op → op.tenant = some id →
      ∃ thread n, threads[i]? = some thread ∧ told thread = some n) :
    (toldFor id ops threads).length = observedFor id ops := by
  have each : ∀ place ∈ ops.zipIdx,
      (if place.1.tenant = some id then threads[place.2]?.bind told else none).isSome = true ↔
        decide (place.1.tenant = some id) = true := by
    rintro ⟨op, i⟩ inside
    by_cases counts : op.tenant = some id
    · obtain ⟨thread, n, found, tells⟩ :=
        numbered i op (List.mk_mem_zipIdx_iff_getElem?.mp inside) counts
      simp [counts, found, tells]
    · simp [counts]
  calc (toldFor id ops threads).length
      = ops.zipIdx.countP fun place => decide (place.1.tenant = some id) := by
        rw [toldFor, List.length_filterMap_eq_countP, List.countP_congr each]
    _ = (ops.zipIdx.map Prod.fst).countP fun op => decide (op.tenant = some id) := by
        rw [List.countP_map]
        rfl
    _ = observedFor id ops := by rw [List.zipIdx_map_fst, observedFor]

/-- From whatever the service has come to, observations that share the cache are accepted after at
most seven calls of their own, as long as nothing fails and nobody drops a station. For each
station the numbers told are at every moment those that follow its count, each told once, and
the count ends with the last of them. An observation that is made alone is told what its
reception says. -/
theorem numbersGoOn (life : Nat) (counted : Bool) (earlier : List Operation)
    (before : List Turn) (ops : List Operation) (turns : List Turn)
    (faultless : ∀ e ∈ (crowd ((crowd .empty life counted earlier).run before).world life counted
      ops).events turns, e.toExchange.faulty = false)
    (kept : ∀ e ∈ (crowd ((crowd .empty life counted earlier).run before).world life counted
      ops).events turns, e.call.drops = false) :
    let w := ((crowd .empty life counted earlier).run before).world
    let last := (crowd w life counted ops).run turns
    (∀ (i : Nat) o s, ops[i]? = some (.observe o) → o.station = some s → o.icao ≠ "" → s.id ≠ "" →
      ∃ thread, last.threads[i]? = some thread ∧
        (7 ≤ turns.countP (fun t => t.thread = i) → thread.ended = true) ∧
        (thread.ended = true → ∃ n, answer thread = some (.ok ⟨true, n⟩))) ∧
    (∀ id, ∃ (c : Int) (n : Nat), w.tallies.standing id = .count c ∧
      (¬ w.tallies.Registered id → c = 0) ∧
      (toldFor id ops last.threads).Perm ((List.range n).map fun k : Nat => c + 1 + (k : Int)) ∧
      last.world.tallies.standing id = .count (c + n) ∧
      ((∀ (i : Nat) op thread, ops[i]? = some op → op.tenant = some id →
        last.threads[i]? = some thread → thread.ended = true) → n = observedFor id ops)) ∧
    ∀ now o, let alone := ((observe o).program life counted).run now w
      (answer (alone.1.map .done), alone.2) =
        (some (receive (fun p w => p.run now w) life o w).1,
          (receive (fun p w => p.run now w) life o w).2) := by
  intro w last
  have numeric : w.tallies.Numeric := by
    have whole := (List.append_nil ((crowd .empty life counted earlier).events before)).symm
    rw [show w = _ from Crowd.runWorld _ _]
    exact crowdNumeric Tallies.emptyNumeric whole
  refine ⟨?_, fun id => ?_, fun now o => observeAlone now life counted o w⟩
  · intro i o s own station address named
    have counts : (observe o).tenant = some s.id := by
      simp [Operation.tenant, vetExact.mpr ⟨station, address, named⟩, Except.toOption]
    obtain ⟨thread, ran, _⟩ := Crowd.runThread (crowdThread own) turns
    exact ⟨thread, ran, observeEnds own (vetExact.mpr ⟨station, address, named⟩) ran,
      acceptedUndropped own numeric faultless kept counts ran⟩
  · obtain ⟨c, stands⟩ := Tallies.numericCount numeric id
    obtain ⟨n, numbers, after⟩ := countedInTurn (Crowd.eventsLegal (crowd w life counted ops) turns)
      (eventCounts kept) stands
    have told : (toldFor id ops last.threads).Perm _ := toldCounted id
    rw [numbers] at told
    refine ⟨c, n, stands, ?_, told, ?_, ?_⟩
    · intro absent
      have none : w.tallies.tenants[id]? = none := by simpa [Tallies.Registered] using absent
      simpa [Tallies.standing, none] using stands.symm
    · rw [show last.world = _ from Crowd.runWorld _ _]
      exact after
    · intro ended
      have length := told.length_eq
      rw [List.length_map, List.length_range] at length
      rw [← length]
      refine toldLength fun i op own counts => ?_
      obtain ⟨thread, ran, _⟩ := Crowd.runThread (crowdThread own) turns
      obtain ⟨m, accepted⟩ := acceptedUndropped own numeric faultless kept counts ran
        (ended i op thread own counts ran)
      exact ⟨thread, m, ran, by simp [Cache.told, accepted]⟩

/- Two first observations of a station. The one that registers it is overtaken before it has given
the name, while a third goes on counting for another station. -/
def jetty : Station := ⟨"S2", "jetty", 41, -74⟩

def firstReports : List Operation :=
  [.observe (overHarbour "A00001" 9100),
    .observe { overHarbour "A00002" 9000 with station := some jetty },
    .observe { overHarbour "A00003" 9000 with station := some jetty }]

def firstReportTurns : List Turn :=
  .replicate 5 ⟨1, 10⟩ ++ .replicate 3 ⟨0, 10⟩ ++ .replicate 6 ⟨2, 11⟩ ++ .replicate 3 ⟨0, 11⟩ ++
    .replicate 2 ⟨1, 12⟩

def firstReported : Crowd Reply :=
  (crowd ((crowd .empty 1000 true [.observe (overHarbour "A00001" 9000)]).run
    (.replicate 7 ⟨0, 0⟩)).world 1000 true firstReports).run firstReportTurns

theorem firstReportsNumbered :
    toldFor "S2" firstReports firstReported.threads = [2, 1] ∧
      (toldFor "S2" firstReports firstReported.threads).Perm [1, 2] ∧
      firstReported.world.tallies.standing "S2" = .count 2 ∧
      ∃ thread n, firstReported.threads[1]? = some thread ∧
        answer thread = some (.ok ⟨true, n⟩) := by
  obtain ⟨accepted, numbers, _⟩ := numbersGoOn 1000 true [.observe (overHarbour "A00001" 9000)]
    (.replicate 7 ⟨0, 0⟩) firstReports firstReportTurns (by decide +kernel) (by decide +kernel)
  obtain ⟨c, n, _, fresh, numbered, stands, whole⟩ := numbers "S2"
  have none : c = 0 := fresh (by unfold Tallies.Registered; decide +kernel)
  have finished : ∀ thread ∈ firstReported.threads, thread.ended = true := by decide +kernel
  have two : n = 2 := whole fun i op thread _ _ ran => finished thread (List.mem_of_getElem? ran)
  subst none two
  obtain ⟨thread, ran, ends, succeeds⟩ := accepted 1 _ jetty rfl rfl (by decide) (by decide)
  obtain ⟨m, told⟩ := succeeds (ends (by decide))
  exact ⟨by decide +kernel, numbered, stands, thread, m, ran, told⟩

end AirPicture.Cache
