import AirPicture.Proofs.Cache.ProgramRules
import AirPicture.Proofs.Cache.Intake
import AirPicture.Cache.Listing

/-! The operations that share a cache, as programs of one crowd: features kept, observations
received, and the three reads. For each it is said which calls it makes after which
exchanges, and what its reply rests on. -/
namespace AirPicture.Cache

inductive Operation where
  | record (o : Observation) (s : Station)
  | observe (o : Observation)
  | list (c : Category)
  | collect

inductive Reply where
  | recorded
  | receipt (r : Except Refusal Receipt)
  | entries (l : List (String × String))
  | features (l : List String)

def Exchange.Misses (x : Exchange) (key : String) : Prop :=
  x = ⟨.holdings (.has key), .ok false⟩ ∨ x = ⟨.holdings (.get key), .ok none⟩

def Exchange.Gets (x : Exchange) (key feature : String) : Prop :=
  x = ⟨.holdings (.get key), .ok (some feature)⟩

def Asked (past : List Exchange) (c : Call) : Prop := ∃ x ∈ past, x.call = c

def Got (past : List Exchange) (entry : String × String) : Prop := ∃ x ∈ past, x.Gets entry.1 entry.2

theorem askedLater {past later : List Exchange} {c : Call} (grown : past <+: later)
    (asked : Asked past c) : Asked later c := by
  obtain ⟨x, inside, same⟩ := asked
  exact ⟨x, grown.subset inside, same⟩

theorem gotLater {past later : List Exchange} {entry : String × String} (grown : past <+: later)
    (got : Got past entry) : Got later entry := by
  obtain ⟨x, inside, same⟩ := got
  exact ⟨x, grown.subset inside, same⟩

theorem askedLast (past : List Exchange) (c : Call) (answer : Except Failure c.Answer) :
    Asked (past ++ [⟨c, answer⟩]) c := ⟨_, List.mem_append_right _ (List.mem_singleton_self _), rfl⟩

namespace Operation

def program (life : Nat) (counted : Bool) : Operation → Program Reply
  | .record o s => do
    keep life o s
    pure .recorded
  | .observe o =>
    match vet o with
    | .error refusal => pure (.receipt (.error refusal))
    | .ok station => do
      let n ← intake life o station
      pure (.receipt (.ok ⟨true, n⟩))
  | .list c => do
    let entries ← listing counted c
    pure (.entries entries)
  | .collect => do
    let features ← collection counted
    pure (.features features)

def reads : Operation → Bool
  | .list _ | .collect => true
  | .record _ _ | .observe _ => false

def tenant : Operation → Option String
  | .observe o => (vet o).toOption.map (·.id)
  | _ => none

def enters (c : Category) : Operation → Option String
  | .record o s => some (match c with | .contacts => o.icao | .stations => s.id)
  | .observe o => (vet o).toOption.map fun s =>
    match c with | .contacts => o.icao | .stations => s.id
  | _ => none

/- Only reads take anything away, a key right after they missed it. A tenant is registered
before anything is kept for it. -/
def Allows (op : Operation) (past : List Exchange) : Call → Prop
  | .holdings (.remove _ key) =>
    op.reads = true ∧ ∃ before x, past = before ++ [x] ∧ x.Misses key
  | .tallies (.drop _) => op.reads = true
  | .tallies (.register tenant) => op.tenant = some tenant
  | .tallies (.note tenant key _) =>
    op.tenant = some tenant ∧ key ≠ "observations" ∧ Asked past (.tallies (.register tenant))
  | .tallies (.increase tenant key _) =>
    op.tenant = some tenant ∧ key = "observations" ∧ Asked past (.tallies (.register tenant))
  | _ => True

def Entered (op : Operation) (past : List Exchange) : Prop :=
  ∀ c key, op.enters c = some key → Asked past (.holdings (.add c.index key))

def Settles (op : Operation) (past : List Exchange) (reply : Reply) : Prop :=
  match op with
  | .record _ _ => reply = .recorded ∧ op.Entered past
  | .observe o =>
    match vet o with
    | .error refusal => reply = .receipt (.error refusal)
    | .ok _ => (∃ n, reply = .receipt (.ok ⟨true, n⟩)) ∧ op.Entered past
  | .list _ => ∃ l, reply = .entries l ∧ ∀ entry ∈ l, Got past entry
  | .collect => ∃ l : List (String × String),
    reply = .features (l.map Prod.snd) ∧ ∀ entry ∈ l, Got past entry

section Reading
variable {op : Operation} (reads : op.reads = true) (counted : Bool) (c : Category)
include reads

theorem pruneObeys {key : String} {past : List Exchange} {x : Exchange} (missed : x.Misses key) :
    (prune counted c key).Obeys op.Allows (fun _ _ => True) (past ++ [x]) := by
  refine Program.obeysCall ⟨reads, past, x, rfl, missed⟩ fun _ => ?_
  split
  · exact Program.obeysCall reads fun _ => trivial
  · exact trivial

theorem liveKeysObeys (keys : List String) (past : List Exchange) :
    (liveKeys counted c keys).Obeys op.Allows (fun _ _ => True) past := by
  induction keys generalizing past with
  | nil => exact trivial
  | cons key rest ih =>
    refine Program.obeysCall trivial fun live => ?_
    cases live with
    | false =>
      exact Program.obeysBind _ (pruneObeys reads counted c (Or.inl rfl))
        fun later _ _ _ => ih later
    | true => exact Program.obeysBind _ (ih _) fun _ _ _ _ => trivial

theorem featuresObeys (keys : List String) (past : List Exchange) :
    (features counted c keys).Obeys op.Allows (fun later l => ∀ entry ∈ l, Got later entry)
      past := by
  induction keys generalizing past with
  | nil => exact fun entry inside => by simp at inside
  | cons key rest ih =>
    refine Program.obeysCall trivial fun found => ?_
    cases found with
    | none =>
      exact Program.obeysBind _ (pruneObeys reads counted c (Or.inr rfl))
        fun later _ _ _ => ih later
    | some feature =>
      refine Program.obeysBind _ (ih _) fun later l grown held => ?_
      intro entry inside
      rcases List.mem_cons.mp inside with rfl | inside
      · exact gotLater grown ⟨_, List.mem_append_right _ (List.mem_singleton_self _), rfl⟩
      · exact held entry inside

theorem listingObeys (past : List Exchange) :
    (listing counted c).Obeys op.Allows (fun later l => ∀ entry ∈ l, Got later entry) past :=
  Program.obeysCall trivial fun keys =>
    Program.obeysBind _ (liveKeysObeys reads counted c keys _)
      fun later live _ _ => featuresObeys reads counted c live later

theorem collectionObeys (past : List Exchange) :
    (collection counted).Obeys op.Allows (fun later l => ∃ entries : List (String × String),
      l = entries.map Prod.snd ∧ ∀ entry ∈ entries, Got later entry) past := by
  refine Program.obeysBind _ (listingObeys reads counted .contacts past) fun middle contacts _ first => ?_
  refine Program.obeysBind _ (listingObeys reads counted .stations middle)
    fun later stations grown second => ?_
  refine ⟨contacts ++ stations, by simp, ?_⟩
  intro entry inside
  rcases List.mem_append.mp inside with contact | station
  · exact gotLater grown (first entry contact)
  · exact second entry station

end Reading

theorem keepObeys (op : Operation) (life : Nat) (o : Observation) (s : Station)
    (past : List Exchange) :
    (keep life o s).Obeys op.Allows (fun later _ =>
      Asked later (.holdings (.add Category.contacts.index o.icao)) ∧
      Asked later (.holdings (.add Category.stations.index s.id))) past := by
  refine Program.obeysCall trivial fun _ => Program.obeysCall trivial fun _ => ?_
  refine Program.obeysCall trivial fun _ => Program.obeysCall trivial fun _ => ?_
  exact ⟨askedLater (List.prefix_append _ _) (askedLast _ _ _), askedLast _ _ _⟩

theorem countObeys {op : Operation} {s : Station} (counts : op.tenant = some s.id)
    (past : List Exchange) : (count s).Obeys op.Allows (fun _ _ => True) past := by
  refine Program.obeysCall counts fun fresh => ?_
  have asked := askedLast past (.tallies (.register s.id)) (.ok fresh)
  cases fresh with
  | false => exact ⟨⟨counts, rfl, asked⟩, fun _ => trivial⟩
  | true =>
    refine Program.obeysCall ⟨counts, by decide, asked⟩ fun _ => ?_
    exact ⟨⟨counts, rfl, askedLater (List.prefix_append _ _) asked⟩, fun _ => trivial⟩

theorem observeBegun {o : Observation} {s : Station} (life : Nat) (counted : Bool)
    (vetted : vet o = .ok s) : (observe o).program life counted =
      (intake life o s >>= fun n => pure (.receipt (.ok ⟨true, n⟩))) := by
  simp only [program, vetted]

/-- Every operation makes no call but those that it allows, and its reply rests on them. -/
theorem programObeys (life : Nat) (counted : Bool) (op : Operation) :
    (op.program life counted).Obeys op.Allows op.Settles [] := by
  cases op with
  | record o s =>
    refine Program.obeysBind _ (keepObeys (.record o s) life o s []) fun later _ _ added => ?_
    refine ⟨rfl, fun c key entered => ?_⟩
    cases c with
    | contacts => cases entered; exact added.1
    | stations => cases entered; exact added.2
  | observe o =>
    cases vetted : vet o with
    | error refusal =>
      have refused : (observe o).program life counted = pure (.receipt (.error refusal)) := by
        simp only [program, vetted]
      rw [refused]
      change (observe o).Settles [] _
      simp only [Settles, vetted]
    | ok s =>
      have counts : (observe o).tenant = some s.id := by simp [tenant, vetted, Except.toOption]
      have taken : (intake life o s).Obeys (observe o).Allows (fun later _ =>
          Asked later (.holdings (.add Category.contacts.index o.icao)) ∧
          Asked later (.holdings (.add Category.stations.index s.id))) [] :=
        Program.obeysBind _ (keepObeys (.observe o) life o s []) fun later _ _ added =>
          Program.obeysMono (fun last _ both => ⟨askedLater both.1 added.1, askedLater both.1 added.2⟩)
            (Program.obeysExtends (countObeys counts later))
      rw [observeBegun life counted vetted]
      refine Program.obeysBind _ taken fun later n _ added => ?_
      change (observe o).Settles later _
      simp only [Settles, vetted]
      refine ⟨⟨n, rfl⟩, fun c key entered => ?_⟩
      simp only [enters, vetted, Except.toOption, Option.map_some, Option.some.injEq] at entered
      cases c with
      | contacts => cases entered; exact added.1
      | stations => cases entered; exact added.2
  | list c =>
    exact Program.obeysBind _ (listingObeys rfl counted c []) fun _ l _ held => ⟨l, rfl, held⟩
  | collect =>
    refine Program.obeysBind _ (collectionObeys rfl counted []) fun _ features _ held => ?_
    obtain ⟨l, rfl, got⟩ := held
    exact ⟨l, rfl, got⟩

theorem settledEntered {op : Operation} {past : List Exchange} {reply : Reply}
    (settled : op.Settles past reply) : op.Entered past := by
  cases op with
  | record o s => exact settled.2
  | observe o =>
    simp only [Settles] at settled
    cases vetted : vet o with
    | error refusal => simp [Entered, enters, vetted, Except.toOption]
    | ok s =>
      rw [vetted] at settled
      exact settled.2
  | list c => simp [Entered, enters]
  | collect => simp [Entered, enters]

theorem intakeWithin (life : Nat) (o : Observation) (s : Station) : (intake life o s).Within 7 := by
  refine Program.withinBind (n := 4) (m := 3) (fun _ _ _ _ => trivial) fun _ => ?_
  intro fresh
  cases fresh with
  | false => exact fun _ => trivial
  | true => exact fun _ _ => trivial

def answer : Thread Reply → Option (Except Refusal Receipt)
  | .ok (.done (.receipt r)) => some r
  | .ok _ => none
  | .error f => some (.error (.failed f))

theorem observeAlone (now life : Nat) (counted : Bool) (o : Observation) (w : World) :
    let alone := ((observe o).program life counted).run now w
    (answer (alone.1.map .done), alone.2) =
      (some (receive (fun p w => p.run now w) life o w).1,
        (receive (fun p w => p.run now w) life o w).2) := by
  intro alone
  unfold receive
  cases vetted : vet o with
  | error refusal => simp [alone, program, vetted, Program.runDone, answer, Except.map]
  | ok s =>
    cases taken : (intake life o s).run now w with
    | mk counted after =>
      cases counted with
      | error f =>
        simp [alone, observeBegun, vetted, Program.runFailed taken, answer, Except.map, taken]
      | ok n =>
        simp [alone, observeBegun, vetted, Program.runAfter taken, Program.runDone, answer,
          Except.map, taken]

def crowd (w : World) (life : Nat) (counted : Bool) (ops : List Operation) : Crowd Reply :=
  .start w (ops.map (program life counted))

section Crowds
variable {w : World} {life : Nat} {counted : Bool} {ops : List Operation} {turns : List Turn}

theorem crowdThread {i : Nat} {op : Operation} (own : ops[i]? = some op) :
    (crowd w life counted ops).threads[i]? = some (.ok (op.program life counted)) := by
  simp [crowd, Crowd.start, own]

theorem eventAllowed {before after : List Event} {e : Event}
    (split : (crowd w life counted ops).events turns = before ++ e :: after) :
    ∃ op, ops[e.thread]? = some op ∧ op.Allows (past e.thread before) e.call := by
  have inside : e ∈ (crowd w life counted ops).events turns := by simp [split]
  have place : e.thread < ops.length := by simpa [crowd, Crowd.start] using Crowd.eventThread inside
  have own : ops[e.thread]? = some ops[e.thread] := List.getElem?_eq_getElem place
  obtain ⟨last, _, follows⟩ := Crowd.runThread (crowdThread own) turns
  obtain ⟨rules, _⟩ := Program.obeysFollows (programObeys life counted ops[e.thread]) follows
  refine ⟨_, own, rules (past e.thread before) e.toExchange (past e.thread after) ?_⟩
  rw [split, pastAppend, pastOwn rfl]

theorem eventAnswer {before after : List Event} {e : Event}
    (split : (crowd w life counted ops).events turns = before ++ e :: after) :
    e.answer = ((w.after before).perform e.now e.call).1 := by
  have legal := Crowd.eventsLegal (crowd w life counted ops) turns
  rw [split] at legal
  exact legalAnswer legal

theorem eventFailed {before after : List Event} {e : Event}
    (split : (crowd w life counted ops).events turns = before ++ e :: after) {op : Operation}
    (own : ops[e.thread]? = some op) {f : Failure} (failed : e.answer = .error f) :
    ((crowd w life counted ops).run turns).threads[e.thread]? = some (.error f) := by
  obtain ⟨last, ran, follows⟩ := Crowd.runThread (crowdThread own) turns
  rw [ran]
  rw [split, pastAppend, pastOwn rfl] at follows
  obtain ⟨⟨call, answer⟩, thread, now⟩ := e
  change answer = .error f at failed
  rw [failed] at follows
  exact congrArg some (failedFollows follows rfl)

theorem replySettled {i : Nat} {op : Operation} (own : ops[i]? = some op) {reply : Reply}
    (ran : ((crowd w life counted ops).run turns).threads[i]? = some (.ok (.done reply))) :
    op.Settles (past i ((crowd w life counted ops).events turns)) reply := by
  obtain ⟨last, ran', follows⟩ := Crowd.runThread (crowdThread own) turns
  cases Option.some.inj (ran.symm.trans ran')
  exact (Program.obeysFollows (programObeys life counted op) follows).2 reply rfl

theorem observeEnds {i : Nat} {o : Observation} {s : Station} (own : ops[i]? = some (.observe o))
    (vetted : vet o = .ok s) {thread : Thread Reply}
    (ran : ((crowd w life counted ops).run turns).threads[i]? = some thread)
    (enough : 7 ≤ turns.countP (fun t => t.thread = i)) : thread.ended = true := by
  have begun : (crowd w life counted ops).threads[i]? =
      some (.ok ((observe o).program life counted)) := crowdThread own
  obtain ⟨last, ran', follows⟩ := Crowd.runThread begun turns
  cases Option.some.inj (ran.symm.trans ran')
  cases finished : thread.ended with
  | true => rfl
  | false =>
    rw [← Crowd.turnsSpent begun ran finished] at enough
    rw [observeBegun life counted vetted] at follows
    have within := Program.withinBind (m := 0) (intakeWithin life o s)
      (f := fun n => pure (Reply.receipt (.ok ⟨true, n⟩))) fun _ => trivial
    rw [← finished]
    exact Program.withinFollows within follows enough

end Crowds

end Operation

end AirPicture.Cache
