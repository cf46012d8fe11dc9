import AirPicture.Proofs.Cache.Operation

/-! Observations among reads. An observation registers its station before it counts for it,
and a reader that found the station gone may drop its tallies in between. An observation
that passed the vetting is refused exactly then, and as for an unknown tenant. -/
namespace AirPicture.Cache
open Operation

def Call.Needs (tenant : String) : Call → Prop
  | .tallies (.note t _ _) => t = tenant
  | .tallies (.increase t _ _) => t = tenant
  | _ => False

/- After its registration by a thread, and before the thread needs it, the tenant is dropped
by a reader and registered by nobody. -/
def Overtaken (ops : List Operation) (events : List Event) (i : Nat) (tenant : String) : Prop :=
  ∃ before registration between drop quiet need after,
    events = before ++ registration :: between ++ drop :: quiet ++ need :: after ∧
    registration.thread = i ∧ registration.call = .tallies (.register tenant) ∧
    drop.call = .tallies (.drop tenant) ∧
    (∃ op, ops[drop.thread]? = some op ∧ op.reads = true) ∧
    (∀ e ∈ quiet, e.call ≠ .tallies (.register tenant)) ∧
    need.thread = i ∧ need.call.Needs tenant

def Exchange.faulty : Exchange → Bool
  | ⟨.holdings _, .error _⟩ => true
  | _ => false

section Tenants
variable {w : World} {tenant : String}

theorem uponRegistered (w : World) (e : Event) (tenant : String) :
    (w.upon e).tallies.Registered tenant ↔ e.call = .tallies (.register tenant) ∨
      (e.call ≠ .tallies (.drop tenant) ∧ w.tallies.Registered tenant) := by
  obtain ⟨⟨call, answer⟩, thread, now⟩ := e
  simp only [World.upon]
  cases call with
  | holdings c => simp [World.performHoldings]
  | tallies c =>
    rw [World.performTallies]
    cases c with
    | register other => simp [Tallies.registerRegistered]
    | drop other => simp [Tallies.dropRegistered]
    | note other key text => simp [Tallies.noteRegistered]
    | increase other key amount => simp [Tallies.increaseRegistered]

theorem staysDropped {events : List Event} (absent : ¬ w.tallies.Registered tenant)
    (quiet : ∀ e ∈ events, e.call ≠ .tallies (.register tenant)) :
    ¬ (w.after events).tallies.Registered tenant := by
  intro present
  obtain ⟨e, inside, registers⟩ := gainedBy (fun w => w.tallies.Registered tenant)
    (fun w e absent present => ((uponRegistered w e tenant).mp present).resolve_right
      fun kept => absent kept.2) absent present
  exact quiet e inside registers

theorem afterNumeric {events : List Event} (numeric : w.tallies.Numeric)
    (apart : ∀ e ∈ events, ∀ c, e.call = .tallies c → c.keepsCounts = true) :
    (w.after events).tallies.Numeric := by
  induction events generalizing w with
  | nil => exact numeric
  | cons e rest ih =>
    refine ih ?_ fun later inside => apart later (List.mem_cons_of_mem _ inside)
    have own := apart e List.mem_cons_self
    obtain ⟨⟨call, answer⟩, thread, now⟩ := e
    cases call with
    | holdings c => exact numeric
    | tallies c => exact Tallies.performNumeric numeric (own c rfl)

end Tenants

theorem needAnswer {op : Operation} {past : List Exchange} {c : Call} {tenant : String} {w : World}
    (now : Nat) (numeric : w.tallies.Numeric) (allowed : op.Allows past c) (needs : c.Needs tenant) :
    (w.tallies.Registered tenant ∧ ∃ a, (w.perform now c).1 = .ok a) ∨
      (¬ w.tallies.Registered tenant ∧ (w.perform now c).1 = .error (.unknownTenant tenant)) := by
  cases c with
  | holdings c => exact needs.elim
  | tallies c =>
    cases c with
    | register other => exact needs.elim
    | drop other => exact needs.elim
    | note other key text =>
      cases needs
      obtain ⟨present, answer⟩ | refused := Tallies.noteAnswer w.tallies tenant key text
      · exact Or.inl ⟨present, (), answer⟩
      · exact Or.inr refused
    | increase other key amount =>
      cases needs
      obtain ⟨_, rfl, _⟩ := allowed
      exact Tallies.increaseAnswer numeric tenant amount

theorem allowedCounts {op : Operation} {past : List Exchange} {c : Tallies.Call}
    (allowed : op.Allows past (.tallies c)) : c.keepsCounts = true := by
  cases c with
  | register tenant => rfl
  | drop tenant => rfl
  | note tenant key text => exact decide_eq_true allowed.2.1
  | increase tenant key amount => rfl

theorem failedNeed {op : Operation} (writes : op.reads = false) {past : List Exchange}
    {c : Tallies.Call} (allowed : op.Allows past (.tallies c)) {w : World} {now : Nat} {f : Failure}
    (failed : (w.perform now (.tallies c)).1 = .error f) :
    ∃ tenant, op.tenant = some tenant ∧ Call.Needs tenant (.tallies c) ∧
      Asked past (.tallies (.register tenant)) := by
  cases c with
  | register tenant => simp [World.performTallies, Tallies.perform] at failed
  | drop tenant =>
    rw [show op.reads = true from allowed] at writes
    contradiction
  | note tenant key text => exact ⟨tenant, allowed.1, rfl, allowed.2.2⟩
  | increase tenant key amount => exact ⟨tenant, allowed.1, rfl, allowed.2.2⟩

section Crowds
variable {w : World} {life : Nat} {counted : Bool} {ops : List Operation} {turns : List Turn}

theorem crowdNumeric (numeric : w.tallies.Numeric) {before after : List Event}
    (split : (crowd w life counted ops).events turns = before ++ after) :
    (w.after before).tallies.Numeric := by
  refine afterNumeric numeric fun e inside c same => ?_
  obtain ⟨first, second, rfl⟩ := List.append_of_mem inside
  obtain ⟨op, _, allowed⟩ := eventAllowed (split.trans (List.append_assoc first (e :: second) after))
  rw [same] at allowed
  exact allowedCounts allowed

theorem overtakenFails (numeric : w.tallies.Numeric) {i : Nat} {op : Operation}
    (own : ops[i]? = some op) {tenant : String}
    (overtaken : Overtaken ops ((crowd w life counted ops).events turns) i tenant) :
    ((crowd w life counted ops).run turns).threads[i]? = some (.error (.unknownTenant tenant)) := by
  obtain ⟨before, registration, between, drop, quiet, need, after, split, _, _, drops, _, silent,
    mine, needs⟩ := overtaken
  have absent : ¬ (w.after (before ++ registration :: between ++ drop :: quiet)).tallies.Registered
      tenant := by
    rw [afterAppend]
    refine staysDropped (w := World.upon _ drop) ?_ silent
    rw [uponRegistered, drops]
    simp
  obtain ⟨_, _, allowed⟩ := eventAllowed split
  obtain ⟨present, _⟩ | ⟨_, refused⟩ := needAnswer need.now (crowdNumeric numeric split) allowed needs
  · exact False.elim (absent present)
  · rw [← mine] at own ⊢
    exact eventFailed split own ((eventAnswer split).trans refused)

theorem failureNeed (numeric : w.tallies.Numeric)
    (faultless : ∀ e ∈ (crowd w life counted ops).events turns, e.toExchange.faulty = false)
    {i : Nat} {op : Operation} (own : ops[i]? = some op) (writes : op.reads = false) {f : Failure}
    (ran : ((crowd w life counted ops).run turns).threads[i]? = some (.error f)) :
    ∃ before need after tenant,
      (crowd w life counted ops).events turns = before ++ need :: after ∧ need.thread = i ∧
      need.call.Needs tenant ∧ Asked (past i before) (.tallies (.register tenant)) ∧
      ¬ (w.after before).tallies.Registered tenant ∧
      op.tenant = some tenant ∧ f = .unknownTenant tenant := by
  obtain ⟨last, ran', follows⟩ := Crowd.runThread (crowdThread own) turns
  cases Option.some.inj (ran.symm.trans ran')
  obtain ⟨earlier, call, ends⟩ := failureFollows follows
  obtain ⟨before, need, after, split, mine, same, _⟩ := pastLast ends
  obtain ⟨other, own', allowed⟩ := eventAllowed split
  rw [mine] at own' allowed
  cases Option.some.inj (own.symm.trans own')
  have sound := faultless need (by rw [split]; simp)
  have answered := eventAnswer split
  obtain ⟨⟨call, answer⟩, thread, now⟩ := need
  cases same
  cases call with
  | holdings c => simp [Exchange.faulty] at sound
  | tallies c =>
    obtain ⟨tenant, counts, needs, asked⟩ := failedNeed writes allowed answered.symm
    obtain ⟨_, a, accepted⟩ | ⟨absent, refused⟩ :=
      needAnswer now (crowdNumeric numeric split) allowed needs
    · cases answered.trans accepted
    · cases answered.trans refused
      exact ⟨before, _, after, tenant, split, mine, needs, asked, absent, counts, rfl⟩

theorem lostOvertaken {before after : List Event} {need : Event}
    (split : (crowd w life counted ops).events turns = before ++ need :: after) {tenant : String}
    (needs : need.call.Needs tenant)
    (asked : Asked (past need.thread before) (.tallies (.register tenant)))
    (absent : ¬ (w.after before).tallies.Registered tenant) :
    Overtaken ops ((crowd w life counted ops).events turns) need.thread tenant := by
  obtain ⟨x, inside, registers⟩ := asked
  obtain ⟨first, registration, rest, rfl, own, rfl⟩ := pastMember inside
  have present : ((w.after first).upon registration).tallies.Registered tenant :=
    (uponRegistered _ _ _).mpr (Or.inl registers)
  rw [afterAppend] at absent
  obtain ⟨between, drop, quiet, rfl, drops, silent⟩ :=
    lostBy (fun w => w.tallies.Registered tenant) (fun w e => uponRegistered w e tenant) present absent
  have whole : (crowd w life counted ops).events turns =
      first ++ registration :: between ++ drop :: quiet ++ need :: after := by simp [split]
  obtain ⟨reader, theirs, reads⟩ := eventAllowed (whole.trans (List.append_assoc _ _ _))
  rw [drops] at reads
  exact ⟨first, registration, between, drop, quiet, need, after, whole, own, registers, drops,
    ⟨reader, theirs, reads⟩, silent, rfl, needs⟩

end Crowds

/-- An observation that passes the vetting is over after at most seven calls of its own, and
it is accepted unless a reader dropped its station between its registration and its count. -/
theorem refusedWhenOvertaken (life : Nat) (counted : Bool) (ops : List Operation)
    (turns : List Turn)
    (faultless : ∀ e ∈ (crowd .empty life counted ops).events turns, e.toExchange.faulty = false)
    {i : Nat} {o : Observation} {s : Station} (own : ops[i]? = some (.observe o))
    (station : o.station = some s) (address : o.icao ≠ "") (id : s.id ≠ "") :
    ∃ thread, ((crowd .empty life counted ops).run turns).threads[i]? = some thread ∧
      (7 ≤ turns.countP (fun t => t.thread = i) → thread.ended = true) ∧
      (thread.ended = true →
        ((∃ n, answer thread = some (.ok ⟨true, n⟩)) ∧
          ¬ Overtaken ops ((crowd .empty life counted ops).events turns) i s.id) ∨
        (answer thread = some (.error (.failed (.unknownTenant s.id))) ∧
          Overtaken ops ((crowd .empty life counted ops).events turns) i s.id)) := by
  have vetted : vet o = .ok s := vetExact.mpr ⟨station, address, id⟩
  have begun : (crowd .empty life counted ops).threads[i]? =
      some (.ok ((observe o).program life counted)) := crowdThread own
  obtain ⟨thread, ran, _⟩ := Crowd.runThread begun turns
  refine ⟨thread, ran, observeEnds own vetted ran, fun finished => ?_⟩
  match thread with
  | .ok (.done reply) =>
    have settled := replySettled own ran
    simp only [Settles, vetted] at settled
    obtain ⟨⟨n, rfl⟩, _⟩ := settled
    refine Or.inl ⟨⟨n, rfl⟩, fun overtaken => ?_⟩
    cases ran.symm.trans (overtakenFails Tallies.emptyNumeric own overtaken)
  | .ok (.call c next) => contradiction
  | .error f =>
    obtain ⟨before, need, after, tenant, split, rfl, needs, asked, absent, counts, rfl⟩ :=
      failureNeed Tallies.emptyNumeric faultless own rfl ran
    simp only [Operation.tenant, vetted, Except.toOption, Option.map_some,
      Option.some.injEq] at counts
    subst tenant
    exact Or.inr ⟨rfl, lostOvertaken split needs asked absent⟩

/- A station expires. One reader finds it so and comes to rest; another one takes it out. When
the station is back and registered anew, the first reader drops it before it is counted for. -/
def rivals : List Operation :=
  [.observe (overHarbour "A00001" 9000), .list .stations, .list .stations,
    .observe (overHarbour "A00001" 9100)]

def rivalTurns : List Turn :=
  .replicate 7 ⟨0, 0⟩ ++ .replicate 2 ⟨1, 1000⟩ ++ .replicate 4 ⟨2, 1000⟩ ++
    .replicate 5 ⟨3, 1000⟩ ++ .replicate 2 ⟨1, 1000⟩ ++ .replicate 2 ⟨3, 1000⟩

theorem readerRefuses :
    rivalTurns.Pairwise (fun a b => a.now ≤ b.now) ∧
    (∀ e ∈ (crowd .empty 1000 true rivals).events rivalTurns, e.toExchange.faulty = false) ∧
    rivals[3]? = some (.observe (overHarbour "A00001" 9100)) ∧
    vet (overHarbour "A00001" 9100) = .ok harbour ∧
    (((crowd .empty 1000 true rivals).run rivalTurns).threads[3]?).bind answer =
      some (.error (.failed (.unknownTenant "S1"))) :=
  ⟨by decide, by decide +kernel, rfl, rfl, rfl⟩

theorem rivalOvertaken :
    Overtaken rivals ((crowd .empty 1000 true rivals).events rivalTurns) 3 "S1" := by
  obtain ⟨thread, ran, finished, outcome⟩ := refusedWhenOvertaken 1000 true rivals rivalTurns
    (by decide +kernel) (i := 3) rfl (s := harbour) rfl (by decide) (by decide)
  obtain ⟨⟨n, accepted⟩, _⟩ | ⟨_, overtaken⟩ := outcome (finished (by decide))
  · have refused : (((crowd .empty 1000 true rivals).run rivalTurns).threads[3]?).bind answer =
        some (.error (.failed (.unknownTenant "S1"))) := rfl
    rw [ran] at refused
    cases accepted.symm.trans refused
  · exact overtaken

end AirPicture.Cache
