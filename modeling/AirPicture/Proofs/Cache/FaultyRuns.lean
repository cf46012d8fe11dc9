import AirPicture.Proofs.Cache.Session

/-! Operations one at a time in rough weather: between the calls of a program the clock goes on,
and any call on the holdings may fail without effect. A contract says what such a run leaves
behind, whether it succeeds or stops at a failure. -/
namespace AirPicture.Cache

structure Circumstance where
  now : Nat
  fails : Bool

abbrev Course := Nat → Circumstance

def Course.steady (now : Nat) : Course := fun _ => ⟨now, false⟩

/- The tallies always do as they are asked, and only calls on the holdings are numbered. -/
def amid (course : Course) : Program.Handler (World × Nat)
  | .tallies c, (w, calls) =>
    let (answer, w) := w.perform (course calls).now (.tallies c)
    (answer, (w, calls))
  | .holdings c, (w, calls) =>
    if (course calls).fails then (.error .unavailable, (w, calls + 1))
    else
      let (answer, w) := w.perform (course calls).now (.holdings c)
      (answer, (w, calls + 1))

structure Attempt where
  action : Action
  course : Course

def World.undergo (life : Nat) (counted : Bool) (w : World) (a : Attempt) : World :=
  match a.action with
  | .observe o => (receive (Program.interpret (amid a.course)) life o (w, 0)).2.1
  | .wait _ => w
  | .list c => ((listing counted c).interpret (amid a.course) (w, 0)).2.1
  | .collect => ((collection counted).interpret (amid a.course) (w, 0)).2.1

def World.undergoAll (life : Nat) (counted : Bool) (w : World) (attempts : List Attempt) : World :=
  attempts.foldl (World.undergo life counted) w

theorem steadyRun {α : Type} (now : Nat) (p : Program α) (w : World) (calls : Nat) :
    ∃ last, p.interpret (amid (.steady now)) (w, calls) =
      ((p.run now w).1, ((p.run now w).2, last)) := by
  induction p generalizing w calls with
  | done a => exact ⟨calls, rfl⟩
  | call c next ih =>
    obtain ⟨more, met⟩ : ∃ more, amid (.steady now) c (w, calls) =
        ((w.perform now c).1, ((w.perform now c).2, more)) := by
      cases c <;> exact ⟨_, rfl⟩
    unfold Program.run at ih ⊢
    rw [Program.interpret, met, Program.interpret]
    rcases w.perform now c with ⟨_ | answer, after⟩
    · exact ⟨more, rfl⟩
    · exact ih answer after more

def Course.struck (now : Nat) (mishap : Nat → Option Mishap) : Course :=
  fun n => ⟨now, mishap (n + 1) == some .unavailable⟩

theorem watchedRun {α : Type} {mishap : Nat → Option Mishap} (now : Nat)
    (plain : ∀ n, mishap n ≠ some .absent) (p : Program α) (w : Watched) :
    ∃ log, w.run mishap now p =
      let ran := p.interpret (amid (.struck now mishap)) (w.world, w.log.length)
      (ran.1, ⟨ran.2.1, log⟩) := by
  unfold Watched.run
  induction p generalizing w with
  | done a => exact ⟨w.log, rfl⟩
  | call c next ih =>
    cases c with
    | tallies c =>
      simp only [Program.interpret, Watched.answer, Watched.reach, amid, World.performTallies]
      rcases w.world.tallies.perform c with ⟨e | answer, t⟩
      · exact ⟨w.log, rfl⟩
      · exact ih answer ⟨⟨w.world.holdings, t⟩, w.log⟩
    | holdings c =>
      have counted : (w.log ++ [c]).length = w.log.length + 1 := by simp
      have fails : (Course.struck now mishap w.log.length).fails =
          (mishap (w.log.length + 1) == some .unavailable) := rfl
      have instant : (Course.struck now mishap w.log.length).now = now := rfl
      simp only [Program.interpret, Watched.answer, Watched.reach, amid, counted, fails, instant]
      cases met : mishap (w.log.length + 1) with
      | none =>
        have later := fun answer h => ih answer ⟨⟨h, w.world.tallies⟩, w.log ++ [c]⟩
        simp only [counted] at later
        simp only [beq_iff_eq, reduceCtorEq, ↓reduceIte, World.performHoldings]
        rcases w.world.holdings.perform now c with ⟨e | answer, h⟩
        · exact ⟨w.log ++ [c], rfl⟩
        · exact later answer h
      | some m =>
        cases m with
        | absent => exact absurd met (plain _)
        | unavailable => exact ⟨w.log ++ [c], by simp⟩

/- What holds after a program that was started where `before` holds: `good` if it succeeds and
`bad` if it stops at a failure, whatever it meets of what is `allowed`. -/
def Program.Contract {α : Type} (allowed : Circumstance → Prop) (bad : Failure → World → Prop)
    (before : World → Prop) (p : Program α) (good : α → World → Prop) : Prop :=
  ∀ course : Course, (∀ n, allowed (course n)) → ∀ w calls, before w →
    match p.interpret (amid course) (w, calls) with
    | (.ok a, (after, _)) => good a after
    | (.error e, (after, _)) => bad e after

namespace Program.Contract
variable {α β : Type} {allowed : Circumstance → Prop} {bad : Failure → World → Prop}
variable {before : World → Prop}

theorem done {a : α} {good : α → World → Prop} (holds : ∀ w, before w → good a w) :
    Contract allowed bad before (pure a) good :=
  fun _ _ w _ start => holds w start

theorem kept {a : α} : Contract allowed bad before (pure a) fun _ => before :=
  done fun _ holds => holds

theorem never {p : Program α} {good : α → World → Prop} :
    Contract allowed bad (fun _ => False) p good :=
  fun _ _ _ _ start => start.elim

theorem bind {p : Program α} {f : α → Program β} {middle : α → World → Prop}
    {good : β → World → Prop} (first : Contract allowed bad before p middle)
    (next : ∀ a, Contract allowed bad (middle a) (f a) good) :
    Contract allowed bad before (p >>= f) good := by
  intro course fair w calls start
  have met := first course fair w calls start
  rw [Program.interpretBind]
  rcases ran : p.interpret (amid course) (w, calls) with ⟨_ | a, after, more⟩
  · rwa [ran] at met
  · rw [ran] at met
    exact next a course fair after more met

theorem weaken {p : Program α} {start : World → Prop} {good better : α → World → Prop}
    (contract : Contract allowed bad before p better) (enough : ∀ w, start w → before w)
    (implies : ∀ a w, better a w → good a w) : Contract allowed bad start p good := by
  intro course fair w calls holds
  have met := contract course fair w calls (enough w holds)
  rcases ran : p.interpret (amid course) (w, calls) with ⟨_ | a, after, more⟩
  · rwa [ran] at met
  · rw [ran] at met
    exact implies a after met

theorem holdings {c : Holdings.Call} {good : c.Answer → World → Prop}
    (fault : ∀ x, allowed x → x.fails = true → ∀ w, before w → bad .unavailable w)
    (works : ∀ x, allowed x → x.fails = false → ∀ w, before w →
      match w.holdings.perform x.now c with
      | (.ok a, h) => good a ⟨h, w.tallies⟩
      | (.error e, h) => bad e ⟨h, w.tallies⟩) :
    Contract allowed bad before (ofHoldings c) good := by
  intro course fair w calls start
  cases fails : (course calls).fails with
  | true =>
    simp only [ofHoldings, interpret, amid, fails, ↓reduceIte]
    exact fault _ (fair calls) fails w start
  | false =>
    have met := works _ (fair calls) fails w start
    simp only [ofHoldings, interpret, amid, fails, Bool.false_eq_true, ↓reduceIte,
      World.performHoldings]
    rcases ran : w.holdings.perform (course calls).now c with ⟨_ | a, h⟩ <;> rwa [ran] at met

theorem tallies {c : Tallies.Call} {good : c.Answer → World → Prop}
    (works : ∀ w, before w →
      match w.tallies.perform c with
      | (.ok a, t) => good a ⟨w.holdings, t⟩
      | (.error e, t) => bad e ⟨w.holdings, t⟩) :
    Contract allowed bad before (ofTallies c) good := by
  intro course fair w calls start
  have met := works w start
  simp only [ofTallies, interpret, amid, World.performTallies]
  rcases ran : w.tallies.perform c with ⟨_ | a, t⟩ <;> rwa [ran] at met

theorem given {p : Program α} {good : α → World → Prop} {fact : Prop}
    (contract : fact → Contract allowed bad before p good) :
    Contract allowed bad (fun w => fact ∧ before w) p good :=
  fun course fair w calls start => contract start.1 course fair w calls start.2

theorem alone {p : Program α} {good : α → World → Prop}
    (contract : Contract allowed bad before p good) {now : Nat} (fair : allowed ⟨now, false⟩)
    {w after : World} (start : before w) {a : α} (ran : p.run now w = (.ok a, after)) :
    good a after := by
  obtain ⟨last, steady⟩ := steadyRun now p w 0
  have met := contract (.steady now) (fun _ => fair) w 0 start
  rwa [steady, ran] at met

theorem leaves {p : Program α} {good : α → World → Prop} {holds : World → Prop}
    (contract : Contract allowed bad before p good) {course : Course}
    (fair : ∀ n, allowed (course n)) {w : World} (start : before w) (calls : Nat)
    (succeeds : ∀ a after, good a after → holds after)
    (stops : ∀ e after, bad e after → holds after) :
    holds (p.interpret (amid course) (w, calls)).2.1 := by
  have met := contract course fair w calls start
  rcases ran : p.interpret (amid course) (w, calls) with ⟨e | a, after, more⟩
  · rw [ran] at met
    exact stops e after met
  · rw [ran] at met
    exact succeeds a after met

end Program.Contract

/- What the calls of a listing keep to. Where something is found under a key, the world is sound as
before; where nothing is, it is sound again once the key is removed. -/
structure Keeping (allowed : Circumstance → Prop) (bad : Failure → World → Prop) (counted : Bool)
    (c : Category) (listed : String → Prop) (sound : World → Prop)
    (missed : String → World → Prop) : Prop where
  lists : (Program.ofHoldings (.list c.index)).Contract allowed bad sound fun keys w =>
    (∀ key ∈ keys, listed key) ∧ sound w
  has : ∀ key, listed key →
    (Program.ofHoldings (.has key)).Contract allowed bad sound fun found w =>
      match found with
      | true => sound w
      | false => missed key w
  gets : ∀ key, listed key →
    (Program.ofHoldings (.get key)).Contract allowed bad sound fun found w =>
      match found with
      | some _ => sound w
      | none => missed key w
  prunes : ∀ key, listed key →
    (prune counted c key).Contract allowed bad (missed key) fun _ => sound

section Keeping
variable {allowed : Circumstance → Prop} {bad : Failure → World → Prop} {counted : Bool}
variable {c : Category} {listed : String → Prop} {sound : World → Prop}
variable {missed : String → World → Prop}

theorem liveKeysKeep (keeping : Keeping allowed bad counted c listed sound missed)
    (keys : List String) (inside : ∀ key ∈ keys, listed key) :
    (liveKeys counted c keys).Contract allowed bad sound fun live w =>
      (∀ key ∈ live, listed key) ∧ sound w := by
  induction keys with
  | nil => exact .done fun _ start => ⟨inside, start⟩
  | cons key rest ih =>
    obtain ⟨own, others⟩ := List.forall_mem_cons.mp inside
    refine .bind (keeping.has key own) fun found => ?_
    cases found with
    | true =>
      exact .bind (ih others) fun live => .done fun _ reached =>
        ⟨List.forall_mem_cons.mpr ⟨own, reached.1⟩, reached.2⟩
    | false => exact .bind (keeping.prunes key own) fun _ => ih others

theorem featuresKeep (keeping : Keeping allowed bad counted c listed sound missed)
    (keys : List String) (inside : ∀ key ∈ keys, listed key) :
    (features counted c keys).Contract allowed bad sound fun _ => sound := by
  induction keys with
  | nil => exact .kept
  | cons key rest ih =>
    obtain ⟨own, others⟩ := List.forall_mem_cons.mp inside
    refine .bind (keeping.gets key own) fun found => ?_
    cases found with
    | some feature => exact .bind (ih others) fun _ => .kept
    | none => exact .bind (keeping.prunes key own) fun _ => ih others

theorem listingKeeps (keeping : Keeping allowed bad counted c listed sound missed) :
    (listing counted c).Contract allowed bad sound fun _ => sound :=
  .bind keeping.lists fun keys => .given fun inside =>
    .bind (liveKeysKeep keeping keys inside) fun live => .given fun among =>
      featuresKeep keeping live among

theorem collectionKeeps {aside : String → Prop} {missing : String → World → Prop}
    (contacts : Keeping allowed bad counted .contacts listed sound missed)
    (stations : Keeping allowed bad counted .stations aside sound missing) :
    (collection counted).Contract allowed bad sound fun _ => sound :=
  .bind (listingKeeps contacts) fun _ => .bind (listingKeeps stations) fun _ => .kept

end Keeping

theorem receiveTaken {σ : Type} (run : Runner σ) (life : Nat) {o : Observation} {station : Station}
    (vetted : vet o = .ok station) (s : σ) :
    (receive run life o s).2 = (run (intake life o station) s).2 ∧
      (∀ e, (receive run life o s).1 = .error (.failed e) →
        (run (intake life o station) s).1 = .error e) ∧
      ∀ r, (receive run life o s).1 = .ok r →
        (run (intake life o station) s).1 = .ok r.observations := by
  simp only [receive, vetted]
  rcases run (intake life o station) s with ⟨f | n, after⟩
  · exact ⟨rfl, fun e failed => congrArg _ (Refusal.failed.inj (Except.error.inj failed)),
      fun r told => by contradiction⟩
  · exact ⟨rfl, fun e failed => by contradiction,
      fun r told => by rw [← Except.ok.inj told]⟩

theorem vetUnfailed (o : Observation) (e : Failure) : vet o ≠ .error (.failed e) := by
  unfold vet
  split
  · simp
  · split
    · simp
    · split <;> simp

section Undergoing
variable (life : Nat) (counted : Bool) (w : World) {o : Observation} (course : Course)

theorem undergoTaken {station : Station} (vetted : vet o = .ok station) :
    w.undergo life counted ⟨.observe o, course⟩ =
      ((intake life o station).interpret (amid course) (w, 0)).2.1 :=
  congrArg Prod.fst (receiveTaken (Program.interpret (amid course)) life vetted (w, 0)).1

theorem undergoRefused {refusal : Refusal} (vetted : vet o = .error refusal) :
    w.undergo life counted ⟨.observe o, course⟩ = w :=
  congrArg (·.2.1) (receiveRefused (Program.interpret (amid course)) life vetted (w, 0))

end Undergoing

theorem stepUndergone (life : Nat) (counted : Bool) (s : Session) (action : Action) :
    (s.step life counted action).world = s.world.undergo life counted ⟨action, .steady s.now⟩ := by
  cases action with
  | observe o =>
    cases vetted : vet o with
    | error refusal =>
      rw [undergoRefused life counted s.world _ vetted]
      simp [Session.step, receive, vetted]
    | ok station =>
      rw [undergoTaken life counted s.world _ vetted]
      obtain ⟨last, same⟩ := steadyRun s.now (intake life o station) s.world 0
      rw [same, ← (receiveTaken (Program.run s.now) life vetted s.world).1]
      simp only [Session.step]
      split <;> rfl
  | wait time => rfl
  | list c =>
    obtain ⟨last, same⟩ := steadyRun s.now (listing counted c) s.world 0
    simp only [World.undergo, same, Session.step]
  | collect =>
    obtain ⟨last, same⟩ := steadyRun s.now (collection counted) s.world 0
    simp only [World.undergo, same, Session.step]

end AirPicture.Cache
