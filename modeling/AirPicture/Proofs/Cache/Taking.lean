import AirPicture.Proofs.Cache.Healing
import AirPicture.Proofs.Cache.Ledger

/-! One observation taken in while nothing fails but the clock. It is read for each of the two
features, and where it cannot name the expiry of one of them, what was kept before stays: nothing,
or the aircraft's feature, which is in no index yet. -/
namespace AirPicture.Cache

section Failing
variable {life n : Nat} {a : Writing}

theorem soundFailure (working : a.fault = Watched.noFault)
    (rooms : n < 2 → Room (a.clock n) life) : a.failure life n = none := by
  have limit (room : Room (a.clock n) life) (key value : String) :
      Program.meets a.clock a.fault n (.put key value (some life)) = none := by
    simp only [Program.meets, working, Watched.noFault, Option.none_or, Holdings.Call.failure,
      Holdings.expiry, if_neg (Nat.not_le.mpr room)]
  rcases n with _ | _ | _ | _ | n
  · exact limit (rooms (by decide)) _ _
  · exact limit (rooms (by decide)) _ _
  · simp only [Writing.failure, working]
    rfl
  · simp only [Writing.failure, working]
    rfl
  · rfl

theorem lateFailure (working : a.fault = Watched.noFault) (put : n < 2)
    (late : ¬ Room (a.clock n) life) : a.failure life n = some .expiry := by
  have limit (key value : String) :
      Program.meets a.clock a.fault n (.put key value (some life)) = some .expiry := by
    simp only [Program.meets, working, Watched.noFault, Option.none_or, Holdings.Call.failure,
      Holdings.expiry, if_pos (Nat.not_lt.mp late)]
  rcases n with _ | _ | n
  · exact limit _ _
  · exact limit _ _
  · omega

theorem writingStops {e : Failure} (met : a.failure life n = some e)
    (clear : ∀ m < n, a.failure life m = none) (w : World) :
    a.run life w = (.error e, ⟨⟨w.holdings.through a.clock 0 ((a.calls life).take n), w.tallies⟩,
      (a.calls life).take n⟩) := by
  obtain ⟨c, place, fails⟩ := Option.bind_eq_some_iff.mp met
  rw [writingRun, Program.inOrderStops place]
  · rfl
  · rwa [List.length_nil, Nat.zero_add]
  · intro m d before found
    rw [List.length_nil, Nat.zero_add]
    have calm := clear m before
    rwa [Writing.failure, found] at calm

end Failing

section Counting
variable (clock : Nat → Nat) (fault : Nat → Option Failure) (s : Station)

theorem tallyFaulty (c : Tallies.Call) (w : Watched) :
    (Program.ofTallies c).interpret (Watched.faulty clock fault) w =
      ((w.world.tallies.perform c).1,
        ⟨⟨w.world.holdings, (w.world.tallies.perform c).2⟩, w.log⟩) := by
  simp only [Program.ofTallies, Program.interpret, Watched.faulty, Watched.reach,
    World.performTallies]
  cases (w.world.tallies.perform c).1 <;> rfl

theorem countFaulty (now : Nat) (w : Watched) :
    (count s).interpret (Watched.faulty clock fault) w =
      (((count s).run now w.world).1, ⟨((count s).run now w.world).2, w.log⟩) := by
  have registers := tallyFaulty clock fault (.register s.id) w
  have registered := Program.runTallies now (.register s.id) w.world
  obtain ⟨fresh, first⟩ : ∃ fresh, (w.world.tallies.perform (.register s.id)).1 = .ok fresh :=
    ⟨_, rfl⟩
  rw [first] at registers registered
  unfold count
  rw [Program.interpretAfter registers, Program.runAfter registered]
  generalize (w.world.tallies.perform (.register s.id)).2 = tallies
  -- What is left is the note of a new station's name, and then the increase.
  cases fresh with
  | false =>
    simp only [Bool.false_eq_true, ↓reduceIte]
    exact (tallyFaulty ..).trans (by rw [Program.runTallies])
  | true =>
    simp only [↓reduceIte]
    have notes := tallyFaulty clock fault (.note s.id "name" s.name)
      ⟨⟨w.world.holdings, tallies⟩, w.log⟩
    have noted := Program.runTallies now (.note s.id "name" s.name) ⟨w.world.holdings, tallies⟩
    cases answer : (tallies.perform (.note s.id "name" s.name)).1 with
    | ok _ =>
      simp only [answer] at notes noted
      rw [Program.interpretAfter notes, Program.runAfter noted, tallyFaulty, Program.runTallies]
    | error e =>
      simp only [answer] at notes noted
      rw [Program.interpretBind, notes, Program.runFailed noted]

theorem countAnswer (now : Nat) (w : World) :
    ∃ tallies, (∃ n, (count s).run now w = (.ok n, ⟨w.holdings, tallies⟩)) ∨
      ¬ w.tallies.Numeric ∧
        (count s).run now w = (.error (.notNumeric "observations"), ⟨w.holdings, tallies⟩) := by
  obtain ⟨t, present, stands, same⟩ := countEnters now s w
  have told := Tallies.increaseTold present "observations" 1
  refine ⟨(t.perform (.increase s.id "observations" 1)).2, ?_⟩
  rw [same, Program.runTallies]
  have standing : (t.held s.id "observations").getD (.count 0) = w.tallies.standing s.id :=
    stands s.id
  rw [told, standing]
  cases under : w.tallies.standing s.id with
  | count n => exact .inl ⟨n + 1, rfl⟩
  | text text =>
    exact .inr ⟨fun numeric => Tallies.numericStanding.mp numeric s.id text under, rfl⟩

end Counting

def taking (clock : Nat → Nat) (life : Nat) (o : Observation) (w : World) :
    Except Refusal Receipt × Watched :=
  receive (fun p => p.interpret (Watched.faulty clock Watched.noFault)) life o ⟨w, []⟩

section Taking
variable {clock : Nat → Nat} {life : Nat} {o : Observation} {s : Station}

theorem takingKept (vetted : vet o = .ok s) (rooms : ∀ n < 2, Room (clock n) life) (w : World) :
    ∃ answer tallies, taking clock life o w =
      (answer, ⟨⟨Writing.written life ⟨o, s, clock, Watched.noFault⟩ w.holdings, tallies⟩,
        Writing.calls life ⟨o, s, clock, Watched.noFault⟩⟩) ∧
      ((∃ n, answer = .ok ⟨true, n⟩) ∨
        ¬ w.tallies.Numeric ∧ answer = .error (.failed (.notNumeric "observations"))) := by
  have kept : (keep life o s).interpret (Watched.faulty clock Watched.noFault) ⟨w, []⟩ =
      (.ok (), _) := writtenRun (a := ⟨o, s, clock, Watched.noFault⟩)
    (fun m _ => soundFailure rfl (rooms m)) w
  obtain ⟨tallies, ⟨n, counted⟩ | ⟨texted, refused⟩⟩ := countAnswer s 0
    ⟨Writing.written life ⟨o, s, clock, Watched.noFault⟩ w.holdings, w.tallies⟩
  · refine ⟨.ok ⟨true, n⟩, tallies, ?_, .inl ⟨n, rfl⟩⟩
    simp only [taking, receive, vetted, intake, Program.interpretAfter kept, countFaulty _ _ s 0,
      counted]
  · refine ⟨_, tallies, ?_, .inr ⟨texted, rfl⟩⟩
    simp only [taking, receive, vetted, intake, Program.interpretAfter kept, countFaulty _ _ s 0,
      refused]

theorem takingLate (vetted : vet o = .ok s) {n : Nat} (put : n < 2)
    (late : ¬ Room (clock n) life) (rooms : ∀ m < n, Room (clock m) life) (w : World) :
    taking clock life o w = (.error (.failed .expiry),
      ⟨⟨w.holdings.through clock 0 ((Writing.calls life ⟨o, s, clock, Watched.noFault⟩).take n),
        w.tallies⟩, (Writing.calls life ⟨o, s, clock, Watched.noFault⟩).take n⟩) := by
  have stopped : (keep life o s).interpret (Watched.faulty clock Watched.noFault) ⟨w, []⟩ =
      (.error .expiry, _) := writingStops (a := ⟨o, s, clock, Watched.noFault⟩)
    (lateFailure rfl put late) (fun m before => soundFailure rfl fun _ => rooms m before) w
  simp only [taking, receive, vetted, intake, Program.interpretBind, stopped]

end Taking

end AirPicture.Cache
