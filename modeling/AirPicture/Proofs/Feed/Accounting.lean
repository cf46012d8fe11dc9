import AirPicture.Proofs.Feed.Stages

/-! The account of a link: what it delivers and counts follows from the pieces of its stream and
from the answers of its consumer. A missing answer stops it, and prompt answers lead it on. -/
namespace AirPicture.Feed
open Text (Octets)

def Consumer.replies {γ : Type} (consumer : Consumer γ) : γ → List Observation → List Bool
  | _, [] => []
  | c, observation :: later =>
    let (outcome, c) := consumer c observation
    (outcome == .accepted) :: replies consumer c later

def Consumer.after {γ : Type} (consumer : Consumer γ) (c : γ) (met : List Observation) : γ :=
  met.foldl (fun c observation => (consumer c observation).2) c

def Consumer.Prompt {γ : Type} (consumer : Consumer γ) : Prop :=
  ∀ c observation, (consumer c observation).1 ≠ .stalled

namespace Link
variable {σ γ : Type} {decoder : Decoder σ} {consumer : Consumer γ} {l : Link σ} {c : γ}

theorem stalledRun (busy : l.phase = .streaming ∧ l.awaiting = true) {later : List Event}
    (silent : ∀ event ∈ later, event ≠ .cancel ∧ ∀ accepted, event ≠ .answer accepted) :
    l.taken decoder later = [] ∧ ∃ source, l.run decoder later = { l with source } := by
  induction later generalizing l with
  | nil => exact ⟨rfl, l.source, rfl⟩
  | cons event later ih =>
    obtain ⟨⟨kept, unanswered⟩, silent⟩ := List.forall_mem_cons.mp silent
    have still : l.takes event = [] ∧ ∃ source, l.step decoder event = { l with source } := by
      cases event with
      | arrive arrival => exact ⟨rfl, _, rfl⟩
      | hangUp => exact ⟨rfl, _, rfl⟩
      | turn timestamp => exact ⟨if_neg (by simp [busy]), l.source, if_neg (by simp [busy])⟩
      | answer accepted => exact absurd rfl (unanswered accepted)
      | cancel => contradiction
      | release => exact ⟨rfl, l.source, if_neg (by simp [busy])⟩
    obtain ⟨takes, source, same⟩ := still
    obtain ⟨nothing, last, ran⟩ := ih (l := { l with source }) busy silent
    refine ⟨?_, last, ?_⟩
    · rw [taken, trail, takes, same]
      exact nothing
    · rw [run, List.foldl_cons, same]
      exact ran

structure Handled (decoder : Decoder σ) (consumer : Consumer γ) (l : Link σ) (c : γ)
    (more : List Event) (after : Link σ × γ) : Prop where
  inner : ∀ event ∈ more, event.ofFeed = false ∧ event ≠ .cancel
  ran : after.1 = l.run decoder more
  settled : after.1.awaiting = false
  met : ∃ news, after.1.delivered = l.delivered ++ news ∧
    l.heard decoder more = consumer.replies c news ∧ after.2 = consumer.after c news

theorem repliesAppend (c : γ) (first later : List Observation) :
    consumer.replies c (first ++ later) =
      consumer.replies c first ++ consumer.replies (consumer.after c first) later := by
  induction first generalizing c with
  | nil => rfl
  | cons observation first ih => exact congrArg (_ :: ·) (ih _)

theorem handledNothing (settled : l.awaiting = false) :
    Handled decoder consumer l c [] (l, c) where
  inner := by simp
  ran := rfl
  settled := settled
  met := ⟨[], (List.append_nil _).symm, rfl, rfl⟩

theorem handledThen {first later : List Event} {middle after : Link σ × γ}
    (before : Handled decoder consumer l c first middle)
    (next : Handled decoder consumer middle.1 middle.2 later after) :
    Handled decoder consumer l c (first ++ later) after where
  inner event inside := (List.mem_append.mp inside).elim (before.inner event) (next.inner event)
  ran := by rw [runAppend, ← before.ran, next.ran]
  settled := next.settled
  met := by
    obtain ⟨news, delivered, heard, same⟩ := before.met
    obtain ⟨others, further, answers, last⟩ := next.met
    refine ⟨news ++ others, by rw [further, delivered, List.append_assoc], ?_, ?_⟩
    · rw [Link.heard, trailAppend, repliesAppend, ← before.ran, ← same]
      exact congr (congrArg _ heard) answers
    · rw [last, same]
      exact List.foldl_append.symm

theorem meetIdle (settled : l.awaiting = false) : l.meet decoder consumer c = (l, c) := by
  rw [meet, settled]

theorem meetAnswers (waits : l.awaiting = true) {observation : Observation}
    (last : l.delivered.getLast? = some observation) (prompt : consumer.Prompt) :
    l.meet decoder consumer c =
      (l.step decoder (.answer ((consumer c observation).1 == .accepted)),
        (consumer c observation).2) := by
  have answers := prompt c observation
  rw [meet, waits, last]
  rcases met : consumer c observation with ⟨outcome, after⟩
  cases outcome with
  | accepted => simp [met]
  | refused => simp [met]; rfl
  | stalled => exact absurd (congrArg Prod.fst met) answers

theorem readWork {s after : Source} {found : Reading} (read : readSegment s = (found, after))
    (some : found ≠ .waiting) : after.size < s.size ∨ found = .ended ∧ after = s := by
  cases spent : s.spent with
  | false =>
    have used := (readSize s spent).resolve_left (by simp [read, some])
    exact .inl (by simpa [read] using used)
  | true =>
    rw [readSpent spent] at read
    obtain ⟨rfl, rfl⟩ := Prod.mk.inj read
    cases stands : s.standing with
    | false => exact .inr ⟨by simp, rfl⟩
    | true => exact absurd (by simp [stands]) some

theorem readyReads (ready : l.ready = true) :
    (l.phase = .streaming ∧ l.awaiting = false) ∧ (readSegment l.source).1 ≠ .waiting := by
  simpa [Link.ready] using ready

theorem turnWorks (decoder : Decoder σ) (ready : l.ready = true) :
    let after := l.step decoder (.turn 0)
    ∃ news : Option Observation, after.delivered = l.delivered ++ news.toList ∧
      after.awaiting = news.isSome ∧ (news.isSome → after.phase = .streaming) ∧
      after.work < l.work := by
  obtain ⟨free, unread⟩ := readyReads ready
  rcases read : readSegment l.source with ⟨found, source⟩
  have used := readWork read (by simpa [read] using unread)
  by_cases some : ∃ segment, found = .segment segment
  · obtain ⟨segment, rfl⟩ := some
    obtain ⟨_, same⟩ := turnTakes decoder free read 0
    have size : source.size < l.source.size := used.resolve_right (by simp)
    refine ⟨(fate decoder l.station l.memory segment).1.observation 0, ?_⟩
    rw [same]
    exact ⟨rfl, sightedObserved _ 0, fun _ => free.1, by simpa [work] using size⟩
  · have none : ∀ segment, found ≠ .segment segment := fun segment same => some ⟨segment, same⟩
    obtain ⟨_, same⟩ := turnStops decoder free read none 0
    have failed : phaseUpon found = .failed := by
      cases found with
      | segment segment => exact absurd rfl (none segment)
      | waiting => exact absurd (congrArg Prod.fst read) unread
      | ended => rfl
      | failed => rfl
    have size : source.size ≤ l.source.size := by
      rcases used with less | ⟨_, rfl⟩
      · exact Nat.le_of_lt less
      · exact Nat.le_refl _
    refine ⟨Option.none, ?_⟩
    rw [same]
    refine ⟨(List.append_nil _).symm, free.2, fun some => by contradiction, ?_⟩
    simpa [work, failed, free.1] using Nat.lt_succ_of_le size

theorem advanceHandled (decoder : Decoder σ) (c : γ) (prompt : consumer.Prompt)
    (ready : l.ready = true) :
    ∃ more, Handled decoder consumer l c more (l.advance decoder consumer c) ∧
      (l.advance decoder consumer c).1.work < l.work := by
  obtain ⟨news, delivered, awaiting, streaming, less⟩ := turnWorks decoder ready
  obtain ⟨free, _⟩ := readyReads ready
  have silent : l.hears (.turn 0) = [] := rfl
  cases news with
  | none =>
    have idle : l.advance decoder consumer c = (l.step decoder (.turn 0), c) := meetIdle awaiting
    rw [idle]
    refine ⟨[.turn 0], ⟨by simp [Event.ofFeed], rfl, awaiting, [], delivered, ?_, rfl⟩, less⟩
    simp [heard, trail, silent, Consumer.replies]
  | some observation =>
    have busy := And.intro (streaming rfl) awaiting
    obtain ⟨_, hears, answered⟩ := answerHeard decoder busy
      ((consumer c observation).1 == .accepted)
    have met : l.advance decoder consumer c = (_, (consumer c observation).2) :=
      meetAnswers awaiting (by simp [delivered]) prompt
    rw [met]
    refine ⟨[.turn 0, .answer ((consumer c observation).1 == .accepted)],
      ⟨by simp [Event.ofFeed], rfl, by rw [answered], [observation], ?_, ?_, rfl⟩, ?_⟩
    · rw [answered]
      exact delivered
    · simp [heard, trail, silent, hears, Consumer.replies]
    · rw [answered]
      exact less

theorem settleHandled (prompt : consumer.Prompt) (settled : l.awaiting = false) {turns : Nat}
    (enough : l.work ≤ turns) :
    ∃ more, Handled decoder consumer l c more (settle decoder consumer turns l c) ∧
      (settle decoder consumer turns l c).1.ready = false := by
  induction turns generalizing l c with
  | zero =>
    refine ⟨[], handledNothing settled, ?_⟩
    have idle : l.phase ≠ .streaming := by
      intro streaming
      simp [work, streaming] at enough
    simp [settle, Link.ready, idle]
  | succ turns ih =>
    rw [settle]
    cases ready : l.ready with
    | false => exact ⟨[], handledNothing settled, ready⟩
    | true =>
      obtain ⟨first, before, less⟩ := advanceHandled decoder c prompt ready
      obtain ⟨later, next, rest⟩ := ih (l := (l.advance decoder consumer c).1)
        (c := (l.advance decoder consumer c).2) before.settled (by omega)
      exact ⟨first ++ later, handledThen before next, rest⟩

end Link

/-- A link that is not torn down accounts for its stream, however that is cut and whatever the
consumer answers. It takes the pieces in their order, and all of them once it waits for its feed
alone; it delivers what the decoder makes of them and counts them, and one answer for each
delivery, so that no counter exceeds the number of events. A step makes its counts one by one,
and between any two of them the lines that are not settled are the one in hand. While an answer
is missing nothing more is taken; a consumer that always answers is led to the end. -/
theorem linkAccounts {σ : Type} (decoder : Decoder σ) (station : Station) (memory : σ)
    (capacity : Nat) (runs : List Octets) (e : Ending) (events : List Event)
    (arrived : ∀ run ∈ runs, run ≠ []) (fed : events.filter Event.ofFeed = feed runs e)
    (kept : .cancel ∉ events) :
    let first := Link.start station memory capacity
    let l := first.run decoder events
    let taken := first.taken decoder events
    let heard := first.heard decoder events
    ∃ bodies tail, Lines runs.flatten bodies tail ∧
      taken.map Prod.fst <+: (pieces bodies tail e).map .of ∧
      (l.awaiting = false → l.ready = false →
        taken.map Prod.fst = (pieces bodies tail e).map .of) ∧
      l.delivered = observations decoder station memory taken ∧
      l.counts = tally decoder station memory taken heard ∧ l.counts.Within events.length ∧
      heard.length + l.awaiting.toNat = l.delivered.length ∧
      (∀ event, event ≠ .cancel →
        (l.step decoder event).counts =
          (l.incidents decoder event).foldl Counts.record l.counts ∧
        ∀ part, part <+: l.incidents decoder event →
          let counts := part.foldl Counts.record l.counts
          counts.lines = blanks decoder station memory taken + counts.undecoded +
            counts.forwarded + counts.refused + l.underway part) ∧
      (l.awaiting = true → ∀ later,
        (∀ event ∈ later, event ≠ .cancel ∧ ∀ accepted, event ≠ .answer accepted) →
        l.taken decoder later = [] ∧ ∃ source, l.run decoder later = { l with source }) ∧
      (l.awaiting = false → ∀ (γ : Type) (consumer : Consumer γ) (c : γ), consumer.Prompt →
        ∃ more, Link.Handled decoder consumer l c more (l.handle decoder consumer c) ∧
          (l.handle decoder consumer c).1.ready = false) := by
  intro first l taken heard
  have stage := runStage decoder station memory capacity arrived fed kept
  have account := Link.runAccount decoder station memory capacity kept
  have placed : l.station = station := Link.runStation decoder first kept
  obtain ⟨bodies, tail, lines, begun⟩ := stage.started
  have tallied : l.counts = tally decoder station memory taken heard := placed ▸ account.counts
  refine ⟨bodies, tail, lines, begun, ?_, ?_, tallied, ?_, account.answered, ?_, ?_, ?_⟩
  · intro settled rest
    obtain ⟨others, last, same, all⟩ := stage.spent settled rest
    obtain ⟨rfl, rfl⟩ := linesUnique lines same
    exact all
  · exact placed ▸ account.delivered
  · rw [tallied]
    exact tallyWithin decoder station memory taken heard
      (Link.trailLength decoder Link.takesOne first events)
      (Link.trailLength decoder Link.hearsOne first events)
  · intro event kept
    refine ⟨Link.stepIncidents l kept, fun part begun => ?_⟩
    exact placed ▸ Link.momentBalanced account kept begun
  · intro busy later silent
    exact Link.stalledRun ⟨account.streaming busy, busy⟩ silent
  · intro settled γ consumer c prompt
    exact Link.settleHandled prompt settled (Nat.le_refl _)

def altimeter : Decoder Nat := fun frames station frame =>
  match frame with
  | [feet] => (.ok ⟨"A00001", Int32.ofNat feet.toNat, 0, 0, none, none, station⟩, frames + 1)
  | _ => (.error (.length frame.length), frames + 1)

def quay : Station := ⟨"S1", "Quay", 0, 0⟩

def quayRuns : List Octets :=
  [[42, 122, 122, 59, newline, newline, 42, 48], [65, 59, newline, 42, 48, 66, 59]]

def quayEvents : List Event :=
  [.arrive (.octets (quayRuns[0])), .turn 1, .answer true, .turn 2, .turn 3,
    .arrive (.octets (quayRuns[1])), .turn 4, .turn 5, .answer false, .hangUp, .turn 6,
    .answer true, .turn 7]

theorem quayAccount :
    let first := Link.start quay 0 4
    let l := first.run altimeter quayEvents
    (∃ bodies tail, Lines quayRuns.flatten bodies tail ∧
      (first.taken altimeter quayEvents).map Prod.fst = (pieces bodies tail .ended).map .of ∧
      l.delivered = observations altimeter quay 0 (first.taken altimeter quayEvents)) ∧
    l.counts = ⟨4, 0, 1, 1, 1⟩ ∧
    l.delivered.map (fun o => (o.altitude, o.timestamp)) = [(10, 4), (11, 6)] := by
  intro first l
  obtain ⟨bodies, tail, lines, _, all, delivered, _⟩ :=
    linkAccounts altimeter quay 0 4 quayRuns .ended quayEvents (by decide) (by decide) (by decide)
  exact ⟨⟨bodies, tail, lines, all (by decide +kernel) (by decide +kernel), delivered⟩,
    by decide +kernel, by decide +kernel⟩

end AirPicture.Feed
