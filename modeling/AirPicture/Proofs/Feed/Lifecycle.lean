import AirPicture.Proofs.Feed.Fates

/-! The life of a link, from its establishment on. It streams until it is cancelled or dies of
its stream, whose end or failure it reads; cancelled, it closes. What it publishes are the phases
that it enters, and once it has left its stream it delivers and counts nothing more. -/
namespace AirPicture.Feed

theorem establishedLink {σ : Type} {entry : Entry} {connect : Settings → Option ConnectFault}
    {id : String} {memory : σ} {first : Link σ}
    (established : Link.establish entry connect id memory = .ok first) :
    ∃ settings, entry.validate = .ok settings ∧ connect settings = none ∧
      first = Link.start (settings.station id) memory Source.usual := by
  unfold Link.establish at established
  split at established
  · contradiction
  · rename_i settings valid
    split at established
    · contradiction
    · rename_i connected
      exact ⟨settings, valid, connected, (Except.ok.inj established).symm⟩

def Reading.isFinal : Reading → Bool
  | .ended | .failed => true
  | .segment _ | .waiting => false

namespace Link
variable {σ : Type} {decoder : Decoder σ} {l : Link σ}

def dies (l : Link σ) : Event → Bool
  | .turn _ => l.phase == .streaming && !l.awaiting && (readSegment l.source).1.isFinal
  | _ => false

/- What has been handled before any cancellation was the end of the stream, or a failure. -/
def Died (decoder : Decoder σ) (l : Link σ) (events : List Event) : Prop :=
  ∃ before event after, events = before ++ event :: after ∧ .cancel ∉ before ∧
    (l.run decoder before).dies event = true

def publishes (decoder : Decoder σ) (l : Link σ) (event : Event) : List Phase :=
  if (l.step decoder event).phase = l.phase then [] else [(l.step decoder event).phase]

def published (decoder : Decoder σ) (l : Link σ) (events : List Event) : List Phase :=
  l.phase :: l.trail decoder (publishes decoder) events

theorem turnPhase (decoder : Decoder σ) (l : Link σ) (timestamp : UInt64) :
    (l.step decoder (.turn timestamp)).phase =
      if l.dies (.turn timestamp) then .failed else l.phase := by
  by_cases free : l.phase = .streaming ∧ l.awaiting = false
  · rcases read : readSegment l.source with ⟨found, after⟩
    have dying : l.dies (.turn timestamp) = found.isFinal := by simp [dies, free, read]
    rw [dying]
    cases found with
    | segment segment =>
      rw [(turnTakes decoder free read timestamp).2]
      rfl
    | ended =>
      rw [(turnStops decoder free read (by simp) timestamp).2]
      rfl
    | failed =>
      rw [(turnStops decoder free read (by simp) timestamp).2]
      rfl
    | waiting =>
      rw [(turnStops decoder free read (by simp) timestamp).2]
      exact free.1.symm
  · have alive : l.dies (.turn timestamp) = false := by
      simp only [dies, Bool.and_eq_false_iff]
      by_cases streams : l.phase = .streaming
      · simp [streams, show l.awaiting = true by simpa using fun idle => free ⟨streams, idle⟩]
      · simp [streams]
    rw [show l.step decoder (.turn timestamp) = l from if_neg free, alive]
    rfl

theorem phaseCases (decoder : Decoder σ) (l : Link σ) (event : Event) :
    (l.phase = .streaming ∧ event = .cancel ∧ (l.step decoder event).phase = .closing) ∨
    (l.phase = .streaming ∧ l.dies event = true ∧ (l.step decoder event).phase = .failed) ∨
    (l.phase = .closing ∧ event = .release ∧ (l.step decoder event).phase = .closed) ∨
    (l.dies event = false ∧ ¬ (l.phase = .streaming ∧ event = .cancel) ∧
      ¬ (l.phase = .closing ∧ event = .release) ∧ (l.step decoder event).phase = l.phase) := by
  cases event with
  | arrive arrival => exact .inr (.inr (.inr ⟨rfl, by simp, by simp, rfl⟩))
  | hangUp => exact .inr (.inr (.inr ⟨rfl, by simp, by simp, rfl⟩))
  | turn timestamp =>
    have phase := turnPhase decoder l timestamp
    cases dying : l.dies (.turn timestamp) with
    | true =>
      rw [dying] at phase
      have streams : l.phase = .streaming := by
        simp only [dies, Bool.and_eq_true, beq_iff_eq] at dying
        exact dying.1.1
      exact .inr (.inl ⟨streams, rfl, phase⟩)
    | false =>
      rw [dying] at phase
      exact .inr (.inr (.inr ⟨rfl, by simp, by simp, phase⟩))
  | answer accepted =>
    refine .inr (.inr (.inr ⟨rfl, by simp, by simp, ?_⟩))
    simp only [step]
    split <;> rfl
  | cancel =>
    by_cases streams : l.phase = .streaming
    · exact .inl ⟨streams, rfl, by simp [step, streams]⟩
    · exact .inr (.inr (.inr ⟨rfl, by simp [streams], by simp, by simp [step, streams]⟩))
  | release =>
    by_cases closes : l.phase = .closing
    · exact .inr (.inr (.inl ⟨closes, rfl, by simp [step, closes]⟩))
    · exact .inr (.inr (.inr ⟨rfl, by simp, by simp [closes], by simp [step, closes]⟩))

theorem streamLeft (decoder : Decoder σ) (streams : l.phase = .streaming) (event : Event) :
    (l.step decoder event).phase ≠ .streaming ↔ event = .cancel ∨ l.dies event = true := by
  obtain ⟨_, same, phase⟩ | ⟨_, dying, phase⟩ | ⟨closing, _⟩ | ⟨alive, kept, _, phase⟩ :=
    phaseCases decoder l event
  · rw [phase]
    simp [same]
  · rw [phase]
    simp [dying]
  · exact absurd (streams.symm.trans closing) (by decide)
  · have kept : event ≠ .cancel := fun same => kept ⟨streams, same⟩
    simp [phase, streams, alive, kept]

theorem stepSilent (decoder : Decoder σ) (left : l.phase ≠ .streaming) (event : Event) :
    (l.step decoder event).phase ≠ .streaming ∧
      (l.step decoder event).delivered = l.delivered ∧
      (l.step decoder event).counts = l.counts := by
  cases event with
  | arrive arrival => exact ⟨left, rfl, rfl⟩
  | hangUp => exact ⟨left, rfl, rfl⟩
  | turn timestamp => simp [step, left]
  | answer accepted => simp [step, left]
  | cancel => simp [step, left]
  | release =>
    simp only [step]
    split
    · exact ⟨fun same => by contradiction, rfl, rfl⟩
    · exact ⟨left, rfl, rfl⟩

theorem runSilent (decoder : Decoder σ) (left : l.phase ≠ .streaming) (events : List Event) :
    (l.run decoder events).phase ≠ .streaming ∧
      (l.run decoder events).delivered = l.delivered ∧
      (l.run decoder events).counts = l.counts := by
  induction events using List.reverseRecOn with
  | nil => exact ⟨left, rfl, rfl⟩
  | append_singleton events event ih =>
    obtain ⟨away, delivered, counts⟩ := ih
    obtain ⟨still, news, incidents⟩ := stepSilent decoder away event
    rw [runAfter]
    exact ⟨still, news.trans delivered, incidents.trans counts⟩

theorem stepTerminal (decoder : Decoder σ) (ended : l.phase.isTerminal = true) (event : Event) :
    (l.step decoder event).phase = l.phase := by
  obtain ⟨streams, _⟩ | ⟨streams, _⟩ | ⟨closing, _⟩ | ⟨_, _, _, phase⟩ :=
    phaseCases decoder l event
  · simp [streams, Phase.isTerminal] at ended
  · simp [streams, Phase.isTerminal] at ended
  · simp [closing, Phase.isTerminal] at ended
  · exact phase

theorem runTerminal (decoder : Decoder σ) (ended : l.phase.isTerminal = true)
    (events : List Event) : (l.run decoder events).phase = l.phase := by
  induction events using List.reverseRecOn with
  | nil => rfl
  | append_singleton events event ih =>
    rw [runAfter, stepTerminal decoder (ih.symm ▸ ended), ih]

inductive Passage : List Phase → Phase → Prop where
  | streaming : Passage [.streaming] .streaming
  | closing : Passage [.streaming, .closing] .closing
  | closed : Passage [.streaming, .closing, .closed] .closed
  | failed : Passage [.streaming, .failed] .failed

theorem passageLast {seen : List Phase} {phase : Phase} (passage : Passage seen phase) :
    seen.getLast? = some phase := by
  cases passage <;> rfl

theorem passageBegun {seen : List Phase} {phase : Phase} (passage : Passage seen phase) :
    phase ≠ .established := by
  cases passage <;> decide

theorem passageOrder {seen : List Phase} {phase : Phase} (passage : Passage seen phase) :
    seen <+: [.streaming, .closing, .closed] ∨ seen <+: [.streaming, .failed] := by
  cases passage with
  | streaming => exact .inl (by decide)
  | closing => exact .inl (by decide)
  | closed => exact .inl (by decide)
  | failed => exact .inr (by decide)

theorem stepPassage {seen : List Phase} (passage : Passage seen l.phase) (event : Event) :
    Passage (seen ++ publishes decoder l event) (l.step decoder event).phase := by
  rw [publishes]
  obtain ⟨streams, _, phase⟩ | ⟨streams, _, phase⟩ | ⟨closing, _, phase⟩ | ⟨_, _, _, phase⟩ :=
    phaseCases decoder l event
  · rw [streams] at passage
    rw [phase, streams]
    cases passage
    exact .closing
  · rw [streams] at passage
    rw [phase, streams]
    cases passage
    exact .failed
  · rw [closing] at passage
    rw [phase, closing]
    cases passage
    exact .closed
  · rw [if_pos phase, List.append_nil, phase]
    exact passage

theorem runPassage (decoder : Decoder σ) (begun : l.phase = .streaming) (events : List Event) :
    Passage (l.published decoder events) (l.run decoder events).phase := by
  induction events using List.reverseRecOn with
  | nil =>
    have passage := Passage.streaming
    rw [← begun] at passage
    exact passage
  | append_singleton events event ih =>
    have more : l.published decoder (events ++ [event]) =
        l.published decoder events ++ publishes decoder (l.run decoder events) event := by
      rw [published, trailAppend, trail, trail, List.append_nil]
      rfl
    rw [more, runAfter]
    exact stepPassage ih event

theorem streamKept (decoder : Decoder σ) {events : List Event}
    (streams : (l.run decoder events).phase = .streaming) : .cancel ∉ events := by
  intro inside
  obtain ⟨before, after, rfl⟩ := List.append_of_mem inside
  have left : ((l.run decoder before).step decoder .cancel).phase ≠ .streaming := by
    by_cases streams : (l.run decoder before).phase = .streaming
    · exact (streamLeft decoder streams .cancel).mpr (.inl rfl)
    · exact (stepSilent decoder streams .cancel).1
  rw [runAppend] at streams
  exact (runSilent decoder left after).1 streams

theorem failedDied (decoder : Decoder σ) (begun : l.phase = .streaming) (events : List Event) :
    (l.run decoder events).phase = .failed ↔ l.Died decoder events := by
  constructor
  · intro failed
    induction events using List.reverseRecOn with
    | nil => exact absurd (begun.symm.trans failed) (by decide)
    | append_singleton events event ih =>
      rw [runAfter] at failed
      obtain ⟨_, _, phase⟩ | ⟨streams, dying, _⟩ | ⟨_, _, phase⟩ | ⟨_, _, _, phase⟩ :=
        phaseCases decoder (l.run decoder events) event
      · exact absurd (phase.symm.trans failed) (by decide)
      · exact ⟨events, event, [], rfl, streamKept decoder streams, dying⟩
      · exact absurd (phase.symm.trans failed) (by decide)
      · obtain ⟨before, other, after, rfl, kept, dying⟩ := ih (phase.symm.trans failed)
        exact ⟨before, other, after ++ [event], by simp, kept, dying⟩
  · rintro ⟨before, event, after, rfl, _, dying⟩
    have failed : ((l.run decoder before).step decoder event).phase = .failed := by
      obtain ⟨_, rfl, _⟩ | ⟨_, _, phase⟩ | ⟨_, rfl, _⟩ | ⟨alive, _⟩ :=
        phaseCases decoder (l.run decoder before) event
      · simp [dies] at dying
      · exact phase
      · simp [dies] at dying
      · exact absurd (alive.symm.trans dying) (by decide)
    rw [runAppend]
    exact (runTerminal decoder (by rw [failed]; rfl) after).trans failed

theorem closingRun (decoder : Decoder σ) (ends : l.phase = .closing ∨ l.phase = .closed)
    (events : List Event) :
    (l.run decoder events).phase = .closing ∨ (l.run decoder events).phase = .closed := by
  induction events using List.reverseRecOn with
  | nil => exact ends
  | append_singleton events event ih =>
    rw [runAfter]
    obtain ⟨streams, _⟩ | ⟨streams, _⟩ | ⟨_, _, phase⟩ | ⟨_, _, _, phase⟩ :=
      phaseCases decoder (l.run decoder events) event
    · simp [streams] at ih
    · simp [streams] at ih
    · exact .inr phase
    · rw [phase]
      exact ih

theorem stoppedRun (decoder : Decoder σ) (begun : l.phase ≠ .established)
    (between later : List Event) :
    (l.run decoder (.cancel :: between ++ .release :: later)).phase =
      if l.phase = .failed then .failed else .closed := by
  let cancelled := l.step decoder .cancel
  have joined : l.run decoder (.cancel :: between ++ .release :: later) =
      (((cancelled.run decoder between).step decoder .release).run decoder later) :=
    runAppend decoder l (.cancel :: between) (.release :: later)
  rw [joined]
  by_cases failed : l.phase = .failed
  · have ended : l.phase.isTerminal = true := by rw [failed]; rfl
    have still : cancelled.phase = l.phase := stepTerminal decoder ended .cancel
    have kept : (cancelled.run decoder between).phase = l.phase :=
      (runTerminal decoder (still ▸ ended) between).trans still
    have released := (stepTerminal decoder (kept ▸ ended) .release).trans kept
    rw [if_pos failed, runTerminal decoder (released ▸ ended), released, failed]
  · have ends : cancelled.phase = .closing ∨ cancelled.phase = .closed := by
      cases phase : l.phase with
      | established => exact absurd phase begun
      | streaming => exact .inl (by simp [cancelled, step, phase])
      | closing => exact .inl (by simp [cancelled, step, phase])
      | closed => exact .inr (by simp [cancelled, step, phase])
      | failed => exact absurd phase failed
    have released : ((cancelled.run decoder between).step decoder .release).phase = .closed := by
      rcases closingRun decoder ends between with phase | phase <;> simp [step, phase]
    rw [if_neg failed, runTerminal decoder (by rw [released]; rfl), released]

end Link

/-- A link that was established streams until it is cancelled or reads the end of its stream or a
failure, and publishes the phases on its way. From then on it delivers and counts nothing, and a
terminal phase is never left. To tear it down takes two events, and neither an arrival nor an
answer: whatever comes between them and after them, the last phase to be published is the one
that the teardown tells. It is the failure if the link had died before, and else the close. -/
theorem lifePublished {σ : Type} (decoder : Decoder σ) (entry : Entry)
    (connect : Settings → Option ConnectFault) (id : String) (memory : σ) (first : Link σ)
    (established : Link.establish entry connect id memory = .ok first) (events : List Event) :
    let l := first.run decoder events
    let seen := first.published decoder events
    (seen <+: [.streaming, .closing, .closed] ∨ seen <+: [.streaming, .failed]) ∧
    seen.getLast? = some l.phase ∧
    (l.phase = .streaming → ∀ event,
      (l.step decoder event).phase ≠ .streaming ↔ event = .cancel ∨ l.dies event = true) ∧
    (l.phase ≠ .streaming → ∀ later,
      (l.run decoder later).delivered = l.delivered ∧ (l.run decoder later).counts = l.counts) ∧
    (l.phase.isTerminal = true → ∀ later, (l.run decoder later).phase = l.phase) ∧
    (∀ between later,
      let stopped := events ++ (.cancel :: between ++ .release :: later)
      (first.run decoder stopped).phase = l.teardown decoder ∧
      (first.published decoder stopped).getLast? = some (l.teardown decoder)) ∧
    (l.teardown decoder = .failed ↔ first.Died decoder events) ∧
    (¬ first.Died decoder events → l.teardown decoder = .closed) := by
  intro l seen
  obtain ⟨settings, _, _, same⟩ := establishedLink established
  have streams : first.phase = .streaming := by
    rw [same]
    rfl
  have passage : Link.Passage seen l.phase := Link.runPassage decoder streams events
  have begun : l.phase ≠ .established := Link.passageBegun passage
  have died : l.phase = .failed ↔ first.Died decoder events :=
    Link.failedDied decoder streams events
  have torn : l.teardown decoder = if l.phase = .failed then .failed else .closed :=
    Link.stoppedRun decoder begun [] []
  refine ⟨Link.passageOrder passage, Link.passageLast passage, Link.streamLeft decoder,
    fun left later => (Link.runSilent decoder left later).2, Link.runTerminal decoder, ?_, ?_, ?_⟩
  · intro between later stopped
    have phase : (first.run decoder stopped).phase = l.teardown decoder := by
      rw [torn, Link.runAppend]
      exact Link.stoppedRun decoder begun between later
    exact ⟨phase, phase ▸ Link.passageLast (Link.runPassage decoder streams stopped)⟩
  · rw [torn, ← died]
    by_cases failed : l.phase = .failed <;> simp [failed]
  · intro alive
    rw [torn, if_neg (mt died.mp alive)]

def overhead : Decoder Unit := fun _ station _ =>
  (.ok ⟨"A00001", 0, station.latitude, station.longitude, none, none, station⟩, ())

def moleEntry : Entry := ⟨"", "Mole", "40", "-75", "h", ""⟩

def moleLink : Link Unit := Link.start ⟨"S1", "Mole", 40, -75⟩ () Source.usual

def moleEvents : List Event := [.arrive (.octets [42, 48, 48, 59, newline]), .turn 1]

theorem moleEstablished : Link.establish moleEntry (fun _ => none) "S1" () = .ok moleLink := by
  have valid : moleEntry.validate = .ok ⟨"Mole", 40, -75, "h", 30002⟩ := by decide +kernel
  rw [Link.establish, valid]
  rfl

theorem moleTornDown :
    let l := moleLink.run overhead moleEvents
    let stopped := moleEvents ++ (.cancel :: [.hangUp, .turn 2] ++ .release :: [.answer true])
    l.awaiting = true ∧ l.delivered.length = 1 ∧ ¬ moleLink.Died overhead moleEvents ∧
    (moleLink.published overhead stopped).getLast? = some .closed ∧
    moleLink.published overhead stopped = [.streaming, .closing, .closed] ∧
    (moleLink.run overhead stopped).counts = ⟨1, 0, 0, 0, 0⟩ := by
  intro l stopped
  obtain ⟨_, _, _, _, _, torn, died, closes⟩ :=
    lifePublished overhead moleEntry (fun _ => none) "S1" () moleLink moleEstablished moleEvents
  have alive : ¬ moleLink.Died overhead moleEvents := fun dead =>
    absurd (died.mpr dead) (by decide +kernel)
  have last := (torn [.hangUp, .turn 2] [.answer true]).2
  rw [closes alive] at last
  exact ⟨by decide +kernel, by decide +kernel, alive, last, by decide +kernel, by decide +kernel⟩

end AirPicture.Feed
