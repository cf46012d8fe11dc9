import Mathlib.Data.Bool.Count
import Mathlib.Data.List.Induction
import AirPicture.Feed.Delivery

/-! What a link has delivered and counted is told by the segments that it has taken and the
answers that it has heard. The fate of a segment is the decoder's to tell, whose memory goes
from one line to the next; no answer has a part in it. -/
namespace AirPicture.Feed

def Segment.isLine : Segment → Bool
  | .line _ => true
  | .oversized _ => false

structure Counts.Within (most : Nat) (c : Counts) : Prop where
  lines : c.lines ≤ most
  oversized : c.oversized ≤ most
  undecoded : c.undecoded ≤ most
  forwarded : c.forwarded ≤ most
  refused : c.refused ≤ most

inductive Fate where
  | oversized
  | blank
  | undecoded
  | sighted (sighting : Sighting)
  deriving DecidableEq, Repr

namespace Fate

def incidents : Fate → List Incident
  | .oversized => [.oversized]
  | .blank => [.line]
  | .undecoded => [.line, .undecoded]
  | .sighted _ => [.line]

def isBlank : Fate → Bool
  | .blank => true
  | _ => false

def isUndecoded : Fate → Bool
  | .undecoded => true
  | _ => false

def isSighted : Fate → Bool
  | .sighted _ => true
  | _ => false

def observation (timestamp : UInt64) : Fate → Option Observation
  | .sighted sighting => some (sighting.observe timestamp)
  | _ => none

end Fate

section Stories
variable {σ : Type} (decoder : Decoder σ) (station : Station)

def fate (memory : σ) : Segment → Fate × σ
  | .oversized _ => (.oversized, memory)
  | .line line =>
    match readPayload line with
    | .error _ => (.undecoded, memory)
    | .ok none => (.blank, memory)
    | .ok (some frame) =>
      match decoder memory station frame with
      | (.ok sighting, memory) => (.sighted sighting, memory)
      | (.error _, memory) => (.undecoded, memory)

def story : σ → List (Segment × UInt64) → List (Fate × UInt64)
  | _, [] => []
  | memory, (segment, timestamp) :: later =>
    let (fate, memory) := fate decoder station memory segment
    (fate, timestamp) :: story memory later

def learned (memory : σ) (taken : List (Segment × UInt64)) : σ :=
  taken.foldl (fun memory segment => (fate decoder station memory segment.1).2) memory

def observations (memory : σ) (taken : List (Segment × UInt64)) : List Observation :=
  (story decoder station memory taken).filterMap fun told => told.1.observation told.2

def tally (memory : σ) (taken : List (Segment × UInt64)) (heard : List Bool) : Counts where
  lines := taken.countP (·.1.isLine)
  oversized := taken.countP (!·.1.isLine)
  undecoded := (story decoder station memory taken).countP (·.1.isUndecoded)
  forwarded := heard.count true
  refused := heard.count false

def blanks (memory : σ) (taken : List (Segment × UInt64)) : Nat :=
  (story decoder station memory taken).countP (·.1.isBlank)

variable (memory : σ) (taken : List (Segment × UInt64)) (heard : List Bool)

theorem storyLength : (story decoder station memory taken).length = taken.length := by
  induction taken generalizing memory with
  | nil => rfl
  | cons first taken ih => exact congrArg Nat.succ (ih _)

theorem tallyWithin {most : Nat} (few : taken.length ≤ most) (told : heard.length ≤ most) :
    (tally decoder station memory taken heard).Within most where
  lines := List.countP_le_length.trans few
  oversized := List.countP_le_length.trans few
  undecoded := List.countP_le_length.trans (storyLength decoder station memory taken ▸ few)
  forwarded := List.count_le_length.trans told
  refused := List.count_le_length.trans told

theorem learnedTaken (segment : Segment) (timestamp : UInt64) :
    learned decoder station memory (taken ++ [(segment, timestamp)]) =
      (fate decoder station (learned decoder station memory taken) segment).2 := by
  simp [learned]

theorem storyTaken (segment : Segment) (timestamp : UInt64) :
    story decoder station memory (taken ++ [(segment, timestamp)]) =
      story decoder station memory taken ++
        [((fate decoder station (learned decoder station memory taken) segment).1, timestamp)] := by
  induction taken generalizing memory with
  | nil => rfl
  | cons first taken ih => exact congrArg (_ :: ·) (ih _)

theorem observationsTaken (segment : Segment) (timestamp : UInt64) :
    observations decoder station memory (taken ++ [(segment, timestamp)]) =
      observations decoder station memory taken ++ ((fate decoder station
        (learned decoder station memory taken) segment).1.observation timestamp).toList := by
  rw [observations, storyTaken, List.filterMap_append]
  rfl

theorem fateOversized (segment : Segment) :
    (fate decoder station memory segment).1 = .oversized ↔ segment.isLine = false := by
  cases segment with
  | oversized octets => simp [fate, Segment.isLine]
  | line text =>
    simp only [fate, Segment.isLine, Bool.true_eq_false, iff_false]
    split
    · simp
    · simp
    · split <;> simp

theorem linesSorted : taken.countP (·.1.isLine) = blanks decoder station memory taken +
    (story decoder station memory taken).countP (·.1.isUndecoded) +
      (observations decoder station memory taken).length := by
  induction taken generalizing memory with
  | nil => rfl
  | cons first taken ih =>
    obtain ⟨segment, timestamp⟩ := first
    have oversized := fateOversized decoder station memory segment
    have later := ih (fate decoder station memory segment).2
    simp only [observations, blanks] at later ⊢
    simp only [story, List.countP_cons, List.filterMap_cons, later]
    generalize (fate decoder station memory segment).1 = told at oversized ⊢
    cases told with
    | oversized =>
      simp [oversized.mp rfl, Fate.isBlank, Fate.isUndecoded, Fate.observation]
    | blank =>
      have line : segment.isLine = true := by simpa using oversized
      simp only [line, Fate.isBlank, Fate.isUndecoded, Fate.observation, Bool.false_eq_true,
        ↓reduceIte]
      omega
    | undecoded =>
      have line : segment.isLine = true := by simpa using oversized
      simp only [line, Fate.isBlank, Fate.isUndecoded, Fate.observation, Bool.false_eq_true,
        ↓reduceIte]
      omega
    | sighted sighting =>
      have line : segment.isLine = true := by simpa using oversized
      simp only [line, Fate.isBlank, Fate.isUndecoded, Fate.observation, Bool.false_eq_true,
        ↓reduceIte, List.length_cons]
      omega

theorem tallyTaken (segment : Segment) (timestamp : UInt64) :
    tally decoder station memory (taken ++ [(segment, timestamp)]) heard =
      (fate decoder station (learned decoder station memory taken) segment).1.incidents.foldl
        Counts.record (tally decoder station memory taken heard) := by
  have oversized :=
    fateOversized decoder station (learned decoder station memory taken) segment
  simp only [tally, storyTaken, List.countP_append, List.countP_singleton]
  generalize (fate decoder station (learned decoder station memory taken) segment).1 = told
    at oversized ⊢
  cases told with
  | oversized => simp [oversized.mp rfl, Fate.incidents, Fate.isUndecoded, Counts.record]
  | blank =>
    have line : segment.isLine = true := by simpa using oversized
    simp [line, Fate.incidents, Fate.isUndecoded, Counts.record]
  | undecoded =>
    have line : segment.isLine = true := by simpa using oversized
    simp [line, Fate.incidents, Fate.isUndecoded, Counts.record]
  | sighted sighting =>
    have line : segment.isLine = true := by simpa using oversized
    simp [line, Fate.incidents, Fate.isUndecoded, Counts.record]

end Stories

def Incident.ofAnswer (accepted : Bool) : Incident := if accepted then .forwarded else .refused

theorem tallyHeard {σ : Type} (decoder : Decoder σ) (station : Station) (memory : σ)
    (taken : List (Segment × UInt64)) (heard : List Bool) (accepted : Bool) :
    tally decoder station memory taken (heard ++ [accepted]) =
      (tally decoder station memory taken heard).record (.ofAnswer accepted) := by
  cases accepted <;> simp [tally, Incident.ofAnswer, Counts.record, List.count_append]

namespace Link
variable {σ : Type} (decoder : Decoder σ)

def takes (l : Link σ) : Event → List (Segment × UInt64)
  | .turn timestamp =>
    if l.phase = .streaming ∧ l.awaiting = false then
      match (readSegment l.source).1 with
      | .segment segment => [(segment, timestamp)]
      | _ => []
    else []
  | _ => []

def hears (l : Link σ) : Event → List Bool
  | .answer accepted => if l.phase = .streaming ∧ l.awaiting = true then [accepted] else []
  | _ => []

/- The counters change one at a time, and can be looked at in between. -/
def incidents (l : Link σ) (event : Event) : List Incident :=
  (story decoder l.station l.memory (l.takes event)).flatMap (·.1.incidents) ++
    (l.hears event).map .ofAnswer

def trail {α : Type} (look : Link σ → Event → List α) : Link σ → List Event → List α
  | _, [] => []
  | l, event :: later => look l event ++ trail look (l.step decoder event) later

def taken (l : Link σ) (events : List Event) : List (Segment × UInt64) :=
  l.trail decoder takes events

def heard (l : Link σ) (events : List Event) : List Bool := l.trail decoder hears events

theorem runAppend (l : Link σ) (first later : List Event) :
    l.run decoder (first ++ later) = (l.run decoder first).run decoder later := List.foldl_append

theorem trailAppend {α : Type} (look : Link σ → Event → List α) (l : Link σ)
    (first later : List Event) : l.trail decoder look (first ++ later) =
      l.trail decoder look first ++ (l.run decoder first).trail decoder look later := by
  induction first generalizing l with
  | nil => rfl
  | cons event first ih =>
    simp only [List.cons_append, trail, ih, List.append_assoc]
    rfl

theorem trailLength {α : Type} {look : Link σ → Event → List α}
    (one : ∀ l event, (look l event).length ≤ 1) (l : Link σ) (events : List Event) :
    (l.trail decoder look events).length ≤ events.length := by
  induction events generalizing l with
  | nil => exact Nat.le_refl 0
  | cons event later ih =>
    rw [trail, List.length_append, List.length_cons, Nat.add_comm]
    exact Nat.add_le_add (ih _) (one l event)

theorem takesOne (l : Link σ) (event : Event) : (l.takes event).length ≤ 1 := by
  cases event with
  | turn timestamp =>
    rw [takes]
    split
    · split
      · exact Nat.le_refl 1
      · exact Nat.zero_le 1
    · exact Nat.zero_le 1
  | _ => exact Nat.zero_le 1

theorem hearsOne (l : Link σ) (event : Event) : (l.hears event).length ≤ 1 := by
  cases event with
  | answer accepted =>
    rw [hears]
    split
    · exact Nat.le_refl 1
    · exact Nat.zero_le 1
  | _ => exact Nat.zero_le 1

theorem runAfter (l : Link σ) (events : List Event) (event : Event) :
    l.run decoder (events ++ [event]) = (l.run decoder events).step decoder event :=
  runAppend decoder l events [event]

theorem takenAfter (l : Link σ) (events : List Event) (event : Event) :
    l.taken decoder (events ++ [event]) =
      l.taken decoder events ++ (l.run decoder events).takes event := by
  rw [taken, trailAppend, trail, trail, List.append_nil]
  rfl

theorem heardAfter (l : Link σ) (events : List Event) (event : Event) :
    l.heard decoder (events ++ [event]) =
      l.heard decoder events ++ (l.run decoder events).hears event := by
  rw [heard, trailAppend, trail, trail, List.append_nil]
  rfl

section Turning
variable {l : Link σ} {after : Source}

theorem turnReads (free : l.phase = .streaming ∧ l.awaiting = false) (timestamp : UInt64) :
    l.step decoder (.turn timestamp) = l.takeTurn decoder timestamp := if_pos free

theorem turnTakes {segment : Segment} (free : l.phase = .streaming ∧ l.awaiting = false)
    (read : readSegment l.source = (.segment segment, after)) (timestamp : UInt64) :
    l.takes (.turn timestamp) = [(segment, timestamp)] ∧
    l.step decoder (.turn timestamp) =
      let told := fate decoder l.station l.memory segment
      { l with
        source := after
        counts := told.1.incidents.foldl Counts.record l.counts
        memory := told.2
        awaiting := told.1.isSighted
        delivered := l.delivered ++ (told.1.observation timestamp).toList } := by
  refine ⟨by simp [takes, free, read], ?_⟩
  rw [turnReads decoder free, takeTurn, read]
  obtain ⟨_, settled⟩ := free
  cases segment with
  | oversized octets =>
    simp [record, fate, Fate.incidents, Fate.isSighted, Fate.observation, settled]
  | line text =>
    cases parsed : readPayload text with
    | error fault =>
      simp [handleLine, record, fate, parsed, Fate.incidents, Fate.isSighted, Fate.observation,
        settled]
    | ok carried =>
      cases carried with
      | none =>
        simp [handleLine, record, fate, parsed, Fate.incidents, Fate.isSighted, Fate.observation,
          settled]
      | some frame =>
        rcases decoded : decoder l.memory l.station frame with ⟨fault | sighting, memory⟩
        · simp [handleLine, record, fate, parsed, decoded, Fate.incidents, Fate.isSighted,
            Fate.observation, settled]
        · simp [handleLine, record, deliver, fate, parsed, decoded, Fate.incidents,
            Fate.isSighted, Fate.observation]

def phaseUpon : Reading → Phase
  | .ended | .failed => .failed
  | .segment _ | .waiting => .streaming

theorem turnStops {found : Reading} (free : l.phase = .streaming ∧ l.awaiting = false)
    (read : readSegment l.source = (found, after)) (none : ∀ segment, found ≠ .segment segment)
    (timestamp : UInt64) :
    l.takes (.turn timestamp) = [] ∧
    l.step decoder (.turn timestamp) = { l with source := after, phase := phaseUpon found } := by
  rw [turnReads decoder free, takeTurn, takes, if_pos free, read]
  obtain ⟨streaming, _⟩ := free
  cases found with
  | segment segment => exact absurd rfl (none segment)
  | ended => exact ⟨rfl, rfl⟩
  | failed => exact ⟨rfl, rfl⟩
  | waiting => exact ⟨rfl, by simp [phaseUpon, ← streaming]⟩

theorem answerHeard (busy : l.phase = .streaming ∧ l.awaiting = true) (accepted : Bool) :
    l.takes (.answer accepted) = [] ∧ l.hears (.answer accepted) = [accepted] ∧
    l.step decoder (.answer accepted) =
      { l with counts := l.counts.record (.ofAnswer accepted), awaiting := false } :=
  ⟨rfl, if_pos busy, if_pos busy⟩

theorem stepCases (l : Link σ) {event : Event} (kept : event ≠ .cancel) :
    (∃ segment timestamp after, event = .turn timestamp ∧
      (l.phase = .streaming ∧ l.awaiting = false) ∧
      readSegment l.source = (.segment segment, after)) ∨
    (∃ accepted, event = .answer accepted ∧ l.phase = .streaming ∧ l.awaiting = true) ∨
    l.takes event = [] ∧ l.hears event = [] ∧ ∃ source phase,
      (l.phase = .streaming ∧ l.awaiting = true → phase = .streaming) ∧
      l.step decoder event = { l with source, phase } := by
  cases event with
  | arrive arrival => exact .inr (.inr ⟨rfl, rfl, _, l.phase, And.left, rfl⟩)
  | hangUp => exact .inr (.inr ⟨rfl, rfl, _, l.phase, And.left, rfl⟩)
  | turn timestamp =>
    by_cases free : l.phase = .streaming ∧ l.awaiting = false
    · rcases read : readSegment l.source with ⟨found, after⟩
      by_cases some : ∃ segment, found = .segment segment
      · obtain ⟨segment, rfl⟩ := some
        exact .inl ⟨segment, timestamp, after, rfl, free, rfl⟩
      · obtain ⟨none, step⟩ := turnStops decoder free read
          (fun segment same => some ⟨segment, same⟩) timestamp
        exact .inr (.inr ⟨none, rfl, after, phaseUpon found,
          fun waits => absurd waits.2 (by simp [free.2]), step⟩)
    · exact .inr (.inr ⟨if_neg free, rfl, l.source, l.phase, And.left, if_neg free⟩)
  | answer accepted =>
    by_cases busy : l.phase = .streaming ∧ l.awaiting = true
    · exact .inr (.inl ⟨accepted, rfl, busy⟩)
    · exact .inr (.inr ⟨rfl, if_neg busy, l.source, l.phase, And.left, if_neg busy⟩)
  | cancel => contradiction
  | release =>
    refine .inr (.inr ⟨rfl, rfl, l.source, if l.phase = .closing then .closed else l.phase, ?_, ?_⟩)
    · intro busy
      simp [busy.1]
    · simp only [step]
      split <;> rfl

end Turning

structure Account (decoder : Decoder σ) (memory : σ) (taken : List (Segment × UInt64))
    (heard : List Bool) (l : Link σ) : Prop where
  learns : l.memory = learned decoder l.station memory taken
  delivered : l.delivered = observations decoder l.station memory taken
  counts : l.counts = tally decoder l.station memory taken heard
  answered : heard.length + l.awaiting.toNat = l.delivered.length
  streaming : l.awaiting = true → l.phase = .streaming

section Accounts
variable {decoder} {memory : σ} {taken : List (Segment × UInt64)} {heard : List Bool} {l : Link σ}

theorem startAccount (station : Station) (memory : σ) (capacity : Nat) :
    Account decoder memory [] [] (start station memory capacity) where
  learns := rfl
  delivered := rfl
  counts := rfl
  answered := rfl
  streaming _ := rfl

theorem sightedObserved (told : Fate) (timestamp : UInt64) :
    told.isSighted = (told.observation timestamp).isSome := by
  cases told <;> rfl

theorem observedLength (told : Fate) (timestamp : UInt64) :
    (told.observation timestamp).toList.length = told.isSighted.toNat := by
  cases told <;> rfl

theorem stepAccount (account : Account decoder memory taken heard l) {event : Event}
    (kept : event ≠ .cancel) :
    Account decoder memory (taken ++ l.takes event) (heard ++ l.hears event)
      (l.step decoder event) := by
  obtain ⟨segment, timestamp, after, rfl, free, read⟩ | ⟨accepted, rfl, busy⟩ |
    ⟨takes, hears, source, phase, busy, same⟩ := stepCases decoder l kept
  · obtain ⟨takes, same⟩ := turnTakes decoder free read timestamp
    have learns := account.learns
    rw [takes, same, show l.hears (.turn timestamp) = [] from rfl]
    refine ⟨?_, ?_, ?_, ?_, fun _ => free.1⟩
    · rw [learnedTaken, ← learns]
    · rw [observationsTaken, ← learns, account.delivered]
    · rw [List.append_nil, tallyTaken, ← learns, account.counts]
    · have before := account.answered
      simp only [free.2, Bool.toNat_false, Nat.add_zero] at before
      rw [List.append_nil, List.length_append, observedLength, before]
  · obtain ⟨takes, hears, same⟩ := answerHeard decoder busy accepted
    rw [takes, hears, same, List.append_nil]
    refine ⟨account.learns, account.delivered, ?_, ?_, fun waiting => ?_⟩
    · rw [tallyHeard, account.counts]
    · have before := account.answered
      simp only [busy.2] at before
      simpa using before
    · contradiction
  · rw [takes, hears, same, List.append_nil, List.append_nil]
    exact { account with streaming := fun waiting => busy ⟨account.streaming waiting, waiting⟩ }

theorem keptBefore {events : List Event} {event : Event} (kept : .cancel ∉ events ++ [event]) :
    .cancel ∉ events ∧ event ≠ .cancel :=
  ⟨fun inside => kept (List.mem_append_left _ inside), fun same => kept (by simp [same])⟩

theorem runStation (decoder : Decoder σ) (l : Link σ) {events : List Event}
    (kept : .cancel ∉ events) :
    (l.run decoder events).station = l.station := by
  induction events using List.reverseRecOn with
  | nil => rfl
  | append_singleton events event ih =>
    obtain ⟨before, last⟩ := keptBefore kept
    rw [← ih before, runAfter]
    obtain ⟨segment, timestamp, after, rfl, free, read⟩ | ⟨accepted, rfl, busy⟩ |
      ⟨_, _, source, phase, _, same⟩ := stepCases decoder (l.run decoder events) last
    · rw [(turnTakes decoder free read timestamp).2]
    · rw [(answerHeard decoder busy accepted).2.2]
    · rw [same]

theorem runAccount (decoder : Decoder σ) (station : Station) (memory : σ) (capacity : Nat)
    {events : List Event} (kept : .cancel ∉ events) :
    let l := start station memory capacity
    Account decoder memory (l.taken decoder events) (l.heard decoder events)
      (l.run decoder events) := by
  intro l
  induction events using List.reverseRecOn with
  | nil => exact startAccount station memory capacity
  | append_singleton events event ih =>
    obtain ⟨before, last⟩ := keptBefore kept
    rw [takenAfter, heardAfter, runAfter]
    exact stepAccount (ih before) last

theorem turnIncidents {segment : Segment} {after : Source}
    (free : l.phase = .streaming ∧ l.awaiting = false)
    (read : readSegment l.source = (.segment segment, after)) (timestamp : UInt64) :
    l.incidents decoder (.turn timestamp) =
      (fate decoder l.station l.memory segment).1.incidents := by
  rw [incidents, (turnTakes decoder free read timestamp).1]
  simp [story, hears]

theorem answerIncidents (busy : l.phase = .streaming ∧ l.awaiting = true) (accepted : Bool) :
    l.incidents decoder (.answer accepted) = [.ofAnswer accepted] := by
  obtain ⟨takes, hears, _⟩ := answerHeard decoder busy accepted
  rw [incidents, takes, hears]
  rfl

theorem stepIncidents (l : Link σ) {event : Event} (kept : event ≠ .cancel) :
    (l.step decoder event).counts = (l.incidents decoder event).foldl Counts.record l.counts := by
  obtain ⟨segment, timestamp, after, rfl, free, read⟩ | ⟨accepted, rfl, busy⟩ |
    ⟨takes, hears, source, phase, _, same⟩ := stepCases decoder l kept
  · rw [turnIncidents free read, (turnTakes decoder free read timestamp).2]
  · rw [answerIncidents busy, (answerHeard decoder busy accepted).2.2]
    rfl
  · rw [incidents, takes, hears, same]
    rfl

theorem accountBalanced (account : Account decoder memory taken heard l) :
    l.counts.lines = blanks decoder l.station memory taken + l.counts.undecoded +
      l.counts.forwarded + l.counts.refused + l.awaiting.toNat := by
  have sorted := linesSorted decoder l.station memory taken
  have answers := List.count_true_add_count_false heard
  have answered := account.answered
  rw [account.delivered] at answered
  rw [account.counts]
  simp only [tally] at sorted answers answered ⊢
  omega

def underway (l : Link σ) : List Incident → Nat
  | [] => l.awaiting.toNat
  | [.line] => 1
  | _ => 0

theorem incidentsBegun {told : Fate} {part : List Incident} (begun : part <+: told.incidents) :
    part = [] ∨ part = [.oversized] ∨ part = [.line] ∨ part = [.line, .undecoded] := by
  cases told <;> simp only [Fate.incidents, List.prefix_cons_iff, List.prefix_nil] at begun
  · rcases begun with rfl | ⟨_, rfl, rfl⟩ <;> simp
  · rcases begun with rfl | ⟨_, rfl, rfl⟩ <;> simp
  · rcases begun with rfl | ⟨_, rfl, rfl | ⟨_, rfl, rfl⟩⟩ <;> simp
  · rcases begun with rfl | ⟨_, rfl, rfl⟩ <;> simp

theorem momentBalanced (account : Account decoder memory taken heard l) {event : Event}
    (kept : event ≠ .cancel) {part : List Incident} (begun : part <+: l.incidents decoder event) :
    (part.foldl Counts.record l.counts).lines =
      blanks decoder l.station memory taken + (part.foldl Counts.record l.counts).undecoded +
        (part.foldl Counts.record l.counts).forwarded +
          (part.foldl Counts.record l.counts).refused + l.underway part := by
  have balanced := accountBalanced account
  obtain ⟨segment, timestamp, after, rfl, free, read⟩ | ⟨accepted, rfl, busy⟩ |
    ⟨takes, hears, _⟩ := stepCases decoder l kept
  · rw [turnIncidents free read] at begun
    have settled : l.awaiting.toNat = 0 := congrArg Bool.toNat free.2
    rcases incidentsBegun begun with rfl | rfl | rfl | rfl
    · exact balanced
    · simp only [List.foldl_cons, List.foldl_nil, Counts.record, underway]
      omega
    · simp only [List.foldl_cons, List.foldl_nil, Counts.record, underway]
      omega
    · simp only [List.foldl_cons, List.foldl_nil, Counts.record, underway]
      omega
  · rw [answerIncidents busy] at begun
    have waits : l.awaiting.toNat = 1 := congrArg Bool.toNat busy.2
    rcases List.prefix_cons_iff.mp begun with rfl | ⟨rest, rfl, none⟩
    · exact balanced
    · rw [List.prefix_nil.mp none]
      cases accepted <;>
        simp only [List.foldl_cons, List.foldl_nil, Counts.record, underway, Incident.ofAnswer,
          Bool.false_eq_true, ↓reduceIte] <;> omega
  · rw [incidents, takes, hears] at begun
    rw [List.prefix_nil.mp begun]
    exact balanced

end Accounts

end Link

end AirPicture.Feed
