import AirPicture.Feed.Link

/-! A link together with the consumer of its observations. The consumer is a state machine
that accepts or refuses each observation, or never answers. What has arrived is handled
until the link waits for more of the feed or for an answer that does not come. -/
namespace AirPicture.Feed

inductive Outcome where
  | accepted
  | refused
  | stalled
  deriving DecidableEq, Repr

abbrev Consumer (γ : Type) := γ → Observation → Outcome × γ

def forward {γ : Type} (consumer : Consumer γ) (c : γ) (sighting : Sighting) (timestamp : UInt64) :
    Bool × γ :=
  let (outcome, c) := consumer c (sighting.observe timestamp)
  (outcome == .accepted, c)

def scripted : Consumer (List Outcome)
  | [], _ => (.accepted, [])
  | outcome :: rest, _ => (outcome, rest)

def unreachable : Consumer Unit := fun _ _ => (.refused, ())

namespace Link
variable {σ γ : Type}

def meet (decoder : Decoder σ) (consumer : Consumer γ) (l : Link σ) (c : γ) : Link σ × γ :=
  match l.awaiting, l.delivered.getLast? with
  | true, some observation =>
    match consumer c observation with
    | (.accepted, c) => (l.step decoder (.answer true), c)
    | (.refused, c) => (l.step decoder (.answer false), c)
    | (.stalled, c) => (l, c)
  | _, _ => (l, c)

def ready (l : Link σ) : Bool :=
  l.phase == .streaming && !l.awaiting && (readSegment l.source).1 != .waiting

def advance (decoder : Decoder σ) (consumer : Consumer γ) (l : Link σ) (c : γ) : Link σ × γ :=
  (l.step decoder (.turn 0)).meet decoder consumer c

def work (l : Link σ) : Nat := l.source.size + (if l.phase = .streaming then 1 else 0)

def settle (decoder : Decoder σ) (consumer : Consumer γ) : Nat → Link σ → γ → Link σ × γ
  | 0, l, c => (l, c)
  | turns + 1, l, c =>
    if l.ready then
      let (l, c) := l.advance decoder consumer c
      settle decoder consumer turns l c
    else (l, c)

def handle (decoder : Decoder σ) (consumer : Consumer γ) (l : Link σ) (c : γ) : Link σ × γ :=
  settle decoder consumer l.work l c

end Link

end AirPicture.Feed
