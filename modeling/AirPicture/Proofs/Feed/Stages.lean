import AirPicture.Proofs.Feed.Fates
import AirPicture.Proofs.Feed.Framing

/-! How far a link has taken its stream. At every moment of a run the segments that were taken
are the first pieces of what has arrived, and the source still yields the rest. -/
namespace AirPicture.Feed
open Text (Octets)

def Event.ofFeed : Event → Bool
  | .arrive _ | .hangUp => true
  | _ => false

def Ending.events : Ending → List Event
  | .standing => []
  | .ended => [.hangUp]
  | .failed => [.arrive .failure]

def feed (runs : List Octets) (e : Ending) : List Event :=
  runs.map (.arrive <| .octets ·) ++ e.events

theorem feedLast {runs : List Octets} {e : Ending} {first : List Event} {last : Event}
    (same : first ++ [last] = feed runs e) :
    (∃ earlier run, runs = earlier ++ [run] ∧ e = .standing ∧ last = .arrive (.octets run) ∧
      first = feed earlier .standing) ∨
    (e = .ended ∧ last = .hangUp ∧ first = feed runs .standing) ∨
    (e = .failed ∧ last = .arrive .failure ∧ first = feed runs .standing) := by
  cases e with
  | standing =>
    rcases List.eq_nil_or_concat runs with rfl | ⟨earlier, run, rfl⟩
    · simp [feed, Ending.events] at same
    · simp only [feed, Ending.events, List.concat_eq_append, List.map_append, List.append_nil,
        List.map_cons, List.map_nil] at same
      obtain ⟨before, ends⟩ := List.append_inj' same rfl
      exact .inl ⟨earlier, run, List.concat_eq_append .., rfl, List.singleton_inj.mp ends,
        by simp [before, feed, Ending.events]⟩
  | ended =>
    obtain ⟨before, ends⟩ := List.append_inj' same rfl
    exact .inr (.inl ⟨rfl, List.singleton_inj.mp ends, by simp [before, feed, Ending.events]⟩)
  | failed =>
    obtain ⟨before, ends⟩ := List.append_inj' same rfl
    exact .inr (.inr ⟨rfl, List.singleton_inj.mp ends, by simp [before, feed, Ending.events]⟩)

theorem feedNothing {runs : List Octets} {e : Ending} (none : [] = feed runs e) :
    runs = [] ∧ e = .standing := by
  obtain ⟨first, last⟩ := List.append_eq_nil_iff.mp none.symm
  refine ⟨List.map_eq_nil_iff.mp first, ?_⟩
  cases e with
  | standing => rfl
  | ended => contradiction
  | failed => contradiction

theorem piecesLines (bodies : List Octets) (tail : Octets) {e : Ending}
    (none : ¬ (e = .ended ∧ tail ≠ [])) : (pieces bodies tail e).map Segment.of =
      bodies.map fun body => .of (body ++ [newline]) := by
  rw [pieces, if_neg none, List.append_nil, List.map_map]
  rfl

/- How far a stream has been taken: some of its lines; all that there is before its end; or
the end itself. -/
inductive Stage (stream : Octets) (e : Ending) : List Segment → Source → Phase → Prop where
  | midway {done : List Octets} {rest : Octets} {s : Source} (plain : ∀ body ∈ done, newline ∉ body)
      (whole : stream = (done.map (· ++ [newline])).flatten ++ rest) (yields : s.Yields rest e) :
      Stage stream e (done.map fun body => .of (body ++ [newline])) s .streaming
  | drained {bodies : List Octets} {tail : Octets} {s : Source} (lines : Lines stream bodies tail)
      (ends : e = .ended) (yields : s.Yields [] e) :
      Stage stream e ((pieces bodies tail e).map .of) s .streaming
  | finished {bodies : List Octets} {tail : Octets} {s : Source} (lines : Lines stream bodies tail)
      (stops : e ≠ .standing) : Stage stream e ((pieces bodies tail e).map .of) s .failed

namespace Stage
variable {stream : Octets} {e : Ending} {taken : List Segment} {s : Source} {phase : Phase}

theorem standing (stage : Stage stream .standing taken s phase) :
    ∃ (done : List Octets) (rest : Octets), (∀ body ∈ done, newline ∉ body) ∧
      stream = (done.map (· ++ [newline])).flatten ++ rest ∧ s.Yields rest .standing ∧
      taken = done.map (fun body => .of (body ++ [newline])) ∧ phase = .streaming := by
  cases stage with
  | midway plain whole yields => exact ⟨_, _, plain, whole, yields, rfl, rfl⟩
  | drained _ ends => contradiction
  | finished _ stops => exact absurd rfl stops

theorem more (stage : Stage stream .standing taken s phase) {run : Octets} (some : run ≠ []) :
    Stage (stream ++ run) .standing taken { s with arrivals := s.arrivals ++ [.octets run] }
      phase := by
  obtain ⟨done, rest, plain, whole, yields, rfl, rfl⟩ := stage.standing
  exact .midway plain (by rw [whole, List.append_assoc]) (yieldsMore yields some)

theorem hangUp (stage : Stage stream .standing taken s phase) :
    Stage stream .ended taken { s with standing := false } phase := by
  obtain ⟨done, rest, plain, whole, yields, rfl, rfl⟩ := stage.standing
  exact .midway plain whole (yieldsEnd yields)

theorem fail (stage : Stage stream .standing taken s phase) :
    Stage stream .failed taken { s with arrivals := s.arrivals ++ [.failure] } phase := by
  obtain ⟨done, rest, plain, whole, yields, rfl, rfl⟩ := stage.standing
  exact .midway plain whole (yieldsBreak yields)

theorem linesFrom {done bodies : List Octets} {rest tail : Octets}
    (plain : ∀ body ∈ done, newline ∉ body)
    (whole : stream = (done.map (· ++ [newline])).flatten ++ rest)
    (lines : Lines rest bodies tail) : Lines stream (done ++ bodies) tail where
  whole := by rw [whole, lines.whole]; simp
  plain body inside := (List.mem_append.mp inside).elim (plain body) (lines.plain body)
  unended := lines.unended

theorem started (stage : Stage stream e taken s phase) :
    ∃ bodies tail, Lines stream bodies tail ∧ taken <+: (pieces bodies tail e).map .of := by
  cases stage with
  | midway plain whole yields =>
    rename_i done rest
    obtain ⟨bodies, tail, lines⟩ := linesExist rest
    refine ⟨done ++ bodies, tail, linesFrom plain whole lines, ?_⟩
    rw [pieces, List.map_append, List.map_append, List.map_append, List.map_map,
      List.append_assoc]
    exact List.prefix_append _ _
  | drained lines => exact ⟨_, _, lines, List.prefix_refl _⟩
  | finished lines => exact ⟨_, _, lines, List.prefix_refl _⟩

theorem turnLine {done : List Octets} {body more : Octets} {found : Reading} {after : Source}
    (plain : ∀ other ∈ done, newline ∉ other) (first : newline ∉ body)
    (whole : stream = (done.map (· ++ [newline])).flatten ++ (body ++ newline :: more))
    (yields : s.Yields (body ++ newline :: more) e) (read : readSegment s = (found, after)) :
    ∃ segment, found = .segment segment ∧
      Stage stream e ((done.map fun body => .of (body ++ [newline])) ++ [segment]) after
        .streaming := by
  obtain ⟨last, told, left⟩ := readLine first yields
  cases read.symm.trans told
  have both : ∀ other ∈ done ++ [body], newline ∉ other := fun other inside =>
    (List.mem_append.mp inside).elim (plain other) fun same => List.mem_singleton.mp same ▸ first
  have joined : stream = ((done ++ [body]).map (· ++ [newline])).flatten ++ more := by
    rw [whole]
    simp
  exact ⟨_, rfl, by simpa using midway both joined left⟩

theorem turnRest {done : List Octets} {rest : Octets} {found : Reading} {after : Source}
    (plain : ∀ other ∈ done, newline ∉ other)
    (whole : stream = (done.map (· ++ [newline])).flatten ++ rest) (lines : Lines stream done rest)
    (yields : s.Yields rest e) (read : readSegment s = (found, after)) :
    let taken := done.map fun body => Segment.of (body ++ [newline])
    (∃ segment, found = .segment segment ∧ Stage stream e (taken ++ [segment]) after .streaming) ∨
    (∀ segment, found ≠ .segment segment) ∧ Stage stream e taken after (Link.phaseUpon found) ∧
      ∃ bodies tail, Lines stream bodies tail ∧ taken = (pieces bodies tail e).map .of := by
  obtain ⟨last, told, stays, drains⟩ := readRest lines.unended yields
  cases e with
  | standing =>
    rw [if_neg (by simp), stays rfl] at told
    cases read.symm.trans told
    exact .inr ⟨by simp [Ending.reading], .midway plain whole yields, done, rest, lines,
      (piecesLines done rest (by simp)).symm⟩
  | failed =>
    rw [if_neg (by simp)] at told
    cases read.symm.trans told
    have all := piecesLines done rest (e := .failed) (by simp)
    exact .inr ⟨by simp [Ending.reading], all ▸ finished lines (by simp), done, rest, lines,
      all.symm⟩
  | ended =>
    -- an ended stream gives out what follows its last newline, if anything does
    by_cases none : rest = []
    · rw [if_pos ⟨rfl, none⟩] at told
      cases read.symm.trans told
      have all := piecesLines done rest (e := .ended) (by simp [none])
      exact .inr ⟨by simp, all ▸ finished lines (by simp), done, rest, lines, all.symm⟩
    · rw [if_neg (by simp [none])] at told
      cases read.symm.trans told
      have stage := drained lines rfl (drains rfl)
      rw [pieces, if_pos ⟨rfl, none⟩, List.map_append, List.map_map] at stage
      exact .inl ⟨_, rfl, stage⟩

theorem turn {found : Reading} {after : Source} (stage : Stage stream e taken s .streaming)
    (read : readSegment s = (found, after)) :
    (∃ segment, found = .segment segment ∧ Stage stream e (taken ++ [segment]) after .streaming) ∨
    (∀ segment, found ≠ .segment segment) ∧ Stage stream e taken after (Link.phaseUpon found) ∧
      ∃ bodies tail, Lines stream bodies tail ∧ taken = (pieces bodies tail e).map .of := by
  cases stage with
  | drained lines ends yields =>
    obtain ⟨last, told, _⟩ := readRest (by simp) yields
    rw [if_pos ⟨ends, rfl⟩] at told
    cases read.symm.trans told
    exact .inr ⟨by simp, .finished lines (by simp [ends]), _, _, lines, rfl⟩
  | midway plain whole yields =>
    rename_i done rest
    obtain ⟨bodies, tail, lines⟩ := linesExist rest
    cases bodies with
    | cons body bodies =>
      have cut : rest = body ++ newline :: ((bodies.map (· ++ [newline])).flatten ++ tail) := by
        simp [lines.whole]
      rw [cut] at whole yields
      exact .inl (turnLine plain (lines.plain body List.mem_cons_self) whole yields read)
    | nil =>
      obtain rfl : rest = tail := by simpa using lines.whole
      have lines := linesFrom plain whole lines
      rw [List.append_nil] at lines
      exact turnRest plain whole lines yields read

theorem phaseKnown (stage : Stage stream e taken s phase) :
    phase = .streaming ∨ phase = .failed := by
  cases stage with
  | midway => exact .inl rfl
  | drained => exact .inl rfl
  | finished => exact .inr rfl

theorem step {σ : Type} {decoder : Decoder σ} {l : Link σ} {event : Event}
    (stage : Stage stream e taken l.source l.phase) (inner : event.ofFeed = false)
    (kept : event ≠ .cancel) :
    Stage stream e (taken ++ (l.takes event).map Prod.fst) (l.step decoder event).source
      (l.step decoder event).phase := by
  cases event with
  | arrive arrival => contradiction
  | hangUp => contradiction
  | cancel => contradiction
  | turn timestamp =>
    by_cases free : l.phase = .streaming ∧ l.awaiting = false
    · rcases read : readSegment l.source with ⟨found, after⟩
      rw [free.1] at stage
      obtain ⟨segment, rfl, later⟩ | ⟨none, later, _⟩ := stage.turn read
      · obtain ⟨takes, same⟩ := Link.turnTakes decoder free read timestamp
        rw [takes, same]
        exact free.1.symm ▸ later
      · obtain ⟨takes, same⟩ := Link.turnStops decoder free read none timestamp
        rw [takes, same]
        simpa using later
    · rw [show l.takes (.turn timestamp) = [] from if_neg free,
        show l.step decoder (.turn timestamp) = l from if_neg free]
      simpa using stage
  | answer accepted =>
    have same : (l.step decoder (.answer accepted)).source = l.source ∧
        (l.step decoder (.answer accepted)).phase = l.phase := by
      simp only [Link.step]
      split <;> exact ⟨rfl, rfl⟩
    rw [same.1, same.2]
    simpa [Link.takes] using stage
  | release =>
    have same : l.step decoder .release = l := by
      rcases stage.phaseKnown with phase | phase <;> simp [Link.step, phase]
    rw [same]
    simpa [Link.takes] using stage

theorem spent {σ : Type} {l : Link σ} (stage : Stage stream e taken l.source l.phase)
    (settled : l.awaiting = false) (rest : l.ready = false) :
    ∃ bodies tail, Lines stream bodies tail ∧ taken = (pieces bodies tail e).map .of := by
  rcases stage.phaseKnown with phase | phase
  · rw [phase] at stage
    have waits : (readSegment l.source).1 = .waiting := by
      simpa [Link.ready, phase, settled] using rest
    obtain ⟨segment, found, _⟩ | ⟨_, _, all⟩ := stage.turn (Prod.ext waits rfl)
    · contradiction
    · exact all
  · rw [phase] at stage
    cases stage with
    | finished lines => exact ⟨_, _, lines, rfl⟩

end Stage

section Runs
variable {σ : Type} (decoder : Decoder σ) (station : Station) (memory : σ) (capacity : Nat)

theorem runStage {runs : List Octets} {e : Ending} {events : List Event}
    (arrived : ∀ run ∈ runs, run ≠ []) (fed : events.filter Event.ofFeed = feed runs e)
    (kept : .cancel ∉ events) :
    let l := Link.start station memory capacity
    Stage runs.flatten e ((l.taken decoder events).map Prod.fst) (l.run decoder events).source
      (l.run decoder events).phase := by
  intro l
  induction events using List.reverseRecOn generalizing runs e with
  | nil =>
    obtain ⟨rfl, rfl⟩ := feedNothing fed
    have nothing : (Source.mk capacity [] [] true).Yields [] .standing :=
      ⟨[], [], by simp, rfl, rfl, rfl, rfl⟩
    have stage := Stage.midway (List.forall_mem_nil (newline ∉ ·)) rfl nothing
    exact stage
  | append_singleton events event ih =>
    obtain ⟨before, last⟩ := Link.keptBefore kept
    rw [List.filter_append] at fed
    rw [Link.takenAfter, Link.runAfter, List.map_append]
    cases inner : event.ofFeed with
    | false =>
      rw [List.filter_singleton, inner] at fed
      exact (ih arrived (by simpa using fed) before).step inner last
    | true =>
      rw [List.filter_singleton, inner] at fed
      obtain ⟨earlier, run, rfl, rfl, rfl, first⟩ | ⟨rfl, rfl, first⟩ | ⟨rfl, rfl, first⟩ :=
        feedLast fed
      · have stage := (ih (fun run inside => arrived run (List.mem_append_left _ inside)) first
          before).more (arrived run (by simp))
        simpa [Link.takes, Link.step, Link.arrive] using stage
      · simpa [Link.takes, Link.step, Link.hangUp] using (ih arrived first before).hangUp
      · simpa [Link.takes, Link.step, Link.arrive] using (ih arrived first before).fail

end Runs

end AirPicture.Feed
