import AirPicture.Feed.Lines

/-! What a reader finds in a source depends on the octets that are still to come and on
what follows them, not on how they are cut or buffered. Of each part of the reader it is
said here what it takes from such a stream and what it leaves. -/
namespace AirPicture.Feed
open Text (Octets)

inductive Ending where
  | standing
  | ended
  | failed
  deriving DecidableEq, Repr

def Ending.Follows (e : Ending) (standing : Bool) (later : List Arrival) : Prop :=
  match e with
  | .standing => standing = true ∧ later = []
  | .ended => standing = false ∧ later = []
  | .failed => ∃ after, later = .failure :: after

def Ending.pull : Ending → Pull
  | .standing => .waiting
  | .ended => .ended
  | .failed => .failed

def Ending.stop : Ending → Stop
  | .standing => .waiting
  | .ended => .ended
  | .failed => .failed

def Ending.reading (gathered : Segment) : Ending → Reading
  | .standing => .waiting
  | .ended => .segment gathered
  | .failed => .failed

def Source.Yields (s : Source) (stream : Octets) (e : Ending) : Prop :=
  ∃ (runs : List Octets) (later : List Arrival), (∀ run ∈ runs, run ≠ []) ∧
    stream = s.buffered ++ runs.flatten ∧
    s.arrivals = runs.map .octets ++ later ∧ e.Follows s.standing later

theorem closedYields (capacity : Nat) {runs : List Octets} (arrived : ∀ run ∈ runs, run ≠ []) :
    (Source.closed capacity (runs.map .octets)).Yields runs.flatten .ended :=
  ⟨runs, [], arrived, rfl, by simp [Source.closed], rfl, rfl⟩

theorem brokenYields (capacity : Nat) {runs : List Octets} (arrived : ∀ run ∈ runs, run ≠ [])
    (later : List Arrival) :
    (Source.closed capacity (runs.map .octets ++ .failure :: later)).Yields runs.flatten .failed :=
  ⟨runs, .failure :: later, arrived, rfl, rfl, later, rfl⟩

section Arriving
variable {s : Source} {stream : Octets}

theorem yieldsMore (yields : s.Yields stream .standing) {run : Octets} (some : run ≠ []) :
    ({ s with arrivals := s.arrivals ++ [.octets run] } : Source).Yields (stream ++ run)
      .standing := by
  obtain ⟨runs, later, arrived, whole, cut, stands, rfl⟩ := yields
  refine ⟨runs ++ [run], [], ?_, ?_, ?_, stands, rfl⟩
  · intro other inside
    rcases List.mem_append.mp inside with before | last
    · exact arrived other before
    · exact List.mem_singleton.mp last ▸ some
  · simp [whole]
  · simp [cut]

theorem yieldsEnd (yields : s.Yields stream .standing) :
    ({ s with standing := false } : Source).Yields stream .ended := by
  obtain ⟨runs, later, arrived, whole, cut, _, rfl⟩ := yields
  exact ⟨runs, [], arrived, whole, cut, rfl, rfl⟩

theorem yieldsBreak (yields : s.Yields stream .standing) :
    ({ s with arrivals := s.arrivals ++ [.failure] } : Source).Yields stream .failed := by
  obtain ⟨runs, later, arrived, whole, cut, _, rfl⟩ := yields
  exact ⟨runs, [.failure], arrived, whole, by simp [cut], [], rfl⟩

end Arriving

section Pulling
variable {s : Source} {stream : Octets} {e : Ending}

theorem yieldsRefill {b : UInt8} {run : Octets} {later : List Arrival}
    (empty : s.buffered = []) (front : s.arrivals = .octets (b :: run) :: later)
    (yields : s.Yields stream e) :
    ∃ rest, stream = b :: rest ∧ (s.refill run later).Yields rest e := by
  obtain ⟨runs, last, arrived, whole, cut, follows⟩ := yields
  cases runs with
  | nil =>
    rw [front, List.map_nil, List.nil_append] at cut
    subst last
    cases e with
    | standing => exact absurd follows.2 (by simp)
    | ended => exact absurd follows.2 (by simp)
    | failed =>
      obtain ⟨after, same⟩ := follows
      cases same
  | cons first runs =>
    rw [front, List.map_cons, List.cons_append] at cut
    obtain ⟨same, rfl⟩ := List.cons.inj cut
    cases Arrival.octets.inj same
    have others : ∀ other ∈ runs, other ≠ [] := fun other inside =>
      arrived other (List.mem_cons_of_mem _ inside)
    rw [empty, List.nil_append, List.flatten_cons, List.cons_append] at whole
    refine ⟨run ++ runs.flatten, whole, ?_⟩
    by_cases fits : run.length ≤ s.capacity - 1
    · exact ⟨runs, last, others, by simp [Source.refill, List.take_of_length_le fits],
        by simp [Source.refill, fits], follows⟩
    · refine ⟨run.drop (s.capacity - 1) :: runs, last, ?_, ?_, ?_, follows⟩
      · intro other inside
        rcases List.mem_cons.mp inside with rfl | inside
        · intro none
          exact fits (List.drop_eq_nil_iff.mp none)
        · exact others other inside
      · simp [Source.refill, ← List.append_assoc, List.take_append_drop]
      · simp [Source.refill, fits]

theorem pullOctet {b : UInt8} (yields : s.Yields (b :: stream) e) :
    ∃ after, s.pull = (.octet b, after) ∧ after.Yields stream e := by
  cases held : s.buffered with
  | cons first rest =>
    obtain ⟨runs, later, arrived, whole, cut, follows⟩ := yields
    rw [held, List.cons_append] at whole
    obtain ⟨rfl, same⟩ := List.cons.inj whole
    exact ⟨{ s with buffered := rest }, by simp [Source.pull, held],
      runs, later, arrived, same, cut, follows⟩
  | nil =>
    obtain ⟨runs, later, arrived, whole, cut, follows⟩ := id yields
    cases runs with
    | nil => simp [held] at whole
    | cons run runs =>
      cases run with
      | nil => exact absurd rfl (arrived [] List.mem_cons_self)
      | cons first run =>
        have front : s.arrivals = .octets (first :: run) :: (runs.map .octets ++ later) := cut
        obtain ⟨rest, same, left⟩ := yieldsRefill held front yields
        obtain ⟨rfl, rfl⟩ := List.cons.inj same
        exact ⟨s.refill run (runs.map .octets ++ later), by simp [Source.pull, held, front], left⟩

theorem yieldsNothing (yields : s.Yields [] e) :
    s.buffered = [] ∧ e.Follows s.standing s.arrivals := by
  obtain ⟨runs, later, arrived, whole, cut, follows⟩ := yields
  obtain ⟨held, none⟩ := List.append_eq_nil_iff.mp whole.symm
  cases runs with
  | nil => exact ⟨held, cut ▸ follows⟩
  | cons run runs =>
    have empty : run = [] := (List.append_eq_nil_iff.mp (List.flatten_cons ▸ none)).1
    exact absurd empty (arrived run List.mem_cons_self)

theorem pullEnding (yields : s.Yields [] e) :
    ∃ after, s.pull = (e.pull, after) ∧ (e ≠ .failed → after = s) := by
  obtain ⟨held, follows⟩ := yieldsNothing yields
  cases e with
  | standing =>
    obtain ⟨stands, none⟩ := follows
    exact ⟨s, by simp [Source.pull, held, none, stands, Ending.pull], fun _ => rfl⟩
  | ended =>
    obtain ⟨stands, none⟩ := follows
    exact ⟨s, by simp [Source.pull, held, none, stands, Ending.pull], fun _ => rfl⟩
  | failed =>
    obtain ⟨after, front⟩ := follows
    exact ⟨{ s with arrivals := after }, by simp [Source.pull, held, front, Ending.pull],
      fun apart => absurd rfl apart⟩

end Pulling

section Gathering
variable {e : Ending}

theorem chunkLine {body later : Octets} (plain : newline ∉ body) {room : Nat}
    (fits : body.length < room) {s : Source} (yields : s.Yields (body ++ newline :: later) e) :
    ∃ after, chunk room s = ⟨body ++ [newline], .newline, after⟩ ∧ after.Yields later e := by
  induction body generalizing room s with
  | nil =>
    cases room with
    | zero => simp at fits
    | succ room =>
      obtain ⟨after, pulled, left⟩ := pullOctet yields
      exact ⟨after, by simp [chunk, pulled], left⟩
  | cons b body ih =>
    have other := List.ne_of_not_mem_cons plain
    have rest := List.not_mem_of_not_mem_cons plain
    cases room with
    | zero => simp at fits
    | succ room =>
      obtain ⟨middle, pulled, between⟩ := pullOctet yields
      obtain ⟨after, gathered, left⟩ := ih rest (Nat.lt_of_succ_lt_succ fits) between
      exact ⟨after, by simp [chunk, pulled, Ne.symm other, gathered], left⟩

theorem chunkFull {body later : Octets} (plain : newline ∉ body) {s : Source}
    (yields : s.Yields (body ++ later) e) :
    ∃ after, chunk body.length s = ⟨body, .full, after⟩ ∧ after.Yields later e := by
  induction body generalizing s with
  | nil => exact ⟨s, rfl, yields⟩
  | cons b body ih =>
    have other := List.ne_of_not_mem_cons plain
    have rest := List.not_mem_of_not_mem_cons plain
    obtain ⟨middle, pulled, between⟩ := pullOctet yields
    obtain ⟨after, gathered, left⟩ := ih rest between
    exact ⟨after, by simp [chunk, pulled, Ne.symm other, gathered], left⟩

theorem chunkRest {tail : Octets} (plain : newline ∉ tail) {room : Nat}
    (fits : tail.length < room) {s : Source} (yields : s.Yields tail e) :
    ∃ after, chunk room s = ⟨tail, e.stop, after⟩ ∧ (e ≠ .failed → after.Yields [] e) := by
  induction tail generalizing room s with
  | nil =>
    cases room with
    | zero => simp at fits
    | succ room =>
      obtain ⟨after, pulled, same⟩ := pullEnding yields
      refine ⟨after, ?_, fun apart => same apart ▸ yields⟩
      cases e <;> simp [chunk, pulled, Ending.pull, Ending.stop]
  | cons b tail ih =>
    have other := List.ne_of_not_mem_cons plain
    have rest := List.not_mem_of_not_mem_cons plain
    cases room with
    | zero => simp at fits
    | succ room =>
      obtain ⟨middle, pulled, between⟩ := pullOctet yields
      obtain ⟨after, gathered, left⟩ := ih rest (Nat.lt_of_succ_lt_succ fits) between
      exact ⟨after, by simp [chunk, pulled, Ne.symm other, gathered], left⟩

theorem chunkCut {octets : Octets} (long : ¬ octets.length < longestLine + 1) :
    ∃ first rest, octets = first ++ rest ∧ first.length = longestLine + 1 :=
  ⟨octets.take (longestLine + 1), octets.drop (longestLine + 1),
    (List.take_append_drop _ _).symm, by rw [List.length_take]; omega⟩

theorem cutLength (first rest last : Octets) :
    (first ++ rest ++ last).length = first.length + (rest ++ last).length := by
  rw [List.append_assoc, List.length_append]

theorem discardFull {first rest : Octets} (plain : newline ∉ first)
    (size : first.length = longestLine + 1) (total : Nat) {s : Source}
    (yields : s.Yields (first ++ rest) e) :
    ∃ middle, middle.Yields rest e ∧ discard total s = discard (total + first.length) middle := by
  obtain ⟨middle, gathered, left⟩ := chunkFull plain yields
  rw [size] at gathered
  have some : first ≠ [] := List.ne_nil_of_length_eq_add_one size
  refine ⟨middle, left, ?_⟩
  rw [discard, gathered]
  simp only [some, ↓reduceIte]

theorem discardLine {body later : Octets} (plain : newline ∉ body) (total : Nat) {s : Source}
    (yields : s.Yields (body ++ newline :: later) e) :
    ∃ after, discard total s = (.segment (.oversized (total + (body ++ [newline]).length)), after) ∧
      after.Yields later e := by
  induction size : body.length using Nat.strongRecOn generalizing body total s with
  | ind n ih =>
    by_cases fits : body.length < longestLine + 1
    · obtain ⟨after, gathered, left⟩ := chunkLine plain fits yields
      exact ⟨after, by rw [discard, gathered], left⟩
    · obtain ⟨first, rest, rfl, full⟩ := chunkCut fits
      rw [List.append_assoc] at yields
      obtain ⟨middle, between, same⟩ :=
        discardFull (fun inside => plain (List.mem_append_left _ inside)) full total yields
      obtain ⟨after, discarded, left⟩ := ih rest.length (by simp [← size]; omega)
        (fun inside => plain (List.mem_append_right _ inside)) (total + first.length) between rfl
      refine ⟨after, ?_, left⟩
      rw [same, discarded, cutLength, Nat.add_assoc]

theorem discardRest {tail : Octets} (plain : newline ∉ tail) (total : Nat) {s : Source}
    (yields : s.Yields tail e) :
    ∃ after, discard total s = (e.reading (.oversized (total + tail.length)), after) ∧
      (e = .ended → after.Yields [] e) := by
  induction size : tail.length using Nat.strongRecOn generalizing tail total s with
  | ind n ih =>
    by_cases fits : tail.length < longestLine + 1
    · obtain ⟨after, gathered, left⟩ := chunkRest plain fits yields
      cases e with
      | standing => exact ⟨s, by rw [discard, gathered]; rfl, by simp⟩
      | failed => exact ⟨after, by rw [discard, gathered]; rfl, by simp⟩
      | ended =>
        have left := left (by simp)
        by_cases none : tail = []
        · subst tail
          refine ⟨after, ?_, fun _ => left⟩
          rw [discard, gathered]
          simp [Ending.stop, Ending.reading, ← size]
        · obtain ⟨last, again, finished⟩ := chunkRest (by simp) (Nat.succ_pos longestLine) left
          refine ⟨last, ?_, fun _ => finished (by simp)⟩
          rw [discard, gathered]
          simp only [Ending.stop, none, ↓reduceIte]
          rw [discard, again]
          simp [Ending.stop, Ending.reading, size]
    · obtain ⟨first, rest, rfl, full⟩ := chunkCut fits
      obtain ⟨middle, between, same⟩ :=
        discardFull (fun inside => plain (List.mem_append_left _ inside)) full total yields
      obtain ⟨after, discarded, left⟩ := ih rest.length (by simp [← size]; omega)
        (fun inside => plain (List.mem_append_right _ inside)) (total + first.length) between rfl
      refine ⟨after, ?_, left⟩
      rw [same, discarded, ← size, List.length_append, Nat.add_assoc]

end Gathering

def Segment.of (piece : Octets) : Segment :=
  if (piece.takeWhile (· ≠ newline)).length ≤ longestLine then .ofOctets piece
  else .oversized piece.length

theorem segmentLine {body : Octets} (plain : newline ∉ body) :
    Segment.of (body ++ [newline]) =
      if body.length ≤ longestLine then .ofOctets (body ++ [newline])
      else .oversized (body ++ [newline]).length := by
  have before : (body ++ [newline]).takeWhile (· ≠ newline) = body := by
    rw [List.takeWhile_append_of_pos]
    · simp
    · intro b inside
      exact decide_eq_true fun same => plain (same ▸ inside)
  rw [Segment.of, before]

theorem segmentRest {tail : Octets} (plain : newline ∉ tail) :
    Segment.of tail =
      if tail.length ≤ longestLine then .ofOctets tail else .oversized tail.length := by
  have before : tail.takeWhile (· ≠ newline) = tail := by
    rw [← List.append_nil tail, List.takeWhile_append_of_pos]
    · rfl
    · intro b inside
      exact decide_eq_true fun same => plain (same ▸ inside)
  rw [Segment.of, before]

section Reading
variable {s : Source} {e : Ending}

theorem readFull {first rest : Octets} (plain : newline ∉ first)
    (size : first.length = longestLine + 1) (yields : s.Yields (first ++ rest) e) :
    ∃ middle, middle.Yields rest e ∧ ∀ found after, discard first.length middle = (found, after) →
      readSegment s = (found, if found = .waiting then s else after) := by
  obtain ⟨middle, gathered, left⟩ := chunkFull plain yields
  rw [size] at gathered
  have some : first ≠ [] := List.ne_nil_of_length_eq_add_one size
  have long : ¬ first.length ≤ longestLine := by omega
  refine ⟨middle, left, fun found after discarded => ?_⟩
  rw [readSegment, gathered]
  simp only [some, long, ↓reduceIte, discarded]
  cases found <;> rfl

theorem readLine {body later : Octets} (plain : newline ∉ body)
    (yields : s.Yields (body ++ newline :: later) e) :
    ∃ after, readSegment s = (.segment (.of (body ++ [newline])), after) ∧
      after.Yields later e := by
  rw [segmentLine plain]
  by_cases fits : body.length < longestLine + 1
  · obtain ⟨after, gathered, left⟩ := chunkLine plain fits yields
    exact ⟨after, by rw [readSegment, gathered, if_pos (Nat.le_of_lt_succ fits)], left⟩
  · obtain ⟨first, rest, rfl, full⟩ := chunkCut fits
    rw [List.append_assoc] at yields
    obtain ⟨middle, between, same⟩ :=
      readFull (fun inside => plain (List.mem_append_left _ inside)) full yields
    obtain ⟨after, discarded, left⟩ :=
      discardLine (fun inside => plain (List.mem_append_right _ inside)) first.length between
    refine ⟨after, ?_, left⟩
    rw [same _ _ discarded, if_neg (fun short => fits (Nat.lt_succ_of_le short)), cutLength]
    rfl

theorem readRest {tail : Octets} (plain : newline ∉ tail) (yields : s.Yields tail e) :
    ∃ after, readSegment s =
        (if e = .ended ∧ tail = [] then .ended else e.reading (.of tail), after) ∧
      (e = .standing → after = s) ∧ (e = .ended → after.Yields [] e) := by
  rw [segmentRest plain]
  by_cases fits : tail.length < longestLine + 1
  · obtain ⟨after, gathered, left⟩ := chunkRest plain fits yields
    have short : tail.length ≤ longestLine := by omega
    cases e with
    | standing => exact ⟨s, by rw [readSegment, gathered]; rfl, fun _ => rfl, by simp⟩
    | failed => exact ⟨after, by rw [readSegment, gathered]; rfl, by simp, by simp⟩
    | ended =>
      refine ⟨after, ?_, by simp, fun _ => left (by simp)⟩
      rw [readSegment, gathered]
      by_cases none : tail = [] <;> simp [Ending.stop, Ending.reading, none, short]
  · obtain ⟨first, rest, rfl, full⟩ := chunkCut fits
    obtain ⟨middle, between, same⟩ :=
      readFull (fun inside => plain (List.mem_append_left _ inside)) full yields
    obtain ⟨after, discarded, left⟩ :=
      discardRest (fun inside => plain (List.mem_append_right _ inside)) first.length between
    have some : first ++ rest ≠ [] := by
      intro none
      simp [none] at fits
    have long : ¬ (first ++ rest).length ≤ longestLine := by omega
    have told := same _ _ discarded
    rw [← List.length_append] at told
    cases e with
    | standing => exact ⟨s, told, fun _ => rfl, by simp⟩
    | failed => exact ⟨after, told, by simp, by simp⟩
    | ended =>
      have more : ¬ (Ending.ended = .ended ∧ first ++ rest = []) := fun both => some both.2
      refine ⟨after, ?_, by simp, left⟩
      rw [if_neg more, if_neg long]
      exact told

end Reading

end AirPicture.Feed
