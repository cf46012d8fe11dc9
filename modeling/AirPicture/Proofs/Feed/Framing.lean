import AirPicture.Proofs.Feed.Stream

/-! The readings of a whole stream are its pieces between newlines, however it is cut, and
the buffer in which they are gathered never holds more than the longest line and a newline. -/
namespace AirPicture.Feed
open Text (Octets)

/- A reader at work: how much it has discarded if the line is too long, what its buffer
holds, and the source. -/
structure Gathering where
  discarded : Option Nat
  buffer : Octets
  source : Source

inductive Moment where
  | next (g : Gathering)
  | done (r : Reading) (rest : Source)

namespace Gathering

def start (s : Source) : Gathering := ⟨none, [], s⟩

def cutShort (discarded : Option Nat) (buffer : Octets) (rest : Source) : Moment :=
  match discarded with
  | none =>
    if buffer = [] then .done .ended rest
    else if buffer.length ≤ longestLine then .done (.segment (.ofOctets buffer)) rest
    else .next ⟨some buffer.length, [], rest⟩
  | some total =>
    if buffer = [] then .done (.segment (.oversized total)) rest
    else .next ⟨some (total + buffer.length), [], rest⟩

def complete (discarded : Option Nat) (buffer : Octets) (stop : Stop) (rest : Source) : Moment :=
  match stop with
  | .failed => .done .failed rest
  | .waiting => .done .waiting rest
  | .newline => match discarded with
    | none => .done (.segment (.ofOctets buffer)) rest
    | some total => .done (.segment (.oversized (total + buffer.length))) rest
  | .full | .ended => cutShort discarded buffer rest

def step (g : Gathering) : Moment :=
  if g.buffer.getLast? = some newline then complete g.discarded g.buffer .newline g.source
  else if longestLine < g.buffer.length then complete g.discarded g.buffer .full g.source
  else match g.source.pull with
    | (.octet b, rest) => .next { g with buffer := g.buffer ++ [b], source := rest }
    | (.ended, rest) => complete g.discarded g.buffer .ended rest
    | (.failed, rest) => complete g.discarded g.buffer .failed rest
    | (.waiting, rest) => complete g.discarded g.buffer .waiting rest

inductive Runs : Gathering → List Octets → Reading → Source → Prop where
  | done {g r rest} (last : g.step = .done r rest) : Runs g [g.buffer] r rest
  | next {g later held r rest} (on : g.step = .next later) (runs : Runs later held r rest) :
      Runs g (g.buffer :: held) r rest

theorem completeBuffer {discarded : Option Nat} {buffer : Octets} {stop : Stop} {rest : Source}
    {later : Gathering} (on : complete discarded buffer stop rest = .next later) :
    later.buffer = [] := by
  unfold complete cutShort at on
  repeat' split at on
  all_goals first
    | contradiction
    | cases Moment.next.inj on
      rfl

theorem stepBound {g later : Gathering} (on : g.step = .next later) :
    later.buffer.length ≤ longestLine + 1 := by
  unfold step at on
  split at on
  · simp [completeBuffer on]
  · split at on
    · simp [completeBuffer on]
    · rename_i short
      split at on
      · cases Moment.next.inj on
        simp only [List.length_append, List.length_singleton]
        omega
      all_goals simp [completeBuffer on]

theorem runsBound {g : Gathering} {held : List Octets} {r : Reading} {rest : Source}
    (runs : g.Runs held r rest) (first : g.buffer.length ≤ longestLine + 1) :
    ∀ buffer ∈ held, buffer.length ≤ longestLine + 1 := by
  induction runs with
  | done last => simpa using first
  | next on _ ih => simpa using ⟨first, ih (stepBound on)⟩

def Leads : Moment → Reading → Source → Prop
  | .done r rest, found, after => r = found ∧ rest = after
  | .next g, found, after => ∃ held, g.Runs held found after

theorem stepLeads {g : Gathering} {r : Reading} {rest : Source} (leads : Leads g.step r rest) :
    ∃ held, g.Runs held r rest := by
  cases on : g.step with
  | done found after =>
    rw [on] at leads
    obtain ⟨rfl, rfl⟩ := leads
    exact ⟨_, .done on⟩
  | next later =>
    rw [on] at leads
    obtain ⟨held, runs⟩ := leads
    exact ⟨_, .next on runs⟩

/- A chunk is gathered octet by octet into what the buffer already holds. -/
theorem chunkRuns {room : Nat} {g : Gathering} (size : g.buffer.length + room = longestLine + 1)
    (plain : g.buffer.getLast? ≠ some newline) {r : Reading} {rest : Source}
    (leads : Leads (complete g.discarded (g.buffer ++ (chunk room g.source).octets)
      (chunk room g.source).stop (chunk room g.source).rest) r rest) :
    ∃ held, g.Runs held r rest := by
  induction room generalizing g with
  | zero =>
    have full : longestLine < g.buffer.length := by omega
    apply stepLeads
    simpa [step, plain, full, chunk] using leads
  | succ room ih =>
    have short : ¬ longestLine < g.buffer.length := by omega
    have stepped : Leads g.step r rest → ∃ held, g.Runs held r rest := stepLeads
    simp only [step, plain, short, ↓reduceIte] at stepped
    unfold chunk at leads
    cases pulled : g.source.pull with
    | mk found after =>
      rw [pulled] at leads stepped
      cases found with
      | octet b =>
        apply stepped
        by_cases ends : b = newline
        · apply stepLeads
          simpa [step, ends] using leads
        · apply ih
          · simp only [List.length_append, List.length_singleton]
            omega
          · simp [ends]
          · simpa [ends] using leads
      | ended => exact stepped (by simpa using leads)
      | failed => exact stepped (by simpa using leads)
      | waiting => exact stepped (by simpa using leads)

theorem wholeRuns (discarded : Option Nat) (s : Source) {r : Reading} {rest : Source}
    (leads : Leads (complete discarded (chunk (longestLine + 1) s).octets
      (chunk (longestLine + 1) s).stop (chunk (longestLine + 1) s).rest) r rest) :
    ∃ held, Runs ⟨discarded, [], s⟩ held r rest :=
  chunkRuns (g := ⟨discarded, [], s⟩) (Nat.zero_add _) (by simp) leads

theorem completeOther {stop : Stop} (failed : stop ≠ .failed) (waiting : stop ≠ .waiting)
    (ends : stop ≠ .newline) (discarded : Option Nat) (buffer : Octets) (rest : Source) :
    complete discarded buffer stop rest = cutShort discarded buffer rest := by
  cases stop with
  | newline => contradiction
  | full => rfl
  | ended => rfl
  | failed => contradiction
  | waiting => contradiction

theorem discardRuns (total : Nat) (s : Source) :
    ∃ held rest, Runs ⟨some total, [], s⟩ held (discard total s).1 rest ∧
      ((discard total s).1 ≠ .waiting → rest = (discard total s).2) := by
  fun_induction discard total s with
  | case1 total s c stop =>
    obtain ⟨held, runs⟩ := wholeRuns (some total) s (by rw [stop]; exact ⟨rfl, rfl⟩)
    exact ⟨held, _, runs, fun _ => rfl⟩
  | case2 total s c stop =>
    obtain ⟨held, runs⟩ := wholeRuns (some total) s (by rw [stop]; exact ⟨rfl, rfl⟩)
    exact ⟨held, _, runs, fun found => absurd rfl found⟩
  | case3 total s c stop =>
    obtain ⟨held, runs⟩ := wholeRuns (some total) s (by rw [stop]; exact ⟨rfl, rfl⟩)
    exact ⟨held, _, runs, fun _ => rfl⟩
  | case4 total s c none failed waiting ends =>
    obtain ⟨held, runs⟩ := wholeRuns (some total) s
      (by rw [completeOther failed waiting ends, none]; exact ⟨rfl, rfl⟩)
    exact ⟨held, _, runs, fun _ => rfl⟩
  | case5 total s c more failed waiting ends ih =>
    obtain ⟨held, rest, later, same⟩ := ih
    obtain ⟨held, runs⟩ := wholeRuns (some total) s (by
      rw [completeOther failed waiting ends, cutShort, if_neg more]
      exact ⟨held, later⟩)
    exact ⟨held, rest, runs, same⟩

theorem readRuns (s : Source) :
    ∃ held rest, (start s).Runs held (readSegment s).1 rest ∧
      ((readSegment s).1 ≠ .waiting → rest = (readSegment s).2) := by
  have whole (r : Reading) (rest : Source) (leads : Leads (complete none
      (chunk (longestLine + 1) s).octets (chunk (longestLine + 1) s).stop
      (chunk (longestLine + 1) s).rest) r rest) : ∃ held, Runs ⟨none, [], s⟩ held r rest :=
    wholeRuns none s leads
  unfold readSegment
  generalize chunk (longestLine + 1) s = c at whole
  dsimp only
  split
  · rename_i stop
    obtain ⟨held, runs⟩ := whole .failed c.rest (by rw [stop]; exact ⟨rfl, rfl⟩)
    exact ⟨held, _, runs, fun _ => rfl⟩
  · rename_i stop
    obtain ⟨held, runs⟩ := whole .waiting c.rest (by rw [stop]; exact ⟨rfl, rfl⟩)
    exact ⟨held, _, runs, fun found => absurd rfl found⟩
  · rename_i stop
    obtain ⟨held, runs⟩ := whole (.segment (.ofOctets c.octets)) c.rest
      (by rw [stop]; exact ⟨rfl, rfl⟩)
    exact ⟨held, _, runs, fun _ => rfl⟩
  · rename_i failed waiting ends
    rw [completeOther failed waiting ends] at whole
    split
    · rename_i none
      obtain ⟨held, runs⟩ := whole .ended c.rest (by rw [none]; exact ⟨rfl, rfl⟩)
      exact ⟨held, _, runs, fun _ => rfl⟩
    · rename_i more
      split
      · rename_i short
        obtain ⟨held, runs⟩ := whole (.segment (.ofOctets c.octets)) c.rest (by
          rw [cutShort, if_neg more, if_pos short]
          exact ⟨rfl, rfl⟩)
        exact ⟨held, _, runs, fun _ => rfl⟩
      · rename_i long
        obtain ⟨held, rest, later, same⟩ := discardRuns c.octets.length c.rest
        obtain ⟨held, runs⟩ := whole _ rest (by
          rw [cutShort, if_neg more, if_neg long]
          exact ⟨held, later⟩)
        refine ⟨held, rest, ?_⟩
        split
        · rename_i waits
          rw [waits] at runs
          exact ⟨runs, fun found => absurd rfl found⟩
        · exact ⟨runs, same⟩

end Gathering

/- A stream cut behind its newlines: its lines without them, and what comes after the last. -/
structure Lines (stream : Octets) (bodies : List Octets) (tail : Octets) : Prop where
  whole : stream = (bodies.map (· ++ [newline])).flatten ++ tail
  plain : ∀ body ∈ bodies, newline ∉ body
  unended : newline ∉ tail

theorem linesExist (stream : Octets) : ∃ bodies tail, Lines stream bodies tail := by
  induction stream with
  | nil => exact ⟨[], [], rfl, by simp, by simp⟩
  | cons b stream ih =>
    obtain ⟨bodies, tail, lines⟩ := ih
    by_cases ends : b = newline
    · exact ⟨[] :: bodies, tail, by simp [lines.whole, ends],
        List.forall_mem_cons.mpr ⟨by simp, lines.plain⟩, lines.unended⟩
    · have other : ∀ octets : Octets, newline ∉ octets → newline ∉ b :: octets :=
        fun octets plain => List.not_mem_cons_of_ne_of_not_mem (Ne.symm ends) plain
      cases bodies with
      | nil => exact ⟨[], b :: tail, by simpa using lines.whole, by simp, other tail lines.unended⟩
      | cons body bodies =>
        obtain ⟨first, later⟩ := List.forall_mem_cons.mp lines.plain
        exact ⟨(b :: body) :: bodies, tail, by simp [lines.whole],
          List.forall_mem_cons.mpr ⟨other body first, later⟩, lines.unended⟩

theorem firstNewline {body other later rest : Octets} (plain : newline ∉ body)
    (clear : newline ∉ other) (same : body ++ newline :: later = other ++ newline :: rest) :
    body = other ∧ later = rest := by
  induction body generalizing other with
  | nil =>
    cases other with
    | nil => exact ⟨rfl, (List.cons.inj same).2⟩
    | cons b other => exact absurd (List.cons.inj same).1 (List.ne_of_not_mem_cons clear)
  | cons b body ih =>
    cases other with
    | nil => exact absurd (List.cons.inj same).1.symm (List.ne_of_not_mem_cons plain)
    | cons c other =>
      obtain ⟨rfl, left⟩ := List.cons.inj same
      obtain ⟨rfl, rfl⟩ := ih (List.not_mem_of_not_mem_cons plain)
        (List.not_mem_of_not_mem_cons clear) left
      exact ⟨rfl, rfl⟩

theorem linesUnique {stream : Octets} {bodies others : List Octets} {tail rest : Octets}
    (first : Lines stream bodies tail) (second : Lines stream others rest) :
    bodies = others ∧ tail = rest := by
  have ends : ∀ (body later unended : Octets), body ++ newline :: later = unended →
      newline ∉ unended → False :=
    fun body later unended same plain => plain (same ▸ by simp)
  induction bodies generalizing stream others with
  | nil =>
    cases others with
    | nil => exact ⟨rfl, by simpa using first.whole.symm.trans second.whole⟩
    | cons body others =>
      have same := second.whole.symm.trans first.whole
      exact (ends body _ tail (by simpa using same) first.unended).elim
  | cons body bodies ih =>
    cases others with
    | nil =>
      have same := first.whole.symm.trans second.whole
      exact (ends body _ rest (by simpa using same) second.unended).elim
    | cons other others =>
      obtain ⟨plain, later⟩ := List.forall_mem_cons.mp first.plain
      obtain ⟨clear, more⟩ := List.forall_mem_cons.mp second.plain
      have same := first.whole.symm.trans second.whole
      simp only [List.map_cons, List.flatten_cons, List.append_assoc, List.cons_append,
        List.nil_append] at same
      obtain ⟨rfl, left⟩ := firstNewline plain clear same
      obtain ⟨rfl, rfl⟩ := ih ⟨rfl, later, first.unended⟩ ⟨left, more, second.unended⟩
      exact ⟨rfl, rfl⟩

def pieces (bodies : List Octets) (tail : Octets) (e : Ending) : List Octets :=
  bodies.map (· ++ [newline]) ++ if e = .ended ∧ tail ≠ [] then [tail] else []

theorem piecesWhole {stream : Octets} {bodies : List Octets} {tail : Octets}
    (lines : Lines stream bodies tail) : (pieces bodies tail .ended).flatten = stream := by
  rw [lines.whole, pieces, List.flatten_append]
  by_cases none : tail = [] <;> simp [none]

theorem readSpent {s : Source} (spent : s.spent = true) :
    readSegment s = (if s.standing then .waiting else .ended, s) := by
  have pulled := s.pullSpent spent
  cases stands : s.standing <;> simp [readSegment, chunk, pulled, stands]

theorem readingsNext {s : Source} {found : Reading} {after : Source}
    (read : readSegment s = (found, after)) (waiting : found ≠ .waiting) (ended : found ≠ .ended) :
    readings s = found :: readings after := by
  have unspent : s.spent = false := by
    cases spent : s.spent with
    | false => rfl
    | true =>
      have told := read.symm.trans (readSpent spent)
      cases stands : s.standing
      · exact absurd (by simpa [stands] using congrArg Prod.fst told) ended
      · exact absurd (by simpa [stands] using congrArg Prod.fst told) waiting
  rw [readings, dif_pos unspent, dif_neg (by simp [isLast, read, waiting, ended]), read]

theorem readingsEnded {s : Source} (yields : s.Yields [] .ended) : readings s = [.ended] := by
  obtain ⟨held, stands, none⟩ := yieldsNothing yields
  have spent : s.spent = true := by simp [Source.spent, held, none]
  rw [readings, dif_neg (by simp [spent]), readSpent spent]
  simp [stands]

theorem readingsLines {bodies : List Octets} (plain : ∀ body ∈ bodies, newline ∉ body)
    {tail : Octets} {e : Ending} {s : Source}
    (yields : s.Yields ((bodies.map (· ++ [newline])).flatten ++ tail) e) :
    ∃ after, readings s =
        bodies.map (fun body => .segment (.of (body ++ [newline]))) ++ readings after ∧
      after.Yields tail e := by
  induction bodies generalizing s with
  | nil => exact ⟨s, rfl, yields⟩
  | cons body bodies ih =>
    obtain ⟨first, later⟩ := List.forall_mem_cons.mp plain
    simp only [List.map_cons, List.flatten_cons, List.append_assoc, List.singleton_append] at yields
    obtain ⟨middle, read, between⟩ := readLine first yields
    obtain ⟨after, rest, left⟩ := ih later between
    exact ⟨after, by rw [readingsNext read (by simp) (by simp), rest]; rfl, left⟩

/-- However a stream is cut and buffered, its readings are its pieces and then its end, or its
terminated lines and then its failure. No buffer on the way holds more than a longest line. -/
theorem readingsSplitAtNewlines (capacity : Nat) (runs : List Octets)
    (arrived : ∀ run ∈ runs, run ≠ []) :
    (∃ bodies tail, Lines runs.flatten bodies tail ∧
      (pieces bodies tail .ended).flatten = runs.flatten ∧
      readings (.closed capacity (runs.map .octets)) =
        (pieces bodies tail .ended).map (fun piece => .segment (.of piece)) ++ [.ended] ∧
      ∀ later, ∃ others, readings (.closed capacity (runs.map .octets ++ .failure :: later)) =
        (pieces bodies tail .failed).map (fun piece => .segment (.of piece)) ++ .failed :: others) ∧
    ∀ s, ∃ held rest, (Gathering.start s).Runs held (readSegment s).1 rest ∧
      ((readSegment s).1 ≠ .waiting → rest = (readSegment s).2) ∧
      ∀ buffer ∈ held, buffer.length ≤ 897 := by
  refine ⟨?_, fun s => ?_⟩
  · obtain ⟨bodies, tail, lines⟩ := linesExist runs.flatten
    refine ⟨bodies, tail, lines, piecesWhole lines, ?_, fun later => ?_⟩
    · have yields := closedYields capacity arrived
      rw [lines.whole] at yields
      obtain ⟨middle, first, between⟩ := readingsLines lines.plain yields
      obtain ⟨after, read, _, left⟩ := readRest lines.unended between
      by_cases none : tail = []
      · subst tail
        rw [first, readingsEnded between]
        simp [pieces]
      · rw [if_neg (by simp [none])] at read
        rw [first, readingsNext read (by simp [Ending.reading]) (by simp [Ending.reading]),
          readingsEnded (left rfl)]
        simp [pieces, none, Ending.reading]
    · have yields := brokenYields capacity arrived later
      rw [lines.whole] at yields
      obtain ⟨middle, first, between⟩ := readingsLines lines.plain yields
      obtain ⟨after, read, _⟩ := readRest lines.unended between
      rw [if_neg (by simp)] at read
      refine ⟨readings after, ?_⟩
      rw [first, readingsNext read (by simp [Ending.reading]) (by simp [Ending.reading])]
      simp [pieces, Ending.reading]
  · obtain ⟨held, rest, runs, same⟩ := Gathering.readRuns s
    exact ⟨held, rest, runs, same, Gathering.runsBound runs (Nat.zero_le _)⟩

def longCuts : List Octets :=
  [.replicate 500 65, .replicate 397 65 ++ [newline, 42], [65, newline]]

theorem longCutsLines : Lines longCuts.flatten [.replicate 897 65, [42, 65]] [] where
  whole := by decide +kernel
  plain := by simp [newline, -List.reduceReplicate]
  unended := by simp

theorem longLineDiscarded :
    (∀ run ∈ longCuts, run ≠ []) ∧
    readings (.closed 3 (longCuts.map .octets)) =
      [.segment (.oversized 898), .segment (.line "*A\n"), .ended] ∧
    ∃ others, readings (.closed 3 (longCuts.map .octets ++ [.failure])) =
      [.segment (.oversized 898), .segment (.line "*A\n")] ++ .failed :: others := by
  have arrived : ∀ run ∈ longCuts, run ≠ [] := by decide
  obtain ⟨⟨bodies, tail, lines, _, read, broken⟩, _⟩ := readingsSplitAtNewlines 3 longCuts arrived
  obtain ⟨rfl, rfl⟩ := linesUnique lines longCutsLines
  have first : Segment.of (.replicate 897 65 ++ [newline]) = .oversized 898 := by
    rw [segmentLine (by simp [newline, -List.reduceReplicate])]
    simp [longestLine, -List.reduceReplicate]
  have second : Segment.of ([42, 65] ++ [newline]) = .line "*A\n" := rfl
  have told : ∀ e, (pieces [.replicate 897 65, [42, 65]] [] e).map
      (fun piece => Reading.segment (.of piece)) =
        [.segment (.oversized 898), .segment (.line "*A\n")] := by
    intro e
    simp only [pieces, ne_eq, not_true_eq_false, and_false, ↓reduceIte, List.append_nil,
      List.map_cons, List.map_nil, first, second]
  rw [told] at read
  refine ⟨arrived, read, ?_⟩
  obtain ⟨others, failed⟩ := broken []
  rw [told] at failed
  exact ⟨others, failed⟩

end AirPicture.Feed
