import AirPicture.Feed.Source

/-! The lines of a feed. A line has at most 896 octets before its newline; a longer one is
discarded up to its newline and only its length is told. Octets are gathered in chunks of
one more than that, so the memory in use is bounded whatever a feed sends. -/
namespace AirPicture.Feed
open Text (Octets)

def longestLine : Nat := 112 * 8

def newline : UInt8 := 10

inductive Segment where
  | line (text : String)
  | oversized (octets : Nat)
  deriving DecidableEq, Repr

inductive Stop where
  | newline
  | full
  | ended
  | failed
  | waiting
  deriving DecidableEq, Repr

structure Chunk where
  octets : Octets
  stop : Stop
  rest : Source
  deriving DecidableEq, Repr

def chunk : Nat → Source → Chunk
  | 0, s => ⟨[], .full, s⟩
  | room + 1, s =>
    match s.pull with
    | (.octet b, s) =>
      if b = newline then ⟨[b], .newline, s⟩
      else
        let c := chunk room s
        ⟨b :: c.octets, c.stop, c.rest⟩
    | (.ended, s) => ⟨[], .ended, s⟩
    | (.failed, s) => ⟨[], .failed, s⟩
    | (.waiting, s) => ⟨[], .waiting, s⟩

theorem chunkSize (room : Nat) (s : Source) : (chunk room s).rest.size ≤ s.size := by
  induction room generalizing s with
  | zero => exact Nat.le_refl _
  | succ room ih =>
    have pulled := s.pullSize
    unfold chunk
    split <;> rename_i taken <;> rw [taken] at pulled
    · split
      · exact pulled
      · exact Nat.le_trans (ih _) pulled
    all_goals exact pulled

theorem chunkUnspent (room : Nat) (s : Source) (unspent : s.spent = false) :
    (chunk (room + 1) s).rest.size < s.size := by
  have pulled := s.pullUnspent unspent
  unfold chunk
  split <;> rename_i taken <;> rw [taken] at pulled
  · split
    · exact pulled
    · exact Nat.lt_of_le_of_lt (chunkSize room _) pulled
  all_goals exact pulled

theorem chunkOctets (room : Nat) (s : Source) (some : (chunk room s).octets ≠ []) :
    s.spent = false := by
  cases spent : s.spent
  · rfl
  · cases room with
    | zero => exact absurd rfl some
    | succ room =>
      unfold chunk at some
      rw [s.pullSpent spent] at some
      cases standing : s.standing <;> simp [standing] at some

/- What one attempt to read yields; `waiting` leaves the source as it was. -/
inductive Reading where
  | segment (s : Segment)
  | ended
  | failed
  | waiting
  deriving DecidableEq, Repr

def discard (total : Nat) (s : Source) : Reading × Source :=
  let c := chunk (longestLine + 1) s
  match c.stop with
  | .failed => (.failed, c.rest)
  | .waiting => (.waiting, s)
  | .newline => (.segment (.oversized (total + c.octets.length)), c.rest)
  | _ =>
    if c.octets = [] then (.segment (.oversized total), c.rest)
    else discard (total + c.octets.length) c.rest
  termination_by s.size
  decreasing_by exact chunkUnspent longestLine s (chunkOctets _ _ (by assumption))

def Segment.ofOctets (octets : Octets) : Segment := .line (Text.decodeLossy octets)

def readSegment (s : Source) : Reading × Source :=
  let c := chunk (longestLine + 1) s
  match c.stop with
  | .failed => (.failed, c.rest)
  | .waiting => (.waiting, s)
  | .newline => (.segment (.ofOctets c.octets), c.rest)
  | _ =>
    if c.octets = [] then (.ended, c.rest)
    else if c.octets.length ≤ longestLine then (.segment (.ofOctets c.octets), c.rest)
    else
      match discard c.octets.length c.rest with
      | (.waiting, _) => (.waiting, s)
      | found => found

theorem discardSize (total : Nat) (s : Source) : (discard total s).2.size ≤ s.size := by
  fun_induction discard total s with
  | case1 total s c stop => exact chunkSize _ s
  | case2 => exact Nat.le_refl _
  | case3 total s c stop => exact chunkSize _ s
  | case4 total s c => exact chunkSize _ s
  | case5 total s c _ _ _ _ ih => exact Nat.le_trans ih (chunkSize _ s)

theorem readSize (s : Source) (unspent : s.spent = false) :
    (readSegment s).1 = .waiting ∨ (readSegment s).2.size < s.size := by
  have used := chunkUnspent longestLine s unspent
  unfold readSegment
  simp only
  split
  · exact .inr used
  · exact .inl rfl
  · exact .inr used
  · split
    · exact .inr used
    · split
      · exact .inr used
      · split
        · exact .inl rfl
        · exact .inr (Nat.lt_of_le_of_lt (discardSize _ _) used)

def isLast (r : Reading × Source) : Bool := r.1 == .waiting || (r.1 == .ended && r.2.spent)

def readings (s : Source) : List Reading :=
  if _ : s.spent = false then
    if _ : isLast (readSegment s) = true then [(readSegment s).1]
    else (readSegment s).1 :: readings (readSegment s).2
  else [(readSegment s).1]
  termination_by s.size
  decreasing_by
    rename_i unspent more
    exact (readSize s unspent).resolve_left fun waits => more (by simp [isLast, waits])

end AirPicture.Feed
