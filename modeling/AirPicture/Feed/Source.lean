import AirPicture.Text.Octets

/-! The stream of a feed as its reader meets it: arrivals of octets, moments at which it
seems to end and failures, taken through a buffer that is refilled only when it is used
up. A stream whose arrivals are spent has ended or, while the connection stands, waits. -/
namespace AirPicture.Feed
open Text (Octets)

inductive Arrival where
  | octets (run : Octets)
  | failure
  deriving DecidableEq, Repr

structure Source where
  capacity : Nat
  buffered : Octets
  arrivals : List Arrival
  standing : Bool
  deriving DecidableEq, Repr

inductive Pull where
  | octet (b : UInt8)
  | ended
  | failed
  | waiting
  deriving DecidableEq, Repr

def Arrival.size : Arrival → Nat
  | .octets run => run.length + 1
  | .failure => 1

def outstanding : List Arrival → Nat
  | [] => 0
  | a :: later => a.size + outstanding later

namespace Source

def usual : Nat := 8192

def closed (capacity : Nat) (arrivals : List Arrival) : Source := ⟨capacity, [], arrivals, false⟩

/- What comes after the first octet of a refill: the buffer takes at most its capacity. -/
def refill (s : Source) (run : Octets) (later : List Arrival) : Source :=
  let fits := s.capacity - 1
  { s with
    buffered := run.take fits
    arrivals := if run.length ≤ fits then later else .octets (run.drop fits) :: later }

def pull (s : Source) : Pull × Source :=
  match s.buffered with
  | b :: rest => (.octet b, { s with buffered := rest })
  | [] => match s.arrivals with
    | [] => (if s.standing then .waiting else .ended, s)
    | .octets [] :: later => (.ended, { s with arrivals := later })
    | .octets (b :: run) :: later => (.octet b, s.refill run later)
    | .failure :: later => (.failed, { s with arrivals := later })

def size (s : Source) : Nat := s.buffered.length + outstanding s.arrivals

def spent (s : Source) : Bool := s.buffered.isEmpty && s.arrivals.isEmpty

theorem refillSize (s : Source) (b : UInt8) (run : Octets) (later : List Arrival)
    (front : s.arrivals = .octets (b :: run) :: later) : (s.refill run later).size < s.size := by
  simp only [refill, size, front, List.length_take, outstanding, Arrival.size, List.length_cons]
  split
  · omega
  · simp only [outstanding, Arrival.size, List.length_drop]
    omega

theorem pullUnspent (s : Source) (unspent : s.spent = false) : s.pull.2.size < s.size := by
  unfold pull
  split
  · rename_i front
    simp [size, front]
  · rename_i empty
    split
    · rename_i none
      simp [spent, empty, none] at unspent
    · rename_i front
      simp [size, empty, front, outstanding, Arrival.size]
    · rename_i front
      exact refillSize s _ _ _ front
    · rename_i front
      simp [size, empty, front, outstanding, Arrival.size]

theorem pullSpent (s : Source) (spent : s.spent = true) :
    s.pull = (if s.standing then .waiting else .ended, s) := by
  simp only [Source.spent, Bool.and_eq_true, List.isEmpty_iff] at spent
  simp [pull, spent.1, spent.2]

theorem pullSize (s : Source) : s.pull.2.size ≤ s.size := by
  cases spent : s.spent
  · exact Nat.le_of_lt (pullUnspent s spent)
  · simp [pullSpent s spent]

end Source

end AirPicture.Feed
