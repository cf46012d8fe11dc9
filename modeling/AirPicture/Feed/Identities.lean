import Std.Data.ExtTreeMap

/-! Callsigns remembered between frames, for a bounded number of aircraft. A new aircraft
takes the place of the one that was entered first; a new callsign of a known aircraft
does not move it. -/
namespace AirPicture.Feed

structure Identities where
  capacity : Nat
  order : List Nat
  callsigns : Std.ExtTreeMap Nat String
  deriving DecidableEq

namespace Identities

def empty (capacity : Nat) : Identities := ⟨max capacity 1, [], ∅⟩

def usual : Nat := 256

def greatest : Nat := 126100789566373888

def allot (capacity : Nat) : Option Identities :=
  if capacity ≤ greatest then some (empty capacity) else none

def find (i : Identities) (address : Nat) : Option String := i.callsigns[address]?

def makeRoom (i : Identities) : Identities :=
  match i.order with
  | oldest :: rest =>
    if i.capacity ≤ i.order.length then ⟨i.capacity, rest, i.callsigns.erase oldest⟩ else i
  | [] => i

def enter (i : Identities) (address : Nat) : Identities :=
  if i.callsigns.contains address then i
  else
    let i := i.makeRoom
    ⟨i.capacity, i.order ++ [address], i.callsigns⟩

def remember (i : Identities) (address : Nat) (callsign : String) : Identities :=
  let i := i.enter address
  ⟨i.capacity, i.order, i.callsigns.insert address callsign⟩

end Identities

end AirPicture.Feed
