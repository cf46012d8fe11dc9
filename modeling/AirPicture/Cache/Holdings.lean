import Std.Data.ExtTreeMap
import Std.Data.ExtTreeSet

/-! What the cache holds: values under keys, each with an instant at which it expires or
none, and named sets of keys. An expired value counts as absent and is taken out by the
next look at its key; nothing else sweeps. Instants are milliseconds of one clock. -/
namespace AirPicture.Cache

structure Entry where
  value : String
  expires : Option Nat
  deriving DecidableEq, Repr

def Entry.live (e : Entry) (now : Nat) : Bool :=
  match e.expires with
  | none => true
  | some instant => now < instant

structure Holdings where
  entries : Std.ExtTreeMap String Entry
  sets : Std.ExtTreeMap String (Std.ExtTreeSet String)
  deriving DecidableEq

inductive Failure where
  | unavailable
  | unknownTenant (tenant : String)
  | notNumeric (key : String)
  | expiry
  deriving DecidableEq, Repr

inductive Found where
  | absent
  | stale
  | live (value : String)
  deriving DecidableEq, Repr

namespace Holdings

def empty : Holdings := ⟨∅, ∅⟩

/- Seconds for which the clock has run before the first instant. -/
def uptime : Nat := 60 * 60

/- The clock names its seconds in 63 bits, of which those before the first instant are spent. -/
def lastSecond : Nat := 0x8000000000000000 - uptime

def find (h : Holdings) (now : Nat) (key : String) : Found :=
  match h.entries[key]? with
  | none => .absent
  | some e => if e.live now then .live e.value else .stale

def evict (h : Holdings) (now : Nat) (key : String) : Holdings :=
  if h.find now key = .stale then { h with entries := h.entries.erase key } else h

def look (h : Holdings) (now : Nat) (key : String) : Option String × Holdings :=
  match h.find now key with
  | .absent => (none, h)
  | .live value => (some value, h)
  | .stale => (none, h.evict now key)

def expiry (now : Nat) : Option Nat → Except Failure (Option Nat)
  | none => .ok none
  | some life => if lastSecond ≤ (now + life) / 1000 then .error .expiry else .ok (some (now + life))

def put (h : Holdings) (key : String) (e : Entry) : Holdings :=
  { h with entries := h.entries.insert key e }

def members (h : Holdings) (set : String) : Std.ExtTreeSet String := h.sets[set]?.getD ∅

def add (h : Holdings) (set member : String) : Holdings :=
  { h with sets := h.sets.insert set ((h.members set).insert member) }

def remove (h : Holdings) (set member : String) : Holdings :=
  match h.sets[set]? with
  | some members => { h with sets := h.sets.insert set (members.erase member) }
  | none => h

inductive Call where
  | get (key : String)
  | has (key : String)
  | put (key value : String) (life : Option Nat)
  | add (set member : String)
  | remove (set member : String)
  | list (set : String)
  deriving DecidableEq, Repr

@[reducible] def Call.Answer : Call → Type
  | .get _ => Option String
  | .has _ => Bool
  | .put _ _ _ => Unit
  | .add _ _ => Bool
  | .remove _ _ => Bool
  | .list _ => List String

def perform (now : Nat) (h : Holdings) : (c : Call) → Except Failure c.Answer × Holdings
  | .get key =>
    let (found, h) := h.look now key
    (.ok found, h)
  | .has key =>
    let (found, h) := h.look now key
    (.ok found.isSome, h)
  | .put key value life =>
    match expiry now life with
    | .ok instant => (.ok (), h.put key ⟨value, instant⟩)
    | .error e => (.error e, h)
  | .add set member => (.ok (!(h.members set).contains member), h.add set member)
  | .remove set member => (.ok ((h.members set).contains member), h.remove set member)
  | .list set => (.ok (h.members set).toList, h)

end Holdings

end AirPicture.Cache
