import AirPicture.Cache.Holdings
import AirPicture.Text.Quoted

/-! What is kept per tenant: texts and counts under keys. A tenant has to be registered
before anything is kept for it, and a count cannot be added to where a text stands. Counts are
integers of any size: an observation raises one count by one, so a signed word of 64 bits holds
them all as long as there were fewer than 2^63 operations. -/
namespace AirPicture.Cache

def Failure.message : Failure → String
  | .unavailable => "store unavailable: lock poisoned"
  | .unknownTenant tenant => "unknown tenant " ++ Text.quoted tenant
  | .notNumeric key => "value at " ++ Text.quoted key ++ " is not numeric"
  | .expiry => "overflow when adding duration to instant"

inductive Datum where
  | text (s : String)
  | count (n : Int)
  deriving DecidableEq, Repr

structure Tallies where
  tenants : Std.ExtTreeMap String (Std.ExtTreeMap String Datum)
  deriving DecidableEq

namespace Tallies

def empty : Tallies := ⟨∅⟩

def size (t : Tallies) : Nat := t.tenants.size

def register (t : Tallies) (tenant : String) : Bool × Tallies :=
  if t.tenants.contains tenant then (false, t) else (true, ⟨t.tenants.insert tenant ∅⟩)

def drop (t : Tallies) (tenant : String) : Bool × Tallies :=
  (t.tenants.contains tenant, ⟨t.tenants.erase tenant⟩)

def note (t : Tallies) (tenant key text : String) : Except Failure Unit × Tallies :=
  match t.tenants[tenant]? with
  | none => (.error (.unknownTenant tenant), t)
  | some table => (.ok (), ⟨t.tenants.insert tenant (table.insert key (.text text))⟩)

def increase (t : Tallies) (tenant key : String) (amount : Int) : Except Failure Int × Tallies :=
  match t.tenants[tenant]? with
  | none => (.error (.unknownTenant tenant), t)
  | some table =>
    match table[key]?.getD (.count 0) with
    | .count n => (.ok (n + amount), ⟨t.tenants.insert tenant (table.insert key (.count (n + amount)))⟩)
    | .text _ => (.error (.notNumeric key), t)

inductive Call where
  | register (tenant : String)
  | drop (tenant : String)
  | note (tenant key text : String)
  | increase (tenant key : String) (amount : Int)
  deriving DecidableEq, Repr

@[reducible] def Call.Answer : Call → Type
  | .register _ => Bool
  | .drop _ => Bool
  | .note _ _ _ => Unit
  | .increase _ _ _ => Int

def perform (t : Tallies) : (c : Call) → Except Failure c.Answer × Tallies
  | .register tenant =>
    let (new, t) := t.register tenant
    (.ok new, t)
  | .drop tenant =>
    let (existed, t) := t.drop tenant
    (.ok existed, t)
  | .note tenant key text => t.note tenant key text
  | .increase tenant key amount => t.increase tenant key amount

end Tallies

end AirPicture.Cache
