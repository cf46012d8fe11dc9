import AirPicture.Decimal.Notation
import AirPicture.Decimal.Reading

/-! Settings as they are read, whatever wrote them, and what they convert to. A text may
stand for a number or a truth value, and either of these for a text; what is absent, a list
or a table converts to nothing. -/
namespace AirPicture.Configuration

inductive Setting where
  | null
  | bool (b : Bool)
  | integer (n : Int)
  | real (x : Float)
  | text (s : String)
  | list (items : List Setting)
  | table (members : List (String × Setting))
  deriving Repr

abbrev Table := List (String × Setting)

def isWhole (n : Int) : Bool := -9223372036854775808 ≤ n && n < 9223372036854775808

inductive Fault where
  | malformed
  | mistyped
  | misshapen
  | outside
  deriving DecidableEq, Repr

def greatestWord : Nat := 18446744073709551615

def nearestWord (x : Float) : Nat :=
  let part := x.toUInt64.toNat
  if x < 4503599627370496 ∧ 0.5 ≤ x - Float.ofNat part then part + 1 else part

def wordOfText (s : String) : Option Nat :=
  let word := s.toList.map Char.toLower
  if word = "true".toList ∨ word = "on".toList ∨ word = "yes".toList then some 1
  else if word = "false".toList ∨ word = "off".toList ∨ word = "no".toList then some 0
  else (Decimal.readUnsigned greatestWord s.toList).toOption

def Setting.word : Setting → Option Nat
  | .integer n => if 0 ≤ n then some n.toNat else none
  | .bool b => some (if b then 1 else 0)
  | .real x => some (nearestWord x)
  | .text s => wordOfText s
  | _ => none

def Setting.unsigned (s : Setting) (greatest : Nat) : Except Fault Nat :=
  match s.word with
  | some n => if n ≤ greatest then .ok n else .error .mistyped
  | none => .error .mistyped

def Setting.string : Setting → Except Fault String
  | .text s => .ok s
  | .bool b => .ok (if b then "true" else "false")
  | .integer n => .ok (toString n)
  | .real x => .ok (Decimal.plain.write x)
  | _ => .error .mistyped

def find (t : Table) (key : String) : Option Setting := t.lookup key

def assign : Table → String → Setting → Table
  | [], key, s => [(key, s)]
  | (k, old) :: rest, key, s => if k = key then (k, s) :: rest else (k, old) :: assign rest key s

def Setting.members : Setting → Table
  | .table t => t
  | _ => []

def Setting.items : Setting → List Setting
  | .list items => items
  | _ => []

end AirPicture.Configuration
