import AirPicture.Json.Reader
import AirPicture.Configuration.Setting

/-! Settings from a JSON document. Whole numbers that fit 63 bits and a sign stay whole;
all others are scaled from the first 64 bits of their digits by one power of ten, and must
be finite. An object may enclose another document as a text, and stands for what that
says. Half surrogate pairs and documents nested too deeply are refused. -/
namespace AirPicture.Configuration
open Json (Value)

def deepest : Nat := 127

structure Digits where
  significand : Nat
  exponent : Int
  full : Bool
  deriving DecidableEq, Repr

def Digits.whole (d : Digits) (c : Char) : Digits :=
  let next := 10 * d.significand + Decimal.figure c
  if d.full ∨ greatestWord < next then ⟨d.significand, d.exponent + 1, true⟩
  else ⟨next, d.exponent, false⟩

def Digits.fraction (d : Digits) (c : Char) : Digits :=
  let next := 10 * d.significand + Decimal.figure c
  if d.full ∨ greatestWord < next then { d with full := true }
  else ⟨next, d.exponent - 1, false⟩

def Digits.read (n : Decimal.Numeral) : Digits :=
  let whole := n.whole.foldl Digits.whole ⟨0, 0, false⟩
  n.fraction.foldl Digits.fraction { whole with full := false }

def powerOfTen (n : Nat) : Float := Float.ofScientific 1 false n

def scale : Nat → Float → Int → Option Float
  | 0, x, _ => some x
  | steps + 1, x, exponent =>
    if exponent.natAbs ≤ 308 then
      let scaled := if 0 ≤ exponent then x * powerOfTen exponent.toNat
        else x / powerOfTen exponent.natAbs
      if scaled.isInf then none else some scaled
    else if x == 0 then some x
    else if 0 ≤ exponent then none
    else scale steps (x / powerOfTen 308) (exponent + 308)

def realOf (minus : Bool) (n : Decimal.Numeral) : Option Float :=
  let d := Digits.read n
  (scale 4 (Float.ofNat d.significand) (d.exponent + n.power)).map fun x => if minus then -x else x

def numberOf (token : List Char) : Option Setting :=
  let (minus, digits) := Decimal.signed token
  if digits.all Decimal.isFigure then
    let n : Int := Decimal.number digits
    let n := if minus then -n else n
    if isWhole n ∧ ¬(minus ∧ n = 0) then some (.integer n)
    else (realOf minus ⟨digits, [], 0⟩).map .real
  else do
    let numeral ← Decimal.readNumeral digits
    (realOf minus numeral).map .real

def enclosingKey : String := "$serde_json::private::RawValue"

def encloses (members : List (String × Value)) : Bool :=
  members.head?.any (·.1 = enclosingKey)

def enclosed : List (String × Value) → Option String
  | [(_, .text s)] => some s
  | _ => none

mutual

/- `room` counts the containers that may still be opened; `disclose` reads enclosed texts. -/
def ofValue (disclose : String → Option Setting) (room : Nat) : Value → Option Setting
  | .null => some .null
  | .bool b => some (.bool b)
  | .number token => numberOf token
  | .text s => some (.text s)
  | .array items => if room = 0 then none else (ofItems disclose (room - 1) items).map .list
  | .object members =>
    if room = 0 then none
    else if encloses members then (enclosed members).bind disclose
    else (ofMembers disclose (room - 1) members).map .table

def ofItems (disclose : String → Option Setting) (room : Nat) : List Value → Option (List Setting)
  | [] => some []
  | item :: rest => do
    let item ← ofValue disclose room item
    let rest ← ofItems disclose room rest
    some (item :: rest)

def ofMembers (disclose : String → Option Setting) (room : Nat) :
    List (String × Value) → Option Table
  | [] => some []
  | (key, value) :: rest => do
    let value ← ofValue disclose room value
    let rest ← ofMembers disclose room rest
    some (if (find rest key).isSome then rest else (key, value) :: rest)

end

def ofText : Nat → String → Option Setting
  | 0, _ => none
  | fuel + 1, text =>
    match Json.read text.toList with
    | .ok (value, false) => ofValue (ofText fuel) deepest value
    | _ => none

def readDocument (text : String) : Option Table :=
  match ofText (text.length + 1) text with
  | some (.table t) => some t
  | _ => none

end AirPicture.Configuration
