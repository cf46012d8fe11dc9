/-! How decimal text is read. A coordinate may have a sign, a point with digits on at
least one side and an exponent, or be an infinity or not a number in any letter case;
it is rounded correctly. An unsigned integer may have a plus sign. -/
namespace AirPicture.Decimal

def isFigure (c : Char) : Bool := '0' ≤ c && c ≤ '9'

def figure (c : Char) : Nat := c.toNat - '0'.toNat

def number (digits : List Char) : Nat := digits.foldl (fun n c => 10 * n + figure c) 0

def signed (text : List Char) : Bool × List Char :=
  match text with
  | '-' :: rest => (true, rest)
  | '+' :: rest => (false, rest)
  | _ => (false, text)

structure Numeral where
  whole : List Char
  fraction : List Char
  power : Int
  deriving DecidableEq, Repr

def readPower : List Char → Option Int
  | [] => some 0
  | mark :: rest =>
    if mark = 'e' ∨ mark = 'E' then
      let (minus, digits) := signed rest
      if digits ≠ [] ∧ digits.all isFigure then
        some (if minus then -(number digits : Int) else number digits)
      else none
    else none

def readNumeral (text : List Char) : Option Numeral :=
  let whole := text.takeWhile isFigure
  let rest := text.dropWhile isFigure
  let (fraction, rest) := match rest with
    | '.' :: rest => (rest.takeWhile isFigure, rest.dropWhile isFigure)
    | _ => ([], rest)
  if whole = [] ∧ fraction = [] then none
  else (readPower rest).map fun power => ⟨whole, fraction, power⟩

/- Values beyond 10^400 or below 10^-400 are decided without raising the power. -/
def Numeral.toFloat (n : Numeral) : Float :=
  let digits := number (n.whole ++ n.fraction)
  let power := n.power - n.fraction.length
  let lead := power + (Nat.toDigits 10 digits).length
  if digits = 0 then 0
  else if 400 < lead then Float.ofBits 0x7FF0000000000000
  else if lead < -400 then 0
  else if 0 ≤ power then Float.ofScientific digits false power.toNat
  else Float.ofScientific digits true (-power).toNat

def readMagnitude (text : List Char) : Option Float :=
  let word := text.map Char.toLower
  if word = "inf".toList ∨ word = "infinity".toList then some (Float.ofBits 0x7FF0000000000000)
  else if word = "nan".toList then some (Float.ofBits 0x7FF8000000000000)
  else (readNumeral text).map Numeral.toFloat

def signBit : UInt64 := 0x8000000000000000

def readWord (text : List Char) : Option UInt64 :=
  let (minus, rest) := signed text
  (readMagnitude rest).map fun x => if minus then x.toBits ||| signBit else x.toBits

def readFloat (text : List Char) : Option Float := (readWord text).map Float.ofBits

inductive IntegerFault where
  | empty
  | digit
  | large
  deriving DecidableEq, Repr

def IntegerFault.message : IntegerFault → String
  | .empty => "cannot parse integer from empty string"
  | .digit => "invalid digit found in string"
  | .large => "number too large to fit in target type"

def accumulate (limit : Nat) (n : Nat) (c : Char) : Except IntegerFault Nat :=
  if isFigure c then
    if 10 * n + figure c ≤ limit then .ok (10 * n + figure c) else .error .large
  else .error .digit

def readUnsigned (limit : Nat) : List Char → Except IntegerFault Nat
  | [] => .error .empty
  | ['+'] => .error .digit
  | '+' :: rest => rest.foldlM (accumulate limit) 0
  | text => text.foldlM (accumulate limit) 0

end AirPicture.Decimal
