import AirPicture.Configuration.Setting
import AirPicture.Text.Octets

/-! Numbers of a sectioned text. Digits may have single underscores between them; a
decimal number has no leading zero, and one in another base no sign. -/
namespace AirPicture.Configuration.Sections

def digitRun (isDigit : Char → Bool) (text : List Char) : Option (List Char) :=
  let digits := text.filter (· != '_')
  let separated := (text.zip text.tail).all fun p => !(p.1 == '_' && p.2 == '_')
  if digits ≠ [] ∧ digits.all isDigit ∧ separated ∧ text.head? ≠ some '_' ∧
      text.getLast? ≠ some '_' then some digits
  else none

def wholeDigits (text : List Char) : Option (List Char) := do
  let digits ← digitRun Decimal.isFigure text
  if digits.length = 1 ∨ digits.head? ≠ some '0' then some digits else none

def fits (n : Int) : Option Setting := if isWhole n then some (.integer n) else none

def based (base : Nat) (digits : List Char) : Option Setting := do
  let digits ← digitRun (fun c => (Text.hexFigure c).any (· < base)) digits
  fits (digits.foldl (fun n c => base * n + ((Text.hexFigure c).getD 0 : Int)) 0)

def powerDigits (text : List Char) : Option Int := do
  let (minus, digits) := Decimal.signed text
  let digits ← digitRun Decimal.isFigure digits
  some (if minus then -(Decimal.number digits : Int) else Decimal.number digits)

def isMark (c : Char) : Bool := c == 'e' || c == 'E'

def realNumber (minus : Bool) (text : List Char) : Option Setting := do
  let mantissa := text.takeWhile fun c => !isMark c
  let power ← match text.dropWhile fun c => !isMark c with
    | [] => some 0
    | _ :: power => powerDigits power
  let whole ← wholeDigits (mantissa.takeWhile (· != '.'))
  let fraction ← match mantissa.dropWhile (· != '.') with
    | [] => some []
    | _ :: fraction => digitRun Decimal.isFigure fraction
  let x := (Decimal.Numeral.mk whole fraction power).toFloat
  if x.isInf ∧ ¬minus then none else some (.real (if minus then -x else x))

def readAmount (token : List Char) : Option Setting :=
  let (minus, magnitude) := Decimal.signed token
  if magnitude = "inf".toList ∨ magnitude = "nan".toList then
    (Decimal.readFloat token).map .real
  else match token with
    | '0' :: 'x' :: digits => based 16 digits
    | '0' :: 'o' :: digits => based 8 digits
    | '0' :: 'b' :: digits => based 2 digits
    | _ =>
      if magnitude.any fun c => c == '.' || isMark c then realNumber minus magnitude
      else do
        let digits ← wholeDigits magnitude
        fits (if minus then -(Decimal.number digits : Int) else Decimal.number digits)

end AirPicture.Configuration.Sections
