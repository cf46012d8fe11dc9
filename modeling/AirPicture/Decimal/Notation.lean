import AirPicture.Decimal.Shortest

/-! How a binary64 value is written: its shortest digits laid out by position or with
an exponent. The decisions of one format are a `Layout`; `plain` is the operator's
notation, the cached features have their own. -/
namespace AirPicture.Decimal

/- `window` bounds the exponents of the leading digit that are written by position,
both ends included; without one every value is. -/
structure Layout where
  tie : Tie
  window : Option (Int × Int)
  pointZero : Bool
  nan : String
  infinity : String
  negativeInfinity : String
  deriving DecidableEq, Repr

def plain : Layout := ⟨.up, none, false, "NaN", "inf", "-inf"⟩

def figures (n : Nat) : List Char := Nat.toDigits 10 n

def zeros (n : Nat) : List Char := List.replicate n '0'

def Layout.positional (l : Layout) (digits : List Char) (exponent : Int) : List Char :=
  if 0 ≤ exponent then
    digits ++ zeros exponent.toNat ++ (if l.pointZero then ['.', '0'] else [])
  else
    let places := (-exponent).toNat
    if places < digits.length then
      digits.take (digits.length - places) ++ '.' :: digits.drop (digits.length - places)
    else '0' :: '.' :: zeros (places - digits.length) ++ digits

def scientific (digits : List Char) (lead : Int) : List Char :=
  let mantissa := match digits with
    | first :: second :: rest => first :: '.' :: second :: rest
    | short => short
  mantissa ++ 'e' :: (if lead < 0 then '-' else '+') :: figures lead.natAbs

def Layout.magnitude (l : Layout) (d : Scaled) : List Char :=
  let digits := figures d.digits
  let lead := d.exponent + digits.length - 1
  match l.window with
  | none => l.positional digits d.exponent
  | some (low, high) =>
    if low ≤ lead ∧ lead ≤ high then l.positional digits d.exponent else scientific digits lead

def negative (x : Float) : Bool := x.toBits >>> 63 == 1

def Layout.finite (l : Layout) (x : Float) : List Char :=
  let interval := Interval.ofBits x.toBits
  let decimal := if interval.value = 0 then ⟨0, 0⟩ else interval.shortest l.tie
  (if negative x then ['-'] else []) ++ l.magnitude decimal

def Layout.write (l : Layout) (x : Float) : String :=
  if x.isNaN then l.nan
  else if x.isInf then (if negative x then l.negativeInfinity else l.infinity)
  else String.ofList (l.finite x)

end AirPicture.Decimal
