import AirPicture.Decimal.Reading

/-! Dates and times of a sectioned text, which are settings in one spelling each: a T
before the time, a Z or a signed shift after it, no zeros at the end of a fraction. -/
namespace AirPicture.Configuration.Sections

structure Date where
  year : Nat
  month : Nat
  day : Nat
  deriving DecidableEq, Repr

/- `fraction` counts billionths of a second. -/
structure Clock where
  hour : Nat
  minute : Nat
  second : Nat
  fraction : Nat
  deriving DecidableEq, Repr

inductive Zone where
  | universal
  | shifted (behind : Bool) (minutes : Nat)
  deriving DecidableEq, Repr

inductive Moment where
  | date (d : Date)
  | clock (c : Clock)
  | both (d : Date) (c : Clock) (zone : Option Zone)
  deriving DecidableEq, Repr

structure Range where
  hour : Nat
  shift : Nat → Nat → Bool

def bare : Range := ⟨23, fun hours minutes => hours ≤ 23 && minutes ≤ 59⟩

def quoted : Range := ⟨24, fun hours minutes => 60 * hours + minutes ≤ 1440⟩

def isLeap (year : Nat) : Bool := year % 4 == 0 && (year % 100 != 0 || year % 400 == 0)

def daysOf (year month : Nat) : Nat :=
  if month = 2 then (if isLeap year then 29 else 28)
  else if month = 4 ∨ month = 6 ∨ month = 9 ∨ month = 11 then 30
  else 31

def readFigures (count : Nat) (text : List Char) : Option (Nat × List Char) :=
  let digits := text.take count
  if digits.length = count ∧ digits.all Decimal.isFigure then
    some (Decimal.number digits, text.drop count)
  else none

def readTwo (least greatest : Nat) (text : List Char) : Option (Nat × List Char) := do
  let (n, rest) ← readFigures 2 text
  if least ≤ n ∧ n ≤ greatest then some (n, rest) else none

def expect (c : Char) : List Char → Option (List Char)
  | first :: rest => if first = c then some rest else none
  | [] => none

def readDate (text : List Char) : Option (Date × List Char) := do
  let (year, rest) ← readFigures 4 text
  let rest ← expect '-' rest
  let (month, rest) ← readTwo 1 12 rest
  let rest ← expect '-' rest
  let (day, rest) ← readTwo 1 (daysOf year month) rest
  some (⟨year, month, day⟩, rest)

def readFraction (text : List Char) : Nat × List Char :=
  match text with
  | '.' :: rest =>
    let digits := (rest.takeWhile Decimal.isFigure).take 9
    if digits = [] then (0, text)
    else (Decimal.number (digits ++ List.replicate (9 - digits.length) '0'),
      rest.dropWhile Decimal.isFigure)
  | _ => (0, text)

def readClock (r : Range) (text : List Char) : Option (Clock × List Char) := do
  let (hour, rest) ← readTwo 0 r.hour text
  let rest ← expect ':' rest
  let (minute, rest) ← readTwo 0 59 rest
  let rest ← expect ':' rest
  let (second, rest) ← readTwo 0 60 rest
  let (fraction, rest) := readFraction rest
  some (⟨hour, minute, second, fraction⟩, rest)

def readShift (r : Range) (behind : Bool) (text : List Char) : Option (Zone × List Char) := do
  let (hours, rest) ← readFigures 2 text
  let rest ← expect ':' rest
  let (minutes, rest) ← readFigures 2 rest
  if r.shift hours minutes then some (.shifted behind (60 * hours + minutes), rest) else none

def readZone (r : Range) : List Char → Option (Zone × List Char)
  | 'Z' :: rest => some (.universal, rest)
  | 'z' :: rest => some (.universal, rest)
  | '+' :: rest => readShift r false rest
  | '-' :: rest => readShift r true rest
  | _ => none

def startsTime (c : Char) : Bool := c == 'T' || c == 't' || c == ' '

def readAfterDate (r : Range) (d : Date) (text : List Char) : Moment × List Char :=
  match text with
  | c :: time =>
    match readClock r time with
    | some (clock, rest) =>
      if startsTime c then
        match readZone r rest with
        | some (zone, rest) => (.both d clock (some zone), rest)
        | none => (.both d clock none, rest)
      else (.date d, text)
    | none => (.date d, text)
  | [] => (.date d, text)

def readMoment (r : Range) (text : List Char) : Option (Moment × List Char) :=
  match readDate text with
  | some (d, rest) => some (readAfterDate r d rest)
  | none => (readClock r text).map fun (c, rest) => (.clock c, rest)

def Moment.ofText (text : String) : Option Moment :=
  match readMoment quoted text.toList with
  | some (m, []) => some m
  | _ => none

def padded (count n : Nat) : List Char :=
  let digits := Nat.toDigits 10 n
  List.replicate (count - digits.length) '0' ++ digits

def Date.text (d : Date) : List Char :=
  padded 4 d.year ++ '-' :: padded 2 d.month ++ '-' :: padded 2 d.day

def fractionText (n : Nat) : List Char :=
  if n = 0 then [] else '.' :: ((padded 9 n).reverse.dropWhile (· == '0')).reverse

def Clock.text (c : Clock) : List Char :=
  padded 2 c.hour ++ ':' :: padded 2 c.minute ++ ':' :: padded 2 c.second ++ fractionText c.fraction

def Zone.text : Zone → List Char
  | .universal => ['Z']
  | .shifted behind minutes =>
    (if behind ∧ 0 < minutes then '-' else '+') ::
      padded 2 (minutes / 60) ++ ':' :: padded 2 (minutes % 60)

def Moment.text : Moment → String
  | .date d => String.ofList d.text
  | .clock c => String.ofList c.text
  | .both d c zone => String.ofList
    (d.text ++ 'T' :: c.text ++ match zone with | some z => z.text | none => [])

end AirPicture.Configuration.Sections
