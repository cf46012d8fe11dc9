/-! Bytes of a stream or a message: their hexadecimal text, and their reading as UTF-8.
Reading is strict for messages and replaces what is malformed for lines of a feed. -/
namespace AirPicture.Text

abbrev Octets := List UInt8

def hexFigure (c : Char) : Option Nat :=
  if '0' ≤ c ∧ c ≤ '9' then some (c.toNat - '0'.toNat)
  else if 'a' ≤ c ∧ c ≤ 'f' then some (c.toNat - 'a'.toNat + 10)
  else if 'A' ≤ c ∧ c ≤ 'F' then some (c.toNat - 'A'.toNat + 10)
  else none

def lowerFigure (n : Nat) : Char := Char.ofNat (if n < 10 then n + 48 else n + 87)

def upperFigure (n : Nat) : Char := Char.ofNat (if n < 10 then n + 48 else n + 55)

def toHex (octets : Octets) : List Char :=
  octets.flatMap fun b => [lowerFigure (b.toNat / 16), lowerFigure (b.toNat % 16)]

def encode (text : String) : Octets := text.toUTF8.data.toList

def decode (octets : Octets) : Option String := String.fromUTF8? ⟨octets.toArray⟩

/- A character begun: the continuation octets still owed, the range of the next one and
the bits so far. -/
structure Begun where
  owed : Nat
  low : Nat
  high : Nat
  bits : Nat
  deriving DecidableEq, Repr

inductive Move where
  | whole (c : Char)
  | more (b : Begun)
  | malformed
  deriving DecidableEq, Repr

/- The ranges after E0, ED, F0 and F4 keep out long forms, surrogates and what lies
above the last code point. -/
def opening (octet : UInt8) : Move :=
  let b := octet.toNat
  if b < 0x80 then .whole (Char.ofNat b)
  else if 0xC2 ≤ b ∧ b ≤ 0xDF then .more ⟨1, 0x80, 0xBF, b - 0xC0⟩
  else if b = 0xE0 then .more ⟨2, 0xA0, 0xBF, 0⟩
  else if b = 0xED then .more ⟨2, 0x80, 0x9F, 0xD⟩
  else if 0xE1 ≤ b ∧ b ≤ 0xEF then .more ⟨2, 0x80, 0xBF, b - 0xE0⟩
  else if b = 0xF0 then .more ⟨3, 0x90, 0xBF, 0⟩
  else if 0xF1 ≤ b ∧ b ≤ 0xF3 then .more ⟨3, 0x80, 0xBF, b - 0xF0⟩
  else if b = 0xF4 then .more ⟨3, 0x80, 0x8F, 4⟩
  else .malformed

def Begun.next (p : Begun) (octet : UInt8) : Option Move :=
  let b := octet.toNat
  if p.low ≤ b ∧ b ≤ p.high then
    let bits := p.bits * 64 + (b - 0x80)
    some (if p.owed ≤ 1 then .whole (Char.ofNat bits) else .more ⟨p.owed - 1, 0x80, 0xBF, bits⟩)
  else none

def replacement : Char := '\uFFFD'

/-- Each longest beginning of a character that is not continued gives one replacement,
and the octet that broke it is read afresh. -/
def lossy : Option Begun → Octets → List Char
  | none, [] => []
  | some _, [] => [replacement]
  | state, b :: rest =>
    let (broken, move) := match state with
      | none => (false, opening b)
      | some p => match p.next b with
        | some move => (false, move)
        | none => (true, opening b)
    let tail := match move with
      | .whole c => c :: lossy none rest
      | .more p => lossy (some p) rest
      | .malformed => replacement :: lossy none rest
    if broken then replacement :: tail else tail

def decodeLossy (octets : Octets) : String := String.ofList (lossy none octets)

end AirPicture.Text
