import AirPicture.Text.Blank
import AirPicture.Text.Octets
import AirPicture.Text.Quoted

/-! The frame that a line carries: hexadecimal figures after an optional star and before
an optional semicolon, with blanks around. A line without figures carries none. -/
namespace AirPicture.Feed
open Text (Octets)

inductive HexFault where
  | odd
  | character (octet : UInt8) (offset : Nat)
  deriving DecidableEq, Repr

def HexFault.message : HexFault → String
  | .odd => "Odd number of digits"
  | .character octet offset =>
    "Invalid character " ++ Text.quotedAlone (Char.ofNat octet.toNat) ++ " at position " ++
      toString offset

def stripStar : List Char → List Char
  | '*' :: rest => rest
  | text => text

def stripSemicolon (text : List Char) : List Char :=
  match text.reverse with
  | ';' :: rest => rest.reverse
  | _ => text

def payload (line : String) : List Char := stripSemicolon (stripStar (Text.trim line.toList))

def hexValue (octet : UInt8) (offset : Nat) : Except HexFault Nat :=
  match Text.hexFigure (Char.ofNat octet.toNat) with
  | some value => .ok value
  | none => .error (.character octet offset)

def unhex (offset : Nat) : Octets → Except HexFault Octets
  | high :: low :: rest => do
    let high ← hexValue high offset
    let low ← hexValue low (offset + 1)
    let rest ← unhex (offset + 2) rest
    pure (UInt8.ofNat (16 * high + low) :: rest)
  | _ => pure []

def readPayload (line : String) : Except HexFault (Option Octets) :=
  let octets := Text.encode (String.ofList (payload line))
  if octets = [] then .ok none
  else if octets.length % 2 = 1 then .error .odd
  else (unhex 0 octets).map some

end AirPicture.Feed
