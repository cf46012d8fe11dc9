import AirPicture.Feed.Parity
import AirPicture.Feed.Position

/-! The fields of a 112-bit extended squitter: the format, the aircraft's address and a
56-bit message whose first five bits are its type code. Positions carry an altitude code
and a position report, identifications eight six-bit characters. -/
namespace AirPicture.Feed
open Text (Octets)

def downlinkFormat : Octets → Option Nat
  | head :: _ => some (head.toNat / 8)
  | [] => none

def address : Octets → Option Nat
  | _ :: a :: b :: c :: _ => some (a.toNat * 65536 + b.toNat * 256 + c.toNat)
  | _ => none

def message (frame : Octets) : BitVec 56 :=
  ((frame.drop 4).take 7).foldl (fun bits octet => bits <<< 8 ||| octet.toBitVec.setWidth 56) 0

def typeCode (message : BitVec 56) : Nat := (message.extractLsb' 51 5).toNat

def isIdentification (code : Nat) : Bool := 1 ≤ code && code ≤ 4

def isPosition (code : Nat) : Bool := (9 ≤ code && code ≤ 18) || (20 ≤ code && code ≤ 22)

def altitudeCode (message : BitVec 56) : BitVec 12 := message.extractLsb' 36 12

def altitude (code : BitVec 12) : Option Int :=
  if code.getLsbD 4 then
    some (25 * ((code.extractLsb' 5 7 ++ code.extractLsb' 0 4 : BitVec 11).toNat : Int) - 1000)
  else none

def report (message : BitVec 56) : Report :=
  ⟨(message.extractLsb' 17 17).toNat, (message.extractLsb' 0 17).toNat, message.getLsbD 34⟩

def characterSet : List Char :=
  "#ABCDEFGHIJKLMNOPQRSTUVWXYZ##### ###############0123456789######".toList

def character (code : BitVec 6) : Char := characterSet.getD code.toNat '#'

def characterCodes (message : BitVec 56) : List (BitVec 6) :=
  [42, 36, 30, 24, 18, 12, 6, 0].map fun start => message.extractLsb' start 6

def callsign (message : BitVec 56) : String :=
  let shown := ((characterCodes message).map character).filter (· != '#')
  String.ofList (shown.reverse.dropWhile (· == ' ')).reverse

def addressText (address : Nat) : String :=
  String.ofList ([1048576, 65536, 4096, 256, 16, 1].map fun place =>
    Text.upperFigure (address / place % 16))

end AirPicture.Feed
