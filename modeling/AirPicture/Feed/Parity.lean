import AirPicture.Text.Octets

/-! The 24-bit parity of Mode S frames: the remainder of a division over GF(2), one bit
at a time in a register wider than the remainder. A frame that ends in its own parity
leaves none. -/
namespace AirPicture.Feed
open Text (Octets)

/- The generator with its leading term, x^24. -/
def generator : BitVec 32 := 0x1FFF409

def shiftBit (register : BitVec 32) : BitVec 32 :=
  if register.getLsbD 23 then (register <<< 1) ^^^ generator else register <<< 1

def shiftBits : Nat → BitVec 32 → BitVec 32
  | 0, register => register
  | n + 1, register => shiftBits n (shiftBit register)

def shiftOctet (register : BitVec 32) (octet : UInt8) : BitVec 32 :=
  shiftBits 8 (register ^^^ (octet.toBitVec.setWidth 32 <<< 16))

def register (octets : Octets) : BitVec 32 := octets.foldl shiftOctet 0

def parity (octets : Octets) : BitVec 24 := (register octets).setWidth 24

def parityClean (octets : Octets) : Bool := parity octets == 0

def parityOctets (octets : Octets) : Octets :=
  let p := parity octets
  [UInt8.ofBitVec (p.extractLsb' 16 8), UInt8.ofBitVec (p.extractLsb' 8 8),
    UInt8.ofBitVec (p.extractLsb' 0 8)]

def sealed (body : Octets) : Octets := body ++ parityOctets body

end AirPicture.Feed
