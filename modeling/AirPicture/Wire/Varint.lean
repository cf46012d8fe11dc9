import AirPicture.Text.Octets

/-! Whole numbers on the wire: seven bits an octet, least first, every octet but the last
marked; and fixed widths in little-endian order. A number has at most 64 bits. -/
namespace AirPicture.Wire
open Text (Octets)

def varint (n : Nat) : Octets :=
  if n < 128 then [UInt8.ofNat n] else UInt8.ofNat (n % 128 + 128) :: varint (n / 128)
  termination_by n

def readVarint (place : Nat) : Octets → Option (Nat × Octets)
  | [] => none
  | b :: rest =>
    let n := b.toNat
    if n < 128 then
      if place = 9 ∧ 2 ≤ n then none else some (n * Nat.pow 128 place, rest)
    else if 9 ≤ place then none
    else (readVarint (place + 1) rest).map fun (m, rest) => ((n - 128) * Nat.pow 128 place + m, rest)

theorem readVarintLength {place n : Nat} {octets rest : Octets}
    (h : readVarint place octets = some (n, rest)) : rest.length < octets.length := by
  induction octets generalizing place n with
  | nil => simp [readVarint] at h
  | cons b tail ih =>
    simp only [readVarint] at h
    split at h
    · split at h
      · cases h
      · cases h
        simp
    · split at h
      · cases h
      · obtain ⟨⟨m, left⟩, found, same⟩ := Option.map_eq_some_iff.mp h
        cases same
        exact Nat.lt_of_lt_of_le (ih found) (Nat.le_succ _)

def littleEndian : Nat → Nat → Octets
  | 0, _ => []
  | width + 1, n => UInt8.ofNat (n % 256) :: littleEndian width (n / 256)

def readLittleEndian : Octets → Nat
  | [] => 0
  | b :: rest => b.toNat + 256 * readLittleEndian rest

def split (count : Nat) (octets : Octets) : Option (Octets × Octets) :=
  if octets.length < count then none else some (octets.take count, octets.drop count)

theorem splitLength {count : Nat} {octets head rest : Octets}
    (h : split count octets = some (head, rest)) : rest.length ≤ octets.length := by
  unfold split at h
  split at h
  · cases h
  · cases h
    simp

end AirPicture.Wire
