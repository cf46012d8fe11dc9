import Mathlib.Tactic.Ring
import AirPicture.Wire.Items

/-! Writing and reading the items of a message. A reader that meets what was written finds
just that and stops right behind it, so that written fields can be put one after another:
octets spell fields if they are read as these fields and then what follows them. -/
namespace AirPicture.Wire
open Text (Octets)

def greatestVarint : Nat := 18446744073709551615

theorem octetNat {n : Nat} (small : n < 256) : (UInt8.ofNat n).toNat = n := by
  rw [UInt8.toNat_ofNat']
  exact Nat.mod_eq_of_lt small

theorem varintPlace {n place : Nat} (fits : n * 128 ^ place ≤ greatestVarint) (tenth : 9 ≤ place) :
    n < 2 := by
  have grown : 128 ^ 9 ≤ 128 ^ place := Nat.pow_le_pow_right (by decide) tenth
  have least : n * 128 ^ 9 ≤ greatestVarint := Nat.le_trans (Nat.mul_le_mul_left n grown) fits
  unfold greatestVarint at least
  omega

theorem varintWritten (place : Nat) {n : Nat} (fits : n * 128 ^ place ≤ greatestVarint) (rest : Octets) :
    readVarint place (varint n ++ rest) = some (n * 128 ^ place, rest) := by
  induction n using Nat.strongRecOn generalizing place with
  | ind n ih =>
    rw [varint]
    by_cases last : n < 128
    · have room : ¬ (place = 9 ∧ 2 ≤ n) := by
        rintro ⟨rfl, many⟩
        have := varintPlace fits (Nat.le_refl 9)
        omega
      have octet : (UInt8.ofNat n).toNat = n := octetNat (by omega)
      simp [readVarint, last, octet, room]
    · have early : ¬ 9 ≤ place := by
        intro tenth
        have := varintPlace fits tenth
        omega
      have octet : (UInt8.ofNat (n % 128 + 128)).toNat = n % 128 + 128 := octetNat (by omega)
      have whole : n % 128 * 128 ^ place + n / 128 * 128 ^ (place + 1) = n * 128 ^ place := by
        have parts := Nat.mod_add_div n 128
        calc n % 128 * 128 ^ place + n / 128 * 128 ^ (place + 1)
            = (n % 128 + 128 * (n / 128)) * 128 ^ place := by ring
          _ = n * 128 ^ place := by rw [parts]
      have later := ih (n / 128) (by omega) (place + 1) (by omega)
      have marked : ¬ n % 128 + 128 < 128 := by omega
      rw [if_neg last, List.cons_append]
      simp only [readVarint, octet, if_neg marked, if_neg early, later, Option.map_some,
        Nat.add_sub_cancel]
      rw [← whole]
      rfl

theorem littleEndianWritten (width n : Nat) :
    readLittleEndian (littleEndian width n) = n % 256 ^ width := by
  induction width generalizing n with
  | zero => simp [littleEndian, readLittleEndian, Nat.mod_one]
  | succ width ih =>
    have octet : (UInt8.ofNat (n % 256)).toNat = n % 256 := octetNat (by omega)
    simp only [littleEndian, readLittleEndian, octet, ih]
    rw [Nat.pow_succ', Nat.mod_mul]

theorem littleEndianLength (width n : Nat) : (littleEndian width n).length = width := by
  induction width generalizing n with
  | zero => rfl
  | succ width ih => simp [littleEndian, ih]

theorem splitWritten (head rest : Octets) :
    split head.length (head ++ rest) = some (head, rest) := by
  simp [split]

def IsNumber (number : Nat) : Prop := 0 < number ∧ number < 536870912

instance (number : Nat) : Decidable (IsNumber number) := by
  unfold IsNumber
  infer_instance

section Writing
variable {number : Nat} (known : IsNumber number)
include known

theorem keyWritten {kind : Nat} (small : kind < 8) {content rest : Octets} {item : Item}
    (read : readContent kind content = some (item, rest)) :
    readField (key number kind ++ content) = some (⟨number, item⟩, rest) := by
  obtain ⟨positive, least⟩ := known
  have fits : (8 * number + kind) * 128 ^ 0 ≤ greatestVarint := by
    unfold greatestVarint
    omega
  have range : ¬ (4294967296 ≤ 8 * number + kind ∨ 8 * number + kind < 8) := by omega
  have named : (8 * number + kind) / 8 = number := by omega
  have sort : (8 * number + kind) % 8 = kind := by omega
  simp [readField, key, varintWritten 0 fits, range, named, sort, read]

theorem integerWritten {n : Nat} (fits : n ≤ greatestVarint) (rest : Octets) :
    readField (writeInteger number n ++ rest) = some (⟨number, .integer n⟩, rest) := by
  have read : readContent 0 (varint n ++ rest) = some (.integer n, rest) := by
    have counted := varintWritten 0 (n := n) (by simpa using fits) rest
    simp [readContent, counted]
  rw [writeInteger, List.append_assoc]
  exact keyWritten known (by decide) read

theorem doubleWritten (bits : UInt64) (rest : Octets) :
    readField (writeDouble number bits ++ rest) = some (⟨number, .double bits⟩, rest) := by
  have cut := splitWritten (littleEndian 8 bits.toNat) rest
  rw [littleEndianLength] at cut
  have same : UInt64.ofNat (bits.toNat % 256 ^ 8) = bits := by
    have least : bits.toNat < 256 ^ 8 := bits.toNat_lt
    rw [Nat.mod_eq_of_lt least, UInt64.ofNat_toNat]
  have read : readContent 1 (littleEndian 8 bits.toNat ++ rest) = some (.double bits, rest) := by
    simp only [readContent, cut, Option.map_some, littleEndianWritten, same]
  rw [writeDouble, List.append_assoc]
  exact keyWritten known (by decide) read

theorem runWritten {octets : Octets} (fits : octets.length ≤ greatestVarint) (rest : Octets) :
    readField (writeRun number octets ++ rest) = some (⟨number, .run octets⟩, rest) := by
  have read : readContent 2 (varint octets.length ++ (octets ++ rest)) = some (.run octets, rest) := by
    have counted := varintWritten 0 (n := octets.length) (by simpa using fits)
      (octets ++ rest)
    simp [readContent, counted, splitWritten]
  rw [writeRun, List.append_assoc, List.append_assoc]
  exact keyWritten known (by decide) read

end Writing

def Item.Plain (item : Item) : Prop := item ≠ .opening ∧ item ≠ .closing

structure Spells (octets : Octets) (fields : List Field) : Prop where
  read : ∀ rest, readItems (octets ++ rest) = (readItems rest).map (fields ++ ·)
  plain : ∀ field ∈ fields, field.item.Plain

theorem spellsNothing : Spells [] [] where
  read rest := by cases h : readItems rest <;> simp [h]
  plain := by simp

theorem spellsField {octets : Octets} {field : Field} (plain : field.item.Plain)
    (written : ∀ rest, readField (octets ++ rest) = some (field, rest)) :
    Spells octets [field] where
  read rest := by
    have found := written rest
    have some : octets ++ rest ≠ [] := by
      intro none
      rw [none] at found
      simp [readField, readVarint] at found
    rw [readItems, if_neg some]
    split
    · rename_i other left read
      obtain ⟨rfl, rfl⟩ := Prod.mk.inj (Option.some.inj (found.symm.trans read))
      rfl
    · rename_i none
      rw [none] at found
      contradiction
  plain := by simpa using plain

theorem spellsAppend {first second : Octets} {fields others : List Field}
    (left : Spells first fields) (right : Spells second others) :
    Spells (first ++ second) (fields ++ others) where
  read rest := by
    rw [List.append_assoc, left.read, right.read]
    cases readItems rest <;> simp
  plain field inside := (List.mem_append.mp inside).elim (left.plain field) (right.plain field)

theorem outsidePlain (limit : Nat) {fields : List Field} (plain : ∀ field ∈ fields, field.item.Plain) :
    outside limit [] fields = some fields := by
  induction fields with
  | nil => rfl
  | cons field rest ih =>
    obtain ⟨first, others⟩ := List.forall_mem_cons.mp plain
    obtain ⟨number, item⟩ := field
    obtain ⟨opens, closes⟩ := first
    cases item with
    | opening => contradiction
    | closing => contradiction
    | integer n => simp [outside, ih others]
    | double bits => simp [outside, ih others]
    | run octets => simp [outside, ih others]
    | single => simp [outside, ih others]

theorem spellsRead (limit : Nat) {octets : Octets} {fields : List Field}
    (spells : Spells octets fields) : readFields limit octets = some fields := by
  have read := spells.read []
  rw [List.append_nil] at read
  have none : readItems [] = some [] := by
    rw [readItems]
    rfl
  simp [readFields, read, none, outsidePlain limit spells.plain]

end AirPicture.Wire
