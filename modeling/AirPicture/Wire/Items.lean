import AirPicture.Wire.Varint

/-! The items of a message: keys with their contents, among them groups that open and
close. Only items outside of every group are fields; what is inside is checked for its
form and for its nesting, and skipped. -/
namespace AirPicture.Wire
open Text (Octets)

inductive Item where
  | integer (n : Nat)
  | double (bits : UInt64)
  | run (octets : Octets)
  | single
  | opening
  | closing
  deriving DecidableEq, Repr

structure Field where
  number : Nat
  item : Item
  deriving DecidableEq, Repr

def deepest : Nat := 100

def key (number kind : Nat) : Octets := varint (8 * number + kind)

def writeInteger (number n : Nat) : Octets := key number 0 ++ varint n

def writeDouble (number : Nat) (bits : UInt64) : Octets :=
  key number 1 ++ littleEndian 8 bits.toNat

def writeRun (number : Nat) (octets : Octets) : Octets :=
  key number 2 ++ varint octets.length ++ octets

def readContent (kind : Nat) (octets : Octets) : Option (Item × Octets) :=
  match kind with
  | 0 => (readVarint 0 octets).map fun (n, rest) => (.integer n, rest)
  | 1 => (split 8 octets).map fun (head, rest) =>
    (.double (UInt64.ofNat (readLittleEndian head)), rest)
  | 2 => do
    let (count, rest) ← readVarint 0 octets
    let (head, rest) ← split count rest
    some (.run head, rest)
  | 3 => some (.opening, octets)
  | 4 => some (.closing, octets)
  | 5 => (split 4 octets).map fun (_, rest) => (.single, rest)
  | _ => none

def readField (octets : Octets) : Option (Field × Octets) := do
  let (key, rest) ← readVarint 0 octets
  if 4294967296 ≤ key ∨ key < 8 then none
  else
    let (item, rest) ← readContent (key % 8) rest
    some (⟨key / 8, item⟩, rest)

theorem readContentLength {kind : Nat} {octets rest : Octets} {item : Item}
    (h : readContent kind octets = some (item, rest)) : rest.length ≤ octets.length := by
  unfold readContent at h
  split at h
  · obtain ⟨⟨n, left⟩, found, same⟩ := Option.map_eq_some_iff.mp h
    cases same
    exact Nat.le_of_lt (readVarintLength found)
  · obtain ⟨⟨head, left⟩, found, same⟩ := Option.map_eq_some_iff.mp h
    cases same
    exact splitLength found
  · simp only [bind, Option.bind_eq_some_iff] at h
    obtain ⟨⟨count, middle⟩, counted, ⟨head, left⟩, taken, same⟩ := h
    cases same
    exact Nat.le_trans (splitLength taken) (Nat.le_of_lt (readVarintLength counted))
  · cases h
    exact Nat.le_refl _
  · cases h
    exact Nat.le_refl _
  · obtain ⟨⟨head, left⟩, found, same⟩ := Option.map_eq_some_iff.mp h
    cases same
    exact splitLength found
  · cases h

theorem readFieldLength {octets rest : Octets} {field : Field}
    (h : readField octets = some (field, rest)) : rest.length < octets.length := by
  unfold readField at h
  simp only [bind, Option.bind_eq_some_iff] at h
  obtain ⟨⟨key, middle⟩, found, h⟩ := h
  split at h
  · cases h
  · obtain ⟨⟨item, left⟩, content, same⟩ := Option.bind_eq_some_iff.mp h
    cases same
    exact Nat.lt_of_le_of_lt (readContentLength content) (readVarintLength found)

def readItems (octets : Octets) : Option (List Field) :=
  if octets = [] then some []
  else
    match _ : readField octets with
    | some (field, rest) => (readItems rest).map (field :: ·)
    | none => none
  termination_by octets.length
  decreasing_by exact readFieldLength (by assumption)

/-- `limit` bounds the groups that enclose an item; a group closes with its own number. -/
def outside (limit : Nat) : List Nat → List Field → Option (List Field)
  | [], [] => some []
  | _ :: _, [] => none
  | groups, ⟨number, .closing⟩ :: rest =>
    match groups with
    | group :: groups => if group = number then outside limit groups rest else none
    | [] => none
  | groups, ⟨number, .opening⟩ :: rest =>
    if groups.length < limit then
      let found := outside limit (number :: groups) rest
      if groups = [] then found.map (⟨number, .opening⟩ :: ·) else found
    else none
  | [], field :: rest => (outside limit [] rest).map (field :: ·)
  | group :: groups, _ :: rest =>
    if (group :: groups).length < limit then outside limit (group :: groups) rest else none

def readFields (limit : Nat) (octets : Octets) : Option (List Field) := do
  let items ← readItems octets
  outside limit [] items

end AirPicture.Wire
