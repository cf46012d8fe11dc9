import AirPicture.Configuration.Setting
import AirPicture.Text.Blank

/-! Where a key of a file or of the environment puts its setting: names with dots between
them, and positions of lists in brackets. Names of tables are kept in small letters, and a
table is merged with what is there. Inside of lists keys stay as they are. -/
namespace AirPicture.Configuration
open Text (isSpace)

inductive Move where
  | name (key : String)
  | position (n : Int)
  deriving DecidableEq, Repr

/- Of the characters beyond ASCII only the kelvin sign has a small letter within it. -/
def small (c : Char) : Char := if c = '\u212A' then 'k' else c.toLower

def lowered (key : String) : String := String.ofList (key.toList.map small)

def isNameChar (c : Char) : Bool := c.isAlphanum || c == ' ' || c == '_' || c == '-'

def positionOf (text : List Char) : Option Move := do
  let text := (text.dropWhile isSpace).reverse.dropWhile isSpace
  let (minus, digits) := match text.reverse with
    | '-' :: digits => (true, digits)
    | digits => (false, digits)
  let n : Int := Decimal.number digits
  let n := if minus then -n else n
  if digits ≠ [] ∧ digits.all Decimal.isFigure ∧ isWhole n then some (.position n) else none

def moves (fuel : Nat) (text : List Char) : Option (List Move) :=
  match fuel, text with
  | _, [] => some []
  | fuel + 1, '.' :: rest => do
    let name := rest.takeWhile isNameChar
    if name = [] then none
    else
      let later ← moves fuel (rest.dropWhile isNameChar)
      some (.name (String.ofList name) :: later)
  | fuel + 1, '[' :: rest => do
    let position ← positionOf (rest.takeWhile (· != ']'))
    match rest.dropWhile (· != ']') with
    | _ :: rest => do
      let later ← moves fuel rest
      some (position :: later)
    | [] => none
  | _, _ => none

def path (key : String) : List Move :=
  (moves (key.length + 1) ('.' :: key.toList)).getD [.name key]

def longest : Nat := 4294967296

def slot (n : Int) (count : Nat) : Except Fault Nat :=
  let index := if n < 0 then n + count else n
  if 0 ≤ index ∧ index < longest then .ok index.toNat else .error .outside

def extended (items : List Setting) (index : Nat) : List Setting :=
  items ++ List.replicate (index + 1 - items.length) .null

mutual

def store (root : Setting) (key : String) : Setting → Setting
  | .table members =>
    let before := (find root.members (lowered key)).getD (.table [])
    .table (assign root.members (lowered key) (merge before members))
  | value => .table (assign root.members (lowered key) value)

def merge (root : Setting) : List (String × Setting) → Setting
  | [] => root
  | (key, value) :: rest => merge (store root key value) rest

end

def place : List Move → Setting → Setting → Except Fault Setting
  | [], value, _ => .ok value
  | [.name key], value, root => .ok (store root key value)
  | .name key :: rest, value, root => do
    let inner ← place rest value ((find root.members (lowered key)).getD .null)
    .ok (.table (assign root.members (lowered key) inner))
  | .position n :: rest, value, root => do
    let items := root.items
    let index ← slot n items.length
    let items := extended items index
    let inner ← place rest value (items[index]?.getD .null)
    .ok (.list (items.set index inner))

def placeAll (members : Table) : Except Fault Setting :=
  members.foldlM (fun root m => place (path m.1) m.2 root) (.table [])

end AirPicture.Configuration
