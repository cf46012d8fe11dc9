import AirPicture.Configuration.Sections.Content

/-! Settings from text in sections: keys with values, under headers that name a table or
begin the next of several. Every statement ends its line. -/
namespace AirPicture.Configuration.Sections

inductive Statement where
  | nothing
  | header (path : List String)
  | element (path : List String)
  | pair (path : List String) (value : Node)

def readHeader (text : List Char) : Option (Statement × List Char) := do
  let (path, rest) ← keyPath deepest text
  let rest ← expect ']' rest
  some (.header path, rest)

def readElement (text : List Char) : Option (Statement × List Char) := do
  let (path, rest) ← keyPath deepest text
  let rest ← expect ']' rest
  let rest ← expect ']' rest
  some (.element path, rest)

def readPair (text : List Char) : Option (Statement × List Char) := do
  let (path, rest) ← keyPath deepest text
  let rest ← expect '=' rest
  let (node, rest) ← value (skip rest)
  some (.pair path node, rest)

def statement (text : List Char) : Option (Statement × List Char) :=
  match nextLine text with
  | some rest => some (.nothing, rest)
  | none => do
    let (said, rest) ← match skip text with
      | '[' :: '[' :: rest => readElement rest
      | '[' :: rest => readHeader rest
      | text => readPair text
    let rest ← nextLine rest
    some (said, rest)

structure Draft where
  root : Members
  current : List String

def Draft.step (d : Draft) : Statement → Option Draft
  | .nothing => some d
  | .header path => (openTable path d.root).map fun root => ⟨root, path⟩
  | .element path => (openElement path d.root).map fun root => ⟨root, path⟩
  | .pair path node =>
    (inside (setKey node true path) d.current d.root).map fun root => ⟨root, d.current⟩

/- Every statement takes a character, so that the length of the text is enough `fuel`. -/
def Draft.run (fuel : Nat) (d : Draft) (text : List Char) : Option Draft :=
  match fuel, text with
  | _, [] => some d
  | 0, _ => none
  | fuel + 1, text => do
    let (said, rest) ← statement text
    let d ← d.step said
    d.run fuel rest

def unmarked : List Char → List Char
  | '\uFEFF' :: rest => rest
  | text => text

def read (text : String) : Option Table :=
  let text := newlines (unmarked text.toList)
  match (Draft.run text.length ⟨[], []⟩ text).bind fun d => (Node.table .header d.root).setting with
  | some (.table t) => some t
  | _ => none

end AirPicture.Configuration.Sections
