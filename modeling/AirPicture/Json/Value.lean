/-! JSON values and their compact text. A number is kept as the token that spells it;
members keep their order. -/
namespace AirPicture.Json

inductive Value where
  | null
  | bool (b : Bool)
  | number (token : List Char)
  | text (s : String)
  | array (items : List Value)
  | object (members : List (String × Value))
  deriving Repr

def hexFigures (n : Nat) : List Char :=
  [4096, 256, 16, 1].map fun place =>
    let figure := n / place % 16
    Char.ofNat (if figure < 10 then figure + 48 else figure + 87)

def escaped (c : Char) : List Char :=
  if c = '"' ∨ c = '\\' then ['\\', c]
  else if c = '\x08' then ['\\', 'b']
  else if c = '\x0C' then ['\\', 'f']
  else if c = '\n' then ['\\', 'n']
  else if c = '\r' then ['\\', 'r']
  else if c = '\t' then ['\\', 't']
  else if c.toNat < 32 then '\\' :: 'u' :: hexFigures c.toNat
  else [c]

def writeText (s : String) : List Char := '"' :: s.toList.flatMap escaped ++ ['"']

def writeItems (items : List (List Char)) : List Char := (items.intersperse [',']).flatten

def writeMember (key : String) (value : List Char) : List Char := writeText key ++ ':' :: value

def writeArray (items : List (List Char)) : List Char := '[' :: writeItems items ++ [']']

def writeObject (members : List (String × List Char)) : List Char :=
  '\x7b' :: writeItems (members.map fun m => writeMember m.1 m.2) ++ ['\x7d']

mutual

def Value.write : Value → List Char
  | .null => "null".toList
  | .bool b => (if b then "true" else "false").toList
  | .number token => token
  | .text s => writeText s
  | .array items => writeArray (writeAll items)
  | .object members => writeObject (writeEach members)

def writeAll : List Value → List (List Char)
  | [] => []
  | item :: rest => item.write :: writeAll rest

def writeEach : List (String × Value) → List (String × List Char)
  | [] => []
  | (key, value) :: rest => (key, value.write) :: writeEach rest

end

def natural (n : Nat) : Value := .number (Nat.toDigits 10 n)

def integer (n : Int) : Value :=
  .number ((if n < 0 then ['-'] else []) ++ Nat.toDigits 10 n.natAbs)

end AirPicture.Json
