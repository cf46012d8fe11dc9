import AirPicture.Configuration.Sections.Amount
import AirPicture.Configuration.Sections.Outline
import AirPicture.Configuration.Sections.Spelling

/-! Values of a sectioned text: texts, numbers, truth values, moments, lists, which may
go over several lines and end with a comma, and tables, which may not. -/
namespace AirPicture.Configuration.Sections
open Text (isSpace)

def deepest : Nat := 79

def endsToken (c : Char) : Bool :=
  isSpace c || c == '\n' || c == ',' || c == ']' || c == '\x7d' || c == '#'

def readToken (text : List Char) : Option (Setting × List Char) :=
  let token := text.takeWhile fun c => !endsToken c
  let rest := text.dropWhile fun c => !endsToken c
  if token = "true".toList then some (.bool true, rest)
  else if token = "false".toList then some (.bool false, rest)
  else (readAmount token).map fun n => (n, rest)

def readScalar (text : List Char) : Option (Node × List Char) :=
  match longQuotes text <|> shortQuotes text with
  | some (q, rest) => (q.text rest).map fun (s, rest) => (.value (.text s), rest)
  | none =>
    match readMoment bare text with
    | some (m, rest) => some (.moment m, rest)
    | none => (readToken text).map fun (s, rest) => (.value s, rest)

mutual

def readValue (fuel room : Nat) (text : List Char) : Option (Node × List Char) :=
  match fuel with
  | 0 => none
  | fuel + 1 =>
    match room, text with
    | 0, '[' :: _ => none
    | room + 1, '[' :: rest => (readItems fuel room rest).map fun (l, rest) => (.list l, rest)
    | 0, '\x7b' :: _ => none
    | room + 1, '\x7b' :: rest =>
      match skip rest with
      | '\x7d' :: rest => some (.inline [], rest)
      | rest => (readPairs fuel room [] rest).map fun (m, rest) => (.inline m, rest)
    | _, text => readScalar text

def readItems (fuel room : Nat) (text : List Char) : Option (List Node × List Char) :=
  match fuel with
  | 0 => none
  | fuel + 1 =>
    match gap false text with
    | none => none
    | some (']' :: rest) => some ([], rest)
    | some text => do
      let (item, rest) ← readValue fuel room text
      match gap false rest with
      | some (']' :: rest) => some ([item], rest)
      | some (',' :: rest) => do
        let (items, rest) ← readItems fuel room rest
        some (item :: items, rest)
      | _ => none

def readPairs (fuel room : Nat) (m : Members) (text : List Char) : Option (Members × List Char) :=
  match fuel with
  | 0 => none
  | fuel + 1 => do
    let (path, rest) ← keyPath deepest text
    let rest ← expect '=' rest
    let (node, rest) ← readValue fuel room (skip rest)
    let m ← setKey node true path m
    match skip rest with
    | '\x7d' :: rest => some (m, rest)
    | ',' :: rest => readPairs fuel room m rest
    | _ => none

end

def value (text : List Char) : Option (Node × List Char) :=
  readValue (2 * text.length + 2) deepest text

end AirPicture.Configuration.Sections
