import AirPicture.Text.Blank
import AirPicture.Text.Octets

/-! The characters of a sectioned text: blanks, ends of lines, comments, quoted texts and
keys. A line ends with a newline, with or without a return before it; a return alone is no
character of the language, and a tab is the only other control. -/
namespace AirPicture.Configuration.Sections
open Text (isSpace)

def newlines : List Char → List Char
  | '\r' :: '\n' :: rest => '\n' :: newlines rest
  | c :: rest => c :: newlines rest
  | [] => []

def isKeyChar (c : Char) : Bool := c.isAlphanum || c == '_' || c == '-'

def isPlain (c : Char) : Bool := c == '\t' || (0x20 ≤ c.toNat && c.toNat != 0x7F)

def skip (text : List Char) : List Char := text.dropWhile isSpace

def nextLine (text : List Char) : Option (List Char) :=
  let rest := match skip text with
    | '#' :: comment => comment.dropWhile isPlain
    | rest => rest
  match rest with
  | [] => some []
  | '\n' :: rest => some rest
  | _ => none

def gap (comment : Bool) : List Char → Option (List Char)
  | [] => some []
  | c :: rest =>
    if c = '\n' then gap false rest
    else if comment then (if isPlain c then gap true rest else none)
    else if isSpace c then gap false rest
    else if c = '#' then gap true rest
    else some (c :: rest)

structure Quotes where
  mark : Char
  long : Bool
  deriving DecidableEq, Repr

def apostrophe : Char := Char.ofNat 39

def Quotes.marks (q : Quotes) : Nat := if q.long then 3 else 1

def Quotes.start (mark : Char) (long : Bool) (text : List Char) : Option (Quotes × List Char) :=
  let q : Quotes := ⟨mark, long⟩
  if text.take q.marks = List.replicate q.marks mark then
    match long, text.drop q.marks with
    | true, '\n' :: rest => some (q, rest)
    | _, rest => some (q, rest)
  else none

def Quotes.close (q : Quotes) (text : List Char) : Option (List Char × List Char) :=
  let found := min (text.takeWhile (· == q.mark)).length (if q.long then 5 else 1)
  if found < q.marks then none
  else some (List.replicate (found - q.marks) q.mark, text.drop found)

def Quotes.holds (q : Quotes) (c : Char) : Bool := isPlain c || (q.long && c == '\n')

def Quotes.literal (q : Quotes) : List Char → List Char → Option (List Char × List Char)
  | _, [] => none
  | seen, c :: rest =>
    match q.close (c :: rest) with
    | some (marks, rest) => some (seen.reverse ++ marks, rest)
    | none => if q.holds c then q.literal (c :: seen) rest else none

/- Where a text with escapes stands: at a character, after a backslash, among the figures
of a code point, or in a break, blanks with an end of line that a backslash leaves out. -/
inductive Place where
  | character
  | escape
  | figures (owed : Nat) (n : Nat)
  | opening
  | broken
  deriving DecidableEq, Repr

def simpleEscape : Char → Option Char
  | 'b' => some '\x08'
  | 't' => some '\t'
  | 'n' => some '\n'
  | 'f' => some '\x0C'
  | 'r' => some '\r'
  | '"' => some '"'
  | '\\' => some '\\'
  | _ => none

def codePoint (n : Nat) : Option Char :=
  if n.isValidChar then some (Char.ofNat n) else none

def Quotes.escaped (q : Quotes) :
    Place → List Char → List Char → Option (List Char × List Char)
  | _, _, [] => none
  | .escape, seen, c :: rest =>
    if c = 'u' then q.escaped (.figures 4 0) seen rest
    else if c = 'U' then q.escaped (.figures 8 0) seen rest
    else if q.long ∧ c = '\n' then q.escaped .broken seen rest
    else if q.long ∧ isSpace c then q.escaped .opening seen rest
    else match simpleEscape c with
      | some e => q.escaped .character (e :: seen) rest
      | none => none
  | .figures owed n, seen, c :: rest =>
    match Text.hexFigure c with
    | none => none
    | some figure =>
      if 1 < owed then q.escaped (.figures (owed - 1) (16 * n + figure)) seen rest
      else match codePoint (16 * n + figure) with
        | some e => q.escaped .character (e :: seen) rest
        | none => none
  | .opening, seen, c :: rest =>
    if c = '\n' then q.escaped .broken seen rest
    else if isSpace c then q.escaped .opening seen rest
    else none
  | place, seen, c :: rest =>
    if place = .broken ∧ (isSpace c ∨ c = '\n') then q.escaped .broken seen rest
    else match q.close (c :: rest) with
      | some (marks, rest) => some (seen.reverse ++ marks, rest)
      | none =>
        if c = '\\' then q.escaped .escape seen rest
        else if q.holds c then q.escaped .character (c :: seen) rest
        else none

def Quotes.text (q : Quotes) (text : List Char) : Option (String × List Char) :=
  let found := if q.mark = '"' then q.escaped .character [] text else q.literal [] text
  found.map fun (read, rest) => (String.ofList read, rest)

def shortQuotes (text : List Char) : Option (Quotes × List Char) :=
  Quotes.start '"' false text <|> Quotes.start apostrophe false text

def longQuotes (text : List Char) : Option (Quotes × List Char) :=
  Quotes.start '"' true text <|> Quotes.start apostrophe true text

def keyPart (text : List Char) : Option (String × List Char) :=
  let bare := text.takeWhile isKeyChar
  if bare = [] then (shortQuotes text).bind fun (q, rest) => q.text rest
  else some (String.ofList bare, text.dropWhile isKeyChar)

def keyPath (most : Nat) (text : List Char) : Option (List String × List Char) :=
  match most with
  | 0 => none
  | most + 1 => do
    let (part, rest) ← keyPart (skip text)
    match skip rest with
    | '.' :: more => do
      let (parts, rest) ← keyPath most more
      some (part :: parts, rest)
    | rest => some ([part], rest)

end AirPicture.Configuration.Sections
