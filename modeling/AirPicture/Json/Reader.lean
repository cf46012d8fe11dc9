import AirPicture.Json.Value
import AirPicture.Text.Octets

/-! Reading JSON text, one character at a time. The machine keeps the containers that are
open and what may come next; a fault names its cause and where it was noticed, as a line
and a column counted in octets. Escapes of half a surrogate pair are read as replacement
characters and noted. -/
namespace AirPicture.Json

inductive Cause where
  | unfinishedList
  | unfinishedObject
  | unfinishedText
  | unfinishedValue
  | value
  | word
  | separatorInList
  | separatorInObject
  | colon
  | key
  | number
  | escape
  | control
  | trailing
  deriving DecidableEq, Repr

def Cause.message : Cause → String
  | .unfinishedList => "EOF while parsing a list"
  | .unfinishedObject => "EOF while parsing an object"
  | .unfinishedText => "EOF while parsing a string"
  | .unfinishedValue => "EOF while parsing a value"
  | .value => "expected value"
  | .word => "expected ident"
  | .separatorInList => "expected `,` or `]`"
  | .separatorInObject => "expected `,` or `\x7d`"
  | .colon => "expected `:`"
  | .key => "key must be a string"
  | .number => "invalid number"
  | .escape => "invalid escape"
  | .control => "control character (\\u0000-\\u001F) found while parsing a string"
  | .trailing => "trailing characters"

structure Fault where
  cause : Cause
  line : Nat
  column : Nat
  deriving DecidableEq, Repr

def Fault.message (f : Fault) : String :=
  f.cause.message ++ " at line " ++ toString f.line ++ " column " ++ toString f.column

/- Items and members are kept latest first; an object also keeps the key whose value is
being read. -/
inductive Frame where
  | array (items : List Value)
  | object (members : List (String × Value)) (key : String)
  deriving Repr

inductive NumberState where
  | minus
  | zero
  | whole
  | point
  | fraction
  | mark
  | sign
  | power
  deriving DecidableEq, Repr

inductive EscapeState where
  | none
  | opened
  | unit (octets : Nat) (code : Option Nat)
  deriving DecidableEq, Repr

/- A text so far, latest character first, and the first half of a surrogate pair that
waits for its second. -/
structure Partial where
  chars : List Char
  half : Option Nat
  escape : EscapeState
  deriving DecidableEq, Repr

def Partial.empty : Partial := ⟨[], none, .none⟩

inductive Mode where
  | value
  | first
  | key
  | firstKey
  | colon (key : String)
  | after
  | done (v : Value)
  | word (left : List Char) (v : Value)
  | number (state : NumberState) (token : List Char)
  | text (isKey : Bool) (t : Partial)
  deriving Repr

structure Machine where
  mode : Mode
  stack : List Frame
  halves : Bool
  deriving Repr

def Machine.start : Machine := ⟨.value, [], false⟩

abbrev Step := Except (Cause × Nat) Machine

def isSpace (c : Char) : Bool := c == ' ' || c == '\n' || c == '\t' || c == '\r'

def isFigure (c : Char) : Bool := '0' ≤ c && c ≤ '9'

def Machine.place (m : Machine) (v : Value) : Machine :=
  match m.stack with
  | [] => { m with mode := .done v }
  | .array items :: rest => { m with mode := .after, stack := .array (v :: items) :: rest }
  | .object members key :: rest =>
    { m with mode := .after, stack := .object ((key, v) :: members) key :: rest }

def Machine.close (m : Machine) : Machine :=
  match m.stack with
  | .array items :: rest => { m with stack := rest : Machine }.place (.array items.reverse)
  | .object members _ :: rest => { m with stack := rest : Machine }.place (.object members.reverse)
  | [] => m

def Machine.begin (m : Machine) (c : Char) : Step :=
  match c with
  | 'n' => .ok { m with mode := .word ['u', 'l', 'l'] .null }
  | 't' => .ok { m with mode := .word ['r', 'u', 'e'] (.bool true) }
  | 'f' => .ok { m with mode := .word ['a', 'l', 's', 'e'] (.bool false) }
  | '-' => .ok { m with mode := .number .minus ['-'] }
  | '0' => .ok { m with mode := .number .zero ['0'] }
  | '"' => .ok { m with mode := .text false .empty }
  | '[' => .ok { m with mode := .first, stack := .array [] :: m.stack }
  | '\x7b' => .ok { m with mode := .firstKey, stack := .object [] "" :: m.stack }
  | _ =>
    if isFigure c then .ok { m with mode := .number .whole [c] } else .error (.value, 1)

def Machine.separate (m : Machine) (c : Char) : Step :=
  match m.stack with
  | [] => .error (.trailing, 1)
  | .array _ :: _ =>
    if c = ',' then .ok { m with mode := .value }
    else if c = ']' then .ok m.close
    else .error (.separatorInList, 1)
  | .object _ _ :: _ =>
    if c = ',' then .ok { m with mode := .key }
    else if c = '\x7d' then .ok m.close
    else .error (.separatorInObject, 1)

def Machine.continue (m : Machine) (c : Char) : Step :=
  if isSpace c then .ok m else m.separate c

def NumberState.next (s : NumberState) (c : Char) : Option NumberState :=
  match s with
  | .minus => if c = '0' then some .zero else if isFigure c then some .whole else none
  | .zero => if c = '.' then some .point else if c = 'e' ∨ c = 'E' then some .mark else none
  | .whole =>
    if isFigure c then some .whole
    else if c = '.' then some .point
    else if c = 'e' ∨ c = 'E' then some .mark
    else none
  | .point => if isFigure c then some .fraction else none
  | .fraction =>
    if isFigure c then some .fraction else if c = 'e' ∨ c = 'E' then some .mark else none
  | .mark =>
    if c = '+' ∨ c = '-' then some .sign else if isFigure c then some .power else none
  | .sign => if isFigure c then some .power else none
  | .power => if isFigure c then some .power else none

def NumberState.whole? : NumberState → Bool
  | .zero | .whole | .fraction | .power => true
  | _ => false

def NumberState.endsBefore (s : NumberState) (c : Char) : Bool :=
  s.whole? && !(s == .zero && isFigure c)

def Machine.stepNumber (m : Machine) (s : NumberState) (token : List Char) (c : Char) : Step :=
  match s.next c with
  | some s => .ok { m with mode := .number s (c :: token) }
  | none =>
    if s.endsBefore c then (m.place (.number token.reverse)).continue c else .error (.number, 1)

def replacement : Char := '\uFFFD'

def Partial.put (t : Partial) (c : Char) : Partial :=
  match t.half with
  | none => ⟨c :: t.chars, none, .none⟩
  | some _ => ⟨c :: replacement :: t.chars, none, .none⟩

def isHigh (code : Nat) : Bool := 0xD800 ≤ code && code ≤ 0xDBFF

def isLow (code : Nat) : Bool := 0xDC00 ≤ code && code ≤ 0xDFFF

def Partial.putUnit (t : Partial) (code : Nat) : Partial :=
  match t.half with
  | some high =>
    if isLow code then
      ⟨Char.ofNat (0x10000 + (high - 0xD800) * 0x400 + (code - 0xDC00)) :: t.chars, none, .none⟩
    else if isHigh code then ⟨replacement :: t.chars, some code, .none⟩
    else t.put (Char.ofNat code)
  | none =>
    if isHigh code then ⟨t.chars, some code, .none⟩
    else if isLow code then t.put replacement
    else t.put (Char.ofNat code)

def Partial.spoils (t : Partial) (code : Nat) : Bool :=
  if isLow code then t.half.isNone else t.half.isSome

def Partial.finish (t : Partial) : String :=
  String.ofList (match t.half with | none => t.chars | some _ => replacement :: t.chars).reverse

def shortEscape : Char → Option Char
  | '"' => some '"'
  | '\\' => some '\\'
  | '/' => some '/'
  | 'b' => some '\x08'
  | 'f' => some '\x0C'
  | 'n' => some '\n'
  | 'r' => some '\r'
  | 't' => some '\t'
  | _ => none

def Machine.finishText (m : Machine) (isKey : Bool) (t : Partial) : Machine :=
  let m := { m with halves := m.halves || t.half.isSome }
  if isKey then { m with mode := .colon t.finish } else m.place (.text t.finish)

def Machine.stepUnit (m : Machine) (isKey : Bool) (t : Partial) (octets : Nat) (code : Option Nat)
    (c : Char) : Step :=
  let code := do
    let code ← code
    let figure ← Text.hexFigure c
    pure (16 * code + figure)
  if octets + c.utf8Size < 4 then
    .ok { m with mode := .text isKey { t with escape := .unit (octets + c.utf8Size) code } }
  else match code with
    | some code => .ok
      { m with
        mode := .text isKey (t.putUnit code)
        halves := m.halves || t.spoils code }
    | none => .error (.escape, 4 - octets)

def Machine.stepText (m : Machine) (isKey : Bool) (t : Partial) (c : Char) : Step :=
  match t.escape with
  | .none =>
    if c = '"' then .ok (m.finishText isKey t)
    else if c = '\\' then .ok { m with mode := .text isKey { t with escape := .opened } }
    else if c.toNat < 32 then .error (.control, 0)
    else .ok { m with mode := .text isKey (t.put c), halves := m.halves || t.half.isSome }
  | .opened =>
    if c = 'u' then .ok { m with mode := .text isKey { t with escape := .unit 0 (some 0) } }
    else match shortEscape c with
      | some e => .ok { m with mode := .text isKey (t.put e), halves := m.halves || t.half.isSome }
      | none => .error (.escape, 1)
  | .unit octets code => m.stepUnit isKey t octets code c

def Machine.stepKey (m : Machine) (c : Char) : Step :=
  if isSpace c then .ok m
  else if c = '"' then .ok { m with mode := .text true .empty }
  else .error (.key, 1)

def Machine.stepColon (m : Machine) (key : String) (c : Char) : Step :=
  if isSpace c then .ok m
  else if c = ':' then
    match m.stack with
    | .object members _ :: rest =>
      .ok { m with mode := .value, stack := .object members key :: rest }
    | _ => .error (.colon, 1)
  else .error (.colon, 1)

def Machine.step (m : Machine) (c : Char) : Step :=
  match m.mode with
  | .value => if isSpace c then .ok m else m.begin c
  | .first =>
    if isSpace c then .ok m else if c = ']' then .ok m.close else m.begin c
  | .firstKey => if c = '\x7d' then .ok m.close else m.stepKey c
  | .key => m.stepKey c
  | .colon key => m.stepColon key c
  | .after | .done _ => m.continue c
  | .word [] v => (m.place v).continue c
  | .word (expected :: left) v =>
    if c ≠ expected then .error (.word, 1)
    else if left = [] then .ok (m.place v)
    else .ok { m with mode := .word left v }
  | .number s token => m.stepNumber s token c
  | .text isKey t => m.stepText isKey t c

def Machine.unfinished (m : Machine) : Cause :=
  match m.stack with
  | .array _ :: _ => .unfinishedList
  | .object _ _ :: _ => .unfinishedObject
  | [] => .unfinishedValue

def Machine.finish (m : Machine) : Except Cause (Value × Bool) :=
  match m.mode with
  | .done v => .ok (v, m.halves)
  | .number s token =>
    if s.whole? then
      match m.stack with
      | [] => .ok (.number token.reverse, m.halves)
      | _ => .error m.unfinished
    else .error .number
  | .value | .word _ _ => .error .unfinishedValue
  | .first => .error .unfinishedList
  | .key | .firstKey | .colon _ => .error .unfinishedObject
  | .after => .error m.unfinished
  | .text _ _ => .error .unfinishedText

def Machine.run (m : Machine) (offset : Nat) : List Char → Except (Cause × Nat) (Value × Bool)
  | [] => m.finish.mapError fun cause => (cause, offset)
  | c :: rest =>
    match m.step c with
    | .ok m => m.run (offset + c.utf8Size) rest
    | .error (cause, ahead) => .error (cause, offset + ahead)

def lineOf (target : Nat) : Nat → Nat → Nat → List Char → Nat × Nat
  | _, line, start, [] => (line, start)
  | offset, line, start, c :: rest =>
    if target ≤ offset then (line, start)
    else if c = '\n' then lineOf target (offset + 1) (line + 1) (offset + 1) rest
    else lineOf target (offset + c.utf8Size) line start rest

def locate (text : List Char) (cause : Cause) (offset : Nat) : Fault :=
  let (line, start) := lineOf offset 0 1 0 text
  ⟨cause, line, offset - start⟩

def read (text : List Char) : Except Fault (Value × Bool) :=
  (Machine.start.run 0 text).mapError fun (cause, offset) => locate text cause offset

def trimmed (text : List Char) : List Char :=
  ((text.dropWhile isSpace).reverse.dropWhile isSpace).reverse

end AirPicture.Json
