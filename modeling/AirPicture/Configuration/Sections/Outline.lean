import AirPicture.Configuration.Setting
import AirPicture.Configuration.Sections.Moment

/-! Tables while a sectioned text is read, and the settings that they are. A table is opened
by one header and a key is set once; dotted keys reach only into tables that dotted keys
have made. Members stand as they came about, and the first one may make a moment of its
table. -/
namespace AirPicture.Configuration.Sections

inductive Origin where
  | header
  | implied
  | dotted
  deriving DecidableEq, Repr

inductive Node where
  | value (s : Setting)
  | moment (m : Moment)
  | list (items : List Node)
  | inline (members : List (String × Node))
  | table (origin : Origin) (members : List (String × Node))
  | elements (latestFirst : List (List (String × Node)))

abbrev Members := List (String × Node)

def change (m : Members) (key : String) (node : Node) : Members :=
  match m with
  | [] => [(key, node)]
  | (k, old) :: rest => if k = key then (k, node) :: rest else (k, old) :: change rest key node

def without (m : Members) (key : String) : Members := m.filter (·.1 ≠ key)

def openTable : List String → Members → Option Members
  | [], _ => none
  | [key], m =>
    match m.lookup key with
    | none => some (change m key (.table .header []))
    | some (.table .implied inner) => some (without m key ++ [(key, .table .header inner)])
    | _ => none
  | key :: rest, m =>
    match m.lookup key with
    | none => (openTable rest []).map fun inner => change m key (.table .implied inner)
    | some (.table origin inner) =>
      (openTable rest inner).map fun inner => change m key (.table origin inner)
    | some (.elements (latest :: earlier)) =>
      (openTable rest latest).map fun latest => change m key (.elements (latest :: earlier))
    | _ => none

def openElement : List String → Members → Option Members
  | [], _ => none
  | [key], m =>
    match m.lookup key with
    | none => some (change m key (.elements [[]]))
    | some (.elements tables) => some (change m key (.elements ([] :: tables)))
    | _ => none
  | key :: rest, m =>
    match m.lookup key with
    | none => (openElement rest []).map fun inner => change m key (.table .implied inner)
    | some (.table origin inner) =>
      (openElement rest inner).map fun inner => change m key (.table origin inner)
    | some (.elements (latest :: earlier)) =>
      (openElement rest latest).map fun latest => change m key (.elements (latest :: earlier))
    | _ => none

/- `admits` says whether this table takes the last part of the key: the open one does, and
those that dotted keys have made. -/
def setKey (node : Node) : Bool → List String → Members → Option Members
  | _, [], _ => none
  | admits, [key], m =>
    if admits ∧ (m.lookup key).isNone then some (change m key node) else none
  | _, key :: rest, m =>
    match m.lookup key with
    | none => (setKey node true rest []).map fun inner => change m key (.table .dotted inner)
    | some (.table .header _) => none
    | some (.table origin inner) =>
      (setKey node (origin = .dotted) rest inner).map fun inner => change m key (.table origin inner)
    | some (.elements (latest :: earlier)) =>
      (setKey node false rest latest).map fun latest => change m key (.elements (latest :: earlier))
    | _ => none

def inside (f : Members → Option Members) : List String → Members → Option Members
  | [], m => f m
  | key :: rest, m =>
    match m.lookup key with
    | some (.table origin inner) =>
      (inside f rest inner).map fun inner => change m key (.table origin inner)
    | some (.elements (latest :: earlier)) =>
      (inside f rest latest).map fun latest => change m key (.elements (latest :: earlier))
    | _ => none

def momentKey : String := "$__toml_private_datetime"

def Node.quotedMoment : Node → Option Moment
  | .value (.text s) => Moment.ofText s
  | _ => none

def sealed (members : Members) (inner : Option Table) : Option Setting :=
  match members with
  | (key, node) :: _ =>
    if key = momentKey then node.quotedMoment.map fun m => .text m.text else inner.map .table
  | [] => inner.map .table

mutual

def Node.setting : Node → Option Setting
  | .value s => some s
  | .moment m => some (.text m.text)
  | .list items => (itemSettings items).map .list
  | .inline members => sealed members (settings members)
  | .table _ members => sealed members (settings members)
  | .elements tables => (elementSettings tables).map fun items => .list items.reverse

def itemSettings : List Node → Option (List Setting)
  | [] => some []
  | node :: rest => do
    let item ← node.setting
    let items ← itemSettings rest
    some (item :: items)

def settings : List (String × Node) → Option Table
  | [] => some []
  | (key, node) :: rest => do
    let s ← node.setting
    let members ← settings rest
    some ((key, s) :: members)

def elementSettings : List (List (String × Node)) → Option (List Setting)
  | [] => some []
  | members :: rest => do
    let item ← sealed members (settings members)
    let items ← elementSettings rest
    some (item :: items)

end

end AirPicture.Configuration.Sections
