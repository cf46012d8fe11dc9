import AirPicture.Text.Octets

/-! Addresses as consumers and requests have them: an optional scheme, an authority and,
after a scheme, a path, a query and a fragment. An address with a scheme needs an
authority; one without is an authority alone, or a path alone. -/
namespace AirPicture.Address

inductive Alphabet where
  | ascii
  | full
  deriving DecidableEq, Repr

def Alphabet.adds (a : Alphabet) (c : Char) : Bool := a == .full && 0x80 ≤ c.toNat

def among (set : String) (c : Char) : Bool := set.toList.contains c

def isSchemeChar (c : Char) : Bool := c.isAlphanum || among "+-.~" c

def isAuthorityChar (c : Char) : Bool := c.isAlphanum || among "!$&'()*+,-.:;=@[]_~%" c

def endsAuthority (c : Char) : Bool := among "/?#" c

def endsPath (c : Char) : Bool := among "?#" c

def isPathChar (a : Alphabet) (c : Char) : Bool :=
  let n := c.toNat
  a.adds c || n == 0x21 || (0x24 ≤ n && n ≤ 0x3B) || n == 0x3D || (0x40 ≤ n && n ≤ 0x5F) ||
    (0x61 ≤ n && n ≤ 0x7E) || n == 0x22

def isQueryChar (a : Alphabet) (c : Char) : Bool :=
  let n := c.toNat
  a.adds c || n == 0x21 || (0x24 ≤ n && n ≤ 0x3B) || n == 0x3D || (0x3F ≤ n && n ≤ 0x7E)

structure Authority where
  colons : Nat
  opened : Bool
  closed : Bool
  percent : Bool
  user : Bool
  deriving DecidableEq, Repr

def Authority.start : Authority := ⟨0, false, false, false, false⟩

def Authority.step (a : Authority) (c : Char) : Option Authority :=
  let a : Authority := { a with user := false }
  match c with
  | ':' => if 8 ≤ a.colons then none else some { a with colons := a.colons + 1 }
  | '[' => if a.percent || a.opened then none else some { a with opened := true }
  | ']' => if !a.opened || a.closed then none
    else some { a with closed := true, colons := 0, percent := false }
  | '@' => some { a with colons := 0, percent := false, user := true }
  | '%' => some { a with percent := true }
  | _ => if isAuthorityChar c then some a else none

def Authority.whole (a : Authority) : Bool :=
  a.opened == a.closed && a.colons ≤ 1 && !a.user && !a.percent

def isAuthority (text : List Char) : Bool :=
  match text.foldlM Authority.step Authority.start with
  | some a => a.whole
  | none => false

def isTarget (a : Alphabet) (text : List Char) : Bool :=
  (text.takeWhile (!endsPath ·)).all (isPathChar a) && match text.dropWhile (!endsPath ·) with
    | '?' :: rest => (rest.takeWhile (· != '#')).all (isQueryChar a)
    | _ => true

def longestScheme : Nat := 64

def afterScheme (text : List Char) : Option (Nat × List Char) :=
  let scheme := text.takeWhile isSchemeChar
  match text.drop scheme.length with
  | ':' :: '/' :: '/' :: rest => if text.length ≤ 3 then none else some (scheme.length, rest)
  | _ => none

def isFull (a : Alphabet) (text : List Char) : Bool :=
  match afterScheme text with
  | some (scheme, rest) =>
    let authority := rest.takeWhile (!endsAuthority ·)
    scheme ≤ longestScheme && isAuthority authority && !authority.isEmpty &&
      isTarget a (rest.drop authority.length)
  | none => isAuthority text && !text.any endsAuthority

def isValid (a : Alphabet) (address : String) : Bool :=
  match address.toList with
  | [] => false
  | ['*'] => true
  | '/' :: rest => (Text.encode address).length < 65535 && isTarget a ('/' :: rest)
  | text => (Text.encode address).length < 65535 && isFull a text

def path (text : List Char) : List Char :=
  let target := match text, afterScheme text with
    | '/' :: _, _ => text
    | _, some (_, rest) => rest.dropWhile (!endsAuthority ·)
    | _, none => []
  target.takeWhile (!endsPath ·)

end AirPicture.Address
