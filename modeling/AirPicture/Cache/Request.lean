import AirPicture.Address

/-! Requests of the read surface. A request is made only if its method and the names of its
headers are tokens, their values have no control but the tab, and its address is valid,
where a path and a query may go beyond ASCII. -/
namespace AirPicture.Cache

structure Request where
  method : String
  address : String
  headers : List (String × String)
  deriving DecidableEq, Repr

def isTokenChar (c : Char) : Bool := c.isAlphanum || Address.among "!#$%&'*+-.^_`|~" c

def isToken (text : String) : Bool := text ≠ "" && text.toList.all isTokenChar

def longestName : Nat := 65535

def isHeaderChar (c : Char) : Bool := c == '\t' || (0x20 ≤ c.toNat && c.toNat != 0x7F)

def isHeader (h : String × String) : Bool :=
  isToken h.1 && h.1.length ≤ longestName && h.2.toList.all isHeaderChar

def Request.isValid (r : Request) : Bool :=
  isToken r.method && Address.isValid .full r.address && r.headers.all isHeader

end AirPicture.Cache
