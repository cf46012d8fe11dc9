import AirPicture.Text.Unprintable

/-! A text or a character between quotes, as diagnostics show it. The quote in use and
the backslash are escaped, and what cannot be printed is spelled by number. -/
namespace AirPicture.Text

def hexNumber (n : Nat) : List Char := Nat.toDigits 16 n

def quotedChar (quote c : Char) : List Char :=
  if c = quote ∨ c = '\\' then ['\\', c]
  else if c = '\x00' then ['\\', '0']
  else if c = '\t' then ['\\', 't']
  else if c = '\n' then ['\\', 'n']
  else if c = '\r' then ['\\', 'r']
  else if isUnprintable c then ['\\', 'u', '\x7b'] ++ hexNumber c.toNat ++ ['\x7d']
  else [c]

def quote : Char := '"'

def apostrophe : Char := Char.ofNat 39

def quoted (text : String) : String :=
  String.ofList (quote :: text.toList.flatMap (quotedChar quote) ++ [quote])

def quotedAlone (c : Char) : String :=
  String.ofList (apostrophe :: quotedChar apostrophe c ++ [apostrophe])

end AirPicture.Text
