/-! The phases of a link and its counters, with the words in which they are reported. The counters
are numbers of any size: no event raises one by more than one, so a word of 64 bits holds them as
long as there were fewer than 2^64 events. -/
namespace AirPicture.Feed

inductive Phase where
  | established
  | streaming
  | closing
  | closed
  | failed
  deriving DecidableEq, Repr

def Phase.text : Phase → String
  | .established => "established"
  | .streaming => "streaming"
  | .closing => "closing"
  | .closed => "closed"
  | .failed => "failed"

def Phase.isTerminal : Phase → Bool
  | .closed | .failed => true
  | _ => false

inductive Incident where
  | line
  | oversized
  | undecoded
  | forwarded
  | refused
  deriving DecidableEq, Repr

structure Counts where
  lines : Nat
  oversized : Nat
  undecoded : Nat
  forwarded : Nat
  refused : Nat
  deriving DecidableEq, Repr

def Counts.zero : Counts := ⟨0, 0, 0, 0, 0⟩

def Counts.record (c : Counts) : Incident → Counts
  | .line => { c with lines := c.lines + 1 }
  | .oversized => { c with oversized := c.oversized + 1 }
  | .undecoded => { c with undecoded := c.undecoded + 1 }
  | .forwarded => { c with forwarded := c.forwarded + 1 }
  | .refused => { c with refused := c.refused + 1 }

def Counts.text (c : Counts) : String :=
  "Lines: " ++ toString c.lines ++ " | Framing errors: " ++ toString c.oversized ++
    " | Decode errors: " ++ toString c.undecoded ++ " | Forwarded: " ++ toString c.forwarded ++
    " | Forward errors: " ++ toString c.refused

end AirPicture.Feed
