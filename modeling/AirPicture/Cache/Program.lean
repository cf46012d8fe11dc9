import AirPicture.Cache.Holdings
import AirPicture.Cache.Tallies

/-! Programs over the cache: finite sequences of atomic calls, each depending on the
answers before it. A program stops at the first call that fails. The same program can be
run alone at one instant, with faults at chosen calls, or step by step among others. -/
namespace AirPicture.Cache

inductive Call where
  | holdings (c : Holdings.Call)
  | tallies (c : Tallies.Call)
  deriving DecidableEq, Repr

@[reducible] def Call.Answer : Call → Type
  | .holdings c => c.Answer
  | .tallies c => c.Answer

structure World where
  holdings : Holdings
  tallies : Tallies
  deriving DecidableEq

def World.empty : World := ⟨.empty, .empty⟩

def World.perform (now : Nat) (w : World) : (c : Call) → Except Failure c.Answer × World
  | .holdings c =>
    let (answer, holdings) := w.holdings.perform now c
    (answer, { w with holdings })
  | .tallies c =>
    let (answer, tallies) := w.tallies.perform c
    (answer, { w with tallies })

inductive Program (α : Type) where
  | done (a : α)
  | call (c : Call) (next : c.Answer → Program α)

namespace Program
variable {α β σ : Type}

def bind : Program α → (α → Program β) → Program β
  | .done a, f => f a
  | .call c next, f => .call c fun answer => (next answer).bind f

instance : Monad Program where
  pure := .done
  bind := bind

def ofHoldings (c : Holdings.Call) : Program c.Answer := .call (.holdings c) .done

def ofTallies (c : Tallies.Call) : Program c.Answer := .call (.tallies c) .done

abbrev Handler (σ : Type) := (c : Call) → σ → Except Failure c.Answer × σ

def interpret (handler : Handler σ) : Program α → σ → Except Failure α × σ
  | .done a, s => (.ok a, s)
  | .call c next, s =>
    match handler c s with
    | (.ok answer, s) => (next answer).interpret handler s
    | (.error e, s) => (.error e, s)

def run (now : Nat) (p : Program α) (w : World) : Except Failure α × World :=
  p.interpret (fun c w => w.perform now c) w

end Program

inductive Mishap where
  | unavailable
  | absent
  deriving DecidableEq, Repr

structure Watched where
  world : World
  log : List Holdings.Call

def Holdings.Call.nothing : (c : Holdings.Call) → Option c.Answer
  | .get _ => some none
  | .has _ => some false
  | _ => none

namespace Watched

def reach (now : Nat) (w : Watched) (c : Call) : Except Failure c.Answer × Watched :=
  let (answer, world) := w.world.perform now c
  (answer, { w with world })

/- Calls are numbered from one, and a call that meets a mishap is counted too. -/
def answer (mishap : Nat → Option Mishap) (now : Nat) : Program.Handler Watched
  | .tallies c, w => w.reach now (.tallies c)
  | .holdings c, w =>
    let w := { w with log := w.log ++ [c] }
    match mishap w.log.length with
    | some .unavailable => (.error .unavailable, w)
    | some .absent =>
      match c.nothing with
      | some answer => (.ok answer, w)
      | none => w.reach now (.holdings c)
    | none => w.reach now (.holdings c)

def run {α : Type} (mishap : Nat → Option Mishap) (now : Nat) (p : Program α) (w : Watched) :
    Except Failure α × Watched :=
  p.interpret (answer mishap now) w

end Watched

def Holdings.Call.text : Holdings.Call → String
  | .get key => "get " ++ key
  | .has key => "contains " ++ key
  | .put key _ _ => "set " ++ key
  | .add set member => "set_add " ++ set ++ " " ++ member
  | .remove set member => "set_del " ++ set ++ " " ++ member
  | .list set => "set_query " ++ set

end AirPicture.Cache
