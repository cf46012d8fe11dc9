import AirPicture.Cache.Program

/-! Programs that share one world and take turns. In each turn one of them makes its next
call, at an instant of the common clock; the order of the turns is arbitrary. -/
namespace AirPicture.Cache

abbrev Thread (α : Type) := Except Failure (Program α)

structure Turn where
  thread : Nat
  now : Nat
  deriving DecidableEq, Repr

structure Crowd (α : Type) where
  world : World
  threads : List (Thread α)

variable {α : Type}

def Thread.step (now : Nat) (w : World) : Thread α → Thread α × World
  | .ok (.call c next) =>
    match w.perform now c with
    | (.ok answer, w) => (.ok (next answer), w)
    | (.error e, w) => (.error e, w)
  | thread => (thread, w)

namespace Crowd

def start (w : World) (programs : List (Program α)) : Crowd α := ⟨w, programs.map .ok⟩

def take (c : Crowd α) (t : Turn) : Crowd α :=
  match c.threads[t.thread]? with
  | some thread =>
    let (thread, world) := Thread.step t.now c.world thread
    ⟨world, c.threads.set t.thread thread⟩
  | none => c

def run (c : Crowd α) (turns : List Turn) : Crowd α := turns.foldl take c

end Crowd

end AirPicture.Cache
