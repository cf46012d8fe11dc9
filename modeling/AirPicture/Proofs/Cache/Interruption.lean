import AirPicture.Proofs.Cache.Holdings
import AirPicture.Proofs.Cache.Program

/-! Programs that are interrupted. A call on the holdings may fail in any way, and then without
effect; the program ends there with this failure. Until then it has made the calls that it makes
when nothing fails, one after another. -/
namespace AirPicture.Cache

namespace Watched

/- Calls on the holdings are numbered from zero. Each reads the clock at its number, and is written
down if it succeeds. Where there is a fault at its number it fails instead. -/
def faulty (clock : Nat → Nat) (fault : Nat → Option Failure) : Program.Handler Watched
  | .tallies c, w => w.reach (clock w.log.length) (.tallies c)
  | .holdings c, w =>
    match fault w.log.length with
    | some e => (.error e, w)
    | none =>
      match w.world.holdings.perform (clock w.log.length) c with
      | (.ok answer, h) => (.ok answer, ⟨⟨h, w.world.tallies⟩, w.log ++ [c]⟩)
      | (.error e, h) => (.error e, ⟨⟨h, w.world.tallies⟩, w.log⟩)

def noFault : Nat → Option Failure := fun _ => none

def faultAt (k : Nat) (e : Failure) : Nat → Option Failure :=
  fun n => if n = k then some e else none

end Watched

namespace Program
variable {α β σ : Type}
open Watched

theorem faultyLog (clock : Nat → Nat) (fault : Nat → Option Failure) (p : Program α)
    (s : Watched) : s.log <+: (p.interpret (faulty clock fault) s).2.log := by
  induction p generalizing s with
  | done a => exact List.prefix_rfl
  | call c next ih =>
    have made : s.log <+: (faulty clock fault c s).2.log := by
      cases c with
      | tallies c => exact List.prefix_rfl
      | holdings c =>
        simp only [faulty]
        cases fault s.log.length with
        | some e => exact List.prefix_rfl
        | none =>
          rcases s.world.holdings.perform (clock s.log.length) c with ⟨e | answer, h⟩
          · exact List.prefix_rfl
          · exact List.prefix_append _ _
    simp only [interpret]
    rcases met : faulty clock fault c s with ⟨e | answer, after⟩
    · rwa [met] at made
    · rw [met] at made
      exact made.trans (ih answer after)

theorem faultyCut (clock : Nat → Nat) {fault : Nat → Option Failure} {k : Nat} {e : Failure}
    (strikes : fault k = some e) (clear : ∀ n < k, fault n = none) (p : Program α) {s : Watched}
    (ahead : s.log.length ≤ k)
    (reached : k < (p.interpret (faulty clock noFault) s).2.log.length) :
    (p.interpret (faulty clock fault) s).1 = .error e ∧
      (p.interpret (faulty clock fault) s).2.log =
        (p.interpret (faulty clock noFault) s).2.log.take k := by
  induction p generalizing s with
  | done a => exact absurd reached (Nat.not_lt.mpr ahead)
  | call c next ih =>
    cases c with
    | tallies c =>
      simp only [interpret, faulty, reach, World.performTallies] at reached ⊢
      rcases met : s.world.tallies.perform c with ⟨f | answer, t⟩
      · rw [met] at reached
        exact absurd reached (Nat.not_lt.mpr ahead)
      · rw [met] at reached
        exact ih answer ahead reached
    | holdings c =>
      rcases Nat.lt_or_eq_of_le ahead with before | here
      · simp only [interpret, faulty, noFault, clear _ before] at reached ⊢
        rcases met : s.world.holdings.perform (clock s.log.length) c with ⟨f | answer, h⟩
        · rw [met] at reached
          exact absurd reached (Nat.not_lt.mpr ahead)
        · rw [met] at reached
          exact ih answer (by simpa [Nat.succ_le_iff] using before) reached
      · -- the fault strikes here, and what would have followed is cut off
        have kept := List.prefix_iff_eq_take.mp
          (faultyLog clock noFault (.call (.holdings c) next) s)
        rw [here] at kept
        have stopped : (call (.holdings c) next).interpret (faulty clock fault) s =
            (.error e, s) := by
          simp only [interpret, faulty, here, strikes]
        rw [stopped]
        exact ⟨rfl, kept⟩

end Program

end AirPicture.Cache
