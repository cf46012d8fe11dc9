import AirPicture.Cache.Intake

/-! Programs in the hands of a handler. Running one program after another passes the state
on, and a failure of the first keeps the second from being started. -/
namespace AirPicture.Cache

theorem World.performHoldings (now : Nat) (w : World) (c : Holdings.Call) :
    w.perform now (.holdings c) =
      ((w.holdings.perform now c).1, ⟨(w.holdings.perform now c).2, w.tallies⟩) := rfl

theorem World.performTallies (now : Nat) (w : World) (c : Tallies.Call) :
    w.perform now (.tallies c) =
      ((w.tallies.perform c).1, ⟨w.holdings, (w.tallies.perform c).2⟩) := rfl

namespace Program
variable {α β σ : Type}

theorem interpretBind (handler : Handler σ) (p : Program α) (f : α → Program β) (s : σ) :
    (p >>= f).interpret handler s =
      match p.interpret handler s with
      | (.ok a, s) => (f a).interpret handler s
      | (.error e, s) => (.error e, s) := by
  change (p.bind f).interpret handler s = _
  induction p generalizing s with
  | done a => rfl
  | call c next ih =>
    simp only [bind, interpret]
    cases handler c s with
    | mk answer s =>
      cases answer with
      | ok answer => exact ih answer s
      | error e => rfl

theorem interpretAfter {handler : Handler σ} {p : Program α} {s after : σ} {a : α}
    (first : p.interpret handler s = (.ok a, after)) (f : α → Program β) :
    (p >>= f).interpret handler s = (f a).interpret handler after := by
  rw [interpretBind, first]

theorem runDone (now : Nat) (a : α) (w : World) : (pure a : Program α).run now w = (.ok a, w) := rfl

theorem runAfter {now : Nat} {p : Program α} {w after : World} {a : α}
    (first : p.run now w = (.ok a, after)) (f : α → Program β) :
    (p >>= f).run now w = (f a).run now after :=
  interpretAfter first f

theorem runFailed {now : Nat} {p : Program α} {w after : World} {e : Failure}
    (first : p.run now w = (.error e, after)) (f : α → Program β) :
    (p >>= f).run now w = (.error e, after) := by
  unfold run at first ⊢
  rw [interpretBind, first]

theorem runCall (now : Nat) (c : Call) (w : World) :
    (call c done).run now w = w.perform now c := by
  unfold run interpret
  cases w.perform now c with
  | mk answer w => cases answer <;> rfl

theorem runHoldings (now : Nat) (c : Holdings.Call) (w : World) :
    (ofHoldings c).run now w =
      ((w.holdings.perform now c).1, ⟨(w.holdings.perform now c).2, w.tallies⟩) :=
  runCall now (.holdings c) w

theorem runTallies (now : Nat) (c : Tallies.Call) (w : World) :
    (ofTallies c).run now w = ((w.tallies.perform c).1, ⟨w.holdings, (w.tallies.perform c).2⟩) :=
  runCall now (.tallies c) w

end Program

end AirPicture.Cache
