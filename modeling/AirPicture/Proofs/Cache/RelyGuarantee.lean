import Mathlib.Order.Defs.Unbundled
import AirPicture.Proofs.Cache.Chronicle

/-! Programs among others. What the others do to a world is known only as a relation that all of
them keep to, whoever makes the next call. A program among others answers for its own calls
under that assumption, and keeps to the relation itself; so in a crowd of such programs each
of them reaches its goal, in every order of the turns. One order is to run them in turn. -/
namespace AirPicture.Cache

namespace Program
variable {α β : Type} {keeps : World → World → Prop} {now : Nat}

/- At most so many calls bring the program to its goal, whatever the others do before each of
them and after the last. No call fails, and each keeps to the relation. -/
def Among (keeps : World → World → Prop) (now : Nat) (goal : α → World → Prop) :
    Program α → Nat → World → Prop
  | .done a, _, w => ∀ v, keeps w v → goal a v
  | .call _ _, 0, _ => False
  | .call c next, n + 1, w => ∀ v, keeps w v → ∃ a u, v.perform now c = (.ok a, u) ∧ keeps v u ∧
    (next a).Among keeps now goal n u

section Laws
variable [IsPreorder World keeps]

theorem amongLater {goal : α → World → Prop} {n : Nat} {w v : World} {p : Program α}
    (among : p.Among keeps now goal n w) (kept : keeps w v) : p.Among keeps now goal n v := by
  cases p with
  | done a => exact fun u later => among u (trans_of keeps kept later)
  | call c next =>
    cases n with
    | zero => exact among
    | succ n => exact fun u later => among u (trans_of keeps kept later)

theorem amongMono {goal aim : α → World → Prop} {n m : Nat} {w : World} {p : Program α}
    (order : n ≤ m) (imp : ∀ a v, keeps w v → goal a v → aim a v)
    (among : p.Among keeps now goal n w) : p.Among keeps now aim m w := by
  induction p generalizing n m w with
  | done a => exact fun v kept => imp a v kept (among v kept)
  | call c next ih =>
    cases n with
    | zero => exact among.elim
    | succ n =>
      cases m with
      | zero => omega
      | succ m =>
        intro v kept
        obtain ⟨a, u, made, further, rest⟩ := among v kept
        exact ⟨a, u, made, further, ih a (Nat.le_of_succ_le_succ order)
          (fun b t later => imp b t (trans_of keeps kept (trans_of keeps further later))) rest⟩

theorem amongBind {goal : β → World → Prop} (middle : α → World → Prop) {n m : Nat} {w : World}
    {p : Program α} {f : α → Program β} (first : p.Among keeps now middle n w)
    (second : ∀ a v, keeps w v → middle a v → (f a).Among keeps now goal m v) :
    (p >>= f).Among keeps now goal (n + m) w := by
  change (p.bind f).Among keeps now goal (n + m) w
  induction p generalizing n w with
  | done a =>
    exact amongMono (Nat.le_add_left m n) (fun _ _ _ reached => reached)
      (second a w (refl w) (first w (refl w)))
  | call c next ih =>
    cases n with
    | zero => exact first.elim
    | succ n =>
      rw [Nat.add_right_comm]
      intro v kept
      obtain ⟨a, u, made, further, rest⟩ := first v kept
      exact ⟨a, u, made, further,
        ih a rest fun b t later => second b t (trans_of keeps kept (trans_of keeps further later))⟩

end Laws

theorem amongCall {goal : α → World → Prop} {n : Nat} {w : World} {c : Call}
    {f : c.Answer → Program α} (made : ∀ v, keeps w v → ∃ a u, v.perform now c = (.ok a, u) ∧
      keeps v u ∧ (f a).Among keeps now goal n u) :
    ((call c done) >>= f).Among keeps now goal (n + 1) w := made

end Program

namespace Crowd
variable {α : Type} {keeps : World → World → Prop} {now : Nat}

def Accord (keeps : World → World → Prop) (now : Nat) (goal : Nat → α → World → Prop)
    (left : Nat → Nat) (c : Crowd α) : Prop :=
  ∀ i thread, c.threads[i]? = some thread →
    ∃ p : Program α, thread = .ok p ∧ p.Among keeps now (goal i) (left i) c.world

section Laws
variable [IsPreorder World keeps]
variable {goal : Nat → α → World → Prop} {left : Nat → Nat} {c : Crowd α}

theorem takeAccord (accord : c.Accord keeps now goal left) {t : Turn} (still : t.now = now) :
    keeps c.world (c.take t).world ∧
      (c.take t).Accord keeps now goal (fun i => left i - if t.thread = i then 1 else 0) := by
  have moved {world : World} {p : Program α} (kept : keeps c.world world)
      (own : p.Among keeps now (goal t.thread) (left t.thread - 1) world) :
      Accord keeps now goal (fun i => left i - if t.thread = i then 1 else 0)
        ⟨world, c.threads.set t.thread (.ok p)⟩ := by
    intro i thread held
    by_cases mine : t.thread = i
    · subst i
      have place := (List.getElem?_eq_some_iff.mp held).1
      rw [List.getElem?_set_self (by simpa using place)] at held
      cases held
      exact ⟨p, rfl, by simpa using own⟩
    · rw [List.getElem?_set_ne mine] at held
      obtain ⟨q, rfl, among⟩ := accord i thread held
      exact ⟨q, rfl, by simpa [mine] using Program.amongLater among kept⟩
  unfold take
  cases found : c.threads[t.thread]? with
  | none =>
    refine ⟨refl c.world, fun i thread held => ?_⟩
    have other : t.thread ≠ i := by
      rintro rfl
      simp [found] at held
    simpa [other] using accord i thread held
  | some thread =>
    obtain ⟨p, rfl, among⟩ := accord t.thread thread found
    cases p with
    | done a =>
      exact ⟨refl c.world, moved (refl c.world) among⟩
    | call call next =>
      cases remaining : left t.thread with
      | zero =>
        rw [remaining] at among
        exact among.elim
      | succ n =>
        rw [remaining] at among
        obtain ⟨a, u, made, kept, rest⟩ := among c.world (refl c.world)
        simp only [Thread.step, still, made]
        exact ⟨kept, moved kept (by simpa [remaining] using rest)⟩

theorem runAccord (accord : c.Accord keeps now goal left) {turns : List Turn}
    (still : ∀ t ∈ turns, t.now = now) :
    keeps c.world (c.run turns).world ∧ (c.run turns).Accord keeps now goal
      fun i => left i - turns.countP fun t => t.thread = i := by
  induction turns generalizing c left with
  | nil => exact ⟨refl c.world, accord⟩
  | cons t rest ih =>
    obtain ⟨kept, taken⟩ := takeAccord accord (still t List.mem_cons_self)
    obtain ⟨later, ran⟩ := ih taken fun t inside => still t (List.mem_cons_of_mem _ inside)
    refine ⟨trans_of keeps kept later, fun i thread held => ?_⟩
    obtain ⟨p, rfl, among⟩ := ran i thread held
    have spent : left i - (t :: rest).countP (fun t => t.thread = i) =
        left i - (if t.thread = i then 1 else 0) - rest.countP fun t => t.thread = i := by
      simp only [List.countP_cons, decide_eq_true_eq]
      omega
    refine ⟨p, rfl, ?_⟩
    simp only [spent]
    exact among

end Laws

theorem runAlone {c : Crowd α} {i : Nat} {p : Program α} (found : c.threads[i]? = some (.ok p))
    (now : Nat) : ∃ n, c.run (.replicate n ⟨i, now⟩) =
      ⟨(p.run now c.world).2, c.threads.set i ((p.run now c.world).1.map .done)⟩ := by
  induction p generalizing c with
  | done a =>
    have place := List.getElem?_eq_some_iff.mp found
    exact ⟨0, by simp [run, Program.run, Program.interpret, Except.map, ← place.2]⟩
  | call call next ih =>
    have place := (List.getElem?_eq_some_iff.mp found).1
    cases made : c.world.perform now call with
    | mk answer world =>
      cases answer with
      | error f =>
        refine ⟨1, ?_⟩
        simp [run, take, found, Thread.step, made, Program.run, Program.interpret, Except.map]
      | ok a =>
        have taken : c.take ⟨i, now⟩ = ⟨world, c.threads.set i (.ok (next a))⟩ := by
          simp [take, found, Thread.step, made]
        obtain ⟨n, ran⟩ := ih a (c := ⟨world, c.threads.set i (.ok (next a))⟩)
          (by rw [List.getElem?_set_self place])
        refine ⟨n + 1, ?_⟩
        have stepped : (Program.call call next).run now c.world = (next a).run now world := by
          simp only [Program.run, Program.interpret, made]
        rw [stepped, List.replicate_succ, run, List.foldl_cons, taken]
        simpa [run] using ran

theorem runRest (now : Nat) (w : World) (gone : List (Thread α))
    (ended : ∀ thread ∈ gone, thread.ended = true) (programs : List (Program α)) :
    ∃ turns : List Turn, (∀ t ∈ turns, t.now = now) ∧
      (run ⟨w, gone ++ programs.map .ok⟩ turns).world =
        programs.foldl (fun w p => (p.run now w).2) w ∧
      ∀ thread ∈ (run ⟨w, gone ++ programs.map .ok⟩ turns).threads, thread.ended = true := by
  induction programs generalizing w gone with
  | nil => exact ⟨[], by simp, rfl, by simpa [run] using ended⟩
  | cons p rest ih =>
    obtain ⟨n, ran⟩ := runAlone (c := ⟨w, gone ++ (p :: rest).map .ok⟩) (i := gone.length) (p := p)
      (by simp) now
    have more : ∀ thread ∈ gone ++ [(p.run now w).1.map .done], thread.ended = true := by
      intro thread inside
      rcases List.mem_append.mp inside with before | last
      · exact ended thread before
      · rw [List.mem_singleton.mp last]
        cases (p.run now w).1 <;> rfl
    obtain ⟨turns, still, finished⟩ := ih (p.run now w).2 _ more
    have joined : run ⟨w, gone ++ (p :: rest).map .ok⟩ (.replicate n ⟨gone.length, now⟩ ++ turns) =
        run ⟨(p.run now w).2, gone ++ [(p.run now w).1.map .done] ++ rest.map .ok⟩ turns := by
      rw [run, List.foldl_append, ← run, ← run, ran]
      simp
    refine ⟨.replicate n ⟨gone.length, now⟩ ++ turns, ?_, ?_⟩
    · intro t inside
      rcases List.mem_append.mp inside with first | second
      · rw [List.eq_of_mem_replicate first]
      · exact still t second
    · rw [joined]
      exact finished

theorem runInTurn (now : Nat) (w : World) (programs : List (Program α)) :
    ∃ turns : List Turn, (∀ t ∈ turns, t.now = now) ∧
      ((start w programs).run turns).world = programs.foldl (fun w p => (p.run now w).2) w ∧
      ∀ thread ∈ ((start w programs).run turns).threads, thread.ended = true :=
  runRest now w [] (by simp) programs

end Crowd

end AirPicture.Cache
