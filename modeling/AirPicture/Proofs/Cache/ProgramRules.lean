import AirPicture.Proofs.Cache.Chronicle

/-! What a program does of itself. A program obeys a rule if every call that it makes is one
that the rule allows after the exchanges so far, whatever the answers to them were, and it
reaches a goal if its result meets it. Both then hold in every crowd that the program is in. -/
namespace AirPicture.Cache

namespace Program
variable {α β : Type} {rule : List Exchange → Call → Prop}

def Obeys (rule : List Exchange → Call → Prop) (goal : List Exchange → α → Prop) :
    List Exchange → Program α → Prop
  | past, .done a => goal past a
  | past, .call c next =>
    rule past c ∧ ∀ a, (next a).Obeys rule goal (past ++ [⟨c, .ok a⟩])

theorem obeysMono {goal weaker : List Exchange → α → Prop}
    (imp : ∀ past a, goal past a → weaker past a) {past : List Exchange} {p : Program α}
    (obeys : p.Obeys rule goal past) : p.Obeys rule weaker past := by
  induction p generalizing past with
  | done a => exact imp past a obeys
  | call c next ih => exact ⟨obeys.1, fun a => ih a (obeys.2 a)⟩

theorem obeysRule {weaker : List Exchange → Call → Prop} {goal : List Exchange → α → Prop}
    (imp : ∀ past c, rule past c → weaker past c) {past : List Exchange} {p : Program α}
    (obeys : p.Obeys rule goal past) : p.Obeys weaker goal past := by
  induction p generalizing past with
  | done a => exact obeys
  | call c next ih => exact ⟨imp past c obeys.1, fun a => ih a (obeys.2 a)⟩

theorem obeysAnd {other : List Exchange → Call → Prop} {goal aim : List Exchange → α → Prop}
    {past : List Exchange} {p : Program α} (first : p.Obeys rule goal past)
    (second : p.Obeys other aim past) :
    p.Obeys (fun past c => rule past c ∧ other past c) (fun past a => goal past a ∧ aim past a)
      past := by
  induction p generalizing past with
  | done a => exact ⟨first, second⟩
  | call c next ih =>
    exact ⟨⟨first.1, second.1⟩, fun a => ih a (first.2 a) (second.2 a)⟩

theorem obeysExtends {goal : List Exchange → α → Prop} {past : List Exchange} {p : Program α}
    (obeys : p.Obeys rule goal past) :
    p.Obeys rule (fun later a => past <+: later ∧ goal later a) past := by
  induction p generalizing past with
  | done a => exact ⟨List.prefix_rfl, obeys⟩
  | call c next ih =>
    refine ⟨obeys.1, fun a => obeysMono ?_ (ih a (obeys.2 a))⟩
    rintro later b ⟨grown, reached⟩
    exact ⟨(List.prefix_append _ _).trans grown, reached⟩

theorem obeysBind {goal : List Exchange → β → Prop} (middle : List Exchange → α → Prop)
    {past : List Exchange} {p : Program α} {f : α → Program β}
    (first : p.Obeys rule middle past)
    (second : ∀ later a, past <+: later → middle later a → (f a).Obeys rule goal later) :
    (p >>= f).Obeys rule goal past := by
  have whole := obeysMono (fun later a reached => second later a reached.1 reached.2)
    (obeysExtends first)
  clear first second
  change (p.bind f).Obeys rule goal past
  induction p generalizing past with
  | done a => exact whole
  | call c next ih => exact ⟨whole.1, fun a => ih a (whole.2 a)⟩

theorem obeysCall {goal : List Exchange → α → Prop} {past : List Exchange} {c : Call}
    {f : c.Answer → Program α} (allowed : rule past c)
    (second : ∀ a, (f a).Obeys rule goal (past ++ [⟨c, .ok a⟩])) :
    ((call c done) >>= f).Obeys rule goal past :=
  ⟨allowed, second⟩

theorem obeysFollows {goal : List Exchange → α → Prop} {earlier : List Exchange} {p : Program α}
    (obeys : p.Obeys rule goal earlier) {xs : List Exchange} {t : Thread α}
    (follows : Follows (.ok p) xs t) :
    (∀ before x after, xs = before ++ x :: after → rule (earlier ++ before) x.call) ∧
      ∀ a, t = .ok (.done a) → goal (earlier ++ xs) a := by
  induction p generalizing earlier xs with
  | done a =>
    cases follows
    refine ⟨by simp, ?_⟩
    intro b same
    cases same
    rw [List.append_nil]
    exact obeys
  | call c next ih =>
    cases follows with
    | here => exact ⟨by simp, by simp⟩
    | @answered _ _ answer rest _ later =>
      obtain ⟨rules, reached⟩ := ih answer (obeys.2 answer) later
      refine ⟨?_, by simpa using reached⟩
      intro before x after split
      cases before with
      | nil =>
        obtain ⟨rfl, rfl⟩ := List.cons.inj split
        simpa using obeys.1
      | cons head before =>
        obtain ⟨rfl, rfl⟩ := List.cons.inj split
        simpa using rules before x after rfl
    | @failed _ _ f rest _ later =>
      cases later
      refine ⟨?_, by simp⟩
      intro before x after split
      cases before with
      | nil =>
        obtain ⟨rfl, rfl⟩ := List.cons.inj split
        simpa using obeys.1
      | cons head before => simp at split

theorem obeysRest {goal : List Exchange → α → Prop} {earlier : List Exchange} {p : Program α}
    (obeys : p.Obeys rule goal earlier) {xs : List Exchange} {q : Program α}
    (follows : Follows (.ok p) xs (.ok q)) : q.Obeys rule goal (earlier ++ xs) := by
  induction p generalizing earlier xs with
  | done a =>
    cases follows
    simpa using obeys
  | call c next ih =>
    cases follows with
    | here => simpa using obeys
    | @answered _ _ answer rest _ later => simpa using ih answer (obeys.2 answer) later
    | failed later => cases later

def Within : Nat → Program α → Prop
  | _, .done _ => True
  | 0, .call _ _ => False
  | n + 1, .call _ next => ∀ a, (next a).Within n

theorem withinMono {n m : Nat} (order : n ≤ m) {p : Program α} (within : p.Within n) :
    p.Within m := by
  induction p generalizing n m with
  | done a => cases m <;> exact trivial
  | call c next ih =>
    cases n with
    | zero => exact within.elim
    | succ n =>
      cases m with
      | zero => omega
      | succ m => exact fun a => ih a (Nat.le_of_succ_le_succ order) (within a)

theorem withinBind {n m : Nat} {p : Program α} {f : α → Program β} (first : p.Within n)
    (second : ∀ a, (f a).Within m) : (p >>= f).Within (n + m) := by
  change (p.bind f).Within (n + m)
  induction p generalizing n with
  | done a => exact withinMono (Nat.le_add_left m n) (second a)
  | call c next ih =>
    cases n with
    | zero => exact first.elim
    | succ n =>
      rw [Nat.succ_add]
      exact fun a => ih a (first a)

theorem withinFollows {n : Nat} {p : Program α} (within : p.Within n) {xs : List Exchange}
    {t : Thread α} (follows : Follows (.ok p) xs t) (enough : n ≤ xs.length) :
    t.ended = true := by
  induction p generalizing n xs with
  | done a =>
    cases follows
    rfl
  | call c next ih =>
    cases n with
    | zero => exact within.elim
    | succ n =>
      cases follows with
      | here => simp at enough
      | @answered _ _ answer rest _ later =>
        exact ih answer (within answer) later (Nat.le_of_succ_le_succ enough)
      | @failed _ _ f rest _ later =>
        cases later
        rfl

end Program

section Threads
variable {α : Type}

theorem endedStays {t after : Thread α} {xs : List Exchange} (ended : t.ended = true)
    (follows : Follows t xs after) : after = t ∧ xs = [] := by
  cases follows with
  | here => exact ⟨rfl, rfl⟩
  | answered => contradiction
  | failed => contradiction

theorem failedFollows {p : Program α} {xs before after : List Exchange} {t : Thread α} {c : Call}
    {f : Failure} (follows : Follows (.ok p) xs t) (split : xs = before ++ ⟨c, .error f⟩ :: after) :
    t = .error f := by
  induction p generalizing xs before with
  | done a =>
    cases follows
    simp at split
  | call call next ih =>
    cases follows with
    | here => simp at split
    | @answered _ _ answer rest _ later =>
      cases before with
      | nil =>
        have same := (List.cons.inj split).1
        cases same
      | cons head before => exact ih answer later (List.cons.inj split).2
    | @failed _ _ g rest _ later =>
      cases later
      cases before with
      | nil =>
        have same := (List.cons.inj split).1
        cases same
        rfl
      | cons head before => simp at split

theorem failureFollows {p : Program α} {xs : List Exchange} {f : Failure}
    (follows : Follows (.ok p) xs (.error f)) :
    ∃ before c, xs = before ++ [⟨c, .error f⟩] := by
  induction p generalizing xs with
  | done a => cases follows
  | call c next ih =>
    cases follows with
    | @answered _ _ answer rest _ later =>
      obtain ⟨before, last, rfl⟩ := ih answer later
      exact ⟨_ :: before, last, rfl⟩
    | @failed _ _ g rest _ later =>
      cases later
      exact ⟨[], c, rfl⟩

namespace Crowd

theorem turnsSpent {c : Crowd α} {i : Nat} {thread : Thread α}
    (found : c.threads[i]? = some thread) {turns : List Turn} {last : Thread α}
    (ran : (c.run turns).threads[i]? = some last) (going : last.ended = false) :
    (past i (c.events turns)).length = turns.countP (fun t => t.thread = i) := by
  induction turns generalizing c thread with
  | nil => rfl
  | cons t rest ih =>
    obtain ⟨middle, taken, first⟩ := takeThread found t
    rw [events, pastAppend, List.length_append, ih taken ran, List.countP_cons, Nat.add_comm]
    congr 1
    by_cases own : t.thread = i
    · subst i
      obtain ⟨after, ran', follows⟩ := runThread found (t :: rest)
      cases Option.some.inj (ran.symm.trans ran')
      cases thread with
      | error f =>
        rw [(endedStays rfl follows).1] at going
        contradiction
      | ok p =>
        cases p with
        | done a =>
          rw [(endedStays rfl follows).1] at going
          contradiction
        | call call next => simp [event, found, past]
    · simp [eventElsewhere c own, own]

end Crowd

end Threads

end AirPicture.Cache
