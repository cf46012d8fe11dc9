import Mathlib.Data.List.Induction
import AirPicture.Decimal.Reading
import AirPicture.Proofs.Decimal.Tokens

/-! Unsigned integers as texts. What is read is figures, before which a plus may stand, up to a
limit. Everything else is at fault, and the first character that cannot be taken says how. What is
written of a number is read as that number. -/
namespace AirPicture.Decimal

def Figured (text : List Char) : Prop := ∀ c ∈ text, isFigure c = true

structure Fitting (limit : Nat) (digits : List Char) : Prop where
  figured : Figured digits
  small : number digits ≤ limit

def Plus (plus rest : List Char) : Prop := plus = [] ∧ rest.head? ≠ some '+' ∨ plus = ['+']

inductive Whole (limit : Nat) : List Char → Except IntegerFault Nat → Prop
  | number {plus digits : List Char} (signed : Plus plus digits) (shown : digits ≠ [])
      (fitting : Fitting limit digits) : Whole limit (plus ++ digits) (.ok (number digits))
  | empty : Whole limit [] (.error .empty)
  | lone : Whole limit ['+'] (.error .digit)
  | digit {plus before after : List Char} {c : Char} (signed : Plus plus (before ++ c :: after))
      (fitting : Fitting limit before) (other : isFigure c = false) :
      Whole limit (plus ++ (before ++ c :: after)) (.error .digit)
  | large {plus before after : List Char} {c : Char} (signed : Plus plus (before ++ c :: after))
      (fitting : Fitting limit before) (figure : isFigure c = true)
      (beyond : limit < number (before ++ [c])) :
      Whole limit (plus ++ (before ++ c :: after)) (.error .large)

section Digits
variable {limit : Nat} {before digits after : List Char} {c : Char}

theorem numberAppend (digits : List Char) (c : Char) :
    number (digits ++ [c]) = 10 * number digits + figure c := by
  simp [number]

theorem numberGrows (digits after : List Char) : number digits ≤ number (digits ++ after) := by
  induction after using List.reverseRecOn with
  | nil => exact Nat.le_of_eq (congrArg number (List.append_nil digits).symm)
  | append_singleton after c ih =>
    rw [← List.append_assoc, numberAppend]
    omega

theorem figuredAppend : Figured (before ++ after) ↔ Figured before ∧ Figured after :=
  List.forall_mem_append

theorem accumulateFigure (figure : isFigure c = true) (small : number (before ++ [c]) ≤ limit) :
    accumulate limit (number before) c = .ok (number (before ++ [c])) := by
  rw [numberAppend] at small ⊢
  rw [accumulate, if_pos figure, if_pos small]

theorem accumulated (figured : Figured digits) (small : number (before ++ digits) ≤ limit) :
    digits.foldlM (accumulate limit) (number before) = .ok (number (before ++ digits)) := by
  induction digits generalizing before with
  | nil => rw [List.append_nil]; rfl
  | cons c rest ih =>
    obtain ⟨figure, others⟩ := List.forall_mem_cons.mp figured
    rw [List.append_cons] at small ⊢
    have next := accumulateFigure figure (Nat.le_trans (numberGrows _ rest) small)
    rw [List.foldlM_cons, next]
    exact ih others small

theorem fittingRead (fitting : Fitting limit digits) (after : List Char) :
    (digits ++ after).foldlM (accumulate limit) 0 =
      after.foldlM (accumulate limit) (number digits) := by
  have read : digits.foldlM (accumulate limit) (number []) = .ok (number digits) :=
    accumulated fitting.figured fitting.small
  rw [show number [] = 0 from rfl] at read
  rw [List.foldlM_append, read]
  rfl

theorem fittingEmpty (limit : Nat) : Fitting limit [] := ⟨by simp [Figured], Nat.zero_le limit⟩

theorem firstUnfitting (limit : Nat) (text : List Char) : Fitting limit text ∨
    ∃ before c after, text = before ++ c :: after ∧ Fitting limit before ∧
      (isFigure c = false ∨ isFigure c = true ∧ limit < number (before ++ [c])) := by
  induction text using List.reverseRecOn with
  | nil => exact .inl (fittingEmpty limit)
  | append_singleton text c ih =>
    obtain fitting | ⟨before, d, after, rfl, fitting, fault⟩ := ih
    · cases figure : isFigure c with
      | false => exact .inr ⟨text, c, [], rfl, fitting, .inl figure⟩
      | true =>
        by_cases small : number (text ++ [c]) ≤ limit
        · exact .inl ⟨figuredAppend.mpr ⟨fitting.figured, by simpa [Figured] using figure⟩, small⟩
        · exact .inr ⟨text, c, [], rfl, fitting, .inr ⟨figure, Nat.not_le.mp small⟩⟩
    · exact .inr ⟨before, d, after ++ [c], by simp, fitting, fault⟩

end Digits

section Reading
variable {limit : Nat} {text plus rest : List Char} {result : Except IntegerFault Nat}

theorem plusSplit (text : List Char) : ∃ plus rest, text = plus ++ rest ∧ Plus plus rest := by
  by_cases first : text.head? = some '+'
  · obtain ⟨rest, rfl⟩ := List.head?_eq_some_iff.mp first
    exact ⟨['+'], rest, rfl, .inr rfl⟩
  · exact ⟨[], text, rfl, .inl ⟨rfl, first⟩⟩

theorem plusRead (signed : Plus plus rest) (shown : rest ≠ []) :
    readUnsigned limit (plus ++ rest) = rest.foldlM (accumulate limit) 0 := by
  obtain ⟨c, tail, rfl⟩ := List.exists_cons_of_ne_nil shown
  obtain ⟨rfl, other⟩ | rfl := signed
  · have other : c ≠ '+' := fun same => other (congrArg some same)
    rw [List.nil_append, readUnsigned]
    · exact List.cons_ne_nil c tail
    · rintro ⟨⟩
      exact other rfl
    · rintro _ ⟨⟩
      exact other rfl
  · rfl

theorem wholeRead (whole : Whole limit text result) : readUnsigned limit text = result := by
  cases whole with
  | number signed shown fitting =>
    have read := fittingRead fitting []
    rw [List.append_nil] at read
    rw [plusRead signed shown, read]
    rfl
  | empty => rfl
  | lone => rfl
  | digit signed fitting other =>
    rw [plusRead signed (by simp), fittingRead fitting, List.foldlM_cons, accumulate,
      if_neg (by simp [other])]
    rfl
  | large signed fitting figure beyond =>
    rw [numberAppend] at beyond
    rw [plusRead signed (by simp), fittingRead fitting, List.foldlM_cons, accumulate,
      if_pos figure, if_neg (Nat.not_le.mpr beyond)]
    rfl

theorem wholeKnown (limit : Nat) (text : List Char) : ∃ result, Whole limit text result := by
  obtain ⟨plus, rest, rfl, signed⟩ := plusSplit text
  by_cases shown : rest = []
  · subst rest
    obtain ⟨rfl, -⟩ | rfl := signed
    · exact ⟨_, .empty⟩
    · exact ⟨_, .lone⟩
  obtain fitting | ⟨before, c, after, rfl, fitting, other | ⟨figure, beyond⟩⟩ :=
    firstUnfitting limit rest
  · exact ⟨_, .number signed shown fitting⟩
  · exact ⟨_, .digit signed fitting other⟩
  · exact ⟨_, .large signed fitting figure beyond⟩

theorem readWhole : readUnsigned limit text = result ↔ Whole limit text result := by
  refine ⟨fun read => ?_, wholeRead⟩
  obtain ⟨known, whole⟩ := wholeKnown limit text
  rwa [← read, wholeRead whole]

end Reading

section Writing

theorem figureDigit : ∀ n : Fin 10, figure n.val.digitChar = n.val := by decide

theorem numberFigures (n : Nat) : number (figures n) = n := by
  unfold figures
  induction n using Nat.strongRecOn with
  | ind n ih =>
    by_cases last : n < 10
    · rw [Nat.toDigits_of_lt_base last]
      exact (Nat.zero_add _).trans (figureDigit ⟨n, last⟩)
    · rw [Nat.toDigits_of_base_le (by decide) (Nat.not_lt.mp last), numberAppend,
        ih (n / 10) (by omega), figureDigit ⟨n % 10, Nat.mod_lt n (by decide)⟩]
      exact Nat.div_add_mod n 10

theorem figuresFitting {limit n : Nat} (small : n ≤ limit) : Fitting limit (figures n) :=
  ⟨fun c inside => figuresKnown n c inside, Nat.le_trans (Nat.le_of_eq (numberFigures n)) small⟩

theorem figuresUnsigned (n : Nat) : (figures n).head? ≠ some '+' := by
  intro first
  have figure := figuresKnown n '+' (List.mem_of_head? first)
  contradiction

theorem figuresWhole {limit n : Nat} (small : n ≤ limit) : Whole limit (figures n) (.ok n) := by
  have whole := Whole.number (.inl ⟨rfl, figuresUnsigned n⟩) (figuresShown n)
    (figuresFitting small)
  rwa [List.nil_append, numberFigures] at whole

end Writing

end AirPicture.Decimal
