import AirPicture.Json.Reader

/-! The tokens of numbers: which texts they are, and how their parts follow one another. What can
stand behind a minus sign can also stand by itself. -/
namespace AirPicture.Json

namespace NumberState

def first (c : Char) : Option NumberState :=
  if c = '-' then some .minus else NumberState.minus.next c

def follow (s : NumberState) (text : List Char) : Option NumberState :=
  text.foldlM NumberState.next s

def of : List Char → Option NumberState
  | [] => none
  | c :: rest => (first c).bind (·.follow rest)

end NumberState

def isNumber (token : List Char) : Bool := (NumberState.of token).any NumberState.whole?

def Unsigned (token : List Char) : Prop :=
  ∃ s, NumberState.minus.follow token = some s ∧ s.whole? = true

def Figures (text : List Char) : Prop := ∀ c ∈ text, isFigure c = true

theorem followAppend {s middle : NumberState} {first : List Char}
    (followed : s.follow first = some middle) (second : List Char) :
    s.follow (first ++ second) = middle.follow second := by
  unfold NumberState.follow at followed ⊢
  rw [List.foldlM_append, followed]
  rfl

theorem followNext {s next : NumberState} {c : Char} (step : s.next c = some next)
    (rest : List Char) : s.follow (c :: rest) = next.follow rest := by
  simp [NumberState.follow, step]

theorem followFigures {s : NumberState} (loops : ∀ c, isFigure c = true → s.next c = some s)
    {text : List Char} (figures : Figures text) : s.follow text = some s := by
  induction text with
  | nil => rfl
  | cons c rest ih =>
    obtain ⟨one, others⟩ := List.forall_mem_cons.mp figures
    rw [followNext (loops c one), ih others]

theorem wholeLoops (c : Char) (figure : isFigure c = true) :
    NumberState.whole.next c = some .whole := if_pos figure

theorem fractionLoops (c : Char) (figure : isFigure c = true) :
    NumberState.fraction.next c = some .fraction := if_pos figure

theorem powerLoops (c : Char) (figure : isFigure c = true) :
    NumberState.power.next c = some .power := if_pos figure

theorem pointFollows {s : NumberState} (before : s = .zero ∨ s = .whole) {text : List Char}
    (figures : Figures text) (shown : text ≠ []) : s.follow ('.' :: text) = some .fraction := by
  have point : s.next '.' = some .point := by rcases before with rfl | rfl <;> rfl
  cases text with
  | nil => contradiction
  | cons c rest =>
    obtain ⟨one, others⟩ := List.forall_mem_cons.mp figures
    have begun : NumberState.point.next c = some .fraction := if_pos one
    rw [followNext point, followNext begun, followFigures fractionLoops others]

theorem powerFollows {s : NumberState} (before : s = .whole ∨ s = .fraction) {sign : Char}
    (signed : sign = '+' ∨ sign = '-') {text : List Char} (figures : Figures text)
    (shown : text ≠ []) : s.follow ('e' :: sign :: text) = some .power := by
  have mark : s.next 'e' = some .mark := by rcases before with rfl | rfl <;> rfl
  have step : NumberState.mark.next sign = some .sign := if_pos signed
  cases text with
  | nil => contradiction
  | cons c rest =>
    obtain ⟨one, others⟩ := List.forall_mem_cons.mp figures
    have begun : NumberState.sign.next c = some .power := if_pos one
    rw [followNext mark, followNext step, followNext begun, followFigures powerLoops others]

theorem signedNumber {token : List Char} (unsigned : Unsigned token) (negative : Bool) :
    isNumber ((if negative then ['-'] else []) ++ token) = true := by
  obtain ⟨s, followed, whole⟩ := unsigned
  cases negative with
  | true =>
    have read : NumberState.of ('-' :: token) = some s := followed
    simp [isNumber, read, whole]
  | false =>
    cases token with
    | nil => cases followed; contradiction
    | cons c rest =>
      have plain : c ≠ '-' := by
        rintro rfl
        contradiction
      have read : NumberState.of (c :: rest) = some s := by
        rw [NumberState.of, NumberState.first, if_neg plain]
        exact followed
      simp [isNumber, read, whole]

end AirPicture.Json
