import AirPicture.Text.Blank

/-! What trimming leaves: the one middle of a text that has no blank at either end, with nothing
but blanks around it. -/
namespace AirPicture.Text

def Blank (text : List Char) : Prop := ∀ c ∈ text, isBlank c = true

structure Bare (text : List Char) : Prop where
  first : ∀ c ∈ text.head?, isBlank c = false
  last : ∀ c ∈ text.getLast?, isBlank c = false

theorem solidBare {text : List Char} (solid : ∀ c ∈ text, isBlank c = false) : Bare text :=
  ⟨fun c first => solid c (List.mem_of_head? first),
    fun c last => solid c (List.mem_of_getLast? last)⟩

theorem blankReverse {text : List Char} (blank : Blank text) : Blank text.reverse :=
  fun c inside => blank c (List.mem_reverse.mp inside)

theorem dropBlank {lead rest : List Char} (blank : Blank lead)
    (bare : ∀ c ∈ rest.head?, isBlank c = false) : (lead ++ rest).dropWhile isBlank = rest := by
  rw [List.dropWhile_append_of_pos blank]
  cases rest with
  | nil => rfl
  | cons c rest => rw [List.dropWhile_cons, bare c rfl, if_neg Bool.false_ne_true]

theorem trimBlank {text : List Char} (blank : Blank text) : trim text = [] := by
  have none : (text ++ []).dropWhile isBlank = [] := dropBlank blank (by simp)
  rw [List.append_nil] at none
  rw [trim, trimStart, none]
  rfl

theorem trimMiddle {lead middle trail : List Char} (before : Blank lead) (after : Blank trail)
    (bare : Bare middle) : trim (lead ++ middle ++ trail) = middle := by
  cases middle with
  | nil =>
    refine trimBlank fun c inside => ?_
    rw [List.append_nil] at inside
    exact (List.mem_append.mp inside).elim (before c) (after c)
  | cons c rest =>
    have start : trimStart (lead ++ (c :: rest) ++ trail) = (c :: rest) ++ trail := by
      rw [List.append_assoc]
      exact dropBlank before bare.first
    have ending : ∀ d ∈ (c :: rest).reverse.head?, isBlank d = false := by
      intro d last
      rw [List.head?_reverse] at last
      exact bare.last d last
    rw [trim, start, trimEnd, List.reverse_append, dropBlank (blankReverse after) ending,
      List.reverse_reverse]

theorem droppedBare (text : List Char) :
    ∀ c ∈ (text.dropWhile isBlank).head?, isBlank c = false := by
  intro c first
  have bare := List.head?_dropWhile_not isBlank text
  rw [first] at bare
  exact bare

theorem splitBlank (text : List Char) :
    ∃ lead, Blank lead ∧ text = lead ++ text.dropWhile isBlank :=
  ⟨text.takeWhile isBlank, List.all_eq_true.mp List.all_takeWhile,
    List.takeWhile_append_dropWhile.symm⟩

theorem trimSplit (text : List Char) :
    ∃ lead trail, Blank lead ∧ Blank trail ∧ Bare (trim text) ∧
      text = lead ++ trim text ++ trail := by
  obtain ⟨lead, before, start⟩ := splitBlank text
  obtain ⟨trail, after, ending⟩ := splitBlank (trimStart text).reverse
  have parts : trimStart text = trim text ++ trail.reverse := by
    rw [trim, trimEnd, ← List.reverse_append, ← ending, List.reverse_reverse]
  refine ⟨lead, trail.reverse, before, blankReverse after, ⟨?_, ?_⟩, ?_⟩
  · intro c first
    have inside : c ∈ (trimStart text).head? := by
      rw [parts]
      cases middle : trim text with
      | nil => simp [middle] at first
      | cons d rest => simpa [middle] using first
    exact droppedBare text c inside
  · intro c last
    rw [trim, trimEnd, List.getLast?_reverse] at last
    exact droppedBare _ c last
  · rw [List.append_assoc, ← parts]
    exact start

end AirPicture.Text
