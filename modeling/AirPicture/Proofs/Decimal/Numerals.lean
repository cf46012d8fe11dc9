import AirPicture.Proofs.Decimal.Integers

/-! The texts of floats. Behind a sign, which may be missing, stands a numeral or, in letters of
either case, the word for an infinity or for what is no number. A numeral has figures on at least
one side of a point, or no point, and may end with a power of ten. Nothing else is read. -/
namespace AirPicture.Decimal

inductive Signs : List Char → Bool → Prop
  | bare : Signs [] false
  | plus : Signs ['+'] false
  | minus : Signs ['-'] true

inductive Powers : List Char → Int → Prop
  | none : Powers [] 0
  | power {mark : Char} {sign digits : List Char} {minus : Bool}
      (marked : mark = 'e' ∨ mark = 'E') (signs : Signs sign minus) (figured : Figured digits)
      (shown : digits ≠ []) :
      Powers (mark :: (sign ++ digits)) (if minus then -(number digits : Int) else number digits)

inductive Numerals : List Char → Numeral → Prop
  | mk {whole point fraction power : List Char} {n : Int} (before : Figured whole)
      (after : Figured fraction) (shown : whole ≠ [] ∨ fraction ≠ [])
      (pointed : point = [] ∧ fraction = [] ∨ point = ['.']) (raised : Powers power n) :
      Numerals (whole ++ (point ++ (fraction ++ power))) ⟨whole, fraction, n⟩

def Says (text : List Char) (word : String) : Prop := text.map Char.toLower = word.toList

inductive Magnitude : List Char → Float → Prop
  | infinite {text : List Char} (said : Says text "inf" ∨ Says text "infinity") :
      Magnitude text (Float.ofBits 0x7FF0000000000000)
  | undefined {text : List Char} (said : Says text "nan") :
      Magnitude text (Float.ofBits 0x7FF8000000000000)
  | numeral {text : List Char} {n : Numeral} (spelt : Numerals text n) : Magnitude text n.toFloat

def behind (minus : Bool) (x : Float) : Float :=
  Float.ofBits (if minus then x.toBits ||| signBit else x.toBits)

inductive Means : List Char → Float → Prop
  | mk {sign body : List Char} {minus : Bool} {x : Float} (signs : Signs sign minus)
      (magnitude : Magnitude body x) : Means (sign ++ body) (behind minus x)

section Parts
variable {text digits rest sign : List Char} {minus : Bool} {c : Char}

theorem figureRange (figure : isFigure c = true) : 48 ≤ c.toNat ∧ c.toNat ≤ 57 := by
  simp only [isFigure, Bool.and_eq_true, decide_eq_true_eq] at figure
  exact figure

theorem signedRead (signs : Signs sign minus) (bare : ∀ c ∈ rest.head?, c ≠ '+' ∧ c ≠ '-') :
    signed (sign ++ rest) = (minus, rest) := by
  cases signs with
  | bare =>
    rw [List.nil_append, signed]
    · rintro tail rfl
      exact (bare _ rfl).2 rfl
    · rintro tail rfl
      exact (bare _ rfl).1 rfl
  | plus => rfl
  | minus => rfl

theorem signedSplit (text : List Char) :
    ∃ sign, Signs sign (signed text).1 ∧ text = sign ++ (signed text).2 := by
  unfold signed
  split
  · exact ⟨['-'], .minus, rfl⟩
  · exact ⟨['+'], .plus, rfl⟩
  · exact ⟨[], .bare, rfl⟩

theorem figuredUnsigned (figured : Figured digits) : ∀ c ∈ digits.head?, c ≠ '+' ∧ c ≠ '-' := by
  intro c first
  have figure := figured c (List.mem_of_head? first)
  constructor <;> rintro rfl <;> contradiction

theorem figuredTaken (figured : Figured digits) (stops : ∀ c ∈ rest.head?, isFigure c = false) :
    (digits ++ rest).takeWhile isFigure = digits ∧ (digits ++ rest).dropWhile isFigure = rest := by
  rw [List.takeWhile_append_of_pos figured, List.dropWhile_append_of_pos figured]
  cases rest with
  | nil => exact ⟨List.append_nil digits, rfl⟩
  | cons c rest =>
    have other := stops c rfl
    simp [other]

theorem figuredSplit (text : List Char) :
    Figured (text.takeWhile isFigure) ∧
      text = text.takeWhile isFigure ++ text.dropWhile isFigure :=
  ⟨List.all_eq_true.mp List.all_takeWhile, List.takeWhile_append_dropWhile.symm⟩

end Parts

section Numerals
variable {text : List Char} {n : Numeral} {k : Int}

theorem powerRead (powers : Powers text k) : readPower text = some k := by
  cases powers with
  | none => rfl
  | @power mark sign digits minus marked signs figured shown =>
    simp only [readPower, marked, ↓reduceIte, signedRead signs (figuredUnsigned figured)]
    rw [if_pos ⟨shown, List.all_eq_true.mpr figured⟩]

theorem readPowers (read : readPower text = some k) : Powers text k := by
  cases text with
  | nil =>
    cases Option.some.inj read
    exact .none
  | cons mark rest =>
    obtain ⟨sign, signs, split⟩ := signedSplit rest
    simp only [readPower, Option.ite_none_right_eq_some, Option.some.injEq] at read
    obtain ⟨marked, ⟨shown, figured⟩, rfl⟩ := read
    nth_rewrite 1 [split]
    exact .power marked signs (List.all_eq_true.mp figured) shown

theorem powersStop (powers : Powers text k) :
    ∀ c ∈ text.head?, isFigure c = false ∧ c ≠ '.' := by
  cases powers with
  | none => simp
  | power marked =>
    rintro c ⟨⟩
    rcases marked with rfl | rfl <;> decide

theorem numeralPointed {rest : List Char} (point : text.dropWhile isFigure = '.' :: rest) :
    readNumeral text =
      if text.takeWhile isFigure = [] ∧ rest.takeWhile isFigure = [] then none
      else (readPower (rest.dropWhile isFigure)).map
        fun power => ⟨text.takeWhile isFigure, rest.takeWhile isFigure, power⟩ := by
  simp only [readNumeral, point]

theorem numeralPlain (plain : ∀ rest, text.dropWhile isFigure ≠ '.' :: rest) :
    readNumeral text = if text.takeWhile isFigure = [] then none
      else (readPower (text.dropWhile isFigure)).map
        fun power => ⟨text.takeWhile isFigure, [], power⟩ := by
  generalize ends : text.dropWhile isFigure = rest at plain
  simp only [readNumeral, ends, and_true]

theorem numeralRead (numeral : Numerals text n) : readNumeral text = some n := by
  cases numeral with
  | @mk whole point fraction power k before after shown pointed raised =>
    have ends := fun c first => (powersStop raised c first).1
    obtain ⟨rfl, rfl⟩ | rfl := pointed
    · obtain ⟨taken, left⟩ := figuredTaken before ends
      rw [List.nil_append, List.nil_append, numeralPlain, taken, left,
        if_neg (by simpa using shown), powerRead raised]
      · rfl
      · rw [left]
        rintro rest rfl
        exact (powersStop raised '.' rfl).2 rfl
    · obtain ⟨taken, left⟩ := figuredTaken before
        (show ∀ c ∈ ('.' :: (fraction ++ power)).head?, isFigure c = false by rintro c ⟨⟩; rfl)
      rw [List.singleton_append]
      obtain ⟨second, remaining⟩ := figuredTaken after ends
      rw [numeralPointed left, taken, second, remaining, if_neg (not_and_or.mpr shown),
        powerRead raised]
      rfl

theorem readNumerals (read : readNumeral text = some n) : Numerals text n := by
  obtain ⟨before, whole⟩ := figuredSplit text
  by_cases pointed : ∃ rest, text.dropWhile isFigure = '.' :: rest
  · obtain ⟨rest, point⟩ := pointed
    obtain ⟨after, left⟩ := figuredSplit rest
    rw [numeralPointed point, Option.ite_none_left_eq_some, Option.map_eq_some_iff] at read
    obtain ⟨shown, k, raised, rfl⟩ := read
    have numeral := Numerals.mk before after (not_and_or.mp shown) (.inr rfl) (readPowers raised)
    rwa [← left, List.singleton_append, ← point, ← whole] at numeral
  · rw [numeralPlain (not_exists.mp pointed), Option.ite_none_left_eq_some,
      Option.map_eq_some_iff] at read
    obtain ⟨shown, k, raised, rfl⟩ := read
    have numeral := @Numerals.mk _ [] [] _ _ before (by simp [Figured]) (.inl shown)
      (.inl ⟨rfl, rfl⟩) (readPowers raised)
    rwa [List.nil_append, List.nil_append, ← whole] at numeral

theorem numeralFirst (numeral : Numerals text n) :
    ∃ c rest, text = c :: rest ∧ (isFigure c = true ∨ c = '.') := by
  cases numeral with
  | @mk whole point fraction power k before after shown pointed raised =>
    cases whole with
    | cons c rest => exact ⟨c, _, rfl, .inl (before c List.mem_cons_self)⟩
    | nil =>
      obtain ⟨rfl, rfl⟩ | rfl := pointed
      · simp at shown
      · exact ⟨'.', _, rfl, .inr rfl⟩

end Numerals

section Words
variable {text : List Char} {c : Char} {x : Float}

theorem figureSmall (figure : isFigure c = true) : c.toLower = c := by
  obtain ⟨_, high⟩ := figureRange figure
  refine dif_neg fun large => ?_
  have low : 65 ≤ c.toNat := large.1
  omega

theorem saysFirst {word : String} {letter : Char} {letters : List Char} (said : Says text word)
    (first : word.toList = letter :: letters) :
    ∃ c rest, text = c :: rest ∧ c.toLower = letter := by
  rw [Says, first] at said
  obtain ⟨c, rest, rfl, same, -⟩ := List.map_eq_cons_iff.mp said
  exact ⟨c, rest, rfl, same⟩

theorem numeralUnsaid {n : Numeral} (numeral : Numerals text n) {word : String} {letter : Char}
    {letters : List Char} (first : word.toList = letter :: letters)
    (other : isFigure letter = false ∧ letter ≠ '.') : ¬ Says text word := by
  intro said
  obtain ⟨c, rest, rfl, same⟩ := saysFirst said first
  obtain ⟨_, _, ⟨⟩, figure | rfl⟩ := numeralFirst numeral
  · rw [figureSmall figure] at same
    rw [← same, figure] at other
    exact Bool.noConfusion other.1
  · exact other.2 same.symm

theorem magnitudeRead (magnitude : Magnitude text x) : readMagnitude text = some x := by
  cases magnitude with
  | infinite said => exact if_pos said
  | undefined said =>
    have said : text.map Char.toLower = "nan".toList := said
    simp only [readMagnitude, said]
    rfl
  | numeral spelt =>
    have first : text.map Char.toLower ≠ "inf".toList := numeralUnsaid spelt rfl (by decide)
    have second : text.map Char.toLower ≠ "infinity".toList := numeralUnsaid spelt rfl (by decide)
    have third : text.map Char.toLower ≠ "nan".toList := numeralUnsaid spelt rfl (by decide)
    simp only [readMagnitude, first, second, third, or_self, ↓reduceIte, numeralRead spelt]
    rfl

theorem readMagnitudes (read : readMagnitude text = some x) : Magnitude text x := by
  simp only [readMagnitude] at read
  split at read
  · rename_i said
    cases Option.some.inj read
    exact .infinite said
  split at read
  · rename_i said
    cases Option.some.inj read
    exact .undefined said
  · obtain ⟨n, numeral, rfl⟩ := Option.map_eq_some_iff.mp read
    exact .numeral (readNumerals numeral)

theorem magnitudeBare (magnitude : Magnitude text x) :
    ∀ c ∈ text.head?, c ≠ '+' ∧ c ≠ '-' := by
  have word {word : String} {letter : Char} {letters : List Char} (said : Says text word)
      (first : word.toList = letter :: letters) (other : letter ≠ '+' ∧ letter ≠ '-') :
      ∀ c ∈ text.head?, c ≠ '+' ∧ c ≠ '-' := by
    obtain ⟨c, rest, rfl, rfl⟩ := saysFirst said first
    rintro c ⟨⟩
    exact ⟨by rintro rfl; exact other.1 rfl, by rintro rfl; exact other.2 rfl⟩
  cases magnitude with
  | infinite said =>
    obtain said | said := said
    · exact word said rfl (by decide)
    · exact word said rfl (by decide)
  | undefined said => exact word said rfl (by decide)
  | numeral spelt =>
    obtain ⟨c, rest, rfl, figure | rfl⟩ := numeralFirst spelt
    · exact @figuredUnsigned [c] (by simpa [Figured] using figure)
    · rintro c ⟨⟩
      decide

end Words

theorem readMeans {text : List Char} {x : Float} : readFloat text = some x ↔ Means text x := by
  simp only [readFloat, readWord, Option.map_map, Option.map_eq_some_iff]
  constructor
  · rintro ⟨m, magnitude, rfl⟩
    obtain ⟨sign, signs, split⟩ := signedSplit text
    have means := Means.mk signs (readMagnitudes magnitude)
    rwa [← split] at means
  · rintro ⟨signs, magnitude⟩
    rw [signedRead signs (magnitudeBare magnitude)]
    exact ⟨_, magnitudeRead magnitude, rfl⟩

end AirPicture.Decimal
