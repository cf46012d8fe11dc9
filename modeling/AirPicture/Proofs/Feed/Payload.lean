import AirPicture.Feed.Payload
import AirPicture.Proofs.Text.Octets
import AirPicture.Proofs.Text.Trimming

/-! The frames that lines carry. A line is blanks, at most one star, figures in pairs of either
letter case, at most one semicolon and blanks, and carries the octets that the pairs spell. What is
no such line is at fault, and the fault is that of what is left when the marks are taken off. -/
namespace AirPicture.Feed
open Text (Octets Blank Bare letter)

def Figure (c : Char) (n : Nat) : Prop := n < 16 ∧ (c = Text.lowerFigure n ∨ c = Text.upperFigure n)

inductive Spells : List Char → Octets → Prop where
  | nil : Spells [] []
  | pair {high low : Char} {octet : UInt8} {digits : List Char} {octets : Octets}
      (first : Figure high (octet.toNat / 16)) (second : Figure low (octet.toNat % 16))
      (rest : Spells digits octets) : Spells (high :: low :: digits) (octet :: octets)

inductive Framed : List Char → List Char → Prop where
  | mk {lead star body semicolon trail : List Char} (before : Blank lead) (after : Blank trail)
      (starred : star = [] ∨ star = ['*']) (closed : semicolon = [] ∨ semicolon = [';']) :
      Framed (lead ++ (star ++ (body ++ semicolon)) ++ trail) body

inductive Stripped : List Char → List Char → Prop where
  | mk {lead star body semicolon trail : List Char} (before : Blank lead) (after : Blank trail)
      (bare : Bare (star ++ (body ++ semicolon)))
      (starred : star = [] ∧ (body ++ semicolon).head? ≠ some '*' ∨ star = ['*'])
      (closed : semicolon = [] ∧ body.getLast? ≠ some ';' ∨ semicolon = [';']) :
      Stripped (lead ++ (star ++ (body ++ semicolon)) ++ trail) body

def IsFigure (octet : UInt8) : Prop := ∃ n, Figure (letter octet) n

def Faulty (octets : Octets) : HexFault → Prop
  | .odd => octets.length % 2 = 1
  | .character octet offset => octets.length % 2 = 0 ∧ ∃ before after,
      octets = before ++ octet :: after ∧ before.length = offset ∧
        (∀ o ∈ before, IsFigure o) ∧ ¬ IsFigure octet

section Figures

theorem figureRead {c : Char} {n : Nat} (figure : Figure c n) : Text.hexFigure c = some n := by
  have all : ∀ n : Fin 16, Text.hexFigure (Text.lowerFigure n) = some n.val ∧
      Text.hexFigure (Text.upperFigure n) = some n.val := by decide
  obtain ⟨small, rfl | rfl⟩ := figure
  · exact (all ⟨n, small⟩).1
  · exact (all ⟨n, small⟩).2

theorem readFigure {c : Char} {n : Nat} (read : Text.hexFigure c = some n) : Figure c n := by
  have spelt : ∀ k, k = c.toNat → c = Char.ofNat k := by
    rintro _ rfl
    exact (Char.ofNat_toNat c).symm
  have order : ∀ a b : Char, a ≤ b ↔ a.toNat ≤ b.toNat := fun _ _ => Iff.rfl
  have codes : '0'.toNat = 48 ∧ '9'.toNat = 57 ∧ 'a'.toNat = 97 ∧ 'f'.toNat = 102 ∧
      'A'.toNat = 65 ∧ 'F'.toNat = 70 := by decide
  simp only [Text.hexFigure, order] at read
  split at read
  · cases read
    refine ⟨by omega, .inl ?_⟩
    rw [Text.lowerFigure, if_pos (by omega)]
    exact spelt _ (by omega)
  split at read
  · cases read
    refine ⟨by omega, .inl ?_⟩
    rw [Text.lowerFigure, if_neg (by omega)]
    exact spelt _ (by omega)
  split at read
  · cases read
    refine ⟨by omega, .inr ?_⟩
    rw [Text.upperFigure, if_neg (by omega)]
    exact spelt _ (by omega)
  · cases read

theorem figureSolid {c : Char} {n : Nat} (figure : Figure c n) :
    Text.isBlank c = false ∧ c ≠ '*' ∧ c ≠ ';' ∧ c.toNat < 128 := by
  have all : ∀ n : Fin 16, [Text.lowerFigure n, Text.upperFigure n].all (fun c =>
      !Text.isBlank c && c != '*' && c != ';' && c.toNat < 128) = true := by decide
  obtain ⟨small, case⟩ := figure
  have solid := List.all_eq_true.mp (all ⟨n, small⟩) c (by simpa using case)
  simpa [and_assoc] using solid

end Figures

section Pairs
variable {octets spelt : Octets} {digits : List Char}

theorem valueFigure {octet : UInt8} {n : Nat} (figure : Figure (letter octet) n) (offset : Nat) :
    hexValue octet offset = .ok n := by
  have read : Text.hexFigure (Char.ofNat octet.toNat) = some n := figureRead figure
  rw [hexValue, read]

theorem valueFault {octet : UInt8} (other : ¬ IsFigure octet) (offset : Nat) :
    hexValue octet offset = .error (.character octet offset) := by
  have read : Text.hexFigure (Char.ofNat octet.toNat) = none :=
    Option.eq_none_iff_forall_ne_some.mpr fun n found => other ⟨n, readFigure found⟩
  rw [hexValue, read]

theorem unhexPair {high low : UInt8} {m n : Nat} (first : Figure (letter high) m)
    (second : Figure (letter low) n) (offset : Nat) (rest : Octets) :
    unhex offset (high :: low :: rest) =
      (unhex (offset + 2) rest).map (UInt8.ofNat (16 * m + n) :: ·) := by
  rw [unhex, valueFigure first, valueFigure second]
  cases unhex (offset + 2) rest <;> rfl

theorem unhexSpelt (spells : Spells (octets.map letter) spelt) (offset : Nat) :
    unhex offset octets = .ok spelt := by
  generalize same : octets.map letter = digits at spells
  induction spells generalizing octets offset with
  | nil =>
    cases List.map_eq_nil_iff.mp same
    rfl
  | @pair high low octet digits others first second rest ih =>
    obtain ⟨a, tail, rfl, rfl, later⟩ := List.map_eq_cons_iff.mp same
    obtain ⟨b, tail, rfl, rfl, left⟩ := List.map_eq_cons_iff.mp later
    rw [unhexPair first second, ih _ left, Nat.div_add_mod, UInt8.ofNat_toNat]
    rfl

theorem figuresSpell : (octets : Octets) → (∀ o ∈ octets, IsFigure o) → octets.length % 2 = 0 →
    ∃ spelt, Spells (octets.map letter) spelt
  | [], _, _ => ⟨[], .nil⟩
  | [_], _, whole => by contradiction
  | high :: low :: rest, figures, whole => by
    obtain ⟨⟨m, first⟩, ⟨n, second⟩, others⟩ := by simpa using figures
    obtain ⟨spelt, spells⟩ := figuresSpell rest others (by
      rw [List.length_cons, List.length_cons] at whole
      omega)
    have octet : (UInt8.ofNat (16 * m + n)).toNat = 16 * m + n := by
      have := first.1
      have := second.1
      rw [UInt8.toNat_ofNat']
      omega
    refine ⟨UInt8.ofNat (16 * m + n) :: spelt, .pair ?_ ?_ spells⟩
    · rw [octet, Nat.mul_add_div (by decide), Nat.div_eq_of_lt second.1]
      exact first
    · rw [octet, Nat.mul_add_mod, Nat.mod_eq_of_lt second.1]
      exact second

theorem unhexFaulty {after : Octets} {octet : UInt8} (other : ¬ IsFigure octet) :
    (before : Octets) → (∀ o ∈ before, IsFigure o) → (before ++ octet :: after).length % 2 = 0 →
      (offset : Nat) → unhex offset (before ++ octet :: after) =
        .error (.character octet (offset + before.length))
  | [], _, whole, offset => by
    cases after with
    | nil => contradiction
    | cons low rest =>
      rw [List.nil_append, unhex, valueFault other]
      rfl
  | [high], figures, whole, offset => by
    obtain ⟨m, first⟩ := figures high List.mem_cons_self
    rw [List.singleton_append, unhex, valueFigure first, valueFault other]
    rfl
  | high :: low :: before, figures, whole, offset => by
    obtain ⟨⟨m, first⟩, ⟨n, second⟩, others⟩ := by simpa using figures
    have left : (before ++ octet :: after).length % 2 = 0 := by
      rw [List.cons_append, List.cons_append, List.length_cons, List.length_cons] at whole
      omega
    rw [List.cons_append, List.cons_append, unhexPair first second,
      unhexFaulty other before others left, List.length_cons, List.length_cons, Nat.add_assoc,
      Nat.add_comm 2]
    rfl

theorem firstFault (octets : Octets) : (∀ o ∈ octets, IsFigure o) ∨ ∃ before octet after,
    octets = before ++ octet :: after ∧ (∀ o ∈ before, IsFigure o) ∧ ¬ IsFigure octet := by
  induction octets with
  | nil => exact .inl (by simp)
  | cons o rest ih =>
    by_cases figure : IsFigure o
    · rcases ih with all | ⟨before, octet, after, rfl, figures, other⟩
      · exact .inl (List.forall_mem_cons.mpr ⟨figure, all⟩)
      · exact .inr ⟨o :: before, octet, after, rfl, List.forall_mem_cons.mpr ⟨figure, figures⟩,
          other⟩
    · exact .inr ⟨[], o, rest, rfl, by simp, figure⟩

end Pairs

section Marks
variable {line body : List Char}

theorem stripStarOff {star rest : List Char}
    (starred : star = [] ∧ rest.head? ≠ some '*' ∨ star = ['*']) :
    stripStar (star ++ rest) = rest := by
  rcases starred with ⟨rfl, other⟩ | rfl
  · rw [List.nil_append, stripStar]
    rintro tail rfl
    exact other rfl
  · rfl

theorem stripStarSplit (text : List Char) : ∃ star, text = star ++ stripStar text ∧
    (star = [] ∧ (stripStar text).head? ≠ some '*' ∨ star = ['*']) := by
  unfold stripStar
  split
  · exact ⟨['*'], rfl, .inr rfl⟩
  · rename_i other
    refine ⟨[], rfl, .inl ⟨rfl, fun first => ?_⟩⟩
    obtain ⟨tail, same⟩ := List.head?_eq_some_iff.mp first
    exact other tail same

theorem stripSemicolonOff {semicolon rest : List Char}
    (closed : semicolon = [] ∧ rest.getLast? ≠ some ';' ∨ semicolon = [';']) :
    stripSemicolon (rest ++ semicolon) = rest := by
  unfold stripSemicolon
  rcases closed with ⟨rfl, other⟩ | rfl
  · rw [List.append_nil]
    split
    · rename_i tail same
      rw [List.getLast?_eq_head?_reverse, same] at other
      contradiction
    · rfl
  · rw [List.reverse_append, List.reverse_singleton, List.singleton_append]
    exact List.reverse_reverse rest

theorem stripSemicolonSplit (text : List Char) : ∃ semicolon,
    text = stripSemicolon text ++ semicolon ∧
    (semicolon = [] ∧ (stripSemicolon text).getLast? ≠ some ';' ∨ semicolon = [';']) := by
  unfold stripSemicolon
  split
  · rename_i tail same
    refine ⟨[';'], ?_, .inr rfl⟩
    rw [← List.reverse_cons, ← same, List.reverse_reverse]
  · rename_i other
    refine ⟨[], (List.append_nil _).symm, .inl ⟨rfl, fun last => ?_⟩⟩
    rw [List.getLast?_eq_head?_reverse] at last
    obtain ⟨tail, same⟩ := List.head?_eq_some_iff.mp last
    exact other tail same

theorem payloadStripped (line : String) : Stripped line.toList (payload line) := by
  obtain ⟨lead, trail, before, after, bare, whole⟩ := Text.trimSplit line.toList
  obtain ⟨star, first, starred⟩ := stripStarSplit (Text.trim line.toList)
  obtain ⟨semicolon, second, closed⟩ := stripSemicolonSplit (stripStar (Text.trim line.toList))
  rw [second] at first starred
  rw [first] at bare whole
  rw [whole]
  exact .mk before after bare starred closed

theorem Stripped.framed (stripped : Stripped line body) : Framed line body := by
  cases stripped with
  | mk before after bare starred closed =>
    exact .mk before after (starred.imp_left And.left) (closed.imp_left And.left)

theorem strippedPayload {line : String} (stripped : Stripped line.toList body) :
    payload line = body := by
  generalize same : line.toList = text at stripped
  cases stripped with
  | mk before after bare starred closed =>
    rw [payload, same, Text.trimMiddle before after bare, stripStarOff starred,
      stripSemicolonOff closed]

theorem framedStripped (framed : Framed line body)
    (solid : ∀ c ∈ body, Text.isBlank c = false ∧ c ≠ '*' ∧ c ≠ ';') : Stripped line body := by
  cases framed with
  | @mk lead star body semicolon trail before after starred closed =>
    have marks : ∀ c ∈ star ++ semicolon, Text.isBlank c = false := by
      rcases starred with rfl | rfl <;> rcases closed with rfl | rfl <;> simp [Text.isBlank]
    refine .mk before after (Text.solidBare ?_) ?_ ?_
    · intro c inside
      rcases List.mem_append.mp inside with first | inside
      · exact marks c (List.mem_append_left _ first)
      rcases List.mem_append.mp inside with middle | last
      · exact (solid c middle).1
      · exact marks c (List.mem_append_right _ last)
    · refine starred.imp (fun none => ⟨none, fun first => ?_⟩) id
      rcases List.mem_append.mp (List.mem_of_head? first) with middle | last
      · exact (solid _ middle).2.1 rfl
      · rcases closed with rfl | rfl <;> simp at last
    · refine closed.imp (fun none => ⟨none, fun last => ?_⟩) id
      exact (solid _ (List.mem_of_getLast? last)).2.2 rfl

end Marks

section Lines
variable {digits body : List Char} {octets : Octets}

theorem spellsSolid (spells : Spells digits octets) : ∀ c ∈ digits, ∃ n, Figure c n := by
  induction spells with
  | nil => simp
  | pair first second rest ih =>
    exact List.forall_mem_cons.mpr ⟨⟨_, first⟩, List.forall_mem_cons.mpr ⟨⟨_, second⟩, ih⟩⟩

theorem spellsLength (spells : Spells digits octets) : digits.length = 2 * octets.length := by
  induction spells with
  | nil => rfl
  | pair first second rest ih =>
    rw [List.length_cons, List.length_cons, ih, List.length_cons]
    omega

inductive Means (body : List Char) : Except HexFault (Option Octets) → Prop where
  | nothing (bare : body = []) : Means body (.ok none)
  | frame {octets : Octets} (spells : Spells body octets) (shown : octets ≠ []) :
      Means body (.ok (some octets))
  | fault {fault : HexFault} (faulty : Faulty (Text.encode (String.ofList body)) fault) :
      Means body (.error fault)

theorem spellsLetters (spells : Spells digits octets) :
    (Text.encode (String.ofList digits)).map letter = digits :=
  Text.plainLetters fun c inside => by
    obtain ⟨n, figure⟩ := spellsSolid spells c inside
    exact (figureSolid figure).2.2.2

theorem lettersSpell (spells : Spells ((Text.encode (String.ofList body)).map letter) octets) :
    Spells body octets := by
  have plain : ∀ o ∈ Text.encode (String.ofList body), o.toNat < 128 := by
    intro o inside
    obtain ⟨n, figure⟩ := spellsSolid spells (letter o) (List.mem_map_of_mem inside)
    rw [← Text.letterNat o]
    exact (figureSolid figure).2.2.2
  rwa [Text.plainLetters (Text.lettersPlain plain)] at spells

theorem meansKnown (body : List Char) : ∃ result, Means body result := by
  by_cases bare : body = []
  · exact ⟨_, .nothing bare⟩
  by_cases whole : (Text.encode (String.ofList body)).length % 2 = 0
  · rcases firstFault (Text.encode (String.ofList body)) with
      figures | ⟨before, octet, after, fault⟩
    · obtain ⟨octets, spells⟩ := figuresSpell _ figures whole
      have spelt := lettersSpell spells
      refine ⟨_, .frame spelt fun none => bare ?_⟩
      subst none
      cases spelt
      rfl
    · obtain ⟨same, figures, other⟩ := fault
      have faulty : Faulty (Text.encode (String.ofList body)) (.character octet before.length) :=
        ⟨whole, before, after, same, rfl, figures, other⟩
      exact ⟨_, .fault faulty⟩
  · have faulty : Faulty (Text.encode (String.ofList body)) .odd := by
      simpa [Faulty] using whole
    exact ⟨_, .fault faulty⟩

theorem meansRead {line : String} {result : Except HexFault (Option Octets)}
    (means : Means (payload line) result) : readPayload line = result := by
  unfold readPayload
  cases means with
  | nothing bare =>
    rw [bare]
    rfl
  | @frame octets spells shown =>
    have same := spellsLetters spells
    have length : (Text.encode (String.ofList (payload line))).length = 2 * octets.length := by
      rw [← spellsLength spells, ← List.length_map letter, same]
    have some : Text.encode (String.ofList (payload line)) ≠ [] := by
      refine List.ne_nil_of_length_pos ?_
      have := List.length_pos_iff.mpr shown
      omega
    rw [← same] at spells
    simp only [some, ↓reduceIte, length, Nat.mul_mod_right, Nat.zero_ne_one, unhexSpelt spells 0]
    rfl
  | @fault fault faulty =>
    have some : Text.encode (String.ofList (payload line)) ≠ [] := by
      intro none
      rw [none] at faulty
      cases fault with
      | odd => contradiction
      | character octet offset =>
        obtain ⟨_, before, after, same, _⟩ := faulty
        exact List.append_ne_nil_of_right_ne_nil before (List.cons_ne_nil _ _) same.symm
    simp only [some, ↓reduceIte]
    cases fault with
    | odd => exact if_pos faulty
    | character octet offset =>
      obtain ⟨whole, before, after, same, rfl, figures, other⟩ := faulty
      rw [if_neg (by omega), same, unhexFaulty other before figures (same ▸ whole), Nat.zero_add]
      rfl

theorem readMeans (line : String) (result : Except HexFault (Option Octets)) :
    readPayload line = result ↔ Means (payload line) result := by
  refine ⟨fun read => ?_, meansRead⟩
  obtain ⟨known, means⟩ := meansKnown (payload line)
  rwa [← read, meansRead means]

theorem payloadNothing (line : String) :
    payload line = [] ↔ Text.trim line.toList ∈ [[], ['*'], [';'], ['*', ';']] := by
  constructor
  · intro none
    rw [payload] at none
    obtain ⟨star, first, starred⟩ := stripStarSplit (Text.trim line.toList)
    obtain ⟨semicolon, second, closed⟩ := stripSemicolonSplit (stripStar (Text.trim line.toList))
    rw [none, List.nil_append] at second
    rw [first, second]
    rcases starred with ⟨rfl, -⟩ | rfl <;> rcases closed with ⟨rfl, -⟩ | rfl <;> decide
  · intro marks
    rw [payload]
    generalize Text.trim line.toList = middle at marks
    simp only [List.mem_cons, List.not_mem_nil, or_false] at marks
    rcases marks with rfl | rfl | rfl | rfl <;> rfl

/-- A line carries the octets that its figures spell, or nothing, or has a fault. -/
theorem linesRead (line : String) :
    (∀ octets, readPayload line = .ok (some octets) ↔
      octets ≠ [] ∧ ∃ digits, Framed line.toList digits ∧ Spells digits octets) ∧
    (readPayload line = .ok none ↔ Text.trim line.toList ∈ [[], ['*'], [';'], ['*', ';']]) ∧
    ∀ fault, readPayload line = .error fault ↔
      ∃ body, Stripped line.toList body ∧ Faulty (Text.encode (String.ofList body)) fault := by
  refine ⟨fun octets => ⟨fun read => ?_, ?_⟩, ?_, fun fault => ⟨fun read => ?_, ?_⟩⟩
  · cases (readMeans line _).mp read with
    | frame spells shown => exact ⟨shown, _, (payloadStripped line).framed, spells⟩
  · rintro ⟨shown, digits, framed, spells⟩
    have stripped := framedStripped framed fun c inside => by
      obtain ⟨n, figure⟩ := spellsSolid spells c inside
      obtain ⟨blank, star, semicolon, -⟩ := figureSolid figure
      exact ⟨blank, star, semicolon⟩
    refine meansRead ?_
    rw [strippedPayload stripped]
    exact .frame spells shown
  · rw [readMeans, ← payloadNothing]
    exact ⟨fun means => by cases means; assumption, .nothing⟩
  · cases (readMeans line _).mp read with
    | fault faulty => exact ⟨_, payloadStripped line, faulty⟩
  · rintro ⟨body, stripped, faulty⟩
    refine meansRead ?_
    rw [strippedPayload stripped]
    exact .fault faulty

end Lines

end AirPicture.Feed
