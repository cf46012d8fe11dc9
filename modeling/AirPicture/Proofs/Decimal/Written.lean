import AirPicture.Proofs.Decimal.Shortest
import AirPicture.Proofs.Decimal.Values

/-! The texts of floats, as they are written. The figures of the shortest decimal are laid out in a
numeral of the same number, by position or with a power of ten; so what is written of a finite float
is rounded to this float, and is read as it, its sign included. -/
namespace AirPicture.Decimal
open Binary64 (Fits Reads Rounds Stands)
open Float.Model (UnpackedFloat)

section Numbers

theorem numberJoined (before after : List Char) :
    number (before ++ after) = number before * 10 ^ after.length + number after := by
  induction after using List.reverseRecOn with
  | nil => simp [number]
  | append_singleton after c ih =>
    rw [← List.append_assoc, numberAppend, ih, numberAppend, List.length_append,
      List.length_singleton, pow_succ]
    ring

theorem numberZeros (k : Nat) : number (zeros k) = 0 := by
  induction k with
  | zero => rfl
  | succ k ih =>
    rw [zeros, List.replicate_succ', ← zeros, numberAppend, ih]
    rfl

theorem zerosLength (k : Nat) : (zeros k).length = k := List.length_replicate

end Numbers

def Spells (text : List Char) (q : ℚ) : Prop := ∃ k, Numerals text k ∧ k.value = q

section Laying
variable {whole fraction power : List Char} {k : Int}

theorem plainSpells (known : Figured whole) (shown : whole ≠ []) (raised : Powers power k) :
    Spells (whole ++ power) (number whole * 10 ^ k) := by
  refine ⟨⟨whole, [], k⟩, @Numerals.mk whole [] [] power k known nofun (.inl shown)
    (.inl ⟨rfl, rfl⟩) raised, ?_⟩
  simp [Numeral.value]

theorem pointedSpells (known : Figured (whole ++ fraction)) (shown : whole ≠ [])
    (raised : Powers power k) : Spells (whole ++ '.' :: (fraction ++ power))
      (number (whole ++ fraction) * 10 ^ (k - fraction.length)) :=
  ⟨⟨whole, fraction, k⟩, .mk (figuredAppend.mp known).1 (figuredAppend.mp known).2 (.inl shown)
    (.inr rfl) raised, rfl⟩

theorem raisedSpells (n k : Nat) (pointed : Bool) :
    Spells (figures n ++ zeros k ++ if pointed then ['.', '0'] else []) (n * 10 ^ (k : Int)) := by
  have before : Figured (figures n ++ zeros k) := figuresAppend (figuresKnown n) (zerosKnown k)
  have solid : figures n ++ zeros k ≠ [] :=
    List.append_ne_nil_of_left_ne_nil (figuresShown n) _
  have value : number (figures n ++ zeros k) = n * 10 ^ k := by
    rw [numberJoined, numberFigures, numberZeros, zerosLength, Nat.add_zero]
  cases pointed with
  | true =>
    have spelt := @pointedSpells _ ['0'] _ _ (figuresAppend before (zerosKnown 1)) solid .none
    have same : ((number (figures n ++ zeros k ++ ['0']) : Nat) : ℚ) *
        10 ^ ((0 : Int) - (['0'].length : Nat)) = n * 10 ^ (k : Int) := by
      have none : figure '0' = 0 := rfl
      rw [numberAppend, value, none, zpow_natCast]
      norm_num
      ring
    rwa [same] at spelt
  | false =>
    have spelt := plainSpells before solid .none
    rw [value] at spelt
    simpa using spelt

theorem partedSpells {n k : Nat} (fewer : k < (figures n).length) :
    Spells ((figures n).take ((figures n).length - k) ++
      '.' :: (figures n).drop ((figures n).length - k)) (n * 10 ^ (-(k : Int))) := by
  have joined := List.take_append_drop ((figures n).length - k) (figures n)
  have places : ((figures n).drop ((figures n).length - k)).length = k := by
    rw [List.length_drop]
    omega
  have spelt := @pointedSpells ((figures n).take ((figures n).length - k))
    ((figures n).drop ((figures n).length - k)) _ _ (joined.symm ▸ figuresKnown n)
    (List.ne_nil_of_length_pos (by rw [List.length_take]; omega)) .none
  rwa [List.append_nil, joined, numberFigures, places, zero_sub] at spelt

theorem paddedSpells {n k : Nat} (more : ¬ k < (figures n).length) :
    Spells ('0' :: '.' :: zeros (k - (figures n).length) ++ figures n)
      (n * 10 ^ (-(k : Int))) := by
  have places : (zeros (k - (figures n).length) ++ figures n).length = k := by
    rw [List.length_append, zerosLength]
    omega
  have value : number (['0'] ++ (zeros (k - (figures n).length) ++ figures n)) = n := by
    rw [numberJoined, numberJoined, numberFigures, numberZeros]
    simp [number, figure]
  have spelt := @pointedSpells ['0'] (zeros (k - (figures n).length) ++ figures n) _ _
    (figuresAppend (zerosKnown 1) (figuresAppend (zerosKnown _) (figuresKnown n))) (by simp) .none
  rwa [List.append_nil, value, places, zero_sub] at spelt

theorem positionalSpells (l : Layout) (n : Nat) (exponent : Int) :
    Spells (l.positional (figures n) exponent) (n * 10 ^ exponent) := by
  unfold Layout.positional
  split
  · rename_i upward
    obtain ⟨k, rfl⟩ := Int.eq_ofNat_of_zero_le upward
    rw [Int.toNat_natCast]
    exact raisedSpells n k l.pointZero
  · rename_i downward
    obtain ⟨k, rfl⟩ : ∃ k : Nat, exponent = -k := ⟨exponent.natAbs, by omega⟩
    rw [neg_neg, Int.toNat_natCast]
    dsimp only
    split
    · exact partedSpells ‹_›
    · exact paddedSpells ‹_›

theorem powersLaid (lead : Int) :
    Powers ('e' :: (if lead < 0 then '-' else '+') :: figures lead.natAbs) lead := by
  have value : (if decide (lead < 0) then -(number (figures lead.natAbs) : Int)
      else number (figures lead.natAbs)) = lead := by
    rw [numberFigures]
    split <;> rename_i sign <;> simp at sign <;> omega
  have laid : ∀ sign, Signs sign (decide (lead < 0)) →
      Powers ('e' :: (sign ++ figures lead.natAbs)) lead := fun sign signs => by
    have powers := Powers.power (.inl rfl : 'e' = 'e' ∨ 'e' = 'E') signs (figuresKnown lead.natAbs)
      (figuresShown _)
    rwa [value] at powers
  split
  · rename_i below
    exact laid ['-'] (by rw [decide_eq_true below]; exact .minus)
  · rename_i above
    exact laid ['+'] (by rw [decide_eq_false above]; exact .plus)

theorem scientificSpells (n : Nat) (lead : Int) :
    Spells (scientific (figures n) lead) (n * 10 ^ (lead + 1 - (figures n).length)) := by
  have known := figuresKnown n
  have value := numberFigures n
  unfold scientific
  match same : figures n, figuresShown n with
  | [c], _ =>
    rw [same] at known value
    have spelt := plainSpells known (by simp) (powersLaid lead)
    rw [value] at spelt
    simpa using spelt
  | c :: d :: rest, _ =>
    rw [same] at known value
    have spelt := @pointedSpells [c] (d :: rest) _ _ known (by simp) (powersLaid lead)
    rw [List.singleton_append, List.singleton_append, value] at spelt
    rwa [show lead + 1 - ((c :: d :: rest).length : Nat) = lead - ((d :: rest).length : Nat) by
      simp]

theorem magnitudeSpells (l : Layout) (d : Scaled) : Spells (l.magnitude d) d.value := by
  unfold Layout.magnitude Scaled.value
  dsimp only
  split
  · exact positionalSpells l _ _
  split
  · exact positionalSpells l _ _
  · have spelt := scientificSpells d.digits (d.exponent + (figures d.digits).length - 1)
    rwa [show d.exponent + (figures d.digits).length - 1 + 1 - (figures d.digits).length =
      d.exponent by omega] at spelt

end Laying

section Floats
variable {x y : Float} {m : Nat} {e : Int}

theorem unpackedSame (same : x.toModel.unpack = y.toModel.unpack) : x = y := by
  have words := (UnpackedFloat.unpack_inj_of_valid x.toModel.valid y.toModel.valid).mp same
  obtain ⟨⟨bits, valid⟩⟩ := x
  obtain ⟨⟨others, fair⟩⟩ := y
  cases UInt64.toBitVec_inj.mp words
  rfl

theorem readsPositive (some : 0 < m) (fits : Fits m e) {u : UnpackedFloat}
    (reads : Reads u (m * 2 ^ e)) : u = .finite .positive m e some := by
  have positive : (0 : ℚ) < m * 2 ^ e := by positivity
  generalize value : (m : ℚ) * 2 ^ e = r at reads
  cases reads with
  | zero => exact absurd value positive.ne'
  | @finite s n f more room =>
    have other : (0 : ℚ) < n * 2 ^ f := by positivity
    cases s with
    | negative =>
      rw [Binary64.sense] at value
      linarith
    | positive =>
      rw [Binary64.sense, one_mul] at value
      have order := Binary64.magnitudeCompare fits room
      rw [compare_eq_iff_eq.mpr value, Ordering.then_eq_eq, compare_eq_iff_eq,
        compare_eq_iff_eq] at order
      obtain ⟨rfl, rfl⟩ := order
      rfl

theorem signsLaid (minus : Bool) : Signs (if minus then ['-'] else []) minus := by
  cases minus with
  | false => exact .bare
  | true => exact .minus

theorem signedMeans {body : List Char} {k : Numeral} {s : Float.Model.UnpackedFloat.Sign} {r : ℚ}
    (spelt : Numerals body k) (sign : negative x = true ↔ s = .negative)
    (unpacked : x.toModel.unpack = if negative x then k.toFloat.toModel.unpack.abs.neg
      else k.toFloat.toModel.unpack) (stands : Stands x (Binary64.sense s * r))
    (rounds : Rounds k.value r) :
    Means ((if negative x then ['-'] else []) ++ body) x ∧
    ∃ q r, Writes ((if negative x then ['-'] else []) ++ body) q ∧ Stands x r ∧ Rounds q r := by
  have signs := signsLaid (negative x)
  have same : behind (negative x) k.toFloat = x :=
    unpackedSame ((behindUnpacked _ _).trans unpacked.symm)
  have means := Means.mk signs (.numeral spelt)
  rw [same] at means
  refine ⟨means, _, _, .mk signs spelt, stands, ?_⟩
  cases s with
  | positive => simpa [sign, Binary64.sense] using rounds
  | negative => simpa [sign, Binary64.sense] using rounds.neg

theorem zeroMeans (l : Layout) {s : Float.Model.UnpackedFloat.Sign}
    (known : x.toModel.unpack = .zero s) :
    Means (l.finite x) x ∧ ∃ q r, Writes (l.finite x) q ∧ Stands x r ∧ Rounds q r := by
  obtain ⟨sign, none⟩ := bitsZero known
  obtain ⟨k, spelt, value⟩ := magnitudeSpells l ⟨0, 0⟩
  have bare : k.value = 0 := value.trans (by simp [Scaled.value])
  have digits : number (k.whole ++ k.fraction) = 0 := by
    rw [Numeral.value, mul_eq_zero, Nat.cast_eq_zero] at bare
    exact bare.resolve_right (by positivity)
  have unpacked : k.toFloat.toModel.unpack = .zero .positive := by
    rw [Numeral.toFloat, if_pos digits]
    rfl
  have stands : Stands x (Binary64.sense s * 0) := by
    rw [mul_zero, Stands, known]
    exact .zero s
  simp only [Layout.finite, none, ↓reduceIte]
  refine signedMeans spelt sign ?_ stands (bare ▸ Binary64.zeroRounds)
  rw [known, unpacked]
  cases s with
  | positive => simp only [sign, reduceCtorEq, ↓reduceIte]
  | negative =>
    simp only [sign, ↓reduceIte]
    rfl

theorem finiteMeans (l : Layout) (finite : x.isFinite = true) :
    Means (l.finite x) x ∧ ∃ q r, Writes (l.finite x) q ∧ Stands x r ∧ Rounds q r := by
  change x.toModel.unpack.isFinite = true at finite
  cases known : x.toModel.unpack with
  | infinity => rw [known] at finite; contradiction
  | notANumber => rw [known] at finite; contradiction
  | zero s => exact zeroMeans l known
  | finite s m e some =>
    obtain ⟨sign, interval⟩ := bitsAround known
    have fits := Binary64.unpackedFits known
    have shown : (Interval.ofBits x.toBits).value ≠ 0 := by
      rw [interval]
      exact Nat.mul_ne_zero (by decide) some.ne'
    obtain ⟨k, spelt, value⟩ := magnitudeSpells l ((Interval.ofBits x.toBits).shortest l.tie)
    have near := shortestNear known l.tie
    rw [← value] at near
    have rounds := nearRounds some fits near
    simp only [Layout.finite, if_neg shown]
    -- the float that is read is what the number is rounded to, and there is only one such float
    obtain ⟨stands, other⟩ | ⟨-, great⟩ := numeralBecomes k
    · obtain rfl := other.unique rounds
      have unpacked := readsPositive some fits stands
      have stands : Stands x (Binary64.sense s * (m * 2 ^ e)) := by
        rw [Stands, known]
        exact .finite s some fits
      refine signedMeans spelt sign ?_ stands rounds
      rw [known, unpacked]
      cases s with
      | positive => simp only [sign, reduceCtorEq, ↓reduceIte]
      | negative =>
        simp only [sign, ↓reduceIte]
        rfl
    · rw [abs_of_pos (nearPositive some near)] at great
      exact absurd great (not_le.mpr (nearLess fits near))

end Floats

end AirPicture.Decimal
