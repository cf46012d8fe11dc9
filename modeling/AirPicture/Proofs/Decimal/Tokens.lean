import AirPicture.Decimal.Notation
import AirPicture.Proofs.Json.Numbers

/-! Decimals that are written are tokens of JSON. What matters is that no zero stands in front of
other figures, as the shortest decimal of a value other than zero has digits other than zero. -/
namespace AirPicture.Decimal
open Json (Figures NumberState followAppend followNext followFigures pointFollows powerFollows
  wholeLoops signedNumber isNumber Unsigned)

theorem figuresKnown (n : Nat) : Figures (figures n) := by
  intro c inside
  have known := Nat.isDigit_of_mem_toDigits (by decide) (by decide) inside
  simp only [Char.isDigit, Bool.and_eq_true, decide_eq_true_eq] at known
  simp only [Json.isFigure, Bool.and_eq_true, decide_eq_true_eq]
  exact known

theorem figuresShown (n : Nat) : figures n ≠ [] := Nat.toDigits_ne_nil

theorem zerosKnown (n : Nat) : Figures (zeros n) := by
  intro c inside
  rw [List.eq_of_mem_replicate inside]
  rfl

theorem figuresAppend {first second : List Char} (left : Figures first) (right : Figures second) :
    Figures (first ++ second) :=
  fun c inside => (List.mem_append.mp inside).elim (left c) (right c)

theorem figuresLead {n : Nat} (nonzero : n ≠ 0) :
    ∃ c rest, figures n = c :: rest ∧ NumberState.minus.next c = some .whole := by
  have single : ∀ n : Fin 10, n.val ≠ 0 →
      NumberState.minus.next n.val.digitChar = some .whole := by decide
  unfold figures
  induction n using Nat.strongRecOn with
  | ind n ih =>
    by_cases last : n < 10
    · exact ⟨_, [], Nat.toDigits_of_lt_base last, single ⟨n, last⟩ nonzero⟩
    · obtain ⟨c, rest, same, lead⟩ := ih (n / 10) (by omega) (by omega)
      refine ⟨c, rest ++ [(n % 10).digitChar], ?_, lead⟩
      rw [Nat.toDigits_of_base_le (by decide) (by omega), same, List.cons_append]

theorem figuresFollow {n count : Nat} (nonzero : n ≠ 0) (begun : 0 < count) :
    NumberState.minus.follow ((figures n).take count) = some .whole := by
  obtain ⟨c, rest, same, lead⟩ := figuresLead nonzero
  have known : Figures (c :: rest) := same ▸ figuresKnown n
  obtain ⟨before, rfl⟩ := Nat.exists_eq_succ_of_ne_zero (Nat.ne_of_gt begun)
  rw [same, List.take_succ_cons, followNext lead]
  exact followFigures wholeLoops fun c inside =>
    known c (List.mem_cons_of_mem _ (List.mem_of_mem_take inside))

theorem allFiguresFollow {n : Nat} (nonzero : n ≠ 0) :
    NumberState.minus.follow (figures n) = some .whole := by
  have shown := List.length_pos_iff.mpr (figuresShown n)
  have whole := figuresFollow nonzero shown
  rwa [List.take_length] at whole

theorem positionalUnsigned (l : Layout) {n : Nat} (nonzero : n ≠ 0) (exponent : Int) :
    Unsigned (l.positional (figures n) exponent) := by
  unfold Layout.positional
  split
  · have whole : NumberState.minus.follow (figures n ++ zeros exponent.toNat) = some .whole := by
      rw [followAppend (allFiguresFollow nonzero), followFigures wholeLoops (zerosKnown _)]
    unfold Unsigned
    rw [followAppend whole]
    split
    · exact ⟨.fraction, rfl, rfl⟩
    · exact ⟨.whole, rfl, rfl⟩
  have places : 0 < (-exponent).toNat := by omega
  dsimp only
  split
  · rename_i fewer
    refine ⟨.fraction, ?_, rfl⟩
    rw [followAppend (figuresFollow nonzero (by omega))]
    refine pointFollows (.inr rfl) (fun c inside => ?_) ?_
    · exact figuresKnown n c (List.mem_of_mem_drop inside)
    · refine List.ne_nil_of_length_pos ?_
      rw [List.length_drop]
      omega
  · refine ⟨.fraction, ?_, rfl⟩
    have zero : NumberState.minus.next '0' = some .zero := rfl
    rw [List.cons_append, List.cons_append, followNext zero]
    refine pointFollows (.inl rfl) (figuresAppend (zerosKnown _) (figuresKnown n)) ?_
    exact List.append_ne_nil_of_right_ne_nil _ (figuresShown n)

theorem scientificUnsigned {n : Nat} (nonzero : n ≠ 0) (lead : Int) :
    Unsigned (scientific (figures n) lead) := by
  have known := figuresKnown n
  have signed : (if lead < 0 then '-' else '+') = '+' ∨ (if lead < 0 then '-' else '+') = '-' := by
    split
    · exact .inr rfl
    · exact .inl rfl
  have power : ∀ s, s = NumberState.whole ∨ s = .fraction →
      s.follow ('e' :: (if lead < 0 then '-' else '+') :: figures lead.natAbs) = some .power :=
    fun s before => powerFollows before signed (figuresKnown _) (figuresShown _)
  obtain ⟨c, rest, same, first⟩ := figuresLead nonzero
  rw [same] at known ⊢
  refine ⟨.power, ?_, rfl⟩
  cases rest with
  | nil => exact (followNext first _).trans (power _ (.inl rfl))
  | cons second rest =>
    have point : NumberState.whole.follow ('.' :: second :: rest) = some .fraction :=
      pointFollows (.inr rfl) (fun c inside => known c (List.mem_cons_of_mem _ inside)) (by simp)
    have mantissa : NumberState.minus.follow (c :: '.' :: second :: rest) = some .fraction :=
      (followNext first _).trans point
    exact (followAppend mantissa _).trans (power _ (.inr rfl))

theorem magnitudeUnsigned (l : Layout) {d : Scaled} (nonzero : d.digits ≠ 0) :
    Unsigned (l.magnitude d) := by
  unfold Layout.magnitude
  dsimp only
  split
  · exact positionalUnsigned l nonzero _
  split
  · exact positionalUnsigned l nonzero _
  · exact scientificUnsigned nonzero _

theorem stripNonzero {d : Scaled} (nonzero : d.digits ≠ 0) : d.strip.digits ≠ 0 := by
  induction d using Scaled.strip.induct with
  | case1 d more ih =>
    rw [Scaled.strip, if_pos more]
    refine ih ?_
    change d.digits / 10 ≠ 0
    omega
  | case2 d done =>
    rw [Scaled.strip, if_neg done]
    exact nonzero

theorem tensPositive (n : Int) : 0 < tens n := Nat.pow_pos (by decide)

theorem twosPositive (n : Int) : 0 < twos n := Nat.pow_pos (by decide)

theorem holdsNonzero {i : Interval} (positive : 0 < i.low) {d : Scaled} (holds : i.holds d = true) :
    d.digits ≠ 0 := by
  intro zero
  have below : d.order i.low i.scale = .lt := by
    have least : 0 < i.low * twos i.scale * tens (-d.exponent) :=
      Nat.mul_pos (Nat.mul_pos positive (twosPositive _)) (tensPositive _)
    simpa [Scaled.order, zero, Nat.compare_eq_lt] using least
  simp [Interval.holds, below] at holds

theorem nearestHolds {i : Interval} {tie : Tie} {exponent : Int} {d : Scaled}
    (found : i.nearest tie exponent = some d) : i.holds d = true := by
  unfold Interval.nearest at found
  dsimp only at found
  split at found
  case h_1 => contradiction
  case h_2 lower _ => exact Option.some.inj found ▸ lower
  case h_3 _ upper => exact Option.some.inj found ▸ upper
  case h_4 lower upper =>
    split at found
    case h_1 => exact Option.some.inj found ▸ lower
    case h_2 => exact Option.some.inj found ▸ upper
    case h_3 =>
      cases tie with
      | up => exact Option.some.inj found ▸ upper
      | even =>
        rw [← Option.some.inj found]
        split
        · exact lower
        · exact upper

theorem exactNonzero {i : Interval} (nonzero : i.value ≠ 0) : i.exact.digits ≠ 0 := by
  unfold Interval.exact
  split
  · exact Nat.mul_ne_zero nonzero (Nat.ne_of_gt (twosPositive _))
  · exact Nat.mul_ne_zero nonzero (Nat.ne_of_gt (Nat.pow_pos (by decide)))

theorem shortestNonzero {i : Interval} (positive : 0 < i.low) (nonzero : i.value ≠ 0) (tie : Tie) :
    (i.shortest tie).digits ≠ 0 := by
  unfold Interval.shortest
  refine stripNonzero ?_
  cases found : (List.range 17).findSome? fun n : Nat =>
      i.nearest tie (i.magnitude - (n + 1 : Nat)) with
  | none =>
    rw [Option.getD_none]
    exact exactNonzero nonzero
  | some d =>
    obtain ⟨_, _, near⟩ := List.exists_of_findSome?_eq_some found
    exact holdsNonzero positive (nearestHolds near)

theorem bitsPositive {bits : UInt64} (nonzero : (Interval.ofBits bits).value ≠ 0) :
    0 < (Interval.ofBits bits).low := by
  simp only [Interval.ofBits] at nonzero ⊢
  generalize (if ((bits >>> 52) &&& 0x7FF).toNat = 0 then _ else _) = mantissa at nonzero ⊢
  split <;> omega

theorem zeroUnsigned (l : Layout) : Unsigned (l.magnitude ⟨0, 0⟩) := by
  have positional : Unsigned (l.positional (figures 0) 0) := by
    cases point : l.pointZero with
    | true => exact ⟨.fraction, by simp [Layout.positional, point]; rfl, rfl⟩
    | false => exact ⟨.zero, by simp [Layout.positional, point]; rfl, rfl⟩
  unfold Layout.magnitude
  dsimp only
  split
  · exact positional
  split
  · exact positional
  · exact ⟨.power, rfl, rfl⟩

theorem finiteNumber (l : Layout) (x : Float) : isNumber (l.finite x) = true := by
  have unsigned : Unsigned (l.magnitude (if (Interval.ofBits x.toBits).value = 0 then ⟨0, 0⟩
      else (Interval.ofBits x.toBits).shortest l.tie)) := by
    split
    · exact zeroUnsigned l
    · rename_i nonzero
      exact magnitudeUnsigned l (shortestNonzero (bitsPositive nonzero) nonzero l.tie)
  exact signedNumber unsigned (negative x)

theorem integerNumber (n : Int) :
    isNumber ((if n < 0 then ['-'] else []) ++ figures n.natAbs) = true := by
  have unsigned : Unsigned (figures n.natAbs) := by
    by_cases zero : n.natAbs = 0
    · rw [zero]
      exact ⟨.zero, rfl, rfl⟩
    · exact ⟨.whole, allFiguresFollow zero, rfl⟩
  simpa using signedNumber unsigned (decide (n < 0))

end AirPicture.Decimal
