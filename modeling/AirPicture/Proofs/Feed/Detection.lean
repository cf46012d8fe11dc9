import AirPicture.Feed.Receiver
import AirPicture.Proofs.Feed.Division

/-! Which damage a parity shows. Frames of the same length have the same parity only if the
generator divides the polynomial of the bits in which they differ. It divides none with an odd
number of terms, because it has an even number itself, and none whose terms are all within 24
places, because it is of degree 24 and has a constant term. -/
namespace AirPicture.Feed
open Polynomial
open Text (Octets)

def flips (sent received : Octets) : List Bool := List.zipWith xor (bits sent) (bits received)

def Burst (width : Nat) (flips : List Bool) : Prop :=
  ∃ start, ∀ i, flips[i]? = some true → start ≤ i ∧ i < start + width

/- A frame of the same length, of which at least one bit was flipped: in one burst that is not
longer than the parity, or an odd number of them wherever they are. -/
structure Damaged (sent received : Octets) : Prop where
  length : sent.length = received.length
  flipped : true ∈ flips sent received
  pattern : Burst 24 (flips sent received) ∨ Odd ((flips sent received).count true)

section Patterns
variable {pattern : List Bool}

theorem bitsDegree (pattern : List Bool) : (bitsPolynomial pattern).degree < pattern.length := by
  induction pattern with
  | nil => simp [bitsPolynomial]
  | cons bit rest ih =>
    have longer : (rest.length : WithBot Nat) < (bit :: rest).length :=
      Nat.cast_lt.mpr (Nat.lt_succ_self _)
    refine lt_of_le_of_lt (degree_add_le _ _) (max_lt ?_ (ih.trans longer))
    cases bit
    · simp
    · simpa using longer

theorem bitsNothing : bitsPolynomial pattern = 0 ↔ true ∉ pattern := by
  induction pattern with
  | nil => simp [bitsPolynomial]
  | cons bit rest ih =>
    cases bit
    · simpa [bitsPolynomial] using ih
    · have leading : (bitsPolynomial (true :: rest)).coeff rest.length = 1 := by
        have beyond := coeff_eq_zero_of_degree_lt (bitsDegree rest)
        simp [bitsPolynomial, beyond]
      constructor
      · intro nothing
        simp [nothing] at leading
      · simp

theorem bitsValue (pattern : List Bool) :
    (bitsPolynomial pattern).eval 1 = (pattern.count true : ZMod 2) := by
  induction pattern with
  | nil => simp [bitsPolynomial]
  | cons bit rest ih =>
    rw [bitsPolynomial, eval_add, ih]
    cases bit
    · simp
    · simp [add_comm]

theorem generatorValue : (wordPolynomial generator).eval 1 = 0 := by
  have term (i : Nat) : (if generator.getLsbD i then X ^ i else 0 : (ZMod 2)[X]).eval 1 =
      if generator.getLsbD i then 1 else 0 := by
    split <;> simp
  rw [wordPolynomial, eval_finsetSum]
  simp only [term]
  decide

theorem oddRemains (odd : Odd (pattern.count true)) :
    ¬ wordPolynomial generator ∣ bitsPolynomial pattern := by
  intro divides
  have root := eval_eq_zero_of_dvd_of_eval_eq_zero divides generatorValue
  rw [bitsValue, ZMod.natCast_eq_zero_iff_even] at root
  exact Nat.not_even_iff_odd.mpr odd root

theorem burstPolynomial {width : Nat} (burst : Burst width pattern) :
    ∃ window places, bitsPolynomial pattern = X ^ places * bitsPolynomial window ∧
      window.length ≤ width := by
  obtain ⟨start, within⟩ := burst
  have front : bitsPolynomial (pattern.take start) = 0 := by
    rw [bitsNothing, List.mem_iff_getElem?]
    rintro ⟨i, flipped⟩
    rw [List.getElem?_take] at flipped
    split at flipped
    · have := within i flipped
      omega
    · contradiction
  have back : bitsPolynomial ((pattern.drop start).drop width) = 0 := by
    rw [bitsNothing, List.mem_iff_getElem?]
    rintro ⟨i, flipped⟩
    rw [List.getElem?_drop, List.getElem?_drop] at flipped
    have := within _ flipped
    omega
  refine ⟨(pattern.drop start).take width, ((pattern.drop start).drop width).length, ?_, by simp⟩
  calc bitsPolynomial pattern
      = bitsPolynomial (pattern.drop start) := by
        rw [← List.take_append_drop start pattern, bitsAppend, front, mul_zero, zero_add,
          List.take_append_drop]
    _ = _ := by
        rw [← List.take_append_drop width (pattern.drop start), bitsAppend, back, add_zero,
          List.take_append_drop]

theorem burstRemains (burst : Burst 24 pattern) (some : true ∈ pattern) :
    ¬ wordPolynomial generator ∣ bitsPolynomial pattern := by
  obtain ⟨window, places, same, short⟩ := burstPolynomial burst
  obtain ⟨degree, monic⟩ := generatorDegree
  intro divides
  rw [same] at divides
  have inside := (generatorCoprime places).dvd_of_dvd_mul_left divides
  have low : (bitsPolynomial window).degree < (wordPolynomial generator).degree := by
    rw [degree_eq_natDegree monic.ne_zero, degree]
    exact (bitsDegree window).trans_le (Nat.cast_le.mpr short)
  have nothing : bitsPolynomial window = 0 := eq_zero_of_dvd_of_degree_lt inside low
  rw [nothing, mul_zero] at same
  exact bitsNothing.mp same some

end Patterns

theorem bitsZip {sent received : Octets} (same : sent.length = received.length) :
    bits (List.zipWith (· ^^^ ·) sent received) = flips sent received := by
  induction sent generalizing received with
  | nil =>
    cases received with
    | nil => rfl
    | cons b rest => contradiction
  | cons a sent ih =>
    cases received with
    | nil => contradiction
    | cons b rest =>
      have later := ih (Nat.succ.inj same)
      have head (c : UInt8) (others : Octets) : bits (c :: others) = bits [c] ++ bits others := rfl
      rw [List.zipWith_cons_cons, head, later, flips, flips, head a, head b,
        List.zipWith_append (by rfl)]
      congr 1
      simp [bits]

theorem damageShown {sent received : Octets} (damaged : Damaged sent received) :
    parity sent ≠ parity received := by
  intro same
  have clean : parityClean (List.zipWith (· ^^^ ·) sent received) = true := by
    rw [parityClean, parityXor damaged.length, same, BitVec.xor_self]
    rfl
  rw [cleanDivides, bitsZip damaged.length] at clean
  rcases damaged.pattern with burst | odd
  · exact burstRemains burst damaged.flipped clean
  · exact oddRemains odd clean

theorem uncleanRefused (i : Identities) (station : Station) {frame : Octets}
    (whole : frame.length = 14) (unclean : parityClean frame = false) :
    ∃ format, downlinkFormat frame = some format ∧ receive i station frame =
      (.error (if format = 17 ∨ format = 18 then .parity else .format format), i) := by
  have headed : ∃ format n, downlinkFormat frame = some format ∧ address frame = some n := by
    match frame, whole with
    | a :: _ :: _ :: _ :: _, _ => exact ⟨_, _, rfl, rfl⟩
  obtain ⟨format, n, known, named⟩ := headed
  refine ⟨format, known, ?_⟩
  simp only [receive, known, named, whole, unclean, ne_eq, not_true_eq_false, if_false,
    Bool.not_false, if_true]
  by_cases supported : format = 17 ∨ format = 18
  · rw [if_pos supported, if_neg (by omega)]
  · rw [if_neg supported, if_pos (by omega)]

/-- Three octets after any others leave a clean parity if they are its octets, the highest first,
and not otherwise. Damage in one burst of at most 24 bits, or in an odd number of bits, changes the
parity, so that a frame damaged in that way is refused, and nothing is remembered of it. -/
theorem damageRefused :
    (∀ body a b c, parityClean (body ++ [a, b, c]) = true ↔
      parity body = a.toBitVec ++ b.toBitVec ++ c.toBitVec) ∧
    (∀ sent received, Damaged sent received → parity sent ≠ parity received) ∧
    ∀ sent received, sent.length = 14 → parityClean sent = true → Damaged sent received →
      ∀ i station, ∃ format, downlinkFormat received = some format ∧ receive i station received =
        (.error (if format = 17 ∨ format = 18 then .parity else .format format), i) := by
  refine ⟨fun body a b c => ?_, fun sent received => damageShown, ?_⟩
  · rw [cleanExact, parityOctetsExact, sealed, List.append_cancel_left_eq]
  · intro sent received whole clean damaged i station
    have unclean : parityClean received = false := by
      rw [Bool.eq_false_iff]
      intro again
      have first : parity sent = 0 := by simpa [parityClean] using clean
      have second : parity received = 0 := by simpa [parityClean] using again
      exact damageShown damaged (first.trans second.symm)
    exact uncleanRefused i station (damaged.length.symm.trans whole) unclean

def clearFrame : Octets :=
  [0x8D, 0x48, 0x40, 0xD6, 0x20, 0x2C, 0xC3, 0x71, 0xC3, 0x2C, 0xE0, 0x57, 0x60, 0x98]

def fadedFrame : Octets :=
  [0x92, 0xB7, 0xBF, 0x36, 0x20, 0x2C, 0xC3, 0x71, 0xC3, 0x2C, 0xE0, 0x57, 0x60, 0x98]

theorem fadedDamaged : Damaged clearFrame fadedFrame := by
  refine ⟨rfl, by decide, .inl ⟨3, fun i flipped => ?_⟩⟩
  obtain ⟨early, _⟩ := List.getElem?_eq_some_iff.mp flipped
  have all : ∀ i : Fin 112, (flips clearFrame fadedFrame)[i.val]? = some true →
      3 ≤ i.val ∧ i.val < 3 + 24 := by decide +kernel
  exact all ⟨i, early⟩ flipped

theorem fadedRefused : clearFrame.length = 14 ∧ parityClean clearFrame = true ∧
    Damaged clearFrame fadedFrame ∧ parity clearFrame ≠ parity fadedFrame ∧
    receive (Identities.empty 1) ⟨"S1", "Ridge", 88, 10⟩ fadedFrame =
      (.error .parity, Identities.empty 1) := by
  have clean : parityClean clearFrame = true := by decide +kernel
  obtain ⟨_, shown, refused⟩ := damageRefused
  obtain ⟨format, known, same⟩ := refused _ _ rfl clean fadedDamaged (Identities.empty 1)
    ⟨"S1", "Ridge", 88, 10⟩
  cases known
  exact ⟨rfl, clean, fadedDamaged, shown _ _ fadedDamaged, same⟩

end AirPicture.Feed
