/-! The decimal with the fewest digits that reads back to a given binary64 value.
A finite value is taken with the interval of reals that round to it, over one power
of two, and decimals are compared with its ends by exact products of naturals. -/
namespace AirPicture.Decimal

structure Scaled where
  digits : Nat
  exponent : Int
  deriving DecidableEq, Repr

inductive Tie where
  | up
  | even
  deriving DecidableEq, Repr

/- low, value and high are multiples of 2^scale; the ends belong to the interval when
the mantissa is even, because halfway reals round to even. -/
structure Interval where
  low : Nat
  value : Nat
  high : Nat
  scale : Int
  closed : Bool
  deriving DecidableEq, Repr

/- Below a power of two the next value down is half as far away as the next one up. -/
def Interval.ofBits (bits : UInt64) : Interval :=
  let biased := ((bits >>> 52) &&& 0x7FF).toNat
  let fraction := (bits &&& 0xFFFFFFFFFFFFF).toNat
  let mantissa := if biased = 0 then fraction else fraction + 0x10000000000000
  let below := if fraction = 0 ∧ 1 < biased then 1 else 2
  ⟨4 * mantissa - below, 4 * mantissa, 4 * mantissa + 2, (max biased 1 : Nat) - 1077,
    mantissa % 2 = 0⟩

def twos (n : Int) : Nat := Nat.pow 2 n.toNat

def tens (n : Int) : Nat := Nat.pow 10 n.toNat

def Scaled.order (d : Scaled) (n : Nat) (scale : Int) : Ordering :=
  compare (d.digits * tens d.exponent * twos (-scale)) (n * twos scale * tens (-d.exponent))

def Interval.holds (i : Interval) (d : Scaled) : Bool :=
  let low := d.order i.low i.scale
  let high := d.order i.high i.scale
  (low == .gt || (i.closed && low == .eq)) && (high == .lt || (i.closed && high == .eq))

def Interval.quotient (i : Interval) (exponent : Int) : Nat :=
  (i.value * twos i.scale * tens (-exponent)) / (tens exponent * twos (-i.scale))

/- The least power of ten above the value: the binary logarithm leaves three candidates. -/
def Interval.magnitude (i : Interval) : Int :=
  let estimate := ((Nat.log2 i.value : Int) + i.scale) * 30103 / 100000
  ([estimate, estimate + 1].find? fun k => (Scaled.mk 1 k).order i.value i.scale == .gt).getD
    (estimate + 2)

def Interval.nearest (i : Interval) (tie : Tie) (exponent : Int) : Option Scaled :=
  let below := i.quotient exponent
  let lower : Scaled := ⟨below, exponent⟩
  let upper : Scaled := ⟨below + 1, exponent⟩
  match i.holds lower, i.holds upper with
  | false, false => none
  | true, false => some lower
  | false, true => some upper
  | true, true =>
    match (Scaled.mk (2 * below + 1) exponent).order (2 * i.value) i.scale with
    | .gt => some lower
    | .lt => some upper
    | .eq => match tie with
      | .up => some upper
      | .even => some (if below % 2 = 0 then lower else upper)

def Scaled.strip (d : Scaled) : Scaled :=
  if d.digits ≠ 0 ∧ d.digits % 10 = 0 then Scaled.strip ⟨d.digits / 10, d.exponent + 1⟩ else d
  termination_by d.digits
  decreasing_by omega

def Interval.exact (i : Interval) : Scaled :=
  if 0 ≤ i.scale then ⟨i.value * twos i.scale, 0⟩
  else ⟨i.value * Nat.pow 5 (-i.scale).toNat, i.scale⟩

def Interval.shortest (i : Interval) (tie : Tie) : Scaled :=
  let magnitude := i.magnitude
  (((List.range 17).findSome? fun n : Nat => i.nearest tie (magnitude - (n + 1 : Nat))).getD i.exact).strip

end AirPicture.Decimal
