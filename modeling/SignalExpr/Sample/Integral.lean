import SignalExpr.Sample

/-!
Samples and whole numbers: rounding a sample to an integral sample, and the conversions between
samples and integers of a fixed width. All of them are read off the sign, the mantissa and the
exponent of the sample, so they are exact by construction.
-/

namespace SignalExpr.Sample

open Float.Model.UnpackedFloat (Sign)

/-- Truncates toward zero. What lies outside the range goes to its nearer end, and what is not a
number goes to zero. -/
def toInt32 (x : Sample) : Int32 :=
  x.unpack.toInt32

/-- Truncates toward zero. What lies outside the range goes to its nearer end, and what is not a
number goes to zero. -/
def toInt64 (x : Sample) : Int64 :=
  x.unpack.toInt64

/-- The ways to choose a whole number for a fraction. -/
inductive Rounding where
  | down
  | up
  | towardZero
  | nearestAway
  | nearestEven
deriving DecidableEq, Repr

/-- The magnitude of the whole number chosen for `± mantissa / 2 ^ places`. -/
def Rounding.magnitude (mode : Rounding) (sign : Sign) (mantissa places : Nat) : Nat :=
  let unit := Nat.pow 2 places
  let whole := mantissa / unit
  let part := mantissa % unit
  let outward : Bool :=
    match mode, sign with
    | .towardZero, _ => false
    | .down, .negative => part != 0
    | .down, .positive => false
    | .up, .negative => false
    | .up, .positive => part != 0
    | .nearestAway, _ => decide (unit ≤ 2 * part)
    | .nearestEven, _ =>
        decide (unit < 2 * part) || (decide (unit = 2 * part) && whole % 2 == 1)
  if outward then whole + 1 else whole

/-- Rounds to an integral sample. A zero result keeps the sign of the argument; infinities and
what is not a number stay as they are. -/
def round (mode : Rounding) (x : Sample) : Sample :=
  match x.unpack with
  | .finite sign mantissa exponent _ =>
      if 0 ≤ exponent then x
      else ofParts sign (mode.magnitude sign mantissa (-exponent).toNat) 0
  | _ => x

/-- The greatest integral sample that is not above `x`. -/
def floor (x : Sample) : Sample := round .down x

/-- The least integral sample that is not below `x`. -/
def ceil (x : Sample) : Sample := round .up x

/-- Drops the fraction. -/
def trunc (x : Sample) : Sample := round .towardZero x

/-- The nearest integral sample; a half goes away from zero. -/
def roundHalfAway (x : Sample) : Sample := round .nearestAway x

/-- The nearest integral sample; a half goes to the even neighbour. -/
def roundHalfEven (x : Sample) : Sample := round .nearestEven x

end SignalExpr.Sample
