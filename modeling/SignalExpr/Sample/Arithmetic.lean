import SignalExpr.Sample.Integral

/-!
Arithmetic on samples beyond the four operations: remainders, the lesser and the greater of two
samples, and scaling by powers of two.
-/

namespace SignalExpr.Sample

/-- The remainder of a division whose quotient is truncated. It is exact, has the sign of the
dividend, and is not a number for an infinite dividend or a zero divisor. -/
def fmod (x y : Sample) : Sample :=
  match x.unpack, y.unpack with
  | .notANumber, _ => x
  | _, .notANumber => y
  | .infinity _, _ => undefined
  | _, .zero _ => undefined
  | .zero _, _ => x
  | _, .infinity _ => x
  | .finite sign m e _, .finite _ n f _ =>
      let unit := min e f
      ofParts sign ((m <<< (e - unit).toNat) % (n <<< (f - unit).toNat)) unit

/-- The remainder of a division whose quotient goes to the nearest whole number, a half to the
even one. The quotient is itself rounded to a sample first. -/
def remainder (x y : Sample) : Sample :=
  x - (x / y).roundHalfEven * y

/-- The lesser of two samples. An operand that is not a number is ignored. -/
def lesser (a b : Sample) : Sample :=
  if a.isNaN then b else if b.isNaN then a else if a < b then a else b

/-- The greater of two samples. An operand that is not a number is ignored. -/
def greater (a b : Sample) : Sample :=
  if a.isNaN then b else if b.isNaN then a else if b < a then a else b

/-- The lesser of two samples; the first operand that is not a number, if one is not. -/
def strictLesser (a b : Sample) : Sample :=
  if a.isNaN then a else if b.isNaN then b else if a < b then a else b

/-- The greater of two samples; the first operand that is not a number, if one is not. -/
def strictGreater (a b : Sample) : Sample :=
  if a.isNaN then a else if b.isNaN then b else if b < a then a else b

/-- A power of two. For a negative exponent it is the reciprocal of the positive power, so it
is zero as soon as that power is infinite. -/
def powerOfTwo (n : Int32) : Sample :=
  if 0 ≤ n.toInt then ofParts .positive 1 n.toInt
  else 1 / ofParts .positive 1 (-n.toInt)

/-- Scales `x` by a power of two whose exponent is truncated to an integer. -/
def scale (x exponent : Sample) : Sample :=
  x * powerOfTwo exponent.toInt32

/-- The product of the whole numbers up to the truncated argument. The product of the first
thirty-five is infinite already, so no later factor changes it. -/
def factorial (x : Sample) : Sample :=
  let last := min x.toInt64.toInt.toNat 35
  (List.range last).foldl (fun product k => if k = 0 then product else product * ofNat (k + 1))
    1

/-- Adds up samples in order, starting from negative zero, which is neutral for addition. -/
def sum (xs : List Sample) : Sample :=
  xs.foldl (· + ·) negativeZero

end SignalExpr.Sample
