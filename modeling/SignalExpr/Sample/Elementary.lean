import SignalExpr.Sample.Arithmetic

/-!
Elementary functions of samples that the core library lacks. They are computed in double
precision and rounded once at the end.
-/

namespace SignalExpr.Sample

/-- `ln (1 + d)` in double precision. Where `1 + d` loses low digits of `d`, the quotient makes up
for them. -/
def doubleLog1p (d : Float) : Float :=
  let u := 1.0 + d
  if u == 1.0 || (u.isInf && 0.0 < u) then d
  else u.log * d / (u - 1.0)

/-- `exp d - 1` in double precision. Where `exp d` loses low digits of `d`, the quotient makes up
for them. -/
def doubleExpm1 (d : Float) : Float :=
  let u := d.exp
  if u == 1.0 then d
  else if u - 1.0 == -1.0 then -1.0
  else if u.isInf then u
  else (u - 1.0) * d / u.log

/-- Applies a function in double precision. -/
def mapDouble (f : Float → Float) (x : Sample) : Sample :=
  x.map fun v => (f v.toFloat).toFloat32

/-- Applies an odd function in double precision, given by its values at magnitudes. -/
def mapOdd (f : Float → Float) (x : Sample) : Sample :=
  if x.isNegative then -x.abs.mapDouble f else x.mapDouble f

/-- `ln (1 + x)`. -/
def log1p (x : Sample) : Sample :=
  x.mapDouble doubleLog1p

/-- `exp x - 1`. -/
def expm1 (x : Sample) : Sample :=
  x.mapDouble doubleExpm1

/-- The inverse hyperbolic sine. -/
def asinh (x : Sample) : Sample :=
  if x.isInf then x
  else x.mapOdd fun d => doubleLog1p (d + d * d / (1.0 + (1.0 + d * d).sqrt))

/-- The inverse hyperbolic cosine; not a number below one. -/
def acosh (x : Sample) : Sample :=
  if x < 1 then nan
  else x.mapDouble fun d => doubleLog1p (d - 1.0 + ((d - 1.0) * (d + 1.0)).sqrt)

/-- The inverse hyperbolic tangent; not a number beyond one and minus one. -/
def atanh (x : Sample) : Sample :=
  if (1 : Sample) < x.abs then undefined
  else x.mapOdd fun d => 0.5 * doubleLog1p (2.0 * d / (1.0 - d))

/-- The power `x ^ y`. Every power of one is one, and so is every power with exponent zero, also
where the other operand is not a number. -/
def pow (x y : Sample) : Sample :=
  if x.value == 1.0 || y.value == 0.0 then 1 else x.map₂ Float32.pow y

/-- The error function, by a rational approximation with an absolute error below `1.5e-7`. The
sign of a zero argument counts, so the value at zero is small and not zero. -/
def erf (x : Sample) : Sample :=
  let a := x.abs.value.toFloat
  let t := 1.0 / (1.0 + 0.3275911 * a)
  let poly := t * (0.254829592
    + t * (-0.284496736 + t * (1.421413741 + t * (-1.453152027 + t * 1.061405429))))
  if x.isNaN then nan
  else copySign 1 x * ofValue (1.0 - poly * (-a * a).exp).toFloat32

/-- The complement of the error function. -/
def erfc (x : Sample) : Sample :=
  1 - x.erf

end SignalExpr.Sample
