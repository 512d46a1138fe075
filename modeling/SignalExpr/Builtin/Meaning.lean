import SignalExpr.Sample.Elementary
import SignalExpr.Builtin
import SignalExpr.Operator

/-!
What operators and numeric functions compute.
-/

namespace SignalExpr

open Sample (ofBool ofInt)

/-- Applies an operator before one operand. -/
def UnaryOp.apply (op : UnaryOp) (x : Sample) : Sample :=
  match op with
  | negate => -x
  | bitNot => ofInt (~~~ x.toInt32).toInt
  | not => ofBool (x.toInt32 == 0)

/-- Applies an operation on 32-bit integers to truncated operands. -/
def onInts (f : Int32 → Int32 → Int32) (x y : Sample) : Sample :=
  ofInt (f x.toInt32 y.toInt32).toInt

/-- Tests a relation between truncated operands. -/
def testInts (f : Int32 → Int32 → Bool) (x y : Sample) : Sample :=
  ofBool (f x.toInt32 y.toInt32)

/-- Applies an operator between two operands. Shifts take the distance modulo 32, and the shift
to the right keeps the sign. -/
def BinaryOp.apply (op : BinaryOp) (x y : Sample) : Sample :=
  match op with
  | add => x + y
  | subtract => x - y
  | multiply => x * y
  | divide => x / y
  | shiftLeft => onInts (· <<< ·) x y
  | shiftRight => onInts (· >>> ·) x y
  | equal => testInts (· == ·) x y
  | notEqual => testInts (· != ·) x y
  | greater => testInts (fun a b => decide (b < a)) x y
  | less => testInts (fun a b => decide (a < b)) x y
  | greaterEqual => testInts (fun a b => decide (b ≤ a)) x y
  | lessEqual => testInts (fun a b => decide (a ≤ b)) x y
  | logicalOr => testInts (fun a b => a != 0 || b != 0) x y
  | logicalAnd => testInts (fun a b => a != 0 && b != 0) x y
  | bitOr => onInts (· ||| ·) x y
  | bitAnd => onInts (· &&& ·) x y
  | bitXor => onInts (· ^^^ ·) x y

/-- Applies a function of one number. -/
def UnaryFunction.apply (f : UnaryFunction) (x : Sample) : Sample :=
  match f with
  | abs => x.abs
  | acos => x.map Float32.acos
  | acosh => x.acosh
  | asin => x.map Float32.asin
  | asinh => x.asinh
  | atan => x.map Float32.atan
  | atanh => x.atanh
  | cbrt => x.map Float32.cbrt
  | ceil => x.ceil
  | cos => x.map Float32.cos
  | cosh => x.map Float32.cosh
  | erf => x.erf
  | erfc => x.erfc
  | exp => x.map Float32.exp
  | expm1 => x.expm1
  | fact => x.factorial
  | finite => ofBool x.isFinite
  | floor => x.floor
  | imodf => x.trunc
  | isinf => ofBool x.isInf
  | isnan => ofBool x.isNaN
  | ln | log => x.map Float32.log
  | log10 => x.map Float32.log10
  | log1p => x.log1p
  | modf => x - x.trunc
  | nearbyint | rint => x.roundHalfEven
  | round => x.roundHalfAway
  | sin => x.map Float32.sin
  | sinh => x.map Float32.sinh
  | sqrt => x.map Float32.sqrt
  | tan => x.map Float32.tan
  | tanh => x.map Float32.tanh
  | trunc => x.trunc

/-- Applies a function of two numbers. -/
def BinaryFunction.apply (f : BinaryFunction) (x y : Sample) : Sample :=
  match f with
  | atan2 => x.map₂ Float32.atan2 y
  | copysign => x.copySign y
  | fmod => x.fmod y
  | ldexp => x.scale y
  | max => x.greater y
  | min => x.lesser y
  | pow => x.pow y
  | remainder => x.remainder y

end SignalExpr
