/-!
The functions that expressions can call, what arguments they take, and the symbols under which
the routines behind them are linked.
-/

namespace SignalExpr

/-- Functions of one number. -/
inductive UnaryFunction where
  | abs | acos | acosh | asin | asinh | atan | atanh | cbrt | ceil | cos | cosh | erf | erfc
  | exp | expm1 | fact | finite | floor | imodf | isinf | isnan | ln | log | log10 | log1p
  | modf | nearbyint | rint | round | sin | sinh | sqrt | tan | tanh | trunc
deriving DecidableEq, Repr, Inhabited

/-- Functions of two numbers whose value depends on nothing else. -/
inductive BinaryFunction where
  | atan2 | copysign | fmod | ldexp | max | min | pow | remainder
deriving DecidableEq, Repr, Inhabited

/-- The functions that expressions can call. -/
inductive Builtin where
  /-- Evaluates one of two branches. -/
  | choose
  /-- Drops the fraction. -/
  | int
  /-- Gives the number as it is. -/
  | float
  /-- The number of cells of a table. -/
  | size
  /-- The sum of all cells of a table. -/
  | sum
  /-- The sum of the cells of a table between two positions. -/
  | rangeSum
  /-- A random whole number between two bounds. -/
  | random
  | unary (f : UnaryFunction)
  | binary (f : BinaryFunction)
deriving DecidableEq, Repr, Inhabited

/-- What an argument has to be. -/
inductive Parameter where
  | number
  | symbol
deriving DecidableEq, Repr

def UnaryFunction.all : List UnaryFunction :=
  [abs, acos, acosh, asin, asinh, atan, atanh, cbrt, ceil, cos, cosh, erf, erfc, exp, expm1,
   fact, finite, floor, imodf, isinf, isnan, ln, log, log10, log1p, modf, nearbyint, rint,
   round, sin, sinh, sqrt, tan, tanh, trunc]

def UnaryFunction.name : UnaryFunction → String
  | abs => "abs"
  | acos => "acos"
  | acosh => "acosh"
  | asin => "asin"
  | asinh => "asinh"
  | atan => "atan"
  | atanh => "atanh"
  | cbrt => "cbrt"
  | ceil => "ceil"
  | cos => "cos"
  | cosh => "cosh"
  | erf => "erf"
  | erfc => "erfc"
  | exp => "exp"
  | expm1 => "expm1"
  | fact => "fact"
  | finite => "finite"
  | floor => "floor"
  | imodf => "imodf"
  | isinf => "isinf"
  | isnan => "isnan"
  | ln => "ln"
  | log => "log"
  | log10 => "log10"
  | log1p => "log1p"
  | modf => "modf"
  | nearbyint => "nearbyint"
  | rint => "rint"
  | round => "round"
  | sin => "sin"
  | sinh => "sinh"
  | sqrt => "sqrt"
  | tan => "tan"
  | tanh => "tanh"
  | trunc => "trunc"

/-- The link symbol: the name with an `f` behind it, unless the routine is one of our own. -/
def UnaryFunction.link : UnaryFunction → String
  | abs => "fabsf"
  | ln | log => "logf"
  | fact => "jit_expr_fact"
  | imodf => "jit_expr_imodf"
  | modf => "jit_expr_modf"
  | isnan => "jit_expr_isnan"
  | isinf => "jit_expr_isinf"
  | finite => "jit_expr_finite"
  | f => f.name ++ "f"

def BinaryFunction.all : List BinaryFunction :=
  [atan2, copysign, fmod, ldexp, max, min, pow, remainder]

def BinaryFunction.name : BinaryFunction → String
  | atan2 => "atan2"
  | copysign => "copysign"
  | fmod => "fmod"
  | ldexp => "ldexp"
  | max => "max"
  | min => "min"
  | pow => "pow"
  | remainder => "remainder"

/-- The link symbol: the name with an `f` behind it, unless the routine is one of our own. -/
def BinaryFunction.link : BinaryFunction → String
  | max => "jit_expr_max"
  | min => "jit_expr_min"
  | ldexp => "jit_expr_ldexp"
  | f => f.name ++ "f"

namespace Builtin

def all : List Builtin :=
  [choose, int, float, size, sum, rangeSum, random]
    ++ UnaryFunction.all.map unary ++ BinaryFunction.all.map binary

def name : Builtin → String
  | choose => "if"
  | int => "int"
  | float => "float"
  | size => "size"
  | sum => "sum"
  | rangeSum => "Sum"
  | random => "random"
  | unary f => f.name
  | binary f => f.name

def ofName? (text : String) : Option Builtin :=
  all.find? (·.name == text)

/-- The arguments in order. -/
def parameters : Builtin → List Parameter
  | choose => [.number, .number, .number]
  | int | float | unary _ => [.number]
  | random | binary _ => [.number, .number]
  | size | sum => [.symbol]
  | rangeSum => [.symbol, .number, .number]

/-- Whether the code of the function stands in the caller, so that nothing is linked. -/
def isInline : Builtin → Bool
  | choose | int | float => true
  | _ => false

end Builtin

/-- The routines that compiled statements reach by name: those behind the functions, and those
behind tables, named values and histories. -/
inductive Routine where
  /-- The cell of a table at an index. -/
  | cell
  /-- The content of a cell. -/
  | deref
  /-- The content of a named value. -/
  | valueGet
  /-- Stores a named value. -/
  | valueAssign
  /-- An interpolated read from a buffer. -/
  | arrayRead
  | tableSize
  | tableSum
  | tableRangeSum
  | random
  | unary (f : UnaryFunction)
  | binary (f : BinaryFunction)
deriving DecidableEq, Repr, Inhabited

namespace Routine

def all : List Routine :=
  [cell, deref, valueGet, valueAssign, arrayRead, tableSize, tableSum, tableRangeSum, random]
    ++ UnaryFunction.all.map unary ++ BinaryFunction.all.map binary

/-- The symbol under which a routine is linked. -/
def link : Routine → String
  | cell => "jit_expr_table_value_ptr"
  | deref => "jit_expr_deref"
  | valueGet => "jit_expr_value_get"
  | valueAssign => "jit_expr_value_assign"
  | arrayRead => "jit_expr_array_read"
  | tableSize => "jit_expr_table_size"
  | tableSum => "jit_expr_table_sum_all"
  | tableRangeSum => "jit_expr_table_sum"
  | random => "jit_expr_random"
  | unary f => f.link
  | binary f => f.link

/-- The routine linked under a symbol. -/
def ofLink? (text : String) : Option Routine :=
  all.find? (·.link == text)

/-- The symbols of all routines, each once. -/
def links : List String :=
  (all.map link).eraseDups

end Routine

/-- The symbol that a call of a function links to, for names of no function too. -/
def linkOfName (text : String) : String :=
  match Builtin.ofName? text with
  | some .size => Routine.tableSize.link
  | some .sum => Routine.tableSum.link
  | some .rangeSum => Routine.tableRangeSum.link
  | some .random => Routine.random.link
  | some (.unary f) => f.link
  | some (.binary f) => f.link
  | _ => text ++ "f"

end SignalExpr
