/-!
The operators of expressions. Arithmetic works on samples; all other operators truncate their
operands to 32-bit integers first.
-/

namespace SignalExpr

/-- Operators before one operand. -/
inductive UnaryOp where
  | negate
  | bitNot
  | not
deriving DecidableEq, Repr, Inhabited

/-- Operators between two operands. -/
inductive BinaryOp where
  | add
  | subtract
  | multiply
  | divide
  | shiftLeft
  | shiftRight
  | equal
  | notEqual
  | greater
  | less
  | greaterEqual
  | lessEqual
  | logicalOr
  | logicalAnd
  | bitOr
  | bitAnd
  | bitXor
deriving DecidableEq, Repr, Inhabited

def UnaryOp.mark : UnaryOp → String
  | negate => "-"
  | bitNot => "~"
  | not => "!"

def BinaryOp.mark : BinaryOp → String
  | add => "+"
  | subtract => "-"
  | multiply => "*"
  | divide => "/"
  | shiftLeft => "<<"
  | shiftRight => ">>"
  | equal => "=="
  | notEqual => "!="
  | greater => ">"
  | less => "<"
  | greaterEqual => ">="
  | lessEqual => "<="
  | logicalOr => "||"
  | logicalAnd => "&&"
  | bitOr => "|"
  | bitAnd => "&"
  | bitXor => "^"

/-- All operators before one operand. -/
def UnaryOp.all : List UnaryOp := [negate, bitNot, not]

/-- All operators between two operands. -/
def BinaryOp.all : List BinaryOp :=
  [add, subtract, multiply, divide, shiftLeft, shiftRight, equal, notEqual, greater, less,
   greaterEqual, lessEqual, logicalOr, logicalAnd, bitOr, bitAnd, bitXor]

def UnaryOp.ofMark? (mark : String) : Option UnaryOp :=
  UnaryOp.all.find? (·.mark == mark)

def BinaryOp.ofMark? (mark : String) : Option BinaryOp :=
  BinaryOp.all.find? (·.mark == mark)

end SignalExpr
