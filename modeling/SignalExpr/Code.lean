import SignalExpr.Builtin.Meaning
import SignalExpr.Variable

/-!
Code: statements with all decisions made that do not depend on the call. Every value is a sample,
variables are slots of the call, and table names are resolved to a name or a slot that holds one.
-/

namespace SignalExpr

/-- A table name, or the slot that holds one. -/
inductive SymbolRef where
  | named (name : String)
  | slot (i : Nat)
deriving DecidableEq, Repr

/-- The code of an expression. -/
inductive Code where
  | const (x : Sample)
  /-- The number in a slot. -/
  | number (slot : Nat)
  /-- The sample of a block at the current frame. -/
  | vector (slot : Nat)
  /-- The sample of a block at an index. -/
  | vectorAt (slot : Nat) (index : Code)
  /-- The sample of an input history at the current frame. -/
  | input (slot : Nat)
  /-- The sample of an input history at an offset from the current frame. -/
  | inputAt (slot : Nat) (offset : Code)
  /-- The sample of an output at an offset from the current frame. -/
  | outputAt (output : Nat) (offset : Code)
  | unary (op : UnaryOp) (operand : Code)
  | binary (op : BinaryOp) (left right : Code)
  /-- Drops the fraction. -/
  | trunc (operand : Code)
  /-- Evaluates one of two branches. -/
  | choose (condition yes no : Code)
  | call1 (f : UnaryFunction) (x : Code)
  | call2 (f : BinaryFunction) (x y : Code)
  | random (low high : Code)
  | size (table : SymbolRef)
  | sum (table : SymbolRef)
  | rangeSum (table : SymbolRef) (first last : Code)
  | readCell (table : SymbolRef) (index : Code)
  | assignCell (table : SymbolRef) (index value : Code)
  | value (name : String)
  | assign (name : String) (value : Code)
deriving Inhabited

namespace Code

/-- The routines that the code calls, in the order in which the calls are met. -/
def imports : Code → List Routine
  | const _ | number _ | vector _ | input _ => []
  | vectorAt _ index => index.imports
  | inputAt _ offset | outputAt _ offset => offset.imports ++ [.arrayRead]
  | unary _ e | trunc e => e.imports
  | binary _ l r => l.imports ++ r.imports
  | choose c y n => c.imports ++ y.imports ++ n.imports
  | call1 f x => x.imports ++ [.unary f]
  | call2 f x y => x.imports ++ y.imports ++ [.binary f]
  | random l h => l.imports ++ h.imports ++ [.random]
  | size _ => [.tableSize]
  | sum _ => [.tableSum]
  | rangeSum _ l h => l.imports ++ h.imports ++ [.tableRangeSum]
  | readCell _ index => index.imports ++ [.cell, .deref]
  | assignCell _ index v => index.imports ++ [.cell] ++ v.imports
  | value _ => [.valueGet]
  | assign _ v => v.imports ++ [.valueAssign]

end Code

end SignalExpr
