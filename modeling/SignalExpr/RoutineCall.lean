import SignalExpr.Buffer
import SignalExpr.Builtin.Meaning
import SignalExpr.Store.Memory
import SignalExpr.Text.Quoted

/-!
Direct calls of routines, outside of compiled statements. Here every argument may be missing.
-/

namespace SignalExpr

/-- A name as a symbol in messages. Two symbols are the same if their names are. -/
def describeSymbol (name : String) : String :=
  "Symbol(" ++ Text.quote name ++ ")"

/-- An argument of a routine. -/
inductive RoutineArgument where
  | number (x : Sample)
  | symbol (name : Option String)
  | buffer (samples : Option (Array Sample))
  | length (n : Int32)
  /-- A cell, by its content. -/
  | cell (content : Option Sample)

/-- Calls a routine. A missing name, buffer or cell gives zero, and so do arguments that the
routine does not take. -/
def Routine.call (r : Routine) (args : List RoutineArgument) (m : Memory) : Sample × Memory :=
  match r, args with
  | .cell, [.symbol (some name), .number index] =>
      (m.tables.read (m.tables.cell? name index), m)
  | .deref, [.cell (some content)] => (content, m)
  | .valueGet, [.symbol (some name)] => (m.value name, m)
  | .valueAssign, [.symbol (some name), .number x] => (x, m.setValue name x)
  | .valueAssign, [.symbol none, .number x] => (x, m)
  | .arrayRead, [.buffer (some samples), .number index, .length n] =>
      (Buffer.interpolate samples index n, m)
  | .tableSize, [.symbol (some name)] => (m.tables.length name, m)
  | .tableSum, [.symbol (some name)] => (m.tables.sum name, m)
  | .tableRangeSum, [.symbol (some name), .number first, .number last] =>
      (m.tables.rangeSum name first last, m)
  | .random, [.number low, .number high] =>
      let (x, g) := m.random.between low high
      (x, { m with random := g })
  | .unary f, [.number x] => (f.apply x, m)
  | .binary f, [.number x, .number y] => (f.apply x y, m)
  | _, _ => (0, m)

end SignalExpr
