import SignalExpr.Store.Random
import SignalExpr.Store.Tables

/-!
What calls of compiled statements share: tables, named values, and the random generator.
-/

namespace SignalExpr

/-- The shared state of all calls. -/
structure Memory where
  tables : Tables
  values : NameMap Sample
  random : Generator

namespace Memory

/-- No tables, all values zero, and a generator with seed zero. -/
def initial : Memory := ⟨.empty, .empty, .ofSeed 0⟩

/-- The content of a named value, zero if it was never set. -/
def value (m : Memory) (name : String) : Sample :=
  (m.values.get? name).getD 0

def setValue (m : Memory) (name : String) (x : Sample) : Memory :=
  { m with values := m.values.insert name x }

end Memory

end SignalExpr
