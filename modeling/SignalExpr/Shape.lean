import SignalExpr.Variable

/-!
The calling shapes of a compiled statement list: once per call, once per frame of a block, or
once per frame with access to sample histories.
-/

namespace SignalExpr

/-- How often the statements run in one call, and what they can reach. -/
inductive Shape where
  | scalar
  | block
  | sample
deriving DecidableEq, Repr, Inhabited

namespace Shape

def name : Shape → String
  | scalar => "scalar"
  | block => "block"
  | sample => "sample"

/-- The name with a capital. -/
def label : Shape → String
  | scalar => "Scalar"
  | block => "Block"
  | sample => "Sample"

def ofName? : String → Option Shape
  | "scalar" => some scalar
  | "block" => some block
  | "sample" => some sample
  | _ => none

/-- The refusal of a text that names no shape. -/
def unknownMessage (text : String) : String :=
  s!"unknown shape '{text}', expected scalar, block or sample"

/-- Whether the statements run once per frame. -/
def isLooped : Shape → Bool
  | scalar => false
  | block | sample => true

/-- Blocks need a frame loop, and histories need the sample shape. -/
def accepts (shape : Shape) : VariableKind → Bool
  | .float | .int | .symbol => true
  | .vector => shape.isLooped
  | .input | .output => shape == sample

end Shape

end SignalExpr
