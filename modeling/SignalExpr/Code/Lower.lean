import SignalExpr.Code
import SignalExpr.Program

/-!
From statements to code. A statement list gets code for a shape if the shape has all kinds of its
variables and every string and every variable that holds a table name stands where one is asked
for.
-/

namespace SignalExpr

/-- An argument of a call: a number, or a table name. -/
inductive Operand where
  | number (c : Code)
  | symbol (s : SymbolRef)

namespace Lower

/-- Refuses what needs a frame in a shape without frames. -/
def requireFrames (shape : Shape) : Except Cause Unit :=
  if shape.isLooped then .ok () else .error (.noFrames shape)

/-- The code of a variable that stands alone. An output gives the sample of the frame before. -/
def slotCode (shape : Shape) (v : Variable) : Except Cause Code := do
  match v.kind with
  | .float | .int => return .number v.index
  | .symbol => throw (.symbolAsNumber v)
  | .vector =>
      if shape.isLooped then return .vector v.index else throw .outsideFrames
  | .input =>
      requireFrames shape
      return .input v.index
  | .output =>
      requireFrames shape
      return .outputAt v.index (.const (-1))

/-- The code of a stream at an offset. -/
def history (shape : Shape) (v : Variable) (offset : Code) : Except Cause Code := do
  requireFrames shape
  match v.kind with
  | .input => return .inputAt v.index offset
  | .output => return .outputAt v.index offset
  | _ => throw (.noHistory v)

/-- The table name that an expression quotes. -/
def symbol : Expr → Except Cause SymbolRef
  | .quoted text => .ok (.named text)
  | .quotedVar v => .ok (.slot v.index)
  | _ => .error .notASymbolArgument

/-- The code of a call. -/
def call (f : Builtin) (args : List Operand) : Except Cause Code :=
  match f, args with
  | .choose, [.number c, .number y, .number n] => .ok (.choose c y n)
  | .int, [.number x] => .ok (.trunc x)
  | .float, [.number x] => .ok x
  | .size, [.symbol t] => .ok (.size t)
  | .sum, [.symbol t] => .ok (.sum t)
  | .rangeSum, [.symbol t, .number l, .number h] => .ok (.rangeSum t l h)
  | .random, [.number l, .number h] => .ok (.random l h)
  | .unary f, [.number x] => .ok (.call1 f x)
  | .binary f, [.number x, .number y] => .ok (.call2 f x y)
  | _, _ => .error .notASymbolArgument

mutual

/-- The code of an expression. The first fault from left to right is the one reported. -/
def expr (shape : Shape) : Expr → Except Cause Code
  | .var v => slotCode shape v
  | .int n => return .const (Sample.ofInt n)
  | .float x => return .const x
  | .quoted _ | .quotedVar _ => throw .stringAsNumber
  | .unary op e => return .unary op (← expr shape e)
  | .binary op l r => return .binary op (← expr shape l) (← expr shape r)
  | .call f args => do
      let operands ← operands shape f.parameters args
      call f operands
  | .history v offset => do
      let offset ← expr shape offset
      history shape v offset
  | .cell _ _ => throw .cellWithoutRead
  | .readCell (.named name) index => return .readCell (.named name) (← expr shape index)
  | .readCell (.slot v) index => do
      match v.kind with
      | .symbol => return .readCell (.slot v.index) (← expr shape index)
      | .vector =>
          let index ← expr shape index
          requireFrames shape
          return .vectorAt v.index index
      | _ => throw (.notIndexable v)
  | .assignCell (.named name) index value =>
      return .assignCell (.named name) (← expr shape index) (← expr shape value)
  | .assignCell (.slot v) index value => do
      match v.kind with
      | .symbol =>
          return .assignCell (.slot v.index) (← expr shape index) (← expr shape value)
      | _ => throw (.notIndexable v)
  | .value name => return .value name
  | .assign name value => return .assign name (← expr shape value)

/-- The arguments of a call. -/
def operands (shape : Shape) : List Parameter → List Expr → Except Cause (List Operand)
  | .number :: ps, e :: es => do
      let c ← expr shape e
      return .number c :: (← operands shape ps es)
  | .symbol :: ps, e :: es => do
      let s ← symbol e
      return .symbol s :: (← operands shape ps es)
  | _, _ => return []

end

end Lower

namespace Program

/-- Refuses the first variable whose kind the shape does not have. -/
def checkShape (p : Program) (shape : Shape) : Except Cause Unit :=
  match p.vars.find? fun v => !shape.accepts v.kind with
  | some v => .error (.unsupported v shape)
  | none => .ok ()

/-- Refuses an input slot that stands for an output. -/
def checkInputs (p : Program) : Except Cause Unit :=
  match p.inputs.find? fun v => v.kind == .output with
  | some v => .error (.outputAsInput v)
  | none => .ok ()

/-- The code of the statements for a shape. -/
def code (p : Program) (shape : Shape) : Except Cause (List Code) := do
  p.checkShape shape
  p.checkInputs
  p.trees.mapM (Lower.expr shape)

end Program

end SignalExpr
