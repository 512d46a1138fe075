import SignalExpr.Operator
import SignalExpr.Shape
import SignalExpr.Token

/-!
Everything that can go wrong, as causes. The wording of a cause is `Cause.message`; an error is
a cause with the place in the source text where it arose, if it arose in one.
-/

namespace SignalExpr

/-- The stage that an error belongs to. -/
inductive ErrorKind where
  /-- Malformed token or grammar. -/
  | malformed
  /-- Well-formed but ill-typed. -/
  | semantic
  /-- Inconsistent variables across a statement list. -/
  | validation
  /-- Not available in the requested shape. -/
  | coding
  /-- A routine that nothing provides. -/
  | linking
  /-- A call that does not match the function's inputs or outputs. -/
  | argument
deriving DecidableEq, Repr

def ErrorKind.label : ErrorKind → String
  | malformed => "Syntax"
  | semantic => "Semantic"
  | validation => "Validation"
  | coding => "Codegen"
  | linking => "Link"
  | argument => "Argument"

/-- The places in a tree where a string must not stand. -/
inductive NumericPlace where
  | unaryOperand (op : UnaryOp)
  | binaryOperand (op : BinaryOp)
  | historyOffset
  | tableIndex
  | assignedValue
deriving DecidableEq, Repr

def NumericPlace.describe : NumericPlace → String
  | unaryOperand op => "operand of '" ++ op.mark ++ "'"
  | binaryOperand op => "operands of '" ++ op.mark ++ "'"
  | historyOffset => "history offset"
  | tableIndex => "table index"
  | assignedValue => "assigned value"

/-- Why an operation was refused. -/
inductive Cause where
  -- Lexemes.
  | unexpectedCharacter (c : Char)
  | unclosedString
  | malformedVariable
  | malformedNumber (text : String)
  | invalidNumber (text : String)
  | invalidInteger (text : String)
  -- Grammar.
  | emptyExpression
  | unexpectedToken (kind : TokenKind)
  | unexpectedEnd
  | expected (wanted : TokenKind) (found : Option TokenKind)
  | badAssignmentTarget
  | tooDeep
  -- Nodes.
  | badVariable (text : String) (fault : VariableFault)
  | quotedNonSymbol
  | stringAsNumberAt (place : NumericPlace)
  | unknownFunction (name : String)
  | wrongArity (name : String) (wanted given : Nat)
  | argumentMismatch (name : String) (index : Nat)
  | historyOfNonStream
  | indexOfNonTable
  | assignedVector
  | assignedNonCell
  | readOfNonCell
  -- Variables of a statement list.
  | outputOutOfRange (v : Variable) (outputs : Nat)
  | mismatchedKinds (index : Nat)
  | missingInput (index : Nat)
  -- Code for a shape.
  | unsupported (v : Variable) (shape : Shape)
  | outputAsInput (v : Variable)
  | stringAsNumber
  | cellWithoutRead
  | symbolAsNumber (v : Variable)
  | noFrames (shape : Shape)
  | outsideFrames
  | noHistory (v : Variable)
  | notIndexable (v : Variable)
  | notASymbolArgument
  | exportedImport (name : String)
  | unresolved (name : String)
  -- Calls.
  | useProcess (name : String) (shape : Shape)
  | useEval (name : String)
  | tooManyFrames (frames : Nat)
  | wrongOutputs (name : String) (outputs given : Nat)
  | wrongOutputLength (index length frames : Nat)
  | wrongArgumentCount (name : String) (inputs given : Nat)
  | wrongArgument (index : Nat) (v : Variable) (given : String) (frames : Nat)
  | wrongBlockLength (given frames : Nat)
deriving DecidableEq

namespace Cause

def kind : Cause → ErrorKind
  | unexpectedCharacter _ | unclosedString | malformedVariable | malformedNumber _
  | invalidNumber _ | invalidInteger _ | emptyExpression | unexpectedToken _ | unexpectedEnd
  | expected _ _ | badAssignmentTarget | tooDeep => .malformed
  | badVariable _ _ | quotedNonSymbol | stringAsNumberAt _ | unknownFunction _ | wrongArity _ _ _
  | argumentMismatch _ _ | historyOfNonStream | indexOfNonTable | assignedVector
  | assignedNonCell | readOfNonCell => .semantic
  | outputOutOfRange _ _ | mismatchedKinds _ | missingInput _ => .validation
  | unsupported _ _ | outputAsInput _ | stringAsNumber | cellWithoutRead | symbolAsNumber _
  | noFrames _ | outsideFrames | noHistory _ | notIndexable _ | notASymbolArgument
  | exportedImport _ => .coding
  | unresolved _ => .linking
  | useProcess _ _ | useEval _ | tooManyFrames _ | wrongOutputs _ _ _ | wrongOutputLength _ _ _
  | wrongArgumentCount _ _ _ | wrongArgument _ _ _ _ | wrongBlockLength _ _ => .argument

def variableMessage (text : String) : VariableFault → String
  | .notAVariable => text ++ " is not a valid variable declaration"
  | .unknownKind => text ++ " has unknown type"
  | .indexTooLarge => text ++ " has an out of range index"
  | .indexZero => text ++ ": variable index must be at least 1"

/-- The wording, without the kind and the place. -/
def message : Cause → String
  | unexpectedCharacter c => "unexpected character: '" ++ c.toString ++ "'"
  | unclosedString => "unclosed string literal"
  | malformedVariable => "malformed variable: expected a kind letter after '$'"
  | malformedNumber text => "malformed number: " ++ text
  | invalidNumber text => "invalid number: " ++ text
  | invalidInteger text => "invalid integer: " ++ text
  | emptyExpression => "empty expression"
  | unexpectedToken kind => "unexpected token: " ++ kind.describe
  | unexpectedEnd => "unexpected end of expression"
  | expected wanted found =>
      "expected " ++ wanted.describe ++ ", got "
        ++ (found.map TokenKind.describe).getD TokenList.endLabel
  | badAssignmentTarget => "left side of '=' must be a name or a table cell"
  | tooDeep => "expression nested too deeply"
  | badVariable text fault => variableMessage text fault
  | quotedNonSymbol => "quoted values can only be strings or symbol variables"
  | stringAsNumberAt place => place.describe ++ " must be numeric, got a string"
  | unknownFunction name => "function not found with name: " ++ name
  | wrongArity name wanted given =>
      s!"function {name} expects {wanted} arguments, got: {given}"
  | argumentMismatch name index => s!"function {name} arg {index} type mismatch"
  | historyOfNonStream => "sample history access requires an $x or $y variable"
  | indexOfNonTable => "only $s and $v variables can be indexed as tables"
  | assignedVector => "only named tables can be assigned to, not $v inputs"
  | assignedNonCell => "assignment target must be a table cell"
  | readOfNonCell => "only table accesses can be read"
  | outputOutOfRange v outputs =>
      "output variable " ++ v.text ++ s!" is out of range, there are {outputs} output(s)"
  | mismatchedKinds index => "mismatched input types at index " ++ toString (index + 1)
  | missingInput index => "missing an input variable at index " ++ toString (index + 1)
  | unsupported v shape => v.text ++ " is not supported by the " ++ shape.name ++ " shape"
  | outputAsInput v => v.text ++ " cannot be an input"
  | stringAsNumber => "string value used as a number"
  | cellWithoutRead => "table cell used without a read"
  | symbolAsNumber v => "symbol variable " ++ v.text ++ " used as a number"
  | noFrames shape => "per-frame access is not available in the " ++ shape.name ++ " shape"
  | outsideFrames => "per-frame access outside the frame loop"
  | noHistory v => v.text ++ " has no sample history"
  | notIndexable v => v.text ++ " cannot be indexed"
  | notASymbolArgument => "expected a symbol argument"
  | exportedImport name => "declaring " ++ name
  | unresolved name => "unresolved external symbol: " ++ name
  | useProcess name shape => name ++ " is a " ++ shape.name ++ " function, use process"
  | useEval name => name ++ " is a scalar function, use eval"
  | tooManyFrames frames => s!"{frames} frames is too many"
  | wrongOutputs name outputs given =>
      s!"{name} produces {outputs} output(s), got {given} buffer(s)"
  | wrongOutputLength index length frames =>
      "output " ++ toString (index + 1) ++ s!" has {length} samples for {frames} frames"
  | wrongArgumentCount name inputs given =>
      s!"{name} expects {inputs} argument(s), got {given}"
  | wrongArgument index v given frames =>
      "argument " ++ toString (index + 1) ++ " (" ++ v.text ++ ") does not accept " ++ given
        ++ s!" for {frames} frames"
  | wrongBlockLength given frames =>
      s!"input block has {given} samples, history expects {frames}"

end Cause

/-- A cause and the place in the source text where it arose. -/
structure Error where
  position : Option Position
  cause : Cause
deriving DecidableEq

namespace Error

/-- An error that is at no place of a text. -/
def ofCause (cause : Cause) : Error := ⟨none, cause⟩

/-- An error at a place of the text. -/
def atPosition (p : Position) (cause : Cause) : Error := ⟨some p, cause⟩

def kind (e : Error) : ErrorKind := e.cause.kind

/-- The kind and the wording, with the place in front if there is one. -/
def message (e : Error) : String :=
  let body := e.kind.label ++ ": " ++ e.cause.message
  match e.position with
  | some p => "[" ++ toString p.line ++ ":" ++ toString p.column ++ "] " ++ body
  | none => body

end Error

end SignalExpr
