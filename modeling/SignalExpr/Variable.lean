import SignalExpr.Text.Digits

/-!
Variables are the slots through which a statement list meets its caller: a dollar sign, a letter
for the kind, and an index that counts from one. A missing index means the first slot.
-/

namespace SignalExpr

/-- What a variable stands for. -/
inductive VariableKind where
  /-- A number. -/
  | float
  /-- A number whose fraction is dropped. -/
  | int
  /-- The name of a table. -/
  | symbol
  /-- A block of samples. -/
  | vector
  /-- A stream of samples with a history. -/
  | input
  /-- The stream of samples that a statement has written. -/
  | output
deriving DecidableEq, Repr, Inhabited

namespace VariableKind

def letter : VariableKind → Char
  | float => 'f'
  | int => 'i'
  | symbol => 's'
  | vector => 'v'
  | input => 'x'
  | output => 'y'

def ofLetter? : Char → Option VariableKind
  | 'f' => some float
  | 'i' => some int
  | 's' => some symbol
  | 'v' => some vector
  | 'x' => some input
  | 'y' => some output
  | _ => none

/-- Streams can be read at an offset from the current frame. -/
def hasHistory : VariableKind → Bool
  | input | output => true
  | _ => false

/-- The name of the kind in full. -/
def label : VariableKind → String
  | float => "Float"
  | int => "Int"
  | symbol => "Symbol"
  | vector => "Vector"
  | input => "Input"
  | output => "Output"

@[simp] theorem ofLetter?_letter (k : VariableKind) : ofLetter? k.letter = some k := by
  cases k <;> rfl

end VariableKind

/-- A slot of one kind. The index counts from zero. -/
structure Variable where
  kind : VariableKind
  index : Nat
deriving DecidableEq, Repr, Inhabited

/-- Why a text names no variable. -/
inductive VariableFault where
  | notAVariable
  | unknownKind
  | indexTooLarge
  | indexZero
deriving DecidableEq, Repr

namespace Variable

/-- Indexes are written in 64 bits. -/
def indexLimit : Nat := 0x10000000000000000

/-- Reads the digits behind the kind letter. -/
def ofKindAndDigits (kind : VariableKind) : List Char → Except VariableFault Variable
  | [] => .ok ⟨kind, 0⟩
  | digits =>
      let n := Text.digitsValue digits
      if indexLimit ≤ n then .error .indexTooLarge
      else if n = 0 then .error .indexZero
      else .ok ⟨kind, n - 1⟩

/-- Reads a variable. The form is checked first, then the letter, then the index. -/
def ofChars : List Char → Except VariableFault Variable
  | '$' :: letter :: digits =>
      if letter.isAlpha && digits.all Char.isDigit then
        match VariableKind.ofLetter? letter with
        | some kind => ofKindAndDigits kind digits
        | none => .error .unknownKind
      else .error .notAVariable
  | _ => .error .notAVariable

/-- Reads a variable such as `$f2`, or `$x` for `$x1`. -/
def parse (text : String) : Except VariableFault Variable :=
  ofChars text.toList

/-- The written form, always with an index. -/
def chars (v : Variable) : List Char :=
  '$' :: v.kind.letter :: Text.digits (v.index + 1)

/-- The written form, always with an index. -/
def text (v : Variable) : String :=
  String.ofList v.chars

end Variable

end SignalExpr
