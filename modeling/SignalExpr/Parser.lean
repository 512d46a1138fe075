import SignalExpr.Arena

/-!
The grammar of statement lists. Statements stand between separators; a statement is an
assignment or an expression of ten levels of left-associative operators over prefixed operands.

Parentheses, arguments, subscripts, operands of prefixed operators and assigned values nest, and
nesting is limited. The parser of a grammar with `n + 1` levels of nesting left is built from
the one with `n` levels left, so recursion is on that number.
-/

namespace SignalExpr

/-- The tokens that are left, and the nodes built so far. -/
structure ParseState where
  input : TokenList
  arena : Arena

/-- A parser takes tokens from the input and nodes to the arena. -/
abbrev Parser := StateT ParseState (Except Error)

namespace Parser

/-- The deepest nesting. -/
def maxNesting : Nat := 64

/-- The place of the next token. -/
def position : Parser Position :=
  return (← get).input.position

/-- The kind of the next token, if there is one. -/
def next? : Parser (Option TokenKind) :=
  return (← get).input.tokens.head?.map Token.kind

/-- How many tokens are left. -/
def remaining : Parser Nat :=
  return (← get).input.tokens.length

/-- Takes the next token. -/
def advance : Parser Unit :=
  modify fun s => { s with input := { s.input with tokens := s.input.tokens.tail } }

/-- Fails at a given place. -/
def failAt {α : Type} (p : Position) (cause : Cause) : Parser α :=
  throw (.atPosition p cause)

/-- Fails at the next token. -/
def fail {α : Type} (cause : Cause) : Parser α := do
  failAt (← position) cause

/-- Puts a leaf into the arena. -/
def plant (f : Arena → Arena × NodeId) : Parser NodeId := do
  let s ← get
  let (arena, id) := f s.arena
  set { s with arena }
  return id

/-- Puts a node into the arena; a refusal is an error at `p`. -/
def build (p : Position) (f : Arena → Except Cause (Arena × NodeId)) : Parser NodeId := do
  let s ← get
  match f s.arena with
  | .ok (arena, id) =>
      set { s with arena }
      return id
  | .error cause => failAt p cause

/-- Reads a variable; a refusal is an error at `p`. -/
def readVariable (p : Position) (text : String) : Parser Variable :=
  match Variable.parse text with
  | .ok v => return v
  | .error fault => failAt p (.badVariable text fault)

/-- Takes a token of one kind. -/
def expect (kind : TokenKind) : Parser Unit := do
  let found ← next?
  if found = some kind then advance else fail (.expected kind found)

/-- The parser at the limit of nesting. -/
def tooDeep : Parser NodeId :=
  fail .tooDeep

/-- An operator level: the operators that stand on it. -/
abbrev Level := TokenKind → Option BinaryOp

/-- The levels of operators, from the loosest to the tightest. -/
def levels : List Level :=
  [fun | .orOr => some .logicalOr | _ => none,
   fun | .andAnd => some .logicalAnd | _ => none,
   fun | .pipe => some .bitOr | _ => none,
   fun | .caret => some .bitXor | _ => none,
   fun | .ampersand => some .bitAnd | _ => none,
   fun | .equalEqual => some .equal | .notEqual => some .notEqual | _ => none,
   fun | .less => some .less | .greater => some .greater
       | .lessEqual => some .lessEqual | .greaterEqual => some .greaterEqual | _ => none,
   fun | .shiftLeft => some .shiftLeft | .shiftRight => some .shiftRight | _ => none,
   fun | .plus => some .add | .minus => some .subtract | _ => none,
   fun | .star => some .multiply | .slash => some .divide | _ => none]

/-- Goes on behind a left operand as long as operators of the level follow. Each of them takes a
token, so the number of tokens is fuel enough. -/
def climb (level : Level) (operand : Parser NodeId) : Nat → NodeId → Parser NodeId
  | 0, left => return left
  | fuel + 1, left => do
      match (← next?).bind level with
      | none => return left
      | some op =>
          let p ← position
          advance
          let right ← operand
          let node ← build p (·.binary op left right)
          climb level operand fuel node

/-- Operands with operators of one level between them, grouped from the left. -/
def leftAssociative (level : Level) (operand : Parser NodeId) : Parser NodeId := do
  let first ← operand
  climb level operand (← remaining) first

/-- Operands with operators of the given levels between them. -/
def ladder : List Level → Parser NodeId → Parser NodeId
  | [], operand => operand
  | level :: tighter, operand => leftAssociative level (ladder tighter operand)

/-- An expression, or an assignment to the name or the cell that the expression reads. Assigned
values group from the right. -/
def assignment (target value : Parser NodeId) : Parser NodeId := do
  let left ← target
  if (← next?) = some .assign then
    let p ← position
    advance
    let right ← value
    match (← get).arena.kind? left with
    | some (.value name) => build p (·.assign name right)
    | some (.readCell access) => build p (·.assignCell access right)
    | _ => failAt p .badAssignmentTarget
  else return left

/-- The operator that stands before an operand. -/
def unaryOp? : TokenKind → Option UnaryOp
  | .minus => some .negate
  | .tilde => some .bitNot
  | .bang => some .not
  | _ => none

/-- An operand with operators before it. -/
def prefixed (inner operand : Parser NodeId) : Parser NodeId := do
  match (← next?).bind unaryOp? with
  | none => operand
  | some op =>
      let p ← position
      advance
      let node ← inner
      build p (·.unary op node)

/-- More arguments behind the first ones, up to the closing parenthesis. -/
def moreArguments (expr : Parser NodeId) : Nat → List NodeId → Parser (List NodeId)
  | 0, args => return args
  | fuel + 1, args => do
      let arg ← expr
      let args := args ++ [arg]
      if (← next?) = some .comma then
        advance
        moreArguments expr fuel args
      else
        expect .rightParen
        return args

/-- The arguments behind an opening parenthesis, with the closing one. -/
def arguments (expr : Parser NodeId) : Parser (List NodeId) := do
  if (← next?) = some .rightParen then
    advance
    return []
  else moreArguments expr ((← remaining) + 1) []

/-- An index in brackets. -/
def subscript (expr : Parser NodeId) : Parser NodeId := do
  expect .leftBracket
  let index ← expr
  expect .rightBracket
  return index

/-- A cell that is read. -/
def cellRead (p : Position) (base : CellBase) (index : NodeId) : Parser NodeId := do
  let access ← build p (·.cell base index)
  build p (·.readCell access)

/-- What a name begins: a call, a table cell, or a named value. -/
def named (expr : Parser NodeId) (p : Position) (name : String) : Parser NodeId := do
  match ← next? with
  | some .leftParen =>
      advance
      let args ← arguments expr
      build p (·.call name args)
  | some .leftBracket =>
      let index ← subscript expr
      cellRead p (.named name) index
  | _ => plant (·.value name)

/-- A variable, alone or with an index. -/
def slot (expr : Parser NodeId) (p : Position) (text : String) : Parser NodeId := do
  let v ← readVariable p text
  let node ← plant (·.var v)
  if (← next?) = some .leftBracket then
    let index ← subscript expr
    if v.kind.hasHistory then build p (·.history node index)
    else cellRead p (.slot node) index
  else return node

/-- Quoted text: a table name, or a variable that holds one. -/
def quotation (p : Position) (text : String) : Parser NodeId := do
  if text.toList.head? = some '$' then
    let v ← readVariable p text
    let node ← plant (·.var v)
    build p (·.quotedVar node)
  else plant (·.quoted text)

/-- An operand without operators. -/
def operand (expr : Parser NodeId) : Parser NodeId := do
  let p ← position
  match ← next? with
  | none => failAt p .unexpectedEnd
  | some kind =>
      advance
      match kind with
      | .ident name => named expr p name
      | .sigil text => slot expr p text
      | .integer n => plant (·.int n)
      | .number x => plant (·.float x)
      | .str text => quotation p text
      | .leftParen =>
          let inner ← expr
          expect .rightParen
          return inner
      | kind => failAt p (.unexpectedToken kind)

/-- The parsers of one number of nesting levels that are left. -/
structure Grammar where
  /-- An operand with operators before it. -/
  unary : Parser NodeId
  /-- An assignment or an expression, one level deeper. -/
  expr : Parser NodeId

/-- The grammar with `n` levels of nesting left. -/
def grammar : Nat → Grammar
  | 0 => ⟨prefixed tooDeep (operand tooDeep), tooDeep⟩
  | n + 1 =>
      let inner := grammar n
      let expr := assignment (ladder levels inner.unary) inner.expr
      ⟨prefixed inner.unary (operand expr), expr⟩

/-- One statement. -/
def statement : Parser NodeId :=
  (grammar maxNesting).expr

/-- Whether a separator follows that another statement stands behind. A semicolon may end the
list. -/
def separated : Parser Bool := do
  match ← next? with
  | some .comma => return true
  | some .semicolon => return (← remaining) ≠ 1
  | _ => return false

/-- More statements behind the first ones. -/
def moreStatements : Nat → List NodeId → Parser (List NodeId)
  | 0, roots => return roots
  | fuel + 1, roots => do
      if ← separated then
        advance
        let root ← statement
        moreStatements fuel (roots ++ [root])
      else if (← next?) = some .semicolon then
        advance
        return roots
      else return roots

/-- A list of statements up to the end of the text. -/
def statements : Parser (List NodeId) := do
  if (← remaining) = 0 then fail .emptyExpression
  let first ← statement
  let roots ← moreStatements (← remaining) [first]
  match ← next? with
  | none => return roots
  | some kind => fail (.unexpectedToken kind)

/-- The nodes and the roots of the statements that the tokens form. -/
def parse (input : TokenList) : Except Error (Arena × List NodeId) :=
  (statements.run ⟨input, Arena.empty⟩).map fun (roots, s) => (s.arena, roots)

end Parser

end SignalExpr
