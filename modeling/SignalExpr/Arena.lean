import SignalExpr.Error
import SignalExpr.Expr

/-!
An arena of nodes. A node names its children by their places in the arena and keeps its type and
height. Nodes come in only through the operations of this module, each of which refuses a node
that breaks a typing rule or grows too tall and then leaves the arena as it was.
-/

namespace SignalExpr

/-- The place of a node in its arena. -/
abbrev NodeId := Nat

/-- The table of a cell node. -/
inductive CellBase where
  | named (name : String)
  /-- The node of a variable. -/
  | slot (var : NodeId)
deriving DecidableEq, Repr

/-- What a node is. -/
inductive NodeKind where
  | var (v : Variable)
  | int (n : Int)
  | float (x : Sample)
  | quoted (text : String)
  | quotedVar (var : NodeId)
  | unary (op : UnaryOp) (operand : NodeId)
  | binary (op : BinaryOp) (left right : NodeId)
  | call (f : Builtin) (args : List NodeId)
  | history (var offset : NodeId)
  | cell (base : CellBase) (index : NodeId)
  | readCell (access : NodeId)
  | assignCell (access value : NodeId)
  | value (name : String)
  | assign (name : String) (value : NodeId)
deriving DecidableEq

/-- The children of a node, from left to right. -/
def NodeKind.children : NodeKind → List NodeId
  | var _ | int _ | float _ | quoted _ | value _ => []
  | quotedVar v => [v]
  | unary _ e => [e]
  | binary _ l r => [l, r]
  | call _ args => args
  | history v offset => [v, offset]
  | cell (.named _) index => [index]
  | cell (.slot v) index => [v, index]
  | readCell access => [access]
  | assignCell access v => [access, v]
  | assign _ v => [v]

/-- A node with its type and its height. -/
structure Node where
  kind : NodeKind
  type : ValueType
  depth : Nat
deriving DecidableEq

/-- Nodes in the order in which they came in. -/
structure Arena where
  nodes : Array Node
deriving DecidableEq

namespace Arena

/-- The arena without nodes. -/
def empty : Arena := ⟨#[]⟩

def size (a : Arena) : Nat := a.nodes.size

/-- The greatest height of a node. -/
def maxDepth : Nat := 256

def kind? (a : Arena) (id : NodeId) : Option NodeKind :=
  a.nodes[id]?.map Node.kind

/-- The type of a node; an absent node counts as a number. -/
def typeOf (a : Arena) (id : NodeId) : ValueType :=
  (a.nodes[id]?.map Node.type).getD .float

/-- The height of a node; an absent node has none. -/
def depthOf (a : Arena) (id : NodeId) : Nat :=
  (a.nodes[id]?.map Node.depth).getD 0

/-- The variable of a variable node. -/
def slot? (a : Arena) (id : NodeId) : Option Variable :=
  match a.kind? id with
  | some (.var v) => some v
  | _ => none

/-- The height of a node with the given children. -/
def depthOver (a : Arena) (children : List NodeId) : Nat :=
  1 + children.foldl (fun d c => max d (a.depthOf c)) 0

/-- Puts a node at the end, and gives its place. -/
def push (a : Arena) (node : Node) : Arena × NodeId :=
  (⟨a.nodes.push node⟩, a.nodes.size)

/-- Puts in a node without children. -/
def leaf (a : Arena) (kind : NodeKind) (type : ValueType) : Arena × NodeId :=
  a.push ⟨kind, type, 1⟩

/-- Puts in a node above its children, unless it gets too tall. -/
def branch (a : Arena) (kind : NodeKind) (type : ValueType) : Except Cause (Arena × NodeId) :=
  let depth := a.depthOver kind.children
  if depth ≤ maxDepth then .ok (a.push ⟨kind, type, depth⟩) else .error .tooDeep

/-- Refuses a string where a number has to stand. -/
def requireNumeric (a : Arena) (id : NodeId) (place : NumericPlace) : Except Cause Unit :=
  if (a.typeOf id).isNumeric then .ok () else .error (.stringAsNumberAt place)

def var (a : Arena) (v : Variable) : Arena × NodeId :=
  a.leaf (.var v) v.type

def int (a : Arena) (n : Int) : Arena × NodeId :=
  a.leaf (.int n) .int

def float (a : Arena) (x : Sample) : Arena × NodeId :=
  a.leaf (.float x) .float

def quoted (a : Arena) (text : String) : Arena × NodeId :=
  a.leaf (.quoted text) .string

/-- Quotes a variable node, which has to hold a table name. -/
def quotedVar (a : Arena) (var : NodeId) : Except Cause (Arena × NodeId) :=
  match a.slot? var with
  | some ⟨.symbol, _⟩ => a.branch (.quotedVar var) .string
  | _ => .error .quotedNonSymbol

def unary (a : Arena) (op : UnaryOp) (operand : NodeId) : Except Cause (Arena × NodeId) := do
  a.requireNumeric operand (.unaryOperand op)
  a.branch (.unary op operand) (a.typeOf operand)

def binary (a : Arena) (op : BinaryOp) (left right : NodeId) :
    Except Cause (Arena × NodeId) := do
  a.requireNumeric left (.binaryOperand op)
  a.requireNumeric right (.binaryOperand op)
  a.branch (.binary op left right) ((a.typeOf left).join (a.typeOf right))

/-- The first argument that is a string where a number is asked for, or the other way round. -/
def mismatch? (a : Arena) (parameters : List Parameter) (args : List NodeId) : Option Nat :=
  (parameters.zip args).findIdx? fun (parameter, arg) =>
    (a.typeOf arg == .string) != (parameter == .symbol)

/-- Calls a function by its name. -/
def call (a : Arena) (name : String) (args : List NodeId) : Except Cause (Arena × NodeId) :=
  match Builtin.ofName? name with
  | none => .error (.unknownFunction name)
  | some f =>
      if f.parameters.length ≠ args.length then
        .error (.wrongArity name f.parameters.length args.length)
      else
        match a.mismatch? f.parameters args with
        | some i => .error (.argumentMismatch name i)
        | none => a.branch (.call f args) (f.type (args.map a.typeOf))

/-- Reads a stream at an offset. -/
def history (a : Arena) (var offset : NodeId) : Except Cause (Arena × NodeId) :=
  match a.slot? var with
  | some v =>
      if v.kind.hasHistory then do
        a.requireNumeric offset .historyOffset
        a.branch (.history var offset) .float
      else .error .historyOfNonStream
  | none => .error .historyOfNonStream

/-- Whether a cell can belong to this table: a named one, or one given by a variable that holds a
table name or a block. -/
def isTable (a : Arena) : CellBase → Bool
  | .named _ => true
  | .slot var =>
      match a.slot? var with
      | some ⟨.symbol, _⟩ | some ⟨.vector, _⟩ => true
      | _ => false

/-- The cell of a table at an index. -/
def cell (a : Arena) (base : CellBase) (index : NodeId) : Except Cause (Arena × NodeId) :=
  if a.isTable base then do
    a.requireNumeric index .tableIndex
    a.branch (.cell base index) .float
  else .error .indexOfNonTable

def readCell (a : Arena) (access : NodeId) : Except Cause (Arena × NodeId) :=
  match a.kind? access with
  | some (.cell _ _) => a.branch (.readCell access) .float
  | _ => .error .readOfNonCell

def value (a : Arena) (name : String) : Arena × NodeId :=
  a.leaf (.value name) .float

def assign (a : Arena) (name : String) (value : NodeId) : Except Cause (Arena × NodeId) := do
  a.requireNumeric value .assignedValue
  a.branch (.assign name value) (a.typeOf value)

/-- Whether a node is a cell that can be assigned; the cells of a block cannot. -/
def requireAssignable (a : Arena) (access : NodeId) : Except Cause Unit :=
  match a.kind? access with
  | some (.cell (.named _) _) => .ok ()
  | some (.cell (.slot var) _) =>
      match a.slot? var with
      | some ⟨.symbol, _⟩ => .ok ()
      | _ => .error .assignedVector
  | _ => .error .assignedNonCell

def assignCell (a : Arena) (access value : NodeId) : Except Cause (Arena × NodeId) := do
  a.requireAssignable access
  a.requireNumeric value .assignedValue
  a.branch (.assignCell access value) (a.typeOf value)

end Arena

end SignalExpr
