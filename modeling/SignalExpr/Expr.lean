import SignalExpr.Sample.Decimal
import SignalExpr.Builtin
import SignalExpr.Operator
import SignalExpr.Variable

/-!
Expressions as trees: what a statement means, apart from how its nodes are stored. The type, the
height and the variables of a tree are computed from the tree alone.
-/

namespace SignalExpr

/-- What kind of value an expression has. -/
inductive ValueType where
  | float
  | int
  | string
deriving DecidableEq, Repr, Inhabited

namespace ValueType

def name : ValueType → String
  | float => "float"
  | int => "int"
  | string => "string"

def isNumeric : ValueType → Bool
  | string => false
  | _ => true

/-- The type of an operation on two numbers. -/
def join (s t : ValueType) : ValueType :=
  if s = int ∧ t = int then int else float

end ValueType

/-- The table that a cell belongs to. -/
inductive TableRef where
  | named (name : String)
  | slot (v : Variable)
deriving DecidableEq, Repr, Inhabited

/-- Expressions. -/
inductive Expr where
  | var (v : Variable)
  | int (n : Int)
  | float (x : Sample)
  /-- A quoted table name. -/
  | quoted (text : String)
  /-- A quoted variable that holds a table name. -/
  | quotedVar (v : Variable)
  | unary (op : UnaryOp) (operand : Expr)
  | binary (op : BinaryOp) (left right : Expr)
  | call (f : Builtin) (args : List Expr)
  /-- A stream at an offset from the current frame. -/
  | history (v : Variable) (offset : Expr)
  /-- A table cell that is neither read nor assigned. -/
  | cell (table : TableRef) (index : Expr)
  | readCell (table : TableRef) (index : Expr)
  | assignCell (table : TableRef) (index value : Expr)
  | value (name : String)
  | assign (name : String) (value : Expr)
deriving Inhabited

/-- The type of a variable as an expression. -/
def Variable.type (v : Variable) : ValueType :=
  match v.kind with
  | .int => .int
  | _ => .float

/-- The type of a call, from the types of its arguments: whole if all of them are. -/
def Builtin.type (f : Builtin) (args : List ValueType) : ValueType :=
  match f with
  | .int => .int
  | .float => .float
  | _ => if !args.isEmpty && args.all (· == .int) then .int else .float

/-- The variable of a table that is given by one. -/
def TableRef.vars : TableRef → List Variable
  | named _ => []
  | slot v => [v]

namespace Expr

mutual

def type : Expr → ValueType
  | var v => v.type
  | int _ => .int
  | float _ => .float
  | quoted _ | quotedVar _ => .string
  | unary _ e => e.type
  | binary _ l r => l.type.join r.type
  | call f args => f.type (types args)
  | history _ _ | cell _ _ | readCell _ _ | value _ => .float
  | assignCell _ _ v => v.type
  | assign _ v => v.type

def types : List Expr → List ValueType
  | [] => []
  | e :: es => e.type :: types es

end

mutual

/-- The height of the tree; a leaf has height one, and so has the variable under a quote, an
offset or an index. -/
def depth : Expr → Nat
  | var _ | int _ | float _ | quoted _ | value _ => 1
  | quotedVar _ => 2
  | unary _ e => 1 + e.depth
  | binary _ l r => 1 + max l.depth r.depth
  | call _ args => 1 + maxDepth args
  | history _ offset => 1 + max 1 offset.depth
  | cell _ index => 1 + index.depth
  | readCell _ index => 2 + index.depth
  | assignCell _ index v => 1 + max (1 + index.depth) v.depth
  | assign _ v => 1 + v.depth

def maxDepth : List Expr → Nat
  | [] => 0
  | e :: es => max e.depth (maxDepth es)

end

mutual

/-- The variables of a tree from left to right, with repetitions. -/
def vars : Expr → List Variable
  | var v | quotedVar v => [v]
  | int _ | float _ | quoted _ | value _ => []
  | unary _ e => e.vars
  | binary _ l r => l.vars ++ r.vars
  | call _ args => varsOfAll args
  | history v offset => v :: offset.vars
  | cell table index | readCell table index => table.vars ++ index.vars
  | assignCell table index v => table.vars ++ index.vars ++ v.vars
  | assign _ v => v.vars

def varsOfAll : List Expr → List Variable
  | [] => []
  | e :: es => e.vars ++ varsOfAll es

end

/-- One line of a rendered tree. -/
def line (indent : Nat) (text : String) : String :=
  String.ofList (List.replicate (2 * indent) ' ') ++ text ++ "\n"

/-- The line of a variable. -/
def renderVariable (indent : Nat) (v : Variable) : String :=
  line indent ("var " ++ v.text ++ " : " ++ v.type.name)

/-- The line of a cell, and the line of its table if that is given by a variable. -/
def renderTable (indent : Nat) : TableRef → String
  | .named name => line indent ("table " ++ name)
  | .slot v => line indent "table" ++ renderVariable (indent + 1) v

mutual

/-- A tree as indented lines, one for each node, a node before its children. -/
def render (indent : Nat) : Expr → String
  | var v => renderVariable indent v
  | int n => line indent ("const " ++ toString n ++ " : int")
  | float x => line indent ("const " ++ Sample.Layout.constant.write x ++ " : float")
  | quoted text => line indent ("quoted \"" ++ text ++ "\"")
  | quotedVar v => line indent "quoted" ++ renderVariable (indent + 1) v
  | unary op e =>
      line indent ("unary " ++ op.mark ++ " : " ++ e.type.name) ++ render (indent + 1) e
  | binary op l r =>
      line indent ("binary " ++ op.mark ++ " : " ++ (l.type.join r.type).name)
        ++ render (indent + 1) l ++ render (indent + 1) r
  | call f args =>
      line indent ("call " ++ f.name ++ " : " ++ (f.type (types args)).name)
        ++ renderAll (indent + 1) args
  | history v offset =>
      line indent "history" ++ renderVariable (indent + 1) v ++ render (indent + 1) offset
  | cell table index => renderTable indent table ++ render (indent + 1) index
  | readCell table index =>
      line indent "read" ++ renderTable (indent + 1) table ++ render (indent + 2) index
  | assignCell table index v =>
      line indent ("assign cell : " ++ v.type.name) ++ renderTable (indent + 1) table
        ++ render (indent + 2) index ++ render (indent + 1) v
  | value name => line indent ("value " ++ name)
  | assign name v =>
      line indent ("assign " ++ name ++ " : " ++ v.type.name) ++ render (indent + 1) v

def renderAll (indent : Nat) : List Expr → String
  | [] => ""
  | e :: es => render indent e ++ renderAll indent es

end

end Expr

end SignalExpr
