import SignalExpr.Arena

/-!
The trees below the nodes of an arena. A node's children come in before it, so the trees of all
nodes are built in one pass.
-/

namespace SignalExpr

/-- The variable that a tree consists of. -/
def Expr.slot? : Expr → Option Variable
  | .var v => some v
  | _ => none

/-- The tree of a node, from the trees of the nodes before it. -/
def NodeKind.tree? (earlier : Array (Option Expr)) : NodeKind → Option Expr
  | var v => some (.var v)
  | int n => some (.int n)
  | float x => some (.float x)
  | quoted text => some (.quoted text)
  | quotedVar v => do
      let v ← child v
      return .quotedVar (← v.slot?)
  | unary op e => return .unary op (← child e)
  | binary op l r => return .binary op (← child l) (← child r)
  | call f args => return .call f (← args.mapM child)
  | history v offset => do
      let v ← child v
      return .history (← v.slot?) (← child offset)
  | cell (.named name) index => return .cell (.named name) (← child index)
  | cell (.slot v) index => do
      let v ← child v
      return .cell (.slot (← v.slot?)) (← child index)
  | readCell access => do
      match ← child access with
      | .cell table index => some (.readCell table index)
      | _ => none
  | assignCell access v => do
      match ← child access with
      | .cell table index => return .assignCell table index (← child v)
      | _ => none
  | value name => some (.value name)
  | assign name v => return .assign name (← child v)
where
  child (id : NodeId) : Option Expr := earlier[id]?.join

namespace Arena

/-- The trees of all nodes, in the order of the nodes. -/
def trees (a : Arena) : Array (Option Expr) :=
  a.nodes.foldl (fun earlier node => earlier.push (node.kind.tree? earlier)) #[]

/-- The tree below a node. -/
def tree? (a : Arena) (id : NodeId) : Option Expr :=
  a.trees[id]?.join

end Arena

end SignalExpr
