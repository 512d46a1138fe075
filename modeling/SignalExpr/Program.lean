import SignalExpr.Arena.Tree
import SignalExpr.Parser
import SignalExpr.Token.Lexer

/-!
Statement lists. Besides being well-formed, a list has to use its variables consistently: each
input slot has one kind, no slot before a used one is left out, and an output that is read is one
of the statements.
-/

namespace SignalExpr

/-- A statement list: one root for each output, and the input slots in order. -/
structure Program where
  arena : Arena
  roots : List NodeId
  inputs : List Variable

namespace Program

/-- The trees of the statements. -/
def trees (p : Program) : List Expr :=
  p.roots.filterMap p.arena.tree?

/-- The number of statements. -/
def outputs (p : Program) : Nat :=
  p.roots.length

/-- The variables of all statements in the order of the text, with repetitions. -/
def vars (p : Program) : List Variable :=
  p.trees.flatMap Expr.vars

/-- Numbered statements as indented trees. -/
def renderFrom : Nat → List Expr → String
  | _, [] => ""
  | n, e :: es => s!"statement {n}:\n" ++ e.render 1 ++ renderFrom (n + 1) es

/-- The statements as indented trees. -/
def render (p : Program) : String :=
  renderFrom 1 p.trees

/-- Adds a variable to the input slots seen so far. -/
def note (outputs : Nat) (seen : List Variable) (v : Variable) : Except Cause (List Variable) :=
  if v.kind = .output then
    if v.index < outputs then .ok seen else .error (.outputOutOfRange v outputs)
  else
    match seen.find? (·.index == v.index) with
    | some w => if w.kind = v.kind then .ok seen else .error (.mismatchedKinds v.index)
    | none => .ok (seen ++ [v])

/-- Adds variables to the input slots up to the first one at fault. The slots met before that one
stay. -/
def fill (outputs : Nat) : List Variable → List Variable → Except Cause Unit × List Variable
  | seen, [] => (.ok (), seen)
  | seen, v :: vs =>
      match note outputs seen v with
      | .ok seen => fill outputs seen vs
      | .error cause => (.error cause, seen)

/-- The slot with an index. -/
def slotAt (seen : List Variable) (i : Nat) : Except Cause Variable :=
  match seen.find? (·.index == i) with
  | some v => .ok v
  | none => .error (.missingInput i)

/-- The slots in order. There are as many as indexes below their number, so if one is left out,
the least such index is below that number. -/
def inOrder (seen : List Variable) : Except Cause (List Variable) :=
  (List.range seen.length).mapM (slotAt seen)

end Program

/-- Reads one statement list after another. -/
structure Reader where
  /-- The input slots met in the last text, as far as it was read. -/
  registry : List Variable := []
  /-- The input slots of the last text in order, none after a failure. -/
  inputs : List Variable := []

namespace Reader

/-- Forgets the text before. -/
def clear (r : Reader) : Reader :=
  { r with registry := [], inputs := [] }

/-- Finds the input slots of parsed statements. -/
def validate (r : Reader) (arena : Arena) (roots : List NodeId) : Except Cause Program × Reader :=
  let bare : Program := ⟨arena, roots, []⟩
  match Program.fill bare.outputs r.registry bare.vars with
  | (.error cause, registry) => (.error cause, { r with registry })
  | (.ok (), registry) =>
      match Program.inOrder registry with
      | .error cause => (.error cause, { r with registry })
      | .ok inputs => (.ok { bare with inputs }, { r with registry, inputs })

/-- Reads a statement list. -/
def parse (r : Reader) (text : String) : Except Error Program × Reader :=
  let r := r.clear
  match Lexer.tokenize text >>= Parser.parse with
  | .error e => (.error e, r)
  | .ok (arena, roots) =>
      match r.validate arena roots with
      | (.error cause, r) => (.error (.ofCause cause), r)
      | (.ok program, r) => (.ok program, r)

end Reader

/-- Reads a statement list with a new reader. -/
def Program.parse (text : String) : Except Error Program :=
  (Reader.parse {} text).1

end SignalExpr
