import SignalExpr.Sample.Decimal
import SignalExpr.Code
import SignalExpr.Text.Quoted

/-!
Listings: code as text, one line for each statement, operators before their operands.
-/

namespace SignalExpr

def SymbolRef.listing : SymbolRef → String
  | named name => Text.quote name
  | slot i => s!"(symbol {i})"

namespace Code

/-- An operation before its operands, in parentheses. -/
def form (head : String) (operands : List String) : String :=
  "(" ++ " ".intercalate (head :: operands) ++ ")"

/-- The code of an expression as text. -/
def text : Code → String
  | const x => Sample.Layout.constant.write x
  | number i => form "number" [toString i]
  | vector i => form "vector" [toString i]
  | vectorAt i index => form "vector-at" [toString i, index.text]
  | input i => form "input" [toString i]
  | inputAt i offset => form "input-at" [toString i, offset.text]
  | outputAt k offset => form "output-at" [toString k, offset.text]
  | unary op e => form op.mark [e.text]
  | binary op l r => form op.mark [l.text, r.text]
  | trunc e => form "int" [e.text]
  | choose c y n => form "if" [c.text, y.text, n.text]
  | call1 f x => form f.link [x.text]
  | call2 f x y => form f.link [x.text, y.text]
  | random l h => form Routine.random.link [l.text, h.text]
  | size t => form Routine.tableSize.link [t.listing]
  | sum t => form Routine.tableSum.link [t.listing]
  | rangeSum t l h => form Routine.tableRangeSum.link [t.listing, l.text, h.text]
  | readCell t index => form "cell" [t.listing, index.text]
  | assignCell t index v => form "set-cell" [t.listing, index.text, v.text]
  | value name => form "value" [Text.quote name]
  | assign name v => form "set-value" [Text.quote name, v.text]

/-- The statements as text, one line for each. -/
def listing (statements : List Code) : String :=
  String.join (statements.map fun c => c.text ++ "\n")

end Code

end SignalExpr
