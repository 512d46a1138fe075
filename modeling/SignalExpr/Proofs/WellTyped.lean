import Mathlib.Data.List.Forall2
import SignalExpr.Expr

/-!
The typing rules of expressions as a property of trees alone: strings stand only where a table
name is asked for, and variables only where their kind has a meaning.
-/

namespace SignalExpr

/-- The cells of this table can be read. -/
def TableRef.Readable : TableRef → Prop
  | named _ => True
  | slot v => v.kind = .symbol ∨ v.kind = .vector

/-- The cells of this table can be assigned; those of a block cannot. -/
def TableRef.Assignable : TableRef → Prop
  | named _ => True
  | slot v => v.kind = .symbol

theorem TableRef.Assignable.readable {table : TableRef} (h : table.Assignable) :
    table.Readable := by
  cases table with
  | named name => trivial
  | slot v => exact Or.inl h

/-- A string goes where a table name is asked for, and nowhere else. -/
def Parameter.Takes (parameter : Parameter) (type : ValueType) : Prop :=
  type = .string ↔ parameter = .symbol

namespace Expr

/-- The expression has a number as its value. -/
def Numeric (e : Expr) : Prop := e.type ≠ .string

mutual

/-- The typing rules. -/
def WellTyped : Expr → Prop
  | var _ | int _ | float _ | quoted _ | value _ => True
  | quotedVar v => v.kind = .symbol
  | unary _ e => e.WellTyped ∧ e.Numeric
  | binary _ l r => (l.WellTyped ∧ l.Numeric) ∧ r.WellTyped ∧ r.Numeric
  | call f args => AllWellTyped args ∧ List.Forall₂ Parameter.Takes f.parameters (types args)
  | history v offset => v.kind.hasHistory = true ∧ offset.WellTyped ∧ offset.Numeric
  | cell table index | readCell table index =>
      table.Readable ∧ index.WellTyped ∧ index.Numeric
  | assignCell table index v =>
      table.Assignable ∧ (index.WellTyped ∧ index.Numeric) ∧ v.WellTyped ∧ v.Numeric
  | assign _ v => v.WellTyped ∧ v.Numeric

def AllWellTyped : List Expr → Prop
  | [] => True
  | e :: es => e.WellTyped ∧ AllWellTyped es

end

theorem allWellTyped_iff {es : List Expr} : AllWellTyped es ↔ ∀ e ∈ es, e.WellTyped := by
  induction es with
  | nil => simp [AllWellTyped]
  | cons e es ih => simp [AllWellTyped, ih]

theorem types_eq_map (es : List Expr) : types es = es.map type := by
  induction es with
  | nil => rfl
  | cons e es ih => simp [types, ih]

theorem depth_le_maxDepth {e : Expr} {es : List Expr} (h : e ∈ es) : e.depth ≤ maxDepth es := by
  induction es with
  | nil => simp at h
  | cons x xs ih =>
      simp only [maxDepth]
      rcases List.mem_cons.mp h with rfl | hmem
      · exact Nat.le_max_left _ _
      · exact Nat.le_trans (ih hmem) (Nat.le_max_right _ _)

theorem depth_pos (e : Expr) : 0 < e.depth := by
  cases e <;> simp only [depth] <;> omega

theorem WellTyped.readCell_of_assignCell {table : TableRef} {index v : Expr}
    (h : (assignCell table index v).WellTyped) : (readCell table index).WellTyped := by
  simp only [WellTyped] at h ⊢
  exact ⟨h.1.readable, h.2.1⟩

theorem depth_readCell_le_assignCell (table : TableRef) (index v : Expr) :
    (readCell table index).depth ≤ (assignCell table index v).depth := by
  simp only [depth]
  omega

end Expr

end SignalExpr
