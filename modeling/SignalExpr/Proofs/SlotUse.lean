import SignalExpr.Proofs.Accesses
import SignalExpr.Proofs.LoweringRules

/-!
Code reaches the slots and outputs of the variables in its expression, each according to the kind
of the variable.
-/

namespace SignalExpr

variable {P : Variable → Prop}

def SymbolRef.Uses (P : Variable → Prop) : SymbolRef → Prop
  | named _ => True
  | slot i => P ⟨.symbol, i⟩

/-- All variables behind the slots and outputs of the code have a property. -/
def Code.Uses (P : Variable → Prop) : Code → Prop
  | const _ | value _ => True
  | number i => P ⟨.float, i⟩ ∨ P ⟨.int, i⟩
  | vector i => P ⟨.vector, i⟩
  | vectorAt i e => P ⟨.vector, i⟩ ∧ e.Uses P
  | input i => P ⟨.input, i⟩
  | inputAt i e => P ⟨.input, i⟩ ∧ e.Uses P
  | outputAt k e => P ⟨.output, k⟩ ∧ e.Uses P
  | unary _ e | trunc e | call1 _ e | assign _ e => e.Uses P
  | binary _ l r | call2 _ l r | random l r => l.Uses P ∧ r.Uses P
  | choose c y n => c.Uses P ∧ y.Uses P ∧ n.Uses P
  | size t | sum t => t.Uses P
  | rangeSum t l h => t.Uses P ∧ l.Uses P ∧ h.Uses P
  | readCell t i => t.Uses P ∧ i.Uses P
  | assignCell t i v => t.Uses P ∧ i.Uses P ∧ v.Uses P

/-! ### From expressions to code -/

namespace Lower

theorem uses_symbol? {table : TableRef} {t : SymbolRef} (h : table.symbol? = some t)
    (hvars : ∀ v ∈ table.vars, P v) : t.Uses P := by
  cases table with
  | named name =>
      cases h
      trivial
  | slot v =>
      obtain ⟨kind, index⟩ := v
      obtain ⟨hkind, ht⟩ := Option.ite_none_right_eq_some.mp h
      cases hkind
      cases ht
      exact hvars _ (List.mem_singleton_self _)

theorem vars_quotation (table : TableRef) : table.quotation.vars = table.vars := by
  cases table <;> simp [TableRef.quotation, TableRef.vars, Expr.vars]

theorem Gives.uses {e : Expr} {c : Code} (h : Gives e c) (hvars : ∀ v ∈ e.vars, P v) :
    c.Uses P := by
  induction h with
  | @number v hkind =>
      obtain ⟨kind, index⟩ := v
      have hv : P ⟨kind, index⟩ := hvars _ (by simp [Expr.vars])
      rcases hkind with rfl | rfl
      · exact .inl hv
      · exact .inr hv
  | vector | input => exact hvars _ (by simp [Expr.vars])
  | output => exact ⟨hvars _ (by simp [Expr.vars]), trivial⟩
  | int | float | value => trivial
  | unary _ ih | assign _ ih =>
      simp only [Expr.vars] at hvars
      exact ih hvars
  | binary _ _ ihl ihr =>
      simp only [Expr.vars, List.forall_mem_append] at hvars
      exact ⟨ihl hvars.1, ihr hvars.2⟩
  | inputAt _ ih | outputAt _ ih =>
      simp only [Expr.vars, List.forall_mem_cons] at hvars
      exact ⟨hvars.1, ih hvars.2⟩
  | vectorAt _ ih =>
      simp only [Expr.vars, List.forall_mem_append] at hvars
      exact ⟨hvars.1 _ (List.mem_singleton_self _), ih hvars.2⟩
  | readCell ht _ ih =>
      simp only [Expr.vars, List.forall_mem_append] at hvars
      exact ⟨uses_symbol? ht hvars.1, ih hvars.2⟩
  | assignCell ht _ _ ihi ihv =>
      simp only [Expr.vars, List.forall_mem_append] at hvars
      exact ⟨uses_symbol? ht hvars.1.1, ihi hvars.1.2, ihv hvars.2⟩
  | choose _ _ _ ihc ihy ihn =>
      simp only [Expr.vars, Expr.varsOfAll, List.forall_mem_append] at hvars
      exact ⟨ihc hvars.1, ihy hvars.2.1, ihn hvars.2.2.1⟩
  | trunc _ ih | same _ ih | call1 _ ih =>
      simp only [Expr.vars, Expr.varsOfAll, List.forall_mem_append] at hvars
      exact ih hvars.1
  | size ht | sum ht =>
      simp only [Expr.vars, Expr.varsOfAll, List.forall_mem_append, vars_quotation] at hvars
      exact uses_symbol? ht hvars.1
  | rangeSum ht _ _ ihl ihh =>
      simp only [Expr.vars, Expr.varsOfAll, List.forall_mem_append, vars_quotation] at hvars
      exact ⟨uses_symbol? ht hvars.1, ihl hvars.2.1, ihh hvars.2.2.1⟩
  | random _ _ ihl ihr | call2 _ _ ihl ihr =>
      simp only [Expr.vars, Expr.varsOfAll, List.forall_mem_append] at hvars
      exact ⟨ihl hvars.1, ihr hvars.2.1⟩

end Lower

/-! ### From code to accesses -/

/-- The access is one to a slot or an output of a variable with a property, at a place that the
kind of the variable has. -/
def Access.Of (P : Variable → Prop) (ctx : Context) : Access → Prop
  | number i => P ⟨.float, i⟩ ∨ P ⟨.int, i⟩
  | symbol i => P ⟨.symbol, i⟩
  | vector i position => P ⟨.vector, i⟩ ∧
      (position = ctx.frame.toInt ∨
        ∃ index, position = (Buffer.clampPosition ctx.frames index).toInt)
  | input i | inputAt i _ => P ⟨.input, i⟩
  | outputAt k _ => P ⟨.output, k⟩
  | store _ _ => False

theorem SymbolRef.Uses.accesses {t : SymbolRef} {ctx : Context} (h : t.Uses P) :
    ∀ a ∈ t.accesses, a.Of P ctx := by
  cases t with
  | named name => simp [SymbolRef.accesses]
  | slot i => exact List.forall_mem_singleton.mpr h

theorem Code.Uses.accesses {c : Code} {ctx : Context} (h : c.Uses P) (m : Machine) :
    ∀ a ∈ c.accesses ctx m, a.Of P ctx := by
  induction c generalizing m with
  | const x | value name => simp [Code.accesses]
  | number i | input i => exact List.forall_mem_singleton.mpr h
  | vector i => exact List.forall_mem_singleton.mpr ⟨h, .inl rfl⟩
  | vectorAt i e ih =>
      rw [Code.accesses, List.forall_mem_append, List.forall_mem_singleton]
      exact ⟨ih h.2 m, h.1, .inr ⟨_, rfl⟩⟩
  | inputAt i e ih | outputAt i e ih =>
      rw [Code.accesses, List.forall_mem_append, List.forall_mem_singleton]
      exact ⟨ih h.2 m, h.1⟩
  | unary op e ih | trunc e ih | call1 f e ih | assign name e ih => exact ih h m
  | binary op l r ihl ihr | call2 f l r ihl ihr | random l r ihl ihr =>
      rw [Code.accesses, List.forall_mem_append]
      exact ⟨ihl h.1 m, ihr h.2 _⟩
  | choose c y n ihc ihy ihn =>
      simp only [Code.accesses, List.forall_mem_append]
      refine ⟨ihc h.1 m, ?_⟩
      split
      · exact ihy h.2.1 _
      · exact ihn h.2.2 _
  | size t | sum t => exact SymbolRef.Uses.accesses h
  | rangeSum t l r ihl ihr =>
      simp only [Code.accesses, List.forall_mem_append]
      exact ⟨⟨ihl h.2.1 m, ihr h.2.2 _⟩, h.1.accesses⟩
  | readCell t i ih =>
      simp only [Code.accesses, List.forall_mem_append]
      exact ⟨ih h.2 m, h.1.accesses⟩
  | assignCell t i v ihi ihv =>
      simp only [Code.accesses, List.forall_mem_append]
      exact ⟨⟨ihi h.2.1 m, h.1.accesses⟩, ihv h.2.2 _⟩

end SignalExpr
