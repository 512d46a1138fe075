import SignalExpr.Proofs.Lowering

/-!
Lowering as rules, one for each form of expression and each function. The rules do not depend on
the shape: a shape only decides whether an expression gets code at all. What holds of the code of
well-typed expressions is shown along the rules.
-/

namespace SignalExpr

namespace TableRef

/-- The table in code. A block of samples is no table there. -/
def symbol? : TableRef → Option SymbolRef
  | named name => some (.named name)
  | slot v => if v.kind = .symbol then some (.slot v.index) else none

/-- The table as an argument of a function. -/
def quotation : TableRef → Expr
  | named name => .quoted name
  | slot v => .quotedVar v

end TableRef

namespace Lower

/-- The code of an expression. -/
inductive Gives : Expr → Code → Prop
  | number {v : Variable} : v.kind = .float ∨ v.kind = .int → Gives (.var v) (.number v.index)
  | vector (i : Nat) : Gives (.var ⟨.vector, i⟩) (.vector i)
  | input (i : Nat) : Gives (.var ⟨.input, i⟩) (.input i)
  | output (k : Nat) : Gives (.var ⟨.output, k⟩) (.outputAt k (.const (-1)))
  | int (n : Int) : Gives (.int n) (.const (Sample.ofInt n))
  | float (x : Sample) : Gives (.float x) (.const x)
  | unary {op e c} : Gives e c → Gives (.unary op e) (.unary op c)
  | binary {op l r c d} : Gives l c → Gives r d → Gives (.binary op l r) (.binary op c d)
  | inputAt {i offset c} : Gives offset c → Gives (.history ⟨.input, i⟩ offset) (.inputAt i c)
  | outputAt {k offset c} : Gives offset c → Gives (.history ⟨.output, k⟩ offset) (.outputAt k c)
  | vectorAt {i index c} : Gives index c →
      Gives (.readCell (.slot ⟨.vector, i⟩) index) (.vectorAt i c)
  | readCell {table t index c} : TableRef.symbol? table = some t → Gives index c →
      Gives (.readCell table index) (.readCell t c)
  | assignCell {table t index value c d} : TableRef.symbol? table = some t → Gives index c →
      Gives value d → Gives (.assignCell table index value) (.assignCell t c d)
  | value (name : String) : Gives (.value name) (.value name)
  | assign {name value c} : Gives value c → Gives (.assign name value) (.assign name c)
  | choose {condition yes no c y n} : Gives condition c → Gives yes y → Gives no n →
      Gives (.call .choose [condition, yes, no]) (.choose c y n)
  | trunc {e c} : Gives e c → Gives (.call .int [e]) (.trunc c)
  | same {e c} : Gives e c → Gives (.call .float [e]) c
  | size {table t} : TableRef.symbol? table = some t →
      Gives (.call .size [table.quotation]) (.size t)
  | sum {table t} : TableRef.symbol? table = some t → Gives (.call .sum [table.quotation]) (.sum t)
  | rangeSum {table t first last c d} : TableRef.symbol? table = some t → Gives first c →
      Gives last d → Gives (.call .rangeSum [table.quotation, first, last]) (.rangeSum t c d)
  | random {low high c d} : Gives low c → Gives high d →
      Gives (.call .random [low, high]) (.random c d)
  | call1 {f e c} : Gives e c → Gives (.call (.unary f) [e]) (.call1 f c)
  | call2 {f l r c d} : Gives l c → Gives r d → Gives (.call (.binary f) [l, r]) (.call2 f c d)

/-- What an argument becomes. -/
def Passes (e : Expr) : Operand → Prop
  | .number c => Gives e c
  | .symbol t => ∃ table, TableRef.symbol? table = some t ∧ e = table.quotation

variable {shape : Shape}

theorem gives_slotCode {v : Variable} {c : Code} (h : slotCode shape v = .ok c) :
    Gives (.var v) c := by
  obtain ⟨kind, index⟩ := v
  cases kind with
  | float =>
      cases h
      exact .number (.inl rfl)
  | int =>
      cases h
      exact .number (.inr rfl)
  | symbol => cases h
  | vector =>
      simp only [slotCode] at h
      split at h
      · cases h
        exact .vector index
      · cases h
  | input =>
      obtain ⟨-, -, hc⟩ := Outcome.bind_eq_ok_iff.mp h
      cases hc
      exact .input index
  | output =>
      obtain ⟨-, -, hc⟩ := Outcome.bind_eq_ok_iff.mp h
      cases hc
      exact .output index

theorem gives_history {v : Variable} {offset : Expr} {c d : Code} (hoffset : Gives offset c)
    (h : history shape v c = .ok d) : Gives (.history v offset) d := by
  obtain ⟨kind, index⟩ := v
  obtain ⟨-, -, hd⟩ := Outcome.bind_eq_ok_iff.mp h
  cases kind with
  | input =>
      cases hd
      exact .inputAt hoffset
  | output =>
      cases hd
      exact .outputAt hoffset
  | _ => cases hd

theorem passes_symbol {e : Expr} {t : SymbolRef} (h : symbol e = .ok t) (hwell : e.WellTyped) :
    Passes e (.symbol t) := by
  cases e with
  | quoted text =>
      cases h
      exact ⟨.named text, rfl, rfl⟩
  | quotedVar v =>
      cases h
      have hkind : v.kind = .symbol := by simpa only [Expr.WellTyped] using hwell
      exact ⟨.slot v, if_pos hkind, rfl⟩
  | _ => cases h

theorem gives_call {f : Builtin} {args : List Expr} {os : List Operand} {c : Code}
    (hargs : List.Forall₂ Passes args os) (h : call f os = .ok c) : Gives (.call f args) c := by
  unfold call at h
  split at h <;> cases h
  · obtain _ | ⟨hc, _ | ⟨hy, _ | ⟨hn, ⟨⟩⟩⟩⟩ := hargs
    exact .choose hc hy hn
  · obtain _ | ⟨hx, ⟨⟩⟩ := hargs
    exact .trunc hx
  · obtain _ | ⟨hx, ⟨⟩⟩ := hargs
    exact .same hx
  · obtain _ | ⟨⟨table, ht, rfl⟩, ⟨⟩⟩ := hargs
    exact .size ht
  · obtain _ | ⟨⟨table, ht, rfl⟩, ⟨⟩⟩ := hargs
    exact .sum ht
  · obtain _ | ⟨⟨table, ht, rfl⟩, _ | ⟨hl, _ | ⟨hh, ⟨⟩⟩⟩⟩ := hargs
    exact .rangeSum ht hl hh
  · obtain _ | ⟨hl, _ | ⟨hh, ⟨⟩⟩⟩ := hargs
    exact .random hl hh
  · obtain _ | ⟨hx, ⟨⟩⟩ := hargs
    exact .call1 hx
  · obtain _ | ⟨hx, _ | ⟨hy, ⟨⟩⟩⟩ := hargs
    exact .call2 hx hy

mutual

theorem gives_expr (e : Expr) {c : Code} (h : expr shape e = .ok c) (hwell : e.WellTyped) :
    Gives e c := by
  cases e with
  | var v =>
      rw [expr] at h
      exact gives_slotCode h
  | int n =>
      rw [expr] at h
      cases h
      exact .int n
  | float x =>
      rw [expr] at h
      cases h
      exact .float x
  | quoted text | quotedVar v | cell table index =>
      rw [expr] at h
      cases h
  | unary op e =>
      rw [expr] at h
      obtain ⟨d, hd, hc⟩ := Outcome.bind_eq_ok_iff.mp h
      cases hc
      simp only [Expr.WellTyped] at hwell
      exact .unary (gives_expr e hd hwell.1)
  | binary op l r =>
      rw [expr] at h
      obtain ⟨d, hd, h⟩ := Outcome.bind_eq_ok_iff.mp h
      obtain ⟨d', hd', hc⟩ := Outcome.bind_eq_ok_iff.mp h
      cases hc
      simp only [Expr.WellTyped] at hwell
      exact .binary (gives_expr l hd hwell.1.1) (gives_expr r hd' hwell.2.1)
  | call f args =>
      rw [expr] at h
      obtain ⟨os, hos, hc⟩ := Outcome.bind_eq_ok_iff.mp h
      simp only [Expr.WellTyped] at hwell
      have hlength : args.length = f.parameters.length := by
        rw [hwell.2.length_eq, Expr.types_eq_map, List.length_map]
      exact gives_call (passes_operands f.parameters args hos hwell.1 hlength) hc
  | history v offset =>
      rw [expr] at h
      obtain ⟨d, hd, hc⟩ := Outcome.bind_eq_ok_iff.mp h
      simp only [Expr.WellTyped] at hwell
      exact gives_history (gives_expr offset hd hwell.2.1) hc
  | readCell table index =>
      simp only [Expr.WellTyped] at hwell
      cases table with
      | named name =>
          rw [expr] at h
          obtain ⟨d, hd, hc⟩ := Outcome.bind_eq_ok_iff.mp h
          cases hc
          exact .readCell rfl (gives_expr index hd hwell.2.1)
      | slot v =>
          obtain ⟨kind, i⟩ := v
          rcases hwell.1 with rfl | rfl
          · rw [expr] at h
            obtain ⟨d, hd, hc⟩ := Outcome.bind_eq_ok_iff.mp h
            cases hc
            exact .readCell rfl (gives_expr index hd hwell.2.1)
          · rw [expr] at h
            obtain ⟨d, hd, h⟩ := Outcome.bind_eq_ok_iff.mp h
            obtain ⟨-, -, hc⟩ := Outcome.bind_eq_ok_iff.mp h
            cases hc
            exact .vectorAt (gives_expr index hd hwell.2.1)
  | assignCell table index value =>
      simp only [Expr.WellTyped] at hwell
      cases table with
      | named name =>
          rw [expr] at h
          obtain ⟨d, hd, h⟩ := Outcome.bind_eq_ok_iff.mp h
          obtain ⟨d', hd', hc⟩ := Outcome.bind_eq_ok_iff.mp h
          cases hc
          exact .assignCell rfl (gives_expr index hd hwell.2.1.1) (gives_expr value hd' hwell.2.2.1)
      | slot v =>
          obtain ⟨kind, i⟩ := v
          obtain rfl : kind = .symbol := hwell.1
          rw [expr] at h
          obtain ⟨d, hd, h⟩ := Outcome.bind_eq_ok_iff.mp h
          obtain ⟨d', hd', hc⟩ := Outcome.bind_eq_ok_iff.mp h
          cases hc
          exact .assignCell rfl (gives_expr index hd hwell.2.1.1) (gives_expr value hd' hwell.2.2.1)
  | value name =>
      rw [expr] at h
      cases h
      exact .value name
  | assign name value =>
      rw [expr] at h
      obtain ⟨d, hd, hc⟩ := Outcome.bind_eq_ok_iff.mp h
      cases hc
      simp only [Expr.WellTyped] at hwell
      exact .assign (gives_expr value hd hwell.1)

theorem passes_operands (ps : List Parameter) (es : List Expr) {os : List Operand}
    (h : operands shape ps es = .ok os) (hwell : Expr.AllWellTyped es)
    (hlength : es.length = ps.length) : List.Forall₂ Passes es os := by
  cases es with
  | nil =>
      cases ps with
      | nil =>
          cases h
          exact .nil
      | cons p ps => cases hlength
  | cons e es =>
      simp only [Expr.AllWellTyped] at hwell
      cases ps with
      | nil => cases hlength
      | cons p ps =>
          cases p with
          | number =>
              rw [operands] at h
              obtain ⟨d, hd, h⟩ := Outcome.bind_eq_ok_iff.mp h
              obtain ⟨rest, hrest, ho⟩ := Outcome.bind_eq_ok_iff.mp h
              cases ho
              exact .cons (gives_expr e hd hwell.1)
                (passes_operands ps es hrest hwell.2 (Nat.succ.inj hlength))
          | symbol =>
              rw [operands] at h
              obtain ⟨t, ht, h⟩ := Outcome.bind_eq_ok_iff.mp h
              obtain ⟨rest, hrest, ho⟩ := Outcome.bind_eq_ok_iff.mp h
              cases ho
              exact .cons (passes_symbol ht hwell.1)
                (passes_operands ps es hrest hwell.2 (Nat.succ.inj hlength))

end

end Lower

end SignalExpr
