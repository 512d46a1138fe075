import SignalExpr.Code.Lower
import SignalExpr.Proofs.Outcome
import SignalExpr.Proofs.WellTyped

/-!
Which expressions have code. The typing rules leave two things open: a string in the place of a
whole statement, and a variable that holds a table name in the place of a number. Nothing else is
refused, and the code that comes out keeps to the slots of its variables.
-/

namespace SignalExpr

/-- The routines behind a function. -/
def Builtin.routines : Builtin → List Routine
  | choose | int | float => []
  | size => [.tableSize]
  | sum => [.tableSum]
  | rangeSum => [.tableRangeSum]
  | random => [.random]
  | unary f => [.unary f]
  | binary f => [.binary f]

/-- The routines behind a cell that is read. The cells of a block are reached directly. -/
def TableRef.readRoutines : TableRef → List Routine
  | named _ => [.cell, .deref]
  | slot v => if v.kind = .vector then [] else [.cell, .deref]

namespace Expr

/-- The expression is quoted text. -/
def IsQuotation : Expr → Prop
  | quoted _ | quotedVar _ => True
  | _ => False

mutual

/-- The variables in the place of numbers: those that are neither quoted nor indexed. -/
def bareVars : Expr → List Variable
  | var v => [v]
  | int _ | float _ | quoted _ | quotedVar _ | value _ => []
  | unary _ e => e.bareVars
  | binary _ l r => l.bareVars ++ r.bareVars
  | call _ args => bareVarsOfAll args
  | history _ offset => offset.bareVars
  | cell _ index | readCell _ index => index.bareVars
  | assignCell _ index v => index.bareVars ++ v.bareVars
  | assign _ v => v.bareVars

def bareVarsOfAll : List Expr → List Variable
  | [] => []
  | e :: es => e.bareVars ++ bareVarsOfAll es

end

mutual

/-- The routines that an expression needs, in the order of its calls. -/
def routines : Expr → List Routine
  | var v => if v.kind = .output then [.arrayRead] else []
  | int _ | float _ | quoted _ | quotedVar _ => []
  | unary _ e => e.routines
  | binary _ l r => l.routines ++ r.routines
  | call f args => routinesOfAll args ++ f.routines
  | history _ offset => offset.routines ++ [.arrayRead]
  | cell _ index => index.routines
  | readCell table index => index.routines ++ table.readRoutines
  | assignCell _ index v => index.routines ++ [.cell] ++ v.routines
  | value _ => [.valueGet]
  | assign _ v => v.routines ++ [.valueAssign]

def routinesOfAll : List Expr → List Routine
  | [] => []
  | e :: es => e.routines ++ routinesOfAll es

end

mutual

/-- Every cell is read or assigned. -/
def Whole : Expr → Prop
  | var _ | int _ | float _ | quoted _ | quotedVar _ | value _ => True
  | unary _ e | history _ e | readCell _ e | assign _ e => e.Whole
  | binary _ l r | assignCell _ l r => l.Whole ∧ r.Whole
  | call _ args => AllWhole args
  | cell _ _ => False

def AllWhole : List Expr → Prop
  | [] => True
  | e :: es => e.Whole ∧ AllWhole es

end

theorem join_ne_string (s t : ValueType) : s.join t ≠ .string := by
  rw [ValueType.join]
  split <;> simp

theorem type_call_ne_string (f : Builtin) (args : List ValueType) : f.type args ≠ .string := by
  cases f with
  | int | float => simp [Builtin.type]
  | _ =>
      simp only [Builtin.type]
      split <;> simp

theorem WellTyped.isQuotation_iff {e : Expr} (h : e.WellTyped) :
    e.IsQuotation ↔ e.type = .string := by
  cases e with
  | var v =>
      obtain ⟨kind, index⟩ := v
      cases kind <;> simp [IsQuotation, type, Variable.type]
  | unary op e =>
      simp only [WellTyped, Numeric] at h
      simpa [IsQuotation, type] using h.2
  | assign name v =>
      simp only [WellTyped, Numeric] at h
      simpa [IsQuotation, type] using h.2
  | assignCell table index v =>
      simp only [WellTyped, Numeric] at h
      simpa [IsQuotation, type] using h.2.2.2
  | binary op l r => simpa [IsQuotation, type] using join_ne_string _ _
  | call f args => simpa [IsQuotation, type] using type_call_ne_string _ _
  | _ => simp [IsQuotation, type]

theorem WellTyped.numeric_iff {e : Expr} (h : e.WellTyped) : e.Numeric ↔ ¬ e.IsQuotation := by
  rw [Numeric, h.isQuotation_iff]

end Expr

/-- The name is fixed, or stands in one of the input slots. -/
def SymbolRef.Within (inputs : Nat) : SymbolRef → Prop
  | named _ => True
  | slot i => i < inputs

/-- The code reaches only the given numbers of input slots and outputs. -/
def Code.Within (inputs outputs : Nat) : Code → Prop
  | const _ | value _ => True
  | number i | vector i | input i => i < inputs
  | vectorAt i e | inputAt i e => i < inputs ∧ e.Within inputs outputs
  | outputAt i e => i < outputs ∧ e.Within inputs outputs
  | unary _ e | trunc e | call1 _ e | assign _ e => e.Within inputs outputs
  | binary _ l r | call2 _ l r | random l r => l.Within inputs outputs ∧ r.Within inputs outputs
  | choose c y n => c.Within inputs outputs ∧ y.Within inputs outputs ∧ n.Within inputs outputs
  | size t | sum t => t.Within inputs
  | rangeSum t l h => t.Within inputs ∧ l.Within inputs outputs ∧ h.Within inputs outputs
  | readCell t i => t.Within inputs ∧ i.Within inputs outputs
  | assignCell t i v => t.Within inputs ∧ i.Within inputs outputs ∧ v.Within inputs outputs

namespace Lower

/-- The shape has the kind of the variable, and its slot is there. -/
structure SlotReady (shape : Shape) (inputs outputs : Nat) (v : Variable) : Prop where
  accepts : shape.accepts v.kind = true
  input_lt : v.kind ≠ .output → v.index < inputs
  output_lt : v.kind = .output → v.index < outputs

/-- The code is that of the expression, which has nothing in the place of a number that is
none. -/
structure Lowered (inputs outputs : Nat) (e : Expr) (c : Code) : Prop where
  not_quotation : ¬ e.IsQuotation
  bare : ∀ v ∈ e.bareVars, v.kind ≠ .symbol
  imports : c.imports = e.routines
  within : c.Within inputs outputs

/-- Why an expression has no code. -/
inductive Refused (e : Expr) : Cause → Prop
  | quotation : e.IsQuotation → Refused e .stringAsNumber
  | symbol {v : Variable} : v ∈ e.bareVars → v.kind = .symbol → Refused e (.symbolAsNumber v)

/-- The result is code for the expression, or says why there is none. -/
def Lowers (inputs outputs : Nat) (e : Expr) (r : Except Cause Code) : Prop :=
  (∃ c, r = .ok c ∧ Lowered inputs outputs e c) ∨ ∃ cause, r = .error cause ∧ Refused e cause

variable {shape : Shape} {inputs outputs : Nat} {e x : Expr}

theorem Lowers.bind {r : Except Cause Code} {f : Code → Except Cause Code}
    (h : Lowers inputs outputs e r) (hnumeric : ¬ e.IsQuotation)
    (hsubset : e.bareVars ⊆ x.bareVars)
    (hf : ∀ c, Lowered inputs outputs e c → Lowers inputs outputs x (f c)) :
    Lowers inputs outputs x (r >>= f) := by
  rcases h with ⟨c, rfl, hc⟩ | ⟨cause, rfl, hcause⟩
  · exact hf c hc
  · refine .inr ⟨cause, rfl, ?_⟩
    cases hcause with
    | quotation h => exact absurd h hnumeric
    | symbol hv hkind => exact .symbol (hsubset hv) hkind

theorem requireFrames_of_looped (h : shape.isLooped = true) : requireFrames shape = .ok () := by
  rw [requireFrames, if_pos h]

theorem isLooped_of_accepts {kind : VariableKind} (h : shape.accepts kind = true)
    (hkind : kind = .vector ∨ kind = .input ∨ kind = .output) : shape.isLooped = true := by
  cases shape <;> rcases hkind with rfl | rfl | rfl <;> simp_all [Shape.accepts, Shape.isLooped]

theorem lowers_var {v : Variable} (h : SlotReady shape inputs outputs v) :
    Lowers inputs outputs (.var v) (slotCode shape v) := by
  obtain ⟨kind, index⟩ := v
  obtain ⟨haccepts, hinput, houtput⟩ := h
  cases kind with
  | float | int =>
      exact .inl ⟨.number index, rfl, id, by simp [Expr.bareVars], by simp [Code.imports,
        Expr.routines], hinput (by simp)⟩
  | symbol => exact .inr ⟨_, rfl, .symbol (by simp [Expr.bareVars]) rfl⟩
  | vector =>
      have hlooped := isLooped_of_accepts haccepts (.inl rfl)
      refine .inl ⟨.vector index, by simp [slotCode, hlooped, pure, Except.pure], id,
        by simp [Expr.bareVars], by simp [Code.imports, Expr.routines], hinput (by simp)⟩
  | input =>
      have hlooped := isLooped_of_accepts haccepts (.inr (.inl rfl))
      refine .inl ⟨.input index, ?_, id, by simp [Expr.bareVars],
        by simp [Code.imports, Expr.routines], hinput (by simp)⟩
      simp only [slotCode, requireFrames_of_looped hlooped]
      rfl
  | output =>
      have hlooped := isLooped_of_accepts haccepts (.inr (.inr rfl))
      refine .inl ⟨.outputAt index (.const (-1)), ?_, id, by simp [Expr.bareVars],
        by simp [Code.imports, Expr.routines], houtput rfl, trivial⟩
      simp only [slotCode, requireFrames_of_looped hlooped]
      rfl

theorem lowers_history {v : Variable} (h : SlotReady shape inputs outputs v)
    (hkind : v.kind.hasHistory = true) {offset : Expr} {c : Code}
    (hc : Lowered inputs outputs offset c) :
    Lowers inputs outputs (.history v offset) (history shape v c) := by
  obtain ⟨kind, index⟩ := v
  obtain ⟨haccepts, hinput, houtput⟩ := h
  have hbare : ∀ v ∈ (Expr.history ⟨kind, index⟩ offset).bareVars, v.kind ≠ .symbol := by
    simpa only [Expr.bareVars] using hc.bare
  cases kind with
  | input =>
      have hlooped := isLooped_of_accepts haccepts (.inr (.inl rfl))
      refine .inl ⟨.inputAt index c, ?_, id, hbare,
        by simp [Code.imports, Expr.routines, hc.imports], hinput (by simp), hc.within⟩
      simp only [history, requireFrames_of_looped hlooped]
      rfl
  | output =>
      have hlooped := isLooped_of_accepts haccepts (.inr (.inr rfl))
      refine .inl ⟨.outputAt index c, ?_, id, hbare,
        by simp [Code.imports, Expr.routines, hc.imports], houtput rfl, hc.within⟩
      simp only [history, requireFrames_of_looped hlooped]
      rfl
  | _ => cases hkind

/-! ### Calls -/

/-- The routines behind an argument. -/
def operandImports : Operand → List Routine
  | .number c => c.imports
  | .symbol _ => []

/-- The argument is what the parameter asks for. -/
inductive OperandFor (inputs outputs : Nat) : Parameter → Operand → Prop
  | number {c : Code} : c.Within inputs outputs → OperandFor inputs outputs .number (.number c)
  | symbol {t : SymbolRef} : t.Within inputs → OperandFor inputs outputs .symbol (.symbol t)

theorem exists_call {f : Builtin} {operands : List Operand}
    (h : List.Forall₂ (OperandFor inputs outputs) f.parameters operands) :
    ∃ c, call f operands = .ok c ∧
      c.imports = operands.flatMap operandImports ++ f.routines ∧ c.Within inputs outputs := by
  cases f with
  | choose =>
      obtain _ | ⟨⟨hc⟩, _ | ⟨⟨hy⟩, _ | ⟨⟨hn⟩, _ | _⟩⟩⟩ := h
      exact ⟨_, rfl, by simp [Code.imports, operandImports, Builtin.routines], hc, hy, hn⟩
  | int | unary =>
      obtain _ | ⟨⟨hx⟩, _ | _⟩ := h
      exact ⟨_, rfl, by simp [Code.imports, operandImports, Builtin.routines], hx⟩
  | float =>
      obtain _ | ⟨⟨hx⟩, _ | _⟩ := h
      exact ⟨_, rfl, by simp [operandImports, Builtin.routines], hx⟩
  | size | sum =>
      obtain _ | ⟨_ | ht, _ | _⟩ := h
      exact ⟨_, rfl, by simp [Code.imports, operandImports, Builtin.routines], ht⟩
  | rangeSum =>
      obtain _ | ⟨_ | ht, _ | ⟨⟨hl⟩, _ | ⟨⟨hh⟩, _ | _⟩⟩⟩ := h
      exact ⟨_, rfl, by simp [Code.imports, operandImports, Builtin.routines], ht, hl, hh⟩
  | random | binary =>
      obtain _ | ⟨⟨hx⟩, _ | ⟨⟨hy⟩, _ | _⟩⟩ := h
      exact ⟨_, rfl, by simp [Code.imports, operandImports, Builtin.routines], hx, hy⟩

/-- All variables of the expression have slots, and every cell in it is read or assigned. -/
structure Ready (shape : Shape) (inputs outputs : Nat) (e : Expr) : Prop where
  wellTyped : e.WellTyped
  whole : e.Whole
  slots : ∀ v ∈ e.vars, SlotReady shape inputs outputs v

theorem Ready.call {f : Builtin} {args : List Expr}
    (h : Ready shape inputs outputs (.call f args)) :
    (∀ e ∈ args, Ready shape inputs outputs e) ∧
      List.Forall₂ Parameter.Takes f.parameters (Expr.types args) := by
  obtain ⟨hwell, hwhole, hslots⟩ := h
  simp only [Expr.WellTyped, Expr.Whole, Expr.vars] at hwell hwhole hslots
  refine ⟨?_, hwell.2⟩
  replace hwell := hwell.1
  induction args with
  | nil => simp
  | cons e es ih =>
      simp only [Expr.AllWellTyped, Expr.AllWhole, Expr.varsOfAll,
        List.forall_mem_append] at hwell hwhole hslots
      exact List.forall_mem_cons.mpr
        ⟨⟨hwell.1, hwhole.1, hslots.1⟩, ih hwhole.2 hslots.2 hwell.2⟩

/-- Such an expression in the place of a number. -/
structure ReadyNumber (shape : Shape) (inputs outputs : Nat) (e : Expr) : Prop where
  ready : Ready shape inputs outputs e
  not_quotation : ¬ e.IsQuotation

section Parts

variable {l r index value : Expr} {v : Variable} {table : TableRef}

theorem readyNumber_of (hwell : e.WellTyped) (hnumeric : e.Numeric) (hwhole : e.Whole)
    (hslots : ∀ v ∈ e.vars, SlotReady shape inputs outputs v) :
    ReadyNumber shape inputs outputs e :=
  ⟨⟨hwell, hwhole, hslots⟩, hwell.numeric_iff.mp hnumeric⟩

theorem Ready.unary {op : UnaryOp} (h : Ready shape inputs outputs (.unary op e)) :
    ReadyNumber shape inputs outputs e := by
  obtain ⟨hwell, hwhole, hslots⟩ := h
  simp only [Expr.WellTyped, Expr.Whole, Expr.vars] at hwell hwhole hslots
  exact readyNumber_of hwell.1 hwell.2 hwhole hslots

theorem Ready.assign {name : String} (h : Ready shape inputs outputs (.assign name e)) :
    ReadyNumber shape inputs outputs e := by
  obtain ⟨hwell, hwhole, hslots⟩ := h
  simp only [Expr.WellTyped, Expr.Whole, Expr.vars] at hwell hwhole hslots
  exact readyNumber_of hwell.1 hwell.2 hwhole hslots

theorem Ready.binary {op : BinaryOp} (h : Ready shape inputs outputs (.binary op l r)) :
    ReadyNumber shape inputs outputs l ∧ ReadyNumber shape inputs outputs r := by
  obtain ⟨hwell, hwhole, hslots⟩ := h
  simp only [Expr.WellTyped, Expr.Whole, Expr.vars, List.forall_mem_append] at hwell hwhole hslots
  exact ⟨readyNumber_of hwell.1.1 hwell.1.2 hwhole.1 hslots.1,
    readyNumber_of hwell.2.1 hwell.2.2 hwhole.2 hslots.2⟩

theorem Ready.history (h : Ready shape inputs outputs (.history v e)) :
    SlotReady shape inputs outputs v ∧ v.kind.hasHistory = true ∧
      ReadyNumber shape inputs outputs e := by
  obtain ⟨hwell, hwhole, hslots⟩ := h
  simp only [Expr.WellTyped, Expr.Whole, Expr.vars, List.forall_mem_cons] at hwell hwhole hslots
  exact ⟨hslots.1, hwell.1, readyNumber_of hwell.2.1 hwell.2.2 hwhole hslots.2⟩

theorem Ready.readCell (h : Ready shape inputs outputs (.readCell table index)) :
    table.Readable ∧ (∀ v ∈ table.vars, SlotReady shape inputs outputs v) ∧
      ReadyNumber shape inputs outputs index := by
  obtain ⟨hwell, hwhole, hslots⟩ := h
  simp only [Expr.WellTyped, Expr.Whole, Expr.vars, List.forall_mem_append] at hwell hwhole hslots
  exact ⟨hwell.1, hslots.1, readyNumber_of hwell.2.1 hwell.2.2 hwhole hslots.2⟩

theorem Ready.assignCell (h : Ready shape inputs outputs (.assignCell table index value)) :
    table.Assignable ∧ (∀ v ∈ table.vars, SlotReady shape inputs outputs v) ∧
      ReadyNumber shape inputs outputs index ∧ ReadyNumber shape inputs outputs value := by
  obtain ⟨hwell, hwhole, hslots⟩ := h
  simp only [Expr.WellTyped, Expr.Whole, Expr.vars, List.forall_mem_append] at hwell hwhole hslots
  exact ⟨hwell.1, hslots.1.1, readyNumber_of hwell.2.1.1 hwell.2.1.2 hwhole.1 hslots.1.2,
    readyNumber_of hwell.2.2.1 hwell.2.2.2 hwhole.2 hslots.2⟩

end Parts

theorem exists_symbol (h : Ready shape inputs outputs e) (hquotation : e.IsQuotation) :
    ∃ t, symbol e = .ok t ∧ t.Within inputs ∧ e.bareVars = [] ∧ e.routines = [] := by
  cases e with
  | quoted text =>
      exact ⟨.named text, rfl, trivial, by simp [Expr.bareVars], by simp [Expr.routines]⟩
  | quotedVar v =>
      have hkind : v.kind = .symbol := by simpa only [Expr.WellTyped] using h.wellTyped
      have hslot := h.slots v (by simp [Expr.vars])
      exact ⟨.slot v.index, rfl, hslot.input_lt (by simp [hkind]), by simp [Expr.bareVars],
        by simp [Expr.routines]⟩
  | _ => cases hquotation

/-- The result is operands for the arguments, or says which variable is no number. -/
def OperandsLower (inputs outputs : Nat) (ps : List Parameter) (es : List Expr)
    (r : Except Cause (List Operand)) : Prop :=
  (∃ operands, r = .ok operands ∧ List.Forall₂ (OperandFor inputs outputs) ps operands ∧
    operands.flatMap operandImports = Expr.routinesOfAll es ∧
    ∀ v ∈ Expr.bareVarsOfAll es, v.kind ≠ .symbol) ∨
  ∃ v ∈ Expr.bareVarsOfAll es, v.kind = .symbol ∧ r = .error (.symbolAsNumber v)

theorem ReadyNumber.lowers_bind {f : Code → Except Cause Code}
    (h : ReadyNumber shape inputs outputs e) (hlowers : Lowers inputs outputs e (expr shape e))
    (hsubset : e.bareVars ⊆ x.bareVars)
    (hf : ∀ c, Lowered inputs outputs e c → Lowers inputs outputs x (f c)) :
    Lowers inputs outputs x (expr shape e >>= f) :=
  hlowers.bind h.not_quotation hsubset hf

mutual

theorem lowers_expr (e : Expr) (h : Ready shape inputs outputs e) :
    Lowers inputs outputs e (expr shape e) := by
  cases e with
  | var v =>
      rw [expr]
      exact lowers_var (h.slots v (by simp [Expr.vars]))
  | int n =>
      rw [expr]
      exact .inl ⟨_, rfl, id, by simp [Expr.bareVars], by simp [Code.imports, Expr.routines],
        trivial⟩
  | float x =>
      rw [expr]
      exact .inl ⟨_, rfl, id, by simp [Expr.bareVars], by simp [Code.imports, Expr.routines],
        trivial⟩
  | quoted text =>
      rw [expr]
      exact .inr ⟨_, rfl, .quotation trivial⟩
  | quotedVar v =>
      rw [expr]
      exact .inr ⟨_, rfl, .quotation trivial⟩
  | value name =>
      rw [expr]
      exact .inl ⟨_, rfl, id, by simp [Expr.bareVars], by simp [Code.imports, Expr.routines],
        trivial⟩
  | unary op e =>
      rw [expr]
      refine h.unary.lowers_bind (lowers_expr e h.unary.ready) (by simp [Expr.bareVars]) ?_
      intro c hc
      exact .inl ⟨.unary op c, rfl, id, by simpa only [Expr.bareVars] using hc.bare,
        by simp [Code.imports, Expr.routines, hc.imports], hc.within⟩
  | assign name e =>
      rw [expr]
      refine h.assign.lowers_bind (lowers_expr e h.assign.ready) (by simp [Expr.bareVars]) ?_
      intro c hc
      exact .inl ⟨.assign name c, rfl, id, by simpa only [Expr.bareVars] using hc.bare,
        by simp [Code.imports, Expr.routines, hc.imports], hc.within⟩
  | binary op l r =>
      obtain ⟨hl, hr⟩ := h.binary
      rw [expr]
      refine hl.lowers_bind (lowers_expr l hl.ready) (by simp [Expr.bareVars]) fun c hc => ?_
      refine hr.lowers_bind (lowers_expr r hr.ready) (by simp [Expr.bareVars]) fun c' hc' => ?_
      refine .inl ⟨.binary op c c', rfl, id, ?_,
        by simp [Code.imports, Expr.routines, hc.imports, hc'.imports], hc.within, hc'.within⟩
      simpa only [Expr.bareVars, List.forall_mem_append] using ⟨hc.bare, hc'.bare⟩
  | history v offset =>
      obtain ⟨hv, hkind, hoffset⟩ := h.history
      rw [expr]
      refine hoffset.lowers_bind (lowers_expr offset hoffset.ready) (by simp [Expr.bareVars]) ?_
      intro c hc
      exact lowers_history hv hkind hc
  | cell table index => exact absurd h.whole (by simp [Expr.Whole])
  | call f args =>
      obtain ⟨hargs, hps⟩ := h.call
      rw [expr]
      rcases lowers_operands f.parameters args hargs hps with
        ⟨operands, hrun, hoperands, himports, hbare⟩ | ⟨v, hv, hkind, hrun⟩
      · obtain ⟨c, hc, hcimports, hwithin⟩ := exists_call hoperands
        refine .inl ⟨c, by rw [hrun]; exact hc, id, by simpa only [Expr.bareVars] using hbare, ?_,
          hwithin⟩
        rw [hcimports, himports, Expr.routines]
      · refine .inr ⟨.symbolAsNumber v, by rw [hrun]; rfl, .symbol ?_ hkind⟩
        simpa only [Expr.bareVars] using hv
  | readCell table index =>
      obtain ⟨hreadable, hslots, hindex⟩ := h.readCell
      have hlowers := lowers_expr index hindex.ready
      cases table with
      | named name =>
          rw [expr]
          refine hindex.lowers_bind hlowers (by simp [Expr.bareVars]) fun c hc => ?_
          exact .inl ⟨.readCell (.named name) c, rfl, id,
            by simpa only [Expr.bareVars] using hc.bare,
            by simp [Code.imports, Expr.routines, TableRef.readRoutines, hc.imports],
            trivial, hc.within⟩
      | slot v =>
          have hv := hslots v (by simp [TableRef.vars])
          rcases hreadable with hkind | hkind
          · simp only [expr, hkind]
            refine hindex.lowers_bind hlowers (by simp [Expr.bareVars]) fun c hc => ?_
            exact .inl ⟨.readCell (.slot v.index) c, rfl, id,
              by simpa only [Expr.bareVars] using hc.bare,
              by simp [Code.imports, Expr.routines, TableRef.readRoutines, hc.imports, hkind],
              hv.input_lt (by simp [hkind]), hc.within⟩
          · have hlooped := isLooped_of_accepts hv.accepts (.inl hkind)
            simp only [expr, hkind, requireFrames_of_looped hlooped]
            refine hindex.lowers_bind hlowers (by simp [Expr.bareVars]) fun c hc => ?_
            exact .inl ⟨.vectorAt v.index c, rfl, id,
              by simpa only [Expr.bareVars] using hc.bare,
              by simp [Code.imports, Expr.routines, TableRef.readRoutines, hc.imports, hkind],
              hv.input_lt (by simp [hkind]), hc.within⟩
  | assignCell table index v =>
      obtain ⟨hassignable, hslots, hindex, hvalue⟩ := h.assignCell
      have hlowers := lowers_expr index hindex.ready
      have hlowers' := lowers_expr v hvalue.ready
      have hbare {c c' : Code} (hc : Lowered inputs outputs index c)
          (hc' : Lowered inputs outputs v c') :
          ∀ w ∈ (Expr.assignCell table index v).bareVars, w.kind ≠ .symbol := by
        simpa only [Expr.bareVars, List.forall_mem_append] using ⟨hc.bare, hc'.bare⟩
      cases table with
      | named name =>
          rw [expr]
          refine hindex.lowers_bind hlowers (by simp [Expr.bareVars]) fun c hc => ?_
          refine hvalue.lowers_bind hlowers' (by simp [Expr.bareVars]) fun c' hc' => ?_
          exact .inl ⟨.assignCell (.named name) c c', rfl, id, hbare hc hc',
            by simp [Code.imports, Expr.routines, hc.imports, hc'.imports],
            trivial, hc.within, hc'.within⟩
      | slot w =>
          have hw := hslots w (by simp [TableRef.vars])
          have hkind : w.kind = .symbol := hassignable
          simp only [expr, hkind]
          refine hindex.lowers_bind hlowers (by simp [Expr.bareVars]) fun c hc => ?_
          refine hvalue.lowers_bind hlowers' (by simp [Expr.bareVars]) fun c' hc' => ?_
          exact .inl ⟨.assignCell (.slot w.index) c c', rfl, id, hbare hc hc',
            by simp [Code.imports, Expr.routines, hc.imports, hc'.imports],
            hw.input_lt (by simp [hkind]), hc.within, hc'.within⟩

theorem lowers_operands (ps : List Parameter) (es : List Expr)
    (h : ∀ e ∈ es, Ready shape inputs outputs e)
    (hps : List.Forall₂ Parameter.Takes ps (Expr.types es)) :
    OperandsLower inputs outputs ps es (operands shape ps es) := by
  cases es with
  | nil =>
      cases hps
      refine .inl ⟨[], ?_, .nil, rfl, by simp [Expr.bareVarsOfAll]⟩
      simp only [operands]
      rfl
  | cons e es =>
      obtain ⟨he, hes⟩ := List.forall_mem_cons.mp h
      cases hps with
      | @cons p _ ps _ hp hps =>
          have hquotation : e.IsQuotation ↔ p = .symbol :=
            he.wellTyped.isQuotation_iff.trans hp
          have htail := lowers_operands ps es hes hps
          cases p with
          | number =>
              have hnumeric : ¬ e.IsQuotation := by simp [hquotation]
              rw [operands]
              rcases lowers_expr e he with ⟨c, hrun, hc⟩ | ⟨cause, hrun, hcause⟩
              · rcases htail with
                  ⟨operands, hrun', hoperands, himports, hbare⟩ | ⟨v, hv, hkind, hrun'⟩
                · refine .inl ⟨.number c :: operands, by rw [hrun, hrun']; rfl,
                    .cons (.number hc.within) hoperands, ?_, ?_⟩
                  · simp [operandImports, Expr.routinesOfAll, hc.imports, himports]
                  · simpa only [Expr.bareVarsOfAll, List.forall_mem_append] using ⟨hc.bare, hbare⟩
                · exact .inr ⟨v, by simp [Expr.bareVarsOfAll, hv], hkind, by rw [hrun, hrun']; rfl⟩
              · cases hcause with
                | quotation h => exact absurd h hnumeric
                | @symbol v hv hkind =>
                    exact .inr ⟨v, by simp [Expr.bareVarsOfAll, hv], hkind, by rw [hrun]; rfl⟩
          | symbol =>
              obtain ⟨t, ht, hwithin, hnone, hroutines⟩ := exists_symbol he (hquotation.mpr rfl)
              rw [operands]
              rcases htail with ⟨operands, hrun, hoperands, himports, hbare⟩ | ⟨v, hv, hkind, hrun⟩
              · refine .inl ⟨.symbol t :: operands, by rw [ht, hrun]; rfl,
                  .cons (.symbol hwithin) hoperands, ?_, ?_⟩
                · simp [operandImports, Expr.routinesOfAll, hroutines, himports]
                · simpa [Expr.bareVarsOfAll, hnone] using hbare
              · exact .inr ⟨v, by simp [Expr.bareVarsOfAll, hv], hkind, by rw [ht, hrun]; rfl⟩

end

end Lower

end SignalExpr
