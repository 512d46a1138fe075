import SignalExpr.Code.Lower
import SignalExpr.Proofs.ReaderRuns

/-!
The variables of a statement list are those that stand in its text. The tree of a phrase has its
variables in the order of the tokens, whatever the parser has taken apart and put together again,
so the checks that go over the trees meet the variables as they were written.
-/

namespace SignalExpr

/-- The variable that a token writes, alone or in quotes, as far as it can be read. -/
def TokenKind.variable? : TokenKind → Option (Except VariableFault Variable)
  | sigil text => some (Variable.parse text)
  | str text => if text.toList.head? = some '$' then some (Variable.parse text) else none
  | _ => none

/-- The variables that stand in a text, in their order. -/
def TokenList.written (ts : TokenList) : List (Except VariableFault Variable) :=
  (ts.tokens.map Token.kind).filterMap TokenKind.variable?

/-- The first written variable that does not have a property. -/
def FirstWithout (P : Variable → Prop) (written : List (Except VariableFault Variable))
    (v : Variable) : Prop :=
  ∃ (earlier : List Variable) (later : List (Except VariableFault Variable)),
    written = earlier.map .ok ++ .ok v :: later ∧ (∀ w ∈ earlier, P w) ∧ ¬ P v

@[simp] theorem BinaryOp.variable?_token (op : BinaryOp) : op.token.variable? = none := by
  cases op <;> rfl

@[simp] theorem UnaryOp.variable?_token (op : UnaryOp) : op.token.variable? = none := by
  cases op <;> rfl

namespace Derivation

theorem vars_indexed (v : Variable) (index : Expr) : (indexed v index).vars = v :: index.vars := by
  rw [indexed]
  split <;> simp [Expr.vars, TableRef.vars]

theorem vars_of_assigned? {target value e : Expr} (h : target.assigned? value = some e) :
    e.vars = target.vars ++ value.vars := by
  cases target with
  | value name =>
      cases h
      simp [Expr.vars]
  | readCell table index =>
      cases h
      simp [Expr.vars]
  | _ => cases h

mutual

theorem written_tokens (d : Derivation) {e : Expr} (h : d.tree? = some e) :
    d.tokens.filterMap TokenKind.variable? = e.vars.map .ok := by
  cases d with
  | integer n | number x | name n =>
      cases h
      simp [tokens, List.filterMap_cons, Expr.vars, TokenKind.variable?]
  | string text =>
      rw [tree?, quotation?] at h
      split at h
      next hsigil =>
        obtain ⟨v, hv, rfl⟩ := Option.map_eq_some_iff.mp h
        simp [tokens, Expr.vars, TokenKind.variable?, hsigil, Variable.parse_of_ofText? hv]
      next hsigil =>
        cases h
        simp [tokens, Expr.vars, TokenKind.variable?, hsigil]
  | sigil text =>
      obtain ⟨v, hv, rfl⟩ := Option.map_eq_some_iff.mp h
      simp [tokens, Expr.vars, TokenKind.variable?, Variable.parse_of_ofText? hv]
  | parenthesized d =>
      have hinner := written_tokens d (by simpa only [tree?] using h)
      simp [tokens, List.filterMap_cons, TokenKind.variable?, hinner]
  | call name args =>
      simp only [tree?, Option.bind_eq_bind, Option.bind_eq_some_iff] at h
      obtain ⟨f, -, es, hes, ⟨⟩⟩ := h
      simp [tokens, List.filterMap_cons, Expr.vars, TokenKind.variable?,
        written_argumentTokens args hes]
  | namedCell name d =>
      simp only [tree?, Option.bind_eq_bind, Option.bind_eq_some_iff] at h
      obtain ⟨x, hx, ⟨⟩⟩ := h
      simp [tokens, List.filterMap_cons, Expr.vars, TableRef.vars, TokenKind.variable?,
        written_tokens d hx]
  | indexedSigil text d =>
      simp only [tree?, Option.bind_eq_bind, Option.bind_eq_some_iff] at h
      obtain ⟨v, hv, x, hx, ⟨⟩⟩ := h
      simp [tokens, List.filterMap_cons, vars_indexed, TokenKind.variable?,
        Variable.parse_of_ofText? hv, written_tokens d hx]
  | prefixed op d =>
      simp only [tree?, Option.bind_eq_bind, Option.bind_eq_some_iff] at h
      obtain ⟨x, hx, ⟨⟩⟩ := h
      simp [tokens, Expr.vars, written_tokens d hx]
  | binary op l r =>
      simp only [tree?, Option.bind_eq_bind, Option.bind_eq_some_iff] at h
      obtain ⟨x, hx, y, hy, ⟨⟩⟩ := h
      simp [tokens, Expr.vars, written_tokens l hx, written_tokens r hy]
  | assignment t v =>
      simp only [tree?, Option.bind_eq_bind, Option.bind_eq_some_iff] at h
      obtain ⟨x, hx, y, hy, hassigned⟩ := h
      simp [tokens, List.filterMap_cons, vars_of_assigned? hassigned, TokenKind.variable?,
        written_tokens t hx, written_tokens v hy]

theorem written_argumentTokens (ds : List Derivation) {es : List Expr} (h : trees? ds = some es) :
    (argumentTokens ds).filterMap TokenKind.variable? = (Expr.varsOfAll es).map .ok := by
  cases ds with
  | nil =>
      cases h
      rfl
  | cons d ds =>
      simp only [trees?, Option.bind_eq_bind, Option.bind_eq_some_iff] at h
      obtain ⟨x, hx, xs, hxs, ⟨⟩⟩ := h
      simp [argumentTokens, Expr.varsOfAll, written_tokens d hx, written_moreArgumentTokens ds hxs]

theorem written_moreArgumentTokens (ds : List Derivation) {es : List Expr}
    (h : trees? ds = some es) :
    (moreArgumentTokens ds).filterMap TokenKind.variable? = (Expr.varsOfAll es).map .ok := by
  cases ds with
  | nil =>
      cases h
      rfl
  | cons d ds =>
      simp only [trees?, Option.bind_eq_bind, Option.bind_eq_some_iff] at h
      obtain ⟨x, hx, xs, hxs, ⟨⟩⟩ := h
      simp [moreArgumentTokens, List.filterMap_cons, Expr.varsOfAll, TokenKind.variable?,
        written_tokens d hx, written_moreArgumentTokens ds hxs]

end

theorem Tail.written {rest : List TokenKind} {ds : List Derivation} {es : List Expr}
    (h : Tail rest ds) (hes : List.Forall₂ Admits ds es) :
    rest.filterMap TokenKind.variable? = (es.flatMap Expr.vars).map .ok := by
  induction h generalizing es with
  | nil =>
      cases hes
      rfl
  | semicolon =>
      cases hes
      rfl
  | @cons separator rest ds d hseparator _ ih =>
      cases hes with
      | cons hd hds =>
          have hnone : separator.variable? = none := by
            cases separator <;> first | rfl | cases hseparator
          simp [hnone, written_tokens d hd.makes.tree, ih hds]

theorem Statements.written {ts : List TokenKind} {ds : List Derivation} {es : List Expr}
    (h : Statements ts ds) (hes : List.Forall₂ Admits ds es) :
    ts.filterMap TokenKind.variable? = (es.flatMap Expr.vars).map .ok := by
  obtain ⟨d, htail⟩ := h
  cases hes with
  | cons hd hds => simp [written_tokens d hd.makes.tree, htail.written hds]

end Derivation

namespace Program

theorem written_of_parse {ts : TokenList} {arena : Arena} {roots : List NodeId}
    (h : Parser.parse ts = .ok (arena, roots)) (inputs : List Variable) :
    ts.written = (⟨arena, roots, inputs⟩ : Program).vars.map .ok := by
  obtain ⟨ds, es, hds, hadmits, -, hroots⟩ := Parser.exists_derivation_of_parse h
  rw [vars, trees_eq hroots]
  exact hds.written hadmits

theorem checkShape_eq_error_iff (p : Program) (shape : Shape) (cause : Cause) :
    p.checkShape shape = .error cause ↔ ∃ v, cause = .unsupported v shape ∧
      FirstWithout (fun w => shape.accepts w.kind = true) (p.vars.map .ok) v := by
  have hfirst (v : Variable) : FirstWithout (fun w => shape.accepts w.kind = true)
      (p.vars.map .ok) v ↔ (p.vars.find? fun w => !shape.accepts w.kind) = some v := by
    rw [List.find?_eq_some_iff_append]
    constructor
    · rintro ⟨earlier, later, heq, hearlier, hv⟩
      obtain ⟨before, rest, hvars, hbefore, hrest⟩ := List.map_eq_append_iff.mp heq
      obtain ⟨w, after, rfl, hw, -⟩ := List.map_eq_cons_iff.mp hrest
      obtain rfl := Except.ok.inj hw
      obtain rfl := List.map_injective_iff.mpr (fun _ _ => Except.ok.inj) hbefore
      exact ⟨by simpa using hv, before, after, hvars, by simpa using hearlier⟩
    · rintro ⟨hv, earlier, later, hvars, hearlier⟩
      exact ⟨earlier, later.map .ok, by simp [hvars], by simpa using hearlier, by simpa using hv⟩
  simp only [hfirst]
  rw [checkShape]
  cases p.vars.find? fun w => !shape.accepts w.kind with
  | none => simp
  | some v => simp [eq_comm]

/-- The variables of a statement list are those that its text writes, each as often and in the
same order. So the first written variable that a shape does not have is the one that is refused,
and what is reported of a list whose variables cannot stand together is what is wrong with them
as they are written. -/
theorem vars_eq_written (text : String) :
    (∀ p, Program.parse text = .ok p → ∃ ts, Lexer.tokenize text = .ok ts ∧
      ts.written = p.vars.map .ok ∧
      ∀ shape cause, p.checkShape shape = .error cause ↔ ∃ v, cause = .unsupported v shape ∧
        FirstWithout (fun w => shape.accepts w.kind = true) ts.written v) ∧
    ∀ ts arena roots, Lexer.tokenize text = .ok ts → Parser.parse ts = .ok (arena, roots) →
      ∃ vars, ts.written = vars.map .ok ∧
        ∀ e, Program.parse text = .error e ↔
          ∃ cause, e = .ofCause cause ∧ Program.Reports roots.length vars cause := by
  constructor
  · intro p hp
    obtain ⟨ts, hlex, hparse⟩ := Reader.exists_tokens_of_ok hp
    have hwritten : ts.written = p.vars.map .ok := written_of_parse hparse p.inputs
    refine ⟨ts, hlex, hwritten, fun shape cause => ?_⟩
    rw [hwritten]
    exact p.checkShape_eq_error_iff shape cause
  · intro ts arena roots hlex hparse
    have hread : (Lexer.tokenize text >>= Parser.parse) = .ok (arena, roots) :=
      Outcome.bind_eq_ok_iff.mpr ⟨ts, hlex, hparse⟩
    refine ⟨(Reader.unchecked arena roots).vars, written_of_parse hparse [], fun e => ?_⟩
    rw [Program.parse]
    obtain ⟨inputs, registry, hrun, hvars, hslots⟩ | ⟨cause, registry, hrun, hreports⟩ :=
      Reader.parse_cases hread {}
    · rw [hrun]
      constructor
      · rintro ⟨⟩
      · rintro ⟨cause, -, hreports⟩
        exact absurd (consistent_of_slotsOf hvars hslots) hreports.not_consistent
    · rw [hrun]
      constructor
      · rintro ⟨⟩
        exact ⟨cause, rfl, hreports⟩
      · rintro ⟨cause', rfl, hreports'⟩
        rw [hreports.unique hreports']

end Program

end SignalExpr
