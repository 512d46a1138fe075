import Mathlib
import SignalExpr.Proofs.Linking
import SignalExpr.Proofs.Lowering
import SignalExpr.Proofs.ReaderRuns

/-!
Which statement lists an engine compiles. Of all that can go wrong on the way to code, only what
the reader cannot know is left: a kind of variable that the shape does not have, a string or a
table name in the place of a number, and an export under a name that is imported.
-/

namespace SignalExpr

mutual

theorem Derivation.whole (d : Derivation) {e : Expr} (h : d.tree? = some e) : e.Whole := by
  cases d with
  | integer | number | name =>
      cases h
      trivial
  | string text =>
      simp only [tree?, quotation?] at h
      split at h
      · obtain ⟨v, -, rfl⟩ := Option.map_eq_some_iff.mp h
        trivial
      · cases h
        trivial
  | sigil text =>
      obtain ⟨v, -, rfl⟩ := Option.map_eq_some_iff.mp h
      trivial
  | parenthesized d => exact d.whole (by simpa only [tree?] using h)
  | call name args =>
      simp only [tree?, Option.bind_eq_bind, Option.bind_eq_some_iff] at h
      obtain ⟨f, -, es, hes, ⟨⟩⟩ := h
      simpa only [Expr.Whole] using allWhole args hes
  | namedCell name d =>
      simp only [tree?, Option.bind_eq_bind, Option.bind_eq_some_iff] at h
      obtain ⟨x, hx, ⟨⟩⟩ := h
      simpa only [Expr.Whole] using d.whole hx
  | indexedSigil text d =>
      simp only [tree?, Option.bind_eq_bind, Option.bind_eq_some_iff] at h
      obtain ⟨v, -, x, hx, ⟨⟩⟩ := h
      rw [indexed]
      split <;> simpa only [Expr.Whole] using d.whole hx
  | prefixed op d =>
      simp only [tree?, Option.bind_eq_bind, Option.bind_eq_some_iff] at h
      obtain ⟨x, hx, ⟨⟩⟩ := h
      simpa only [Expr.Whole] using d.whole hx
  | binary op l r =>
      simp only [tree?, Option.bind_eq_bind, Option.bind_eq_some_iff] at h
      obtain ⟨x, hx, y, hy, ⟨⟩⟩ := h
      simpa only [Expr.Whole] using ⟨l.whole hx, r.whole hy⟩
  | assignment t v =>
      simp only [tree?, Option.bind_eq_bind, Option.bind_eq_some_iff] at h
      obtain ⟨x, hx, y, hy, hassigned⟩ := h
      have hwhole := t.whole hx
      have hvalue := v.whole hy
      cases x with
      | value name =>
          cases hassigned
          simpa only [Expr.Whole] using hvalue
      | readCell table index =>
          cases hassigned
          simp only [Expr.Whole] at hwhole ⊢
          exact ⟨hwhole, hvalue⟩
      | _ => cases hassigned

theorem Derivation.allWhole (ds : List Derivation) {es : List Expr}
    (h : Derivation.trees? ds = some es) : Expr.AllWhole es := by
  cases ds with
  | nil =>
      cases h
      trivial
  | cons d ds =>
      simp only [trees?, Option.bind_eq_bind, Option.bind_eq_some_iff] at h
      obtain ⟨x, hx, xs, hxs, ⟨⟩⟩ := h
      exact ⟨d.whole hx, allWhole ds hxs⟩

end

namespace Program

/-- What reading makes sure of: every statement has a tree, the trees follow the typing rules, and
the slots are those of the variables. -/
structure WellFormed (p : Program) : Prop where
  length_trees : p.trees.length = p.outputs
  wellTyped : ∀ e ∈ p.trees, e.WellTyped ∧ e.Whole
  range : ∀ v ∈ p.vars, v.kind = .output → v.index < p.outputs
  slots : SlotsOf p.vars p.inputs

theorem wellFormed_of_parse {text : String} {p : Program} (h : Program.parse text = .ok p) :
    p.WellFormed := by
  rw [Program.parse] at h
  cases hparsed : Lexer.tokenize text >>= Parser.parse with
  | error e =>
      rw [Reader.parse_of_refused hparsed] at h
      cases h
  | ok parsed =>
      obtain ⟨arena, roots⟩ := parsed
      rcases Reader.parse_cases hparsed {} with
        ⟨inputs, registry, hrun, hvars, hslots⟩ | ⟨cause, registry, hrun, -⟩
      · rw [hrun] at h
        cases h
        obtain ⟨input, -, hparse⟩ := Outcome.bind_eq_ok_iff.mp hparsed
        obtain ⟨ds, es, -, hadmits, -, hroots⟩ := Parser.exists_derivation_of_parse hparse
        have htrees := trees_eq hroots inputs
        refine ⟨?_, ?_, (faultless_iff.mp hvars).2, hslots⟩
        · rw [htrees, outputs, hroots.length_eq]
        · rw [htrees]
          clear htrees hroots
          induction hadmits with
          | nil => simp
          | cons hd _ ih =>
              exact List.forall_mem_cons.mpr
                ⟨⟨hd.makes.wellTyped, Derivation.whole _ hd.makes.tree⟩, ih⟩
      · rw [hrun] at h
        cases h

theorem WellFormed.inputs_ne_output {p : Program} (h : p.WellFormed) :
    ∀ v ∈ p.inputs, v.kind ≠ .output := by
  intro w hw
  obtain ⟨i, hi, rfl⟩ := List.getElem_of_mem hw
  have hget := List.getElem?_eq_getElem hi
  obtain ⟨v, hv, hkind, hindex⟩ := (h.slots.used_iff i).mpr hi
  rw [h.slots.kind v hv hkind _ (hindex.symm ▸ hget)]
  exact hkind

/-- An engine can compile the statements for a shape. -/
structure Compilable (p : Program) (shape : Shape) : Prop where
  accepted : ∀ v ∈ p.vars, shape.accepts v.kind = true
  no_quotation : ∀ e ∈ p.trees, ¬ e.IsQuotation
  no_symbol : ∀ e ∈ p.trees, ∀ v ∈ e.bareVars, v.kind ≠ .symbol

/-- Why an engine cannot. -/
inductive Refusal (p : Program) (shape : Shape) : Cause → Prop
  | unsupported {v : Variable} : v ∈ p.vars → shape.accepts v.kind = false →
      Refusal p shape (.unsupported v shape)
  | quotation {e : Expr} : e ∈ p.trees → e.IsQuotation → Refusal p shape .stringAsNumber
  | symbol {e : Expr} {v : Variable} : e ∈ p.trees → v ∈ e.bareVars → v.kind = .symbol →
      Refusal p shape (.symbolAsNumber v)

/-- The symbols that the statements import. -/
def importedLinks (p : Program) : List String :=
  (p.trees.flatMap Expr.routines).map Routine.link

theorem Refusal.not_compilable {p : Program} {shape : Shape} {cause : Cause}
    (h : Refusal p shape cause) : ¬ p.Compilable shape := by
  intro hcompilable
  cases h with
  | unsupported hv hshape => simp [hcompilable.accepted _ hv] at hshape
  | quotation he hquotation => exact hcompilable.no_quotation _ he hquotation
  | symbol he hv hkind => exact hcompilable.no_symbol _ he _ hv hkind

theorem Refusal.kind_eq {p : Program} {shape : Shape} {cause : Cause}
    (h : Refusal p shape cause) : cause.kind = .coding := by
  cases h <;> rfl

theorem checkShape_cases (p : Program) (shape : Shape) :
    (p.checkShape shape = .ok () ∧ ∀ v ∈ p.vars, shape.accepts v.kind = true) ∨
    ∃ v ∈ p.vars, shape.accepts v.kind = false ∧
      p.checkShape shape = .error (.unsupported v shape) := by
  rw [checkShape]
  cases hfind : p.vars.find? fun v => !shape.accepts v.kind with
  | none => exact .inl ⟨rfl, by simpa using hfind⟩
  | some v =>
      exact .inr ⟨v, List.mem_of_find?_eq_some hfind, by simpa using List.find?_some hfind, rfl⟩

theorem WellFormed.checkInputs_eq_ok {p : Program} (h : p.WellFormed) : p.checkInputs = .ok () := by
  have hnone : (p.inputs.find? fun v => v.kind == .output) = none := by
    simpa using h.inputs_ne_output
  rw [checkInputs, hnone]

theorem WellFormed.ready {p : Program} (h : p.WellFormed) {shape : Shape}
    (haccepted : ∀ v ∈ p.vars, shape.accepts v.kind = true) {e : Expr} (he : e ∈ p.trees) :
    Lower.Ready shape p.inputs.length p.outputs e := by
  obtain ⟨hwell, hwhole⟩ := h.wellTyped e he
  refine ⟨hwell, hwhole, fun v hv => ?_⟩
  have hmem : v ∈ p.vars := List.mem_flatMap.mpr ⟨e, he, hv⟩
  exact ⟨haccepted v hmem, fun hkind => (h.slots.used_iff _).mp ⟨v, hmem, hkind, rfl⟩,
    h.range v hmem⟩

theorem WellFormed.lowered {p : Program} (h : p.WellFormed) {shape : Shape}
    (haccepted : ∀ v ∈ p.vars, shape.accepts v.kind = true) {e : Expr} (he : e ∈ p.trees)
    {c : Code} (hc : Lower.expr shape e = .ok c) :
    Lower.Lowered p.inputs.length p.outputs e c := by
  rcases Lower.lowers_expr e (h.ready haccepted he) with ⟨c', hrun, hlowered⟩ | ⟨cause, hrun, -⟩
  · rw [hc] at hrun
    cases hrun
    exact hlowered
  · rw [hc] at hrun
    cases hrun

theorem WellFormed.code_cases {p : Program} (h : p.WellFormed) (shape : Shape) :
    (∃ statements, p.code shape = .ok statements ∧ p.Compilable shape ∧
      List.Forall₂ (Lower.Lowered p.inputs.length p.outputs) p.trees statements) ∨
    ∃ cause, p.code shape = .error cause ∧ p.Refusal shape cause := by
  rw [code, h.checkInputs_eq_ok]
  rcases p.checkShape_cases shape with ⟨hshape, haccepted⟩ | ⟨v, hv, hkind, hshape⟩
  · rw [hshape]
    change (∃ statements, p.trees.mapM (Lower.expr shape) = .ok statements ∧ _) ∨
      ∃ cause, p.trees.mapM (Lower.expr shape) = .error cause ∧ _
    cases hrun : p.trees.mapM (Lower.expr shape) with
    | ok statements =>
        have hcodes := Outcome.mapM_eq_ok_iff.mp hrun
        have hlowered := List.forall₂_iff_get.mpr ⟨hcodes.length_eq, fun i hi hi' =>
          h.lowered haccepted (List.get_mem _ _) ((List.forall₂_iff_get.mp hcodes).2 i hi hi')⟩
        have hcode : ∀ e ∈ p.trees, ∃ c, Lower.Lowered p.inputs.length p.outputs e c := by
          intro e he
          obtain ⟨i, rfl⟩ := List.get_of_mem he
          have hi : i.val < statements.length := by
            rw [← hcodes.length_eq]
            exact i.isLt
          exact ⟨_, (List.forall₂_iff_get.mp hlowered).2 i i.isLt hi⟩
        refine .inl ⟨statements, rfl, ⟨haccepted, ?_, ?_⟩, hlowered⟩
        · intro e he
          obtain ⟨c, hc⟩ := hcode e he
          exact hc.not_quotation
        · intro e he
          obtain ⟨c, hc⟩ := hcode e he
          exact hc.bare
    | error cause =>
        obtain ⟨before, e, after, htrees, -, he⟩ := Outcome.mapM_eq_error_iff.mp hrun
        have hmem : e ∈ p.trees := by simp [htrees]
        refine .inr ⟨cause, rfl, ?_⟩
        rcases Lower.lowers_expr e (h.ready haccepted hmem) with ⟨c, hc, -⟩ | ⟨cause', hc, hrefused⟩
        · rw [he] at hc
          cases hc
        · rw [he] at hc
          cases hc
          cases hrefused with
          | quotation hquotation => exact .quotation hmem hquotation
          | symbol hv hkind => exact .symbol hmem hv hkind
  · rw [hshape]
    exact .inr ⟨_, rfl, .unsupported hv hkind⟩

theorem flatMap_imports {trees : List Expr} {statements : List Code} {inputs outputs : Nat}
    (h : List.Forall₂ (Lower.Lowered inputs outputs) trees statements) :
    statements.flatMap Code.imports = trees.flatMap Expr.routines := by
  induction h with
  | nil => rfl
  | cons hc _ ih => rw [List.flatMap_cons, List.flatMap_cons, ih, hc.imports]

theorem mem_importsOf_iff {p : Program} {statements : List Code} {inputs outputs : Nat}
    (h : List.Forall₂ (Lower.Lowered inputs outputs) p.trees statements) (name : String) :
    name ∈ Engine.importsOf statements ↔ name ∈ p.importedLinks := by
  rw [Engine.importsOf, List.mem_eraseDups, flatMap_imports h, importedLinks]

end Program

namespace Engine

variable {e : Engine} {p : Program}

theorem compileAs_of_code {shape : Shape} {name : String} {statements : List Code}
    {links : Linkage} (hcode : p.code shape = .ok statements)
    (hlinks : e.linker.link (importsOf statements) = .ok links) :
    e.compileAs p shape name =
      if name ∈ importsOf statements then .error (.exportedImport name)
      else .ok (e.emit p shape name statements links) := by
  rw [compileAs, hcode]
  change (e.linker.link (importsOf statements) >>= _) = _
  rw [hlinks]
  change (if _ then _ else _) = _
  simp only [List.contains_iff_mem]
  rfl

theorem Reachable.compileAs_cases (he : Reachable e) (hp : p.WellFormed) (shape : Shape)
    (name : String) :
    (∃ statements links, e.compileAs p shape name = .ok (e.emit p shape name statements links) ∧
      p.Compilable shape ∧ name ∉ p.importedLinks ∧
      List.Forall₂ (Lower.Lowered p.inputs.length p.outputs) p.trees statements) ∨
    (∃ cause, e.compileAs p shape name = .error cause ∧ p.Refusal shape cause) ∨
    e.compileAs p shape name = .error (.exportedImport name) ∧ p.Compilable shape ∧
      name ∈ p.importedLinks := by
  rcases hp.code_cases shape with
    ⟨statements, hcode, hcompilable, hlowered⟩ | ⟨cause, hcode, hrefusal⟩
  · have hnames : ∀ name ∈ importsOf statements, ∃ r : Routine, r.link = name := by
      intro name hname
      obtain ⟨r, -, hlink⟩ := List.mem_map.mp (List.mem_eraseDups.mp hname)
      exact ⟨r, hlink⟩
    obtain ⟨links, hlinks⟩ := he.provides.exists_link hnames
    have hmem := Program.mem_importsOf_iff hlowered name
    rw [compileAs_of_code hcode hlinks]
    by_cases hname : name ∈ importsOf statements
    · exact .inr (.inr ⟨if_pos hname, hcompilable, hmem.mp hname⟩)
    · exact .inl ⟨statements, links, if_neg hname, hcompilable, mt hmem.mpr hname, hlowered⟩
  · refine .inr (.inl ⟨cause, ?_, hrefusal⟩)
    rw [Engine.compileAs, hcode]
    rfl

theorem Reachable.exists_compileAs_iff (he : Reachable e) (hp : p.WellFormed) (shape : Shape)
    (name : String) : (∃ r, e.compileAs p shape name = .ok r) ↔
      p.Compilable shape ∧ name ∉ p.importedLinks := by
  rcases he.compileAs_cases hp shape name with
    ⟨statements, links, hrun, hcompilable, hname, -⟩ | ⟨cause, hrun, hrefusal⟩ | ⟨hrun, -, hname⟩
  · rw [hrun]
    exact ⟨fun _ => ⟨hcompilable, hname⟩, fun _ => ⟨_, rfl⟩⟩
  · rw [hrun]
    constructor
    · rintro ⟨r, ⟨⟩⟩
    · exact fun h => absurd h.1 hrefusal.not_compilable
  · rw [hrun]
    constructor
    · rintro ⟨r, ⟨⟩⟩
    · exact fun h => absurd hname h.2

theorem Reachable.refusal_of_error (he : Reachable e) (hp : p.WellFormed) {shape : Shape}
    {name : String} {cause : Cause} (h : e.compileAs p shape name = .error cause) :
    p.Refusal shape cause ∨ cause = .exportedImport name ∧ name ∈ p.importedLinks := by
  rcases he.compileAs_cases hp shape name with
    ⟨statements, links, hrun, -⟩ | ⟨cause', hrun, hrefusal⟩ | ⟨hrun, -, hname⟩
  · rw [hrun] at h
    cases h
  · rw [hrun] at h
    cases h
    exact .inl hrefusal
  · rw [hrun] at h
    cases h
    exact .inr ⟨rfl, hname⟩

theorem Reachable.within_of_compileAs (he : Reachable e) (hp : p.WellFormed) {shape : Shape}
    {name : String} {f : Compiled} {e' : Engine} (h : e.compileAs p shape name = .ok (f, e')) :
    f.inputs = p.inputs ∧ f.statements.length = p.outputs ∧
      ∀ c ∈ f.statements, c.Within f.inputs.length f.outputs := by
  rcases he.compileAs_cases hp shape name with
    ⟨statements, links, hrun, -, -, hlowered⟩ | ⟨cause, hrun, -⟩ | ⟨hrun, -⟩
  · rw [hrun] at h
    cases h
    have hlength : statements.length = p.outputs := by
      rw [← hlowered.length_eq, hp.length_trees]
    refine ⟨rfl, hlength, fun c hc => ?_⟩
    change c.Within p.inputs.length statements.length
    rw [hlength]
    obtain ⟨i, rfl⟩ := List.get_of_mem hc
    have hi : i.val < p.trees.length := by
      rw [hlowered.length_eq]
      exact i.isLt
    exact ((List.forall₂_iff_get.mp hlowered).2 i hi i.isLt).within
  · rw [hrun] at h
    cases h
  · rw [hrun] at h
    cases h

theorem defaultName_not_imported (p : Program) (handle : Nat) :
    defaultName handle ∉ p.importedLinks :=
  Routine.defaultName_not_mem _ handle

/-- Any engine compiles a statement list that was read exactly if its shape has the kinds of all
variables and no string and no table name stands in the place of a number; for an export under a
given name, that name must not be imported either. All refusals are about the code, and code that
comes out reaches no slot beyond those of the statements. -/
theorem compile_iff_compilable {text : String} {p : Program} {e : Engine} (shape : Shape)
    (name : String) (hp : Program.parse text = .ok p) (he : Reachable e) :
    ((∃ r, e.compile p shape = .ok r) ↔ p.Compilable shape) ∧
    ((∃ r, e.compileAs p shape name = .ok r) ↔ p.Compilable shape ∧ name ∉ p.importedLinks) ∧
    (∀ cause, e.compile p shape = .error cause →
      cause.kind = .coding ∧ p.Refusal shape cause) ∧
    (∀ cause, e.compileAs p shape name = .error cause → cause.kind = .coding ∧
      (p.Refusal shape cause ∨ cause = .exportedImport name ∧ name ∈ p.importedLinks)) ∧
    ∀ f e', e.compileAs p shape name = .ok (f, e') →
      f.inputs = p.inputs ∧ f.statements.length = p.outputs ∧
        ∀ c ∈ f.statements, c.Within f.inputs.length f.outputs := by
  have hwell := Program.wellFormed_of_parse hp
  have hdefault := defaultName_not_imported p e.nextHandle
  refine ⟨?_, he.exists_compileAs_iff hwell shape name, ?_, ?_, ?_⟩
  · rw [compile, he.exists_compileAs_iff hwell]
    exact and_iff_left hdefault
  · intro cause h
    rcases he.refusal_of_error hwell h with hrefusal | ⟨-, hname⟩
    · exact ⟨hrefusal.kind_eq, hrefusal⟩
    · exact absurd hname hdefault
  · intro cause h
    have hcause := he.refusal_of_error hwell h
    refine ⟨?_, hcause⟩
    rcases hcause with hrefusal | ⟨rfl, -⟩
    · exact hrefusal.kind_eq
    · rfl
  · intro f e' h
    exact he.within_of_compileAs hwell h

/-- A cell that is assigned the size of its table compiles, but not under the name of the routine
that counts its cells. -/
theorem compile_assigned_size :
    ∃ p, Program.parse "$s1[$f2]=size(\"$s1\")" = .ok p ∧ Reachable (new {}) ∧
      (∃ r, (new {}).compile p .scalar = .ok r) ∧
      ¬ ∃ r, (new {}).compileAs p .scalar "jit_expr_table_size" = .ok r := by
  have hparse : ((Program.parse "$s1[$f2]=size(\"$s1\")").map Program.trees).toOption =
      some [.assignCell (.slot ⟨.symbol, 0⟩) (.var ⟨.float, 1⟩)
        (.call .size [.quotedVar ⟨.symbol, 0⟩])] := by
    cbv
  cases hp : Program.parse "$s1[$f2]=size(\"$s1\")" with
  | error cause => simp [hp, Except.map, Except.toOption] at hparse
  | ok p =>
      have htrees := Option.some.inj (hp ▸ hparse : some p.trees = _)
      have hcompile := compile_iff_compilable .scalar "jit_expr_table_size" hp (.new {})
      have himported : "jit_expr_table_size" ∈ p.importedLinks := by
        rw [Program.importedLinks, htrees]
        decide
      refine ⟨p, rfl, .new {}, hcompile.1.mpr ⟨?_, ?_, ?_⟩, fun h => ?_⟩
      · rw [Program.vars, htrees]
        decide
      · simp [htrees, Expr.IsQuotation]
      · simp [htrees, Expr.bareVars, Expr.bareVarsOfAll]
      · exact (hcompile.2.1.mp h).2 himported

end Engine

end SignalExpr
