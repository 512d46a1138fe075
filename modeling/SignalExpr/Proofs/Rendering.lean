import SignalExpr.Proofs.Legibility
import SignalExpr.Proofs.Printing
import SignalExpr.Proofs.WrittenVariables

/-!
Rendered statement lists can be read back. The text of a list is an outline with one node for each
statement and for each part of a tree, and two legible trees with the same outline are equal.
-/

namespace SignalExpr

open Outline (IsWord Label)

/-- A node that ends with a type. -/
def Outline.typed (heading word : String) (type : ValueType) (parts : List Outline) : Outline :=
  .node (.words [heading, word, ":", type.name]) parts

def Variable.outline (v : Variable) : Outline :=
  .typed "var" v.text v.type []

/-- The name of a table that is given by one. -/
def TableRef.names : TableRef → List String
  | named name => [name]
  | slot _ => []

/-- The outline of a table cell: its table, by name or by variable, and its index. -/
def TableRef.outline (table : TableRef) (index : Outline) : Outline :=
  .node (.words ("table" :: table.names)) (table.vars.map Variable.outline ++ [index])

namespace Expr

mutual

/-- The outline of a tree. -/
def outline : Expr → Outline
  | var v => v.outline
  | int n => .typed "const" (toString n) .int []
  | float x => .typed "const" (Sample.Layout.constant.write x) .float []
  | quoted text => .node (.quoted text) []
  | quotedVar v => .node (.words ["quoted"]) [v.outline]
  | unary op e => .typed "unary" op.mark e.type [e.outline]
  | binary op l r => .typed "binary" op.mark (l.type.join r.type) [l.outline, r.outline]
  | call f args => .typed "call" f.name (f.type (types args)) (outlines args)
  | history v offset => .node (.words ["history"]) [v.outline, offset.outline]
  | cell table index => table.outline index.outline
  | readCell table index => .node (.words ["read"]) [table.outline index.outline]
  | assignCell table index v =>
      .typed "assign" "cell" v.type [table.outline index.outline, v.outline]
  | value name => .node (.words ["value", name]) []
  | assign name v => .typed "assign" name v.type [v.outline]

def outlines : List Expr → List Outline
  | [] => []
  | e :: es => e.outline :: outlines es

end

/-! ### Rendering writes the outline -/

theorem lines_node (indent : Nat) (label : Label) (parts : List Outline) :
    Outline.lines indent (.node label parts) =
      (line indent label.text).toList ++ Outline.linesAll (indent + 1) parts := by
  simp [Outline.lines, line]

theorem lines_typed (indent : Nat) (heading word : String) (type : ValueType)
    (parts : List Outline) : Outline.lines indent (.typed heading word type parts) =
      (line indent (heading ++ " " ++ word ++ " : " ++ type.name)).toList
        ++ Outline.linesAll (indent + 1) parts := by
  simp [Outline.typed, lines_node, line, Label.text]

theorem toList_renderVariable (indent : Nat) (v : Variable) :
    (renderVariable indent v).toList = v.outline.lines indent := by
  simp [Variable.outline, lines_typed, renderVariable, line, Outline.linesAll]

theorem toList_renderTable (indent : Nat) (table : TableRef) (index : Outline) :
    (renderTable indent table).toList ++ index.lines (indent + 1) =
      (table.outline index).lines indent := by
  cases table with
  | named name =>
      simp [TableRef.outline, TableRef.names, TableRef.vars, lines_node, renderTable, line,
        Label.text, Outline.linesAll]
  | slot v =>
      simp [TableRef.outline, TableRef.names, TableRef.vars, lines_node, renderTable, line,
        Label.text, Outline.linesAll, toList_renderVariable]

mutual

theorem toList_render (indent : Nat) (e : Expr) :
    (e.render indent).toList = e.outline.lines indent := by
  cases e with
  | var v => exact toList_renderVariable indent v
  | int n | float x =>
      simp [outline, lines_typed, render, line, Outline.linesAll, ValueType.name]
  | quoted text | value name =>
      simp [outline, lines_node, render, line, Label.text, Outline.linesAll]
  | quotedVar v =>
      simp [outline, lines_node, render, line, Label.text, Outline.linesAll, toList_renderVariable]
  | unary op e | assign name e =>
      simp [outline, lines_typed, render, line, Outline.linesAll, toList_render (indent + 1) e]
  | binary op l r =>
      simp [outline, lines_typed, render, line, Outline.linesAll, toList_render (indent + 1) l,
        toList_render (indent + 1) r]
  | call f args =>
      simp [outline, lines_typed, render, line, toList_renderAll (indent + 1) args]
  | history v offset =>
      simp [outline, lines_node, render, line, Label.text, Outline.linesAll, toList_renderVariable,
        toList_render (indent + 1) offset]
  | cell table index =>
      rw [render, String.toList_append, toList_render, toList_renderTable]
      rfl
  | readCell table index =>
      simp [outline, lines_node, render, line, Label.text, Outline.linesAll, ← toList_renderTable,
        toList_render (indent + 2) index]
  | assignCell table index v =>
      simp [outline, lines_typed, render, line, Outline.linesAll, ← toList_renderTable,
        toList_render (indent + 2) index, toList_render (indent + 1) v]

theorem toList_renderAll (indent : Nat) (es : List Expr) :
    (renderAll indent es).toList = Outline.linesAll indent (outlines es) := by
  cases es with
  | nil => simp [renderAll, outlines, Outline.linesAll]
  | cons e es =>
      simp [renderAll, outlines, Outline.linesAll, toList_render indent e,
        toList_renderAll indent es]

end

end Expr

/-! ### The words of an outline -/

/-- The fixed words of outlines. -/
def Outline.headings : List String :=
  ["var", "const", "quoted", "unary", "binary", "call", "history", "table", "read", "assign",
   "cell", "value", "statement", ":"]

theorem Outline.isWord_heading {w : String} (h : w ∈ headings := by simp [Outline.headings]) :
    IsWord w := by
  fin_cases h <;> simp [IsWord, isWordChar]

theorem ValueType.isWord_name (t : ValueType) : IsWord t.name := by
  cases t <;> simp [name, IsWord, Outline.isWordChar]

theorem UnaryOp.isWord_mark (op : UnaryOp) : IsWord op.mark := by
  cases op <;> simp [mark, IsWord, Outline.isWordChar]

theorem BinaryOp.isWord_mark (op : BinaryOp) : IsWord op.mark := by
  cases op <;> simp [mark, IsWord, Outline.isWordChar]

theorem Builtin.isWord_name (f : Builtin) : IsWord f.name := by
  cases f with
  | unary f => cases f <;> simp [name, UnaryFunction.name, IsWord, Outline.isWordChar]
  | binary f => cases f <;> simp [name, BinaryFunction.name, IsWord, Outline.isWordChar]
  | _ => simp [name, IsWord, Outline.isWordChar]

theorem Variable.isWord_text (v : Variable) : IsWord v.text := by
  have hletter : v.kind.letter.isAlphanum = true := by cases v.kind <;> rfl
  refine @Outline.isWord_of_chars (fun c => c.isAlphanum || c == '$') _ (by simp [text, chars])
    ?_ (by decide)
  rw [text, String.toList_ofList, chars, List.forall_mem_cons, List.forall_mem_cons]
  refine ⟨rfl, by simp [hletter], fun c hc => ?_⟩
  simp [Char.isAlphanum, Text.isDigit_of_mem_digits hc]

theorem isWord_toString_int (n : Int) : IsWord (toString n) :=
  Outline.isWord_of_chars (Sample.toString_int_ne_nil n) (Sample.isNumberChar_toString_int n)
    (by decide)

theorem isWord_write (layout : Sample.Layout) (x : Sample) : IsWord (layout.write x) :=
  Outline.isWord_of_chars (layout.write_ne_nil x) (layout.isNumberChar_write x) (by decide)

theorem Outline.readable_typed {heading word : String} (hheading : IsWord heading)
    (hword : IsWord word) (type : ValueType) {parts : List Outline} (hparts : AllReadable parts) :
    (typed heading word type parts).Readable := by
  refine ⟨⟨by simp, ?_⟩, hparts⟩
  simp only [List.forall_mem_cons]
  exact ⟨hheading, hword, isWord_heading, type.isWord_name, by simp⟩

theorem Variable.readable_outline (v : Variable) : v.outline.Readable :=
  Outline.readable_typed Outline.isWord_heading v.isWord_text v.type trivial

theorem TableRef.readable_outline {table : TableRef} {index : Outline} (h : table.Legible)
    (hindex : index.Readable) : (table.outline index).Readable := by
  have htable : IsWord "table" := Outline.isWord_heading
  cases table with
  | named name =>
      exact ⟨⟨by simp, by simpa [names] using ⟨htable, h⟩⟩, hindex, trivial⟩
  | slot v =>
      exact ⟨⟨by simp, by simpa [names] using htable⟩, v.readable_outline, hindex, trivial⟩

namespace Expr

mutual

theorem readable_outline (e : Expr) (h : e.Legible) : e.outline.Readable := by
  have hheading {w : String} {parts : List Outline} (hw : IsWord w)
      (hparts : Outline.AllReadable parts) : (Outline.node (.words [w]) parts).Readable :=
    ⟨⟨by simp, by simpa using hw⟩, hparts⟩
  cases e with
  | var v => exact v.readable_outline
  | int n =>
      exact Outline.readable_typed Outline.isWord_heading (isWord_toString_int n) _ trivial
  | float x => exact Outline.readable_typed Outline.isWord_heading (isWord_write _ x) _ trivial
  | quoted text => exact ⟨h, trivial⟩
  | quotedVar v => exact hheading Outline.isWord_heading ⟨v.readable_outline, trivial⟩
  | unary op e =>
      exact Outline.readable_typed Outline.isWord_heading op.isWord_mark _
        ⟨readable_outline e h, trivial⟩
  | binary op l r =>
      exact Outline.readable_typed Outline.isWord_heading op.isWord_mark _
        ⟨readable_outline l h.1, readable_outline r h.2, trivial⟩
  | call f args =>
      exact Outline.readable_typed Outline.isWord_heading f.isWord_name _
        (allReadable_outlines args h)
  | history v offset =>
      exact hheading Outline.isWord_heading
        ⟨v.readable_outline, readable_outline offset h, trivial⟩
  | cell table index => exact TableRef.readable_outline h.1 (readable_outline index h.2)
  | readCell table index =>
      exact hheading Outline.isWord_heading
        ⟨TableRef.readable_outline h.1 (readable_outline index h.2), trivial⟩
  | assignCell table index v =>
      exact Outline.readable_typed Outline.isWord_heading Outline.isWord_heading _
        ⟨TableRef.readable_outline h.1 (readable_outline index h.2.1), readable_outline v h.2.2,
          trivial⟩
  | value name =>
      have hvalue : IsWord "value" := Outline.isWord_heading
      exact ⟨⟨by simp, by simpa using ⟨hvalue, h⟩⟩, trivial⟩
  | assign name v =>
      exact Outline.readable_typed Outline.isWord_heading h.1 _
        ⟨readable_outline v h.2, trivial⟩

theorem allReadable_outlines (es : List Expr) (h : AllLegible es) :
    Outline.AllReadable (outlines es) := by
  cases es with
  | nil => trivial
  | cons e es => exact ⟨readable_outline e h.1, allReadable_outlines es h.2⟩

end

end Expr

/-! ### Trees are known from their outlines -/

theorem UnaryOp.mark_injective : Function.Injective UnaryOp.mark := by
  intro op other h
  have hread (op : UnaryOp) : UnaryOp.ofMark? op.mark = some op := by cases op <;> rfl
  exact Option.some.inj ((hread op).symm.trans (h ▸ hread other))

theorem BinaryOp.mark_injective : Function.Injective BinaryOp.mark := by
  intro op other h
  have hread (op : BinaryOp) : BinaryOp.ofMark? op.mark = some op := by cases op <;> rfl
  exact Option.some.inj ((hread op).symm.trans (h ▸ hread other))

theorem Builtin.name_injective : Function.Injective Builtin.name := by
  intro f g h
  exact Option.some.inj ((Builtin.ofName?_name f).symm.trans (h ▸ Builtin.ofName?_name g))

theorem Outline.typed_injective {heading heading' word word' : String} {t t' : ValueType}
    {parts parts' : List Outline}
    (h : typed heading word t parts = typed heading' word' t' parts') :
    word = word' ∧ parts = parts' := by
  simp only [typed, node.injEq, Label.words.injEq, List.cons.injEq] at h
  exact ⟨h.1.2.1, h.2⟩

theorem Variable.outline_injective : Function.Injective Variable.outline :=
  fun _ _ h => text_injective (Outline.typed_injective h).1

theorem TableRef.outline_injective {table table' : TableRef} {index index' : Outline}
    (h : table.outline index = table'.outline index') : table = table' ∧ index = index' := by
  cases table with
  | named name =>
      cases table' with
      | named name' => simpa [outline, names, vars] using h
      | slot w => simp [outline, names, vars] at h
  | slot v =>
      cases table' with
      | named name' => simp [outline, names, vars] at h
      | slot w =>
          obtain ⟨hvariable, hindex⟩ : v.outline = w.outline ∧ index = index' := by
            simpa [outline, names, vars] using h
          exact ⟨congrArg slot (Variable.outline_injective hvariable), hindex⟩

namespace Expr

mutual

theorem outline_injective (e e' : Expr) (he : e.Legible) (he' : e'.Legible)
    (h : e.outline = e'.outline) : e = e' := by
  -- The headings tell the kinds of nodes apart, the types whole numbers from samples, and the
  -- number of parts a cell from a name.
  cases e with
  | var v =>
      cases e' with
      | var v' => rw [Variable.outline_injective h]
      | _ => simp [outline, Outline.typed, Variable.outline, TableRef.outline] at h
  | int n =>
      cases e' with
      | int n' => rw [Sample.toString_int_injective (Outline.typed_injective h).1]
      | _ => simp [outline, Outline.typed, Variable.outline, TableRef.outline, ValueType.name] at h
  | float x =>
      cases e' with
      | float x' =>
          obtain ⟨v, rfl⟩ := he
          obtain ⟨v', rfl⟩ := he'
          rw [Sample.Layout.constant.write_ofValue_injective (Outline.typed_injective h).1]
      | _ => simp [outline, Outline.typed, Variable.outline, TableRef.outline, ValueType.name] at h
  | quoted text =>
      cases e' with
      | quoted text' => simpa [outline] using h
      | _ => simp [outline, Outline.typed, Variable.outline, TableRef.outline] at h
  | quotedVar v =>
      cases e' with
      | quotedVar v' =>
          have hparts : v.outline = v'.outline := by simpa [outline] using h
          rw [Variable.outline_injective hparts]
      | _ => simp [outline, Outline.typed, Variable.outline, TableRef.outline] at h
  | unary op x =>
      cases e' with
      | unary op' x' =>
          obtain ⟨hop, hparts⟩ := Outline.typed_injective h
          rw [UnaryOp.mark_injective hop, outline_injective x x' he he' (by simpa using hparts)]
      | _ => simp [outline, Outline.typed, Variable.outline, TableRef.outline] at h
  | binary op l r =>
      cases e' with
      | binary op' l' r' =>
          obtain ⟨hop, hparts⟩ := Outline.typed_injective h
          obtain ⟨hl, hr⟩ : l.outline = l'.outline ∧ r.outline = r'.outline := by
            simpa using hparts
          rw [BinaryOp.mark_injective hop, outline_injective l l' he.1 he'.1 hl,
            outline_injective r r' he.2 he'.2 hr]
      | _ => simp [outline, Outline.typed, Variable.outline, TableRef.outline] at h
  | call f args =>
      cases e' with
      | call f' args' =>
          obtain ⟨hf, hargs⟩ := Outline.typed_injective h
          rw [Builtin.name_injective hf, outlines_injective args args' he he' hargs]
      | _ => simp [outline, Outline.typed, Variable.outline, TableRef.outline] at h
  | history v x =>
      cases e' with
      | history v' x' =>
          obtain ⟨hv, hx⟩ : v.outline = v'.outline ∧ x.outline = x'.outline := by
            simpa [outline] using h
          rw [Variable.outline_injective hv, outline_injective x x' he he' hx]
      | _ => simp [outline, Outline.typed, Variable.outline, TableRef.outline] at h
  | cell table x =>
      cases e' with
      | cell table' x' =>
          obtain ⟨rfl, hx⟩ := TableRef.outline_injective h
          rw [outline_injective x x' he.2 he'.2 hx]
      | _ => simp [outline, Outline.typed, Variable.outline, TableRef.outline] at h
  | readCell table x =>
      cases e' with
      | readCell table' x' =>
          have hcell : table.outline x.outline = table'.outline x'.outline := by
            simpa [outline] using h
          obtain ⟨rfl, hx⟩ := TableRef.outline_injective hcell
          rw [outline_injective x x' he.2 he'.2 hx]
      | _ => simp [outline, Outline.typed, Variable.outline, TableRef.outline] at h
  | assignCell table x v =>
      cases e' with
      | assignCell table' x' v' =>
          obtain ⟨hcell, hv⟩ : table.outline x.outline = table'.outline x'.outline ∧
              v.outline = v'.outline := by simpa using (Outline.typed_injective h).2
          obtain ⟨rfl, hx⟩ := TableRef.outline_injective hcell
          rw [outline_injective x x' he.2.1 he'.2.1 hx, outline_injective v v' he.2.2 he'.2.2 hv]
      | _ => simp [outline, Outline.typed, Variable.outline, TableRef.outline] at h
  | value name =>
      cases e' with
      | value name' => simpa [outline] using h
      | _ => simp [outline, Outline.typed, Variable.outline, TableRef.outline] at h
  | assign name v =>
      cases e' with
      | assign name' v' =>
          obtain ⟨rfl, hparts⟩ := Outline.typed_injective h
          rw [outline_injective v v' he.2 he'.2 (by simpa using hparts)]
      | _ => simp [outline, Outline.typed, Variable.outline, TableRef.outline] at h

theorem outlines_injective (es es' : List Expr) (hes : AllLegible es) (hes' : AllLegible es')
    (h : outlines es = outlines es') : es = es' := by
  cases es with
  | nil =>
      cases es' with
      | nil => rfl
      | cons e' es' => cases h
  | cons e es =>
      cases es' with
      | nil => cases h
      | cons e' es' =>
          obtain ⟨hhead, htail⟩ := List.cons.inj h
          rw [outline_injective e e' hes.1 hes'.1 hhead,
            outlines_injective es es' hes.2 hes'.2 htail]

end

end Expr

/-! ### Statement lists -/

namespace Program

/-- The outlines of numbered statements. -/
def numbered : Nat → List Expr → List Outline
  | _, [] => []
  | n, e :: es =>
      .node (.words ["statement", toString n ++ ":"]) [e.outline] :: numbered (n + 1) es

theorem toList_renderFrom (n : Nat) (es : List Expr) :
    (renderFrom n es).toList = Outline.linesAll 0 (numbered n es) := by
  induction es generalizing n with
  | nil => simp [renderFrom, numbered, Outline.linesAll]
  | cons e es ih =>
      have hfirst : renderFrom n (e :: es) =
          "statement " ++ toString n ++ ":\n" ++ e.render 1 ++ renderFrom (n + 1) es := rfl
      simp [hfirst, numbered, Outline.linesAll, Outline.lines, Label.text, ih, Expr.toList_render]

theorem allReadable_numbered (n : Nat) {es : List Expr} (h : Expr.AllLegible es) :
    Outline.AllReadable (numbered n es) := by
  induction es generalizing n with
  | nil => trivial
  | cons e es ih =>
      have hstatement : IsWord "statement" := Outline.isWord_heading
      have hnumber : IsWord (toString n ++ ":") := by
        refine @Outline.isWord_of_chars (fun c => c.isDigit || c == ':') _ (by simp) ?_ (by decide)
        rw [String.toList_append, List.forall_mem_append]
        refine ⟨fun c hc => ?_, by simp⟩
        rw [Nat.toString_eq_repr, Nat.toList_repr] at hc
        simp [Text.isDigit_of_mem_digits hc]
      exact ⟨⟨⟨by simp, by simpa using ⟨hstatement, hnumber⟩⟩, e.readable_outline h.1, trivial⟩,
        ih (n + 1) h.2⟩

theorem outlines_of_numbered {n : Nat} {es es' : List Expr} (h : numbered n es = numbered n es') :
    Expr.outlines es = Expr.outlines es' := by
  induction es generalizing n es' with
  | nil =>
      cases es' with
      | nil => rfl
      | cons e' es' => cases h
  | cons e es ih =>
      cases es' with
      | nil => cases h
      | cons e' es' =>
          obtain ⟨hhead, htail⟩ := List.cons.inj h
          obtain ⟨-, hparts⟩ := Outline.node.inj hhead
          rw [Expr.outlines, Expr.outlines, (List.cons.inj hparts).1, ih htail]

end Program

theorem Reader.allLegible_trees {r : Reader} {text : String} {p : Program}
    (h : (r.parse text).1 = .ok p) : Expr.AllLegible p.trees ∧ p.trees.length = p.outputs := by
  obtain ⟨ts, hlex, hparse⟩ := exists_tokens_of_ok h
  obtain ⟨ds, es, hds, hadmits, -, hroots⟩ := Parser.exists_derivation_of_parse hparse
  have htrees : p.trees = es := Program.trees_eq hroots p.inputs
  rw [htrees]
  exact ⟨hds.allLegible hadmits (Lexer.legible_of_tokenize hlex), hroots.length_eq.symm⟩

/-- Two accepted texts that are rendered alike have the same number of statements, and the trees of
these are the same. -/
theorem Reader.eq_of_render_eq (r r' : Reader) (text text' : String) (p p' : Program)
    (h : (r.parse text).1 = .ok p) (h' : (r'.parse text').1 = .ok p')
    (heq : p.render = p'.render) : p.outputs = p'.outputs ∧ p.trees = p'.trees := by
  obtain ⟨hlegible, hlength⟩ := allLegible_trees h
  obtain ⟨hlegible', hlength'⟩ := allLegible_trees h'
  have hlines : Outline.linesAll 0 (Program.numbered 1 p.trees) ++ [] =
      Outline.linesAll 0 (Program.numbered 1 p'.trees) ++ [] := by
    rw [← Program.toList_renderFrom, ← Program.toList_renderFrom]
    exact congrArg (·.toList ++ []) heq
  obtain ⟨hnumbered, -⟩ := Outline.linesAll_injective _ _ (Program.allReadable_numbered 1 hlegible)
    (Program.allReadable_numbered 1 hlegible') (Outline.outside_nil 0) (Outline.outside_nil 0)
    hlines
  have htrees := Expr.outlines_injective _ _ hlegible hlegible'
    (Program.outlines_of_numbered hnumbered)
  exact ⟨by rw [← hlength, ← hlength', htrees], htrees⟩

/-- A quoted text of two lines, and an assignment that reads like one to a cell. -/
theorem Reader.eq_of_render_eq_quoted : ∃ p p',
    (Reader.parse {} "cell=size(\"a\n b\")").1 = .ok p ∧
    (Reader.parse {} "cell=size((\"a\n b\"))").1 = .ok p' ∧
    p.render = p'.render ∧ p.render =
      "statement 1:\n  assign cell : float\n    call size : float\n      quoted \"a\n b\"\n" ∧
    p.outputs = p'.outputs ∧ p.trees = p'.trees := by
  generalize htext : "cell=size(\"a\n b\")" = text
  generalize htext' : "cell=size((\"a\n b\"))" = text'
  have hread : (((Reader.parse {} text).1.map Program.trees).toOption =
        some [.assign "cell" (.call .size [.quoted "a\n b"])]) ∧
      ((Reader.parse {} text').1.map Program.trees).toOption =
        some [.assign "cell" (.call .size [.quoted "a\n b"])] := by
    subst htext htext'
    refine ⟨?_, ?_⟩ <;> cbv
  cases hp : (Reader.parse {} text).1 with
  | error e => simp [hp, Except.map, Except.toOption] at hread
  | ok p =>
      cases hp' : (Reader.parse {} text').1 with
      | error e => simp [hp', Except.map, Except.toOption] at hread
      | ok p' =>
          rw [hp, hp'] at hread
          have hsame : p.render = p'.render := by
            rw [Program.render, Program.render, Option.some.inj hread.1, Option.some.inj hread.2]
          refine ⟨p, p', rfl, rfl, hsame, ?_,
            Reader.eq_of_render_eq {} {} _ _ p p' hp hp' hsame⟩
          rw [Program.render, Option.some.inj hread.1]
          rfl

end SignalExpr
