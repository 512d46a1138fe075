import Mathlib
import SignalExpr.Proofs.StatementGrammar
import SignalExpr.Proofs.VariableTexts
import SignalExpr.Token.Lexer

/-!
Trees are written with parentheses only where the levels of the operators need them, and are read
back as they were. No tokens that are read as the same trees are fewer or nest less deep, so what
can be read at all can be read in this form.
-/

namespace SignalExpr

/-! ### The written form -/

namespace Derivation

/-- The phrase where a level is asked for, in parentheses if it is looser than that. -/
def atLevel (level : Nat) (d : Derivation) : Derivation :=
  if level ≤ d.level then d else .parenthesized d

end Derivation

/-- A cell of a table. -/
def TableRef.phrase (table : TableRef) (index : Derivation) : Derivation :=
  match table with
  | named name => .namedCell name index
  | slot v => .indexedSigil v.text index

namespace Expr

mutual

/-- The phrase that writes a tree. The right operand of an operator stands one level tighter than
the left one. -/
def phrase : Expr → Derivation
  | var v => .sigil v.text
  | int n => .integer n.toNat
  | float x => .number x
  | quoted text => .string text
  | quotedVar v => .string v.text
  | unary op e => .prefixed op (e.phrase.atLevel 11)
  | binary op l r => .binary op (l.phrase.atLevel op.level) (r.phrase.atLevel (op.level + 1))
  | call f args => .call f.name (phrases args)
  | history v offset => .indexedSigil v.text offset.phrase
  | cell table index | readCell table index => table.phrase index.phrase
  | assignCell table index v => .assignment (table.phrase index.phrase) v.phrase
  | value name => .name name
  | assign name v => .assignment (.name name) v.phrase

def phrases : List Expr → List Derivation
  | [] => []
  | e :: es => e.phrase :: phrases es

end

/-- The tokens that write statements, with commas between them. -/
def printed (es : List Expr) : List TokenKind :=
  Derivation.argumentTokens (phrases es)

mutual

/-- Trees that have a written form: whole numbers have no sign, quoted text does not look like a
variable, and a cell is read or assigned. -/
def Writable : Expr → Prop
  | float _ | value _ => True
  | int n => 0 ≤ n
  | quoted text => text.toList.head? ≠ some '$'
  | cell _ _ => False
  | var v | quotedVar v => v.Writable
  | unary _ e | assign _ e => e.Writable
  | binary _ l r => l.Writable ∧ r.Writable
  | call _ args => AllWritable args
  | history v offset => v.Writable ∧ offset.Writable
  | readCell table index => (∀ v ∈ table.vars, v.Writable) ∧ index.Writable
  | assignCell table index v =>
      (∀ v ∈ table.vars, v.Writable) ∧ index.Writable ∧ v.Writable

def AllWritable : List Expr → Prop
  | [] => True
  | e :: es => e.Writable ∧ AllWritable es

end

/-- The tree has a written form within the limits. -/
structure Printable (e : Expr) : Prop where
  writable : e.Writable
  wellTyped : e.WellTyped
  depth_le : e.depth ≤ 256
  nesting_le : 1 + e.phrase.nesting ≤ 64

end Expr

/-! ### The written form has the tree that it was made from -/

theorem Variable.ofText?_text {v : Variable} (h : v.Writable) : ofText? v.text = some v := by
  rw [ofText?, parse_text h]
  rfl

theorem Variable.writable_of_ofText? {text : String} {v : Variable} (h : ofText? text = some v) :
    v.Writable :=
  writable_of_parse (parse_of_ofText? h)

theorem Builtin.ofName?_name (f : Builtin) : ofName? f.name = some f := by
  cases f with
  | unary f => cases f <;> rfl
  | binary f => cases f <;> rfl
  | _ => rfl

namespace Derivation

variable {k : Nat} {d : Derivation}

theorem atLevel_of_le (h : k ≤ d.level) : d.atLevel k = d := if_pos h

theorem le_level_atLevel (hk : k ≤ 12) : k ≤ (d.atLevel k).level := by
  rw [atLevel]
  split
  next h => exact h
  next => exact hk

theorem Grouped.atLevel (h : d.Grouped) : (d.atLevel k).Grouped := by
  rw [Derivation.atLevel]
  split
  next => exact h
  next => exact h

@[simp] theorem tree?_atLevel : (d.atLevel k).tree? = d.tree? := by
  rw [atLevel]
  split
  next => rfl
  next => rw [tree?]

end Derivation

namespace Expr

open SignalExpr.Derivation

theorem grouped_cell (table : TableRef) {index : Derivation} (h : index.Grouped) :
    (table.phrase index).Grouped := by
  cases table <;> exact h

@[simp] theorem level_cell (table : TableRef) (index : Derivation) :
    (table.phrase index).level = 12 := by
  cases table <;> rfl

mutual

theorem grouped_phrase (e : Expr) : e.phrase.Grouped := by
  cases e with
  | var | int | float | quoted | quotedVar | value => simp only [phrase, Grouped]
  | unary op e =>
      rw [phrase, Grouped]
      exact ⟨e.grouped_phrase.atLevel, le_level_atLevel (by decide)⟩
  | binary op l r =>
      have hlevel := op.level_le
      rw [phrase, Grouped]
      exact ⟨⟨l.grouped_phrase.atLevel, le_level_atLevel (by omega)⟩,
        r.grouped_phrase.atLevel, le_level_atLevel (by omega)⟩
  | call f args =>
      rw [phrase, Grouped]
      exact allGrouped_phrases args
  | history v offset =>
      rw [phrase, Grouped]
      exact offset.grouped_phrase
  | cell table index | readCell table index =>
      rw [phrase]
      exact grouped_cell table index.grouped_phrase
  | assignCell table index v =>
      rw [phrase, Grouped, level_cell]
      exact ⟨⟨grouped_cell table index.grouped_phrase, by decide⟩, v.grouped_phrase⟩
  | assign name v =>
      rw [phrase, Grouped]
      exact ⟨⟨trivial, by simp [level]⟩, v.grouped_phrase⟩

theorem allGrouped_phrases (es : List Expr) : AllGrouped (phrases es) := by
  cases es with
  | nil => trivial
  | cons e es => exact ⟨e.grouped_phrase, allGrouped_phrases es⟩

end

theorem tree?_cell {table : TableRef} {index : Derivation} {x : Expr}
    (htable : table.Readable) (hvars : ∀ v ∈ table.vars, v.Writable)
    (hindex : index.tree? = some x) :
    (table.phrase index).tree? = some (.readCell table x) := by
  cases table with
  | named name => simp [TableRef.phrase, tree?, hindex]
  | slot v =>
      have hkind : v.kind.hasHistory = false := by
        rcases htable with h | h <;> rw [h] <;> rfl
      simp [TableRef.phrase, tree?, hindex, indexed, hkind,
        Variable.ofText?_text (hvars v (by simp [TableRef.vars]))]

mutual

theorem tree?_phrase (e : Expr) (hw : e.Writable) (ht : e.WellTyped) :
    e.phrase.tree? = some e := by
  cases e with
  | float | value => rw [phrase, tree?]
  | int n =>
      rw [Writable] at hw
      rw [phrase, tree?, Int.toNat_of_nonneg hw]
  | quoted text =>
      rw [Writable] at hw
      rw [phrase, tree?, quotation?, if_neg hw]
  | cell => exact absurd hw (by simp [Writable])
  | var v =>
      rw [Writable] at hw
      rw [phrase, tree?, Variable.ofText?_text hw]
      rfl
  | quotedVar v =>
      rw [Writable] at hw
      have hsigil : v.text.toList.head? = some '$' := by simp [Variable.text, Variable.chars]
      rw [phrase, tree?, quotation?, if_pos hsigil, Variable.ofText?_text hw]
      rfl
  | unary op e =>
      rw [Writable] at hw
      rw [WellTyped] at ht
      simp [phrase, tree?, e.tree?_phrase hw ht.1]
  | assign name v =>
      rw [Writable] at hw
      rw [WellTyped] at ht
      simp [phrase, tree?, v.tree?_phrase hw ht.1, assigned?]
  | binary op l r =>
      rw [Writable] at hw
      rw [WellTyped] at ht
      simp [phrase, tree?, l.tree?_phrase hw.1 ht.1.1, r.tree?_phrase hw.2 ht.2.1]
  | call f args =>
      rw [Writable] at hw
      rw [WellTyped] at ht
      simp [phrase, tree?, Builtin.ofName?_name, trees?_phrases args hw ht.1]
  | history v offset =>
      rw [Writable] at hw
      rw [WellTyped] at ht
      simp [phrase, tree?, Variable.ofText?_text hw.1, offset.tree?_phrase hw.2 ht.2.1, indexed,
        ht.1]
  | readCell table index =>
      rw [Writable] at hw
      rw [WellTyped] at ht
      rw [phrase]
      exact tree?_cell ht.1 hw.1 (index.tree?_phrase hw.2 ht.2.1)
  | assignCell table index v =>
      rw [Writable] at hw
      rw [WellTyped] at ht
      have hcell := tree?_cell ht.1.readable hw.1 (index.tree?_phrase hw.2.1 ht.2.1.1)
      simp [phrase, tree?, hcell, v.tree?_phrase hw.2.2 ht.2.2.1, assigned?]

theorem trees?_phrases (es : List Expr) (hw : AllWritable es) (ht : AllWellTyped es) :
    trees? (phrases es) = some es := by
  cases es with
  | nil => rfl
  | cons e es =>
      rw [AllWritable] at hw
      rw [AllWellTyped] at ht
      simp [phrases, trees?, e.tree?_phrase hw.1 ht.1, trees?_phrases es hw.2 ht.2]

end

theorem writable_indexed {v : Variable} {x : Expr} (hv : v.Writable) (hx : x.Writable) :
    (indexed v x).Writable := by
  rw [indexed]
  split
  next => exact ⟨hv, hx⟩
  next => exact ⟨by simpa [TableRef.vars] using hv, hx⟩

theorem writable_of_assigned? {target value e : Expr} (ht : target.Writable) (hv : value.Writable)
    (h : target.assigned? value = some e) : e.Writable := by
  cases target with
  | value name =>
      cases h
      simpa only [Writable] using hv
  | readCell table index =>
      cases h
      simp only [Writable] at ht ⊢
      exact ⟨ht.1, ht.2, hv⟩
  | _ => cases h

mutual

theorem writable_of_tree? (d : Derivation) {e : Expr} (h : d.tree? = some e) : e.Writable := by
  cases d with
  | integer n =>
      cases h
      exact Int.natCast_nonneg n
  | number x | name n =>
      cases h
      trivial
  | string text =>
      rw [tree?, quotation?] at h
      split at h
      next =>
        obtain ⟨v, hv, rfl⟩ := Option.map_eq_some_iff.mp h
        exact Variable.writable_of_ofText? hv
      next hsigil =>
        cases h
        exact hsigil
  | sigil text =>
      obtain ⟨v, hv, rfl⟩ := Option.map_eq_some_iff.mp h
      exact Variable.writable_of_ofText? hv
  | parenthesized d => exact writable_of_tree? d (by simpa only [tree?] using h)
  | call name args =>
      simp only [tree?, Option.bind_eq_bind, Option.bind_eq_some_iff] at h
      obtain ⟨f, -, es, hes, ⟨⟩⟩ := h
      exact allWritable_of_trees? args hes
  | namedCell name d =>
      simp only [tree?, Option.bind_eq_bind, Option.bind_eq_some_iff] at h
      obtain ⟨x, hx, ⟨⟩⟩ := h
      exact ⟨by simp [TableRef.vars], writable_of_tree? d hx⟩
  | indexedSigil text d =>
      simp only [tree?, Option.bind_eq_bind, Option.bind_eq_some_iff] at h
      obtain ⟨v, hv, x, hx, ⟨⟩⟩ := h
      exact writable_indexed (Variable.writable_of_ofText? hv) (writable_of_tree? d hx)
  | prefixed op d =>
      simp only [tree?, Option.bind_eq_bind, Option.bind_eq_some_iff] at h
      obtain ⟨x, hx, ⟨⟩⟩ := h
      simpa only [Writable] using writable_of_tree? d hx
  | binary op l r =>
      simp only [tree?, Option.bind_eq_bind, Option.bind_eq_some_iff] at h
      obtain ⟨x, hx, y, hy, ⟨⟩⟩ := h
      exact ⟨writable_of_tree? l hx, writable_of_tree? r hy⟩
  | assignment t v =>
      simp only [tree?, Option.bind_eq_bind, Option.bind_eq_some_iff] at h
      obtain ⟨x, hx, y, hy, hassigned⟩ := h
      exact writable_of_assigned? (writable_of_tree? t hx) (writable_of_tree? v hy) hassigned

theorem allWritable_of_trees? (ds : List Derivation) {es : List Expr} (h : trees? ds = some es) :
    AllWritable es := by
  cases ds with
  | nil =>
      cases h
      trivial
  | cons d ds =>
      simp only [trees?, Option.bind_eq_bind, Option.bind_eq_some_iff] at h
      obtain ⟨x, hx, xs, hxs, ⟨⟩⟩ := h
      exact ⟨writable_of_tree? d hx, allWritable_of_trees? ds hxs⟩

end

end Expr

/-! ### No shorter form -/

namespace Derivation

/-- The first phrase takes no more tokens and nests no deeper than the second. -/
structure AtMost (d d' : Derivation) : Prop where
  length_le : d.tokens.length ≤ d'.tokens.length
  nesting_le : d.nesting ≤ d'.nesting

/-- The same for the arguments of a call. -/
structure AllAtMost (ds ds' : List Derivation) : Prop where
  length_le : (argumentTokens ds).length ≤ (argumentTokens ds').length
  moreLength_le : (moreArgumentTokens ds).length ≤ (moreArgumentTokens ds').length
  nesting_le : argumentNesting ds ≤ argumentNesting ds'

section AtMost

variable {k : Nat} {d d' l l' r r' : Derivation} {ds ds' : List Derivation}

theorem AtMost.atLevel (h : AtMost d d') (hk : k ≤ d.level) : AtMost (d.atLevel k) d' := by
  rwa [atLevel_of_le hk]

theorem AtMost.parenthesized (h : AtMost d d') : AtMost (d.atLevel k) (.parenthesized d') := by
  have hlength := h.length_le
  have hnesting := h.nesting_le
  rw [Derivation.atLevel]
  split
  all_goals constructor <;> simp [tokens, nesting] <;> omega

theorem AtMost.indexedSigil (h : AtMost d d') (text text' : String) :
    AtMost (.indexedSigil text d) (.indexedSigil text' d') :=
  ⟨by simpa [tokens] using h.length_le, by simpa [nesting] using h.nesting_le⟩

theorem AtMost.namedCell (h : AtMost d d') (name : String) :
    AtMost (.namedCell name d) (.namedCell name d') :=
  ⟨by simpa [tokens] using h.length_le, by simpa [nesting] using h.nesting_le⟩

theorem AtMost.prefixed (h : AtMost d d') (op : UnaryOp) :
    AtMost (.prefixed op d) (.prefixed op d') :=
  ⟨by simpa [tokens] using h.length_le, by simpa [nesting] using h.nesting_le⟩

theorem AtMost.binary (hl : AtMost l l') (hr : AtMost r r') (op : BinaryOp) :
    AtMost (.binary op l r) (.binary op l' r') := by
  have := hl.length_le
  have := hr.length_le
  have := hl.nesting_le
  have := hr.nesting_le
  constructor <;> simp only [tokens, nesting, List.length_append, List.length_cons] <;> omega

theorem AtMost.assignment (hl : AtMost l l') (hr : AtMost r r') :
    AtMost (.assignment l r) (.assignment l' r') := by
  have := hl.length_le
  have := hr.length_le
  have := hl.nesting_le
  have := hr.nesting_le
  constructor <;> simp only [tokens, nesting, List.length_append, List.length_cons] <;> omega

theorem AllAtMost.call (h : AllAtMost ds ds') (name name' : String) :
    AtMost (.call name ds) (.call name' ds') :=
  ⟨by simpa [tokens] using h.length_le, by simpa [nesting] using h.nesting_le⟩

theorem AllAtMost.cons (h : AtMost d d') (hs : AllAtMost ds ds') :
    AllAtMost (d :: ds) (d' :: ds') := by
  have := h.length_le
  have := h.nesting_le
  have := hs.moreLength_le
  have := hs.nesting_le
  constructor <;>
    simp only [argumentTokens, moreArgumentTokens, argumentNesting, List.length_append,
      List.length_cons] <;> omega

end AtMost

theorem phrase_indexed (v : Variable) (x : Expr) :
    (indexed v x).phrase = .indexedSigil v.text x.phrase := by
  rw [indexed]
  split <;> rw [Expr.phrase]
  rfl

theorem phrase_of_assigned? {target value e : Expr} (h : target.assigned? value = some e) :
    e.phrase = .assignment target.phrase value.phrase := by
  cases target with
  | value name =>
      cases h
      rw [Expr.phrase, Expr.phrase]
  | readCell table index =>
      cases h
      rw [Expr.phrase, Expr.phrase]
  | _ => cases h

mutual

theorem phrase_atMost (d : Derivation) {e : Expr} {k : Nat} (hd : d.Grouped)
    (h : d.tree? = some e) (hk : k ≤ d.level) : AtMost (e.phrase.atLevel k) d := by
  cases d with
  | integer n | number x | name n =>
      cases h
      rw [Expr.phrase]
      exact AtMost.atLevel ⟨Nat.le_refl _, Nat.le_refl _⟩ hk
  | string text =>
      rw [tree?, quotation?] at h
      split at h
      next =>
        obtain ⟨v, hv, rfl⟩ := Option.map_eq_some_iff.mp h
        rw [Expr.phrase]
        exact AtMost.atLevel ⟨Nat.le_refl _, Nat.le_refl _⟩ hk
      next =>
        cases h
        rw [Expr.phrase]
        exact AtMost.atLevel ⟨Nat.le_refl _, Nat.le_refl _⟩ hk
  | sigil text =>
      obtain ⟨v, hv, rfl⟩ := Option.map_eq_some_iff.mp h
      rw [Expr.phrase]
      exact AtMost.atLevel ⟨Nat.le_refl _, Nat.le_refl _⟩ hk
  | parenthesized d =>
      rw [Grouped] at hd
      rw [tree?] at h
      exact (phrase_atMost d hd h (Nat.zero_le _)).parenthesized
  | call name args =>
      simp only [tree?, Option.bind_eq_bind, Option.bind_eq_some_iff] at h
      obtain ⟨f, -, es, hes, ⟨⟩⟩ := h
      rw [Grouped] at hd
      rw [Expr.phrase]
      exact ((phrases_allAtMost args hd hes).call f.name name).atLevel hk
  | namedCell name d =>
      simp only [tree?, Option.bind_eq_bind, Option.bind_eq_some_iff] at h
      obtain ⟨x, hx, ⟨⟩⟩ := h
      rw [Grouped] at hd
      rw [Expr.phrase, TableRef.phrase]
      exact ((phrase_atMost d hd hx (Nat.zero_le _)).namedCell name).atLevel hk
  | indexedSigil text d =>
      simp only [tree?, Option.bind_eq_bind, Option.bind_eq_some_iff] at h
      obtain ⟨v, -, x, hx, ⟨⟩⟩ := h
      rw [Grouped] at hd
      rw [phrase_indexed]
      exact ((phrase_atMost d hd hx (Nat.zero_le _)).indexedSigil v.text text).atLevel hk
  | prefixed op d =>
      simp only [tree?, Option.bind_eq_bind, Option.bind_eq_some_iff] at h
      obtain ⟨x, hx, ⟨⟩⟩ := h
      rw [Grouped] at hd
      rw [Expr.phrase]
      exact ((phrase_atMost d hd.1 hx hd.2).prefixed op).atLevel hk
  | binary op l r =>
      simp only [tree?, Option.bind_eq_bind, Option.bind_eq_some_iff] at h
      obtain ⟨x, hx, y, hy, ⟨⟩⟩ := h
      rw [Grouped] at hd
      have hl := phrase_atMost l hd.1.1 hx hd.1.2
      have hr := phrase_atMost r hd.2.1 hy hd.2.2
      rw [Expr.phrase]
      exact (hl.binary hr op).atLevel hk
  | assignment t v =>
      simp only [tree?, Option.bind_eq_bind, Option.bind_eq_some_iff] at h
      obtain ⟨x, hx, y, hy, hassigned⟩ := h
      rw [Grouped] at hd
      have ht := phrase_atMost t hd.1.1 hx (Nat.zero_le _)
      have hv := phrase_atMost v hd.2 hy (Nat.zero_le _)
      rw [phrase_of_assigned? hassigned]
      exact (ht.assignment hv).atLevel hk

theorem phrases_allAtMost (ds : List Derivation) {es : List Expr} (hds : AllGrouped ds)
    (h : trees? ds = some es) : AllAtMost (Expr.phrases es) ds := by
  cases ds with
  | nil =>
      cases h
      exact ⟨Nat.le_refl _, Nat.le_refl _, Nat.le_refl _⟩
  | cons d ds =>
      simp only [trees?, Option.bind_eq_bind, Option.bind_eq_some_iff] at h
      obtain ⟨x, hx, xs, hxs, ⟨⟩⟩ := h
      exact .cons (phrase_atMost d hds.1 hx (Nat.zero_le _)) (phrases_allAtMost ds hds.2 hxs)

end

theorem tail_moreArgumentTokens (ds : List Derivation) : Tail (moreArgumentTokens ds) ds := by
  induction ds with
  | nil => exact .nil
  | cons d ds ih =>
      rw [moreArgumentTokens, List.cons_append]
      exact .cons d rfl ih

theorem statements_argumentTokens {ds : List Derivation} (h : ds ≠ []) :
    Statements (argumentTokens ds) ds := by
  cases ds with
  | nil => exact absurd rfl h
  | cons d ds => exact .mk d (tail_moreArgumentTokens ds)

theorem Statements.ne_nil {ts : List TokenKind} {ds : List Derivation} (h : Statements ts ds) :
    ds ≠ [] := by
  cases h
  simp

theorem Tail.length_le {rest : List TokenKind} {ds : List Derivation} (h : Tail rest ds) :
    (moreArgumentTokens ds).length ≤ rest.length := by
  induction h with
  | nil => exact Nat.le_refl _
  | semicolon => exact Nat.zero_le _
  | cons d _ _ ih =>
      simp only [moreArgumentTokens, List.length_append, List.length_cons]
      omega

theorem Statements.length_le {ts : List TokenKind} {ds : List Derivation} (h : Statements ts ds) :
    (argumentTokens ds).length ≤ ts.length := by
  obtain ⟨d, htail⟩ := h
  have := htail.length_le
  simp only [argumentTokens, List.length_append]
  omega

theorem Admits.printable {d : Derivation} {e : Expr} (h : Admits d e) : e.Printable := by
  have hnesting := (phrase_atMost d h.grouped h.makes.tree (Nat.zero_le _)).nesting_le
  have hle := h.nesting_le
  refine ⟨Expr.writable_of_tree? d h.makes.tree, h.makes.wellTyped, h.makes.depth_le, ?_⟩
  rw [atLevel_of_le (Nat.zero_le _)] at hnesting
  omega

theorem printable_of_admits {ds : List Derivation} {es : List Expr}
    (h : List.Forall₂ Admits ds es) : ∀ e ∈ es, e.Printable := by
  induction h with
  | nil => simp
  | cons hd _ ih => exact List.forall_mem_cons.mpr ⟨hd.printable, ih⟩

theorem admits_phrase {e : Expr} (h : e.Printable) : Admits e.phrase e :=
  ⟨e.grouped_phrase, h.nesting_le, e.tree?_phrase h.writable h.wellTyped, h.wellTyped, h.depth_le⟩

theorem admits_phrases {es : List Expr} (h : ∀ e ∈ es, e.Printable) :
    List.Forall₂ Admits (Expr.phrases es) es := by
  induction es with
  | nil => exact .nil
  | cons e es ih =>
      rw [List.forall_mem_cons] at h
      exact .cons (admits_phrase h.1) (ih h.2)

theorem allGrouped_of_admits {ds : List Derivation} {es : List Expr}
    (h : List.Forall₂ Admits ds es) : AllGrouped ds := by
  induction h with
  | nil => trivial
  | cons hd _ ih => exact ⟨hd.grouped, ih⟩

theorem trees?_of_admits {ds : List Derivation} {es : List Expr}
    (h : List.Forall₂ Admits ds es) : trees? ds = some es :=
  trees?_eq_some_iff.mpr (h.imp fun _ _ hd => hd.makes.tree)

end Derivation

/-! ### Reading what is written -/

namespace Parser

open SignalExpr.Derivation

/-- The tokens are parsed, and as these trees. -/
def ParsesTo (input : TokenList) (es : List Expr) : Prop :=
  ∃ arena roots, parse input = .ok (arena, roots) ∧ roots.map arena.tree? = es.map some

theorem map_tree?_of_represents {arena : Arena} {roots : List NodeId} {es : List Expr}
    (h : List.Forall₂ arena.Represents roots es) : roots.map arena.tree? = es.map some := by
  rw [← List.forall₂_eq_eq_eq, List.forall₂_map_left_iff, List.forall₂_map_right_iff]
  exact h.imp fun _ _ hroot => hroot.tree

theorem parsesTo_iff {input : TokenList} {es : List Expr} : ParsesTo input es ↔
    ∃ ds, Statements (input.tokens.map Token.kind) ds ∧ List.Forall₂ Admits ds es := by
  constructor
  · rintro ⟨arena, roots, hparse, hroots⟩
    obtain ⟨ds, xs, hds, hadmits, -, hrepresents⟩ := exists_derivation_of_parse hparse
    have heq : es.map some = xs.map some := hroots.symm.trans (map_tree?_of_represents hrepresents)
    obtain rfl := List.map_injective_iff.mpr (fun _ _ => Option.some.inj) heq
    exact ⟨ds, hds, hadmits⟩
  · rintro ⟨ds, hds, hadmits⟩
    obtain ⟨roots, s, hrun⟩ :=
      exists_statements (s := ⟨input, Arena.empty⟩) Arena.valid_empty hds hadmits
    have hparse : parse input = .ok (s.arena, roots) := parse_eq_ok_iff.mpr ⟨s, hrun, rfl⟩
    obtain ⟨ds', xs, hds', hadmits', -, hrepresents⟩ := exists_derivation_of_parse hparse
    obtain rfl := hds.unique hds' (grouped_of_admits hadmits) (grouped_of_admits hadmits')
    obtain rfl := trees_unique hadmits hadmits'
    exact ⟨s.arena, roots, hparse, map_tree?_of_represents hrepresents⟩

theorem ParsesTo.printable {input : TokenList} {es : List Expr} (h : ParsesTo input es) :
    es ≠ [] ∧ ∀ e ∈ es, e.Printable := by
  obtain ⟨ds, hds, hadmits⟩ := parsesTo_iff.mp h
  refine ⟨?_, printable_of_admits hadmits⟩
  rintro rfl
  cases hadmits
  exact hds.ne_nil rfl

theorem parsesTo_printed {input : TokenList} {es : List Expr}
    (hinput : input.tokens.map Token.kind = Expr.printed es) (hne : es ≠ [])
    (hes : ∀ e ∈ es, e.Printable) : ParsesTo input es := by
  have hphrases : Expr.phrases es ≠ [] := by
    cases es with
    | nil => exact absurd rfl hne
    | cons e es => simp [Expr.phrases]
  refine parsesTo_iff.mpr ⟨Expr.phrases es, ?_, admits_phrases hes⟩
  rw [hinput]
  exact statements_argumentTokens hphrases

theorem ParsesTo.length_printed_le {input : TokenList} {es : List Expr} (h : ParsesTo input es) :
    (Expr.printed es).length ≤ input.tokens.length := by
  obtain ⟨ds, hds, hadmits⟩ := parsesTo_iff.mp h
  calc (argumentTokens (Expr.phrases es)).length
    _ ≤ (argumentTokens ds).length :=
        (phrases_allAtMost ds (allGrouped_of_admits hadmits) (trees?_of_admits hadmits)).length_le
    _ ≤ (input.tokens.map Token.kind).length := hds.length_le
    _ = input.tokens.length := List.length_map ..

/-- Statements are read from their written form exactly if they have one within the limits. All
that can be read at all can be read so, and is not written with fewer tokens. -/
theorem parse_printed {es : List Expr} {input : TokenList}
    (hinput : input.tokens.map Token.kind = Expr.printed es) :
    (ParsesTo input es ↔ es ≠ [] ∧ ∀ e ∈ es, e.Printable) ∧
    ∀ other, ParsesTo other es →
      ParsesTo input es ∧ input.tokens.length ≤ other.tokens.length := by
  have hlength : input.tokens.length = (Expr.printed es).length := by
    rw [← hinput, List.length_map]
  refine ⟨⟨ParsesTo.printable, fun ⟨hne, hes⟩ => parsesTo_printed hinput hne hes⟩, ?_⟩
  intro other hother
  obtain ⟨hne, hes⟩ := hother.printable
  exact ⟨parsesTo_printed hinput hne hes, hlength ▸ hother.length_printed_le⟩

/-- Parentheses around the looser operand, and around the right operand of equal level; none in a
chain of assignments, of operators before an operand, or around an argument. -/
theorem parse_printed_grouped : ∃ input,
    Lexer.tokenize "a=t[$i2]=($f1+2)*-~$x3[-1],$f1-(b-2)-if(size(\"u\"),a,b=sum(\"$s4\"))"
      = .ok input ∧
    ParsesTo input
      [.assign "a" (.assignCell (.named "t") (.var ⟨.int, 1⟩)
        (.binary .multiply (.binary .add (.var ⟨.float, 0⟩) (.int 2))
          (.unary .negate (.unary .bitNot (.history ⟨.input, 2⟩ (.unary .negate (.int 1))))))),
      .binary .subtract
        (.binary .subtract (.var ⟨.float, 0⟩) (.binary .subtract (.value "b") (.int 2)))
        (.call .choose [.call .size [.quoted "u"], .value "a",
          .assign "b" (.call .sum [.quotedVar ⟨.symbol, 3⟩])])] := by
  generalize hes : [Expr.assign "a" _, _] = es
  generalize htext : "a=t[$i2]=($f1+2)*-~$x3[-1],$f1-(b-2)-if(size(\"u\"),a,b=sum(\"$s4\"))" = text
  have hkinds : ((Lexer.tokenize text).map fun ts => ts.tokens.map Token.kind).toOption =
      some (Expr.printed es) := by
    subst hes htext
    cbv
  have hprintable : es ≠ [] ∧ ∀ e ∈ es, e.Printable := by
    subst hes
    simp only [List.forall_mem_cons]
    refine ⟨by simp, ⟨?_, ?_, by decide, by decide⟩, ⟨?_, ?_, by decide, by decide⟩, by simp⟩
    · simp [Expr.Writable, Variable.Writable, Variable.indexLimit, TableRef.vars]
    · simp [Expr.WellTyped, Expr.Numeric, Expr.type, ValueType.join, Variable.type,
        VariableKind.hasHistory, TableRef.Assignable]
    · simp [Expr.Writable, Expr.AllWritable, Variable.Writable, Variable.indexLimit]
    · simp [Expr.WellTyped, Expr.AllWellTyped, Expr.Numeric, Expr.type, Expr.types, Builtin.type,
        Builtin.parameters, Parameter.Takes, ValueType.join, Variable.type]
  cases hlex : Lexer.tokenize text with
  | error e =>
      rw [hlex] at hkinds
      cases hkinds
  | ok input =>
      rw [hlex] at hkinds
      exact ⟨input, rfl, (parse_printed (Option.some.inj hkinds)).1.mpr hprintable⟩

end Parser

end SignalExpr
