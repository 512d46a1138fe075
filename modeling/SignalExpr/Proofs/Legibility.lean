import SignalExpr.Proofs.DecimalTexts
import SignalExpr.Proofs.Outlines
import SignalExpr.Proofs.StatementGrammar
import SignalExpr.Proofs.TextCuts

/-!
What a statement can say. Its names are words, its quoted texts hold no quote, and its samples are
samples of numbers, because the lexer gives no other tokens. So the trees of statements hold
nothing that could be mistaken when it is written down.
-/

namespace SignalExpr

open Outline (IsWord)

/-- Token kinds that the lexer gives. -/
def TokenKind.Legible : TokenKind → Prop
  | number x => ∃ v, x = Sample.ofValue v
  | ident name => IsWord name
  | str text => '"' ∉ text.toList
  | _ => True

def TableRef.Legible : TableRef → Prop
  | named name => IsWord name
  | slot _ => True

namespace Expr

mutual

/-- Names, quoted texts and samples are such as a statement can have. -/
def Legible : Expr → Prop
  | var _ | int _ | quotedVar _ => True
  | float x => ∃ v, x = Sample.ofValue v
  | quoted text => '"' ∉ text.toList
  | unary _ e => e.Legible
  | binary _ l r => l.Legible ∧ r.Legible
  | call _ args => AllLegible args
  | history _ offset => offset.Legible
  | cell table index | readCell table index => table.Legible ∧ index.Legible
  | assignCell table index v => table.Legible ∧ index.Legible ∧ v.Legible
  | value name => IsWord name
  | assign name v => IsWord name ∧ v.Legible

def AllLegible : List Expr → Prop
  | [] => True
  | e :: es => e.Legible ∧ AllLegible es

end

end Expr

/-! ### Lexemes -/

namespace Lexer

theorem legible_of_mark? {cs : List Char} {kind : TokenKind} {n : Nat}
    (h : mark? cs = some (kind, n)) : kind.Legible := by
  rw [mark?.eq_def] at h
  split at h
  all_goals
    cases h
    try trivial

theorem legible_of_string {cs : List Char} {l : Lexeme} (h : stringLexeme cs = .ok l) :
    l.kind.Legible := by
  rw [stringLexeme] at h
  split at h
  next => cases h
  next =>
    cases h
    intro hquote
    rw [String.toList_ofList] at hquote
    cases takeWhile_all _ cs '"' hquote

theorem legible_of_name {c : Char} (h : (c.isAlpha || c == '_') = true) (cs : List Char) :
    (nameLexeme (c :: cs)).kind.Legible := by
  have htext : (String.ofList ((c :: cs).takeWhile isNameChar)).toList ≠ [] := by
    rw [String.toList_ofList, List.takeWhile_cons, if_pos (name_first h).1]
    simp
  refine Outline.isWord_of_chars htext (fun d hd => ?_) (by decide : isNameChar ' ' = false ∧ _)
  rw [String.toList_ofList] at hd
  exact takeWhile_all isNameChar _ d hd

theorem exists_ofValue_of_ofText? {c : Char} {cs : List Char} {x : Sample}
    (hc : c.isDigit = true ∨ c = '.') (h : Sample.ofText? (c :: cs) = some x) :
    ∃ v, x = Sample.ofValue v := by
  rw [Sample.ofText?_eq_readUnsigned? hc, Sample.readUnsigned?_eq] at h
  obtain ⟨d, -, rfl⟩ := Option.map_eq_some_iff.mp h
  exact ⟨_, rfl⟩

theorem legible_of_numeral {c : Char} {cs : List Char} {l : Lexeme}
    (hstart : startsNumeral c cs = true) (h : (Numeral.scan (c :: cs)).lexeme = .ok l) :
    l.kind.Legible := by
  obtain ⟨-, -, kind, hkind, rfl⟩ := numeral_eq_ok_iff.mp h
  have hfirst : c.isDigit = true ∨ c = '.' := by
    rcases Bool.or_eq_true_iff.mp hstart with hdigit | hpoint
    · exact .inl hdigit
    · exact .inr (beq_iff_eq.mp (Bool.and_eq_true_iff.mp hpoint).1)
  obtain ⟨d, ds, htext⟩ := List.exists_cons_of_ne_nil (scan_text_ne_nil hstart)
  have hsplit := scan_text_append_rest (c :: cs)
  rw [htext, List.cons_append] at hsplit
  obtain ⟨rfl, -⟩ := List.cons.inj hsplit
  rw [Numeral.kind, htext] at hkind
  split at hkind
  next =>
    split at hkind
    next x hx =>
      cases hkind
      exact exists_ofValue_of_ofText? hfirst hx
    next => cases hkind
  next =>
    dsimp only at hkind
    split at hkind
    next =>
      cases hkind
      trivial
    next => cases hkind

theorem legible_of_lexeme {c : Char} {cs : List Char} {l : Lexeme} (h : lexeme c cs = .ok l) :
    l.kind.Legible := by
  rcases lexeme_cases h with
    ⟨kind, n, hmark, rfl⟩ | ⟨-, hstring⟩ | ⟨-, hvariable⟩ | ⟨hstart, hnumeral⟩ | ⟨hname, rfl⟩
  · exact legible_of_mark? hmark
  · exact legible_of_string hstring
  · rw [variableLexeme] at hvariable
    split at hvariable
    next =>
      cases hvariable
      trivial
    next => cases hvariable
  · exact legible_of_numeral hstart hnumeral
  · exact legible_of_name hname cs

theorem legible_of_cut {cs tail : List Char} {pieces : List Piece} (h : Cut cs pieces tail) :
    ∀ piece ∈ pieces, piece.kind.Legible := by
  induction h with
  | stop => simp
  | piece _ _ hlexeme _ ih => exact List.forall_mem_cons.mpr ⟨legible_of_lexeme hlexeme, ih⟩

theorem legible_of_tokenize {text : String} {ts : TokenList} (h : tokenize text = .ok ts) :
    ∀ kind ∈ ts.tokens.map Token.kind, kind.Legible := by
  obtain ⟨pieces, tail, hcut, rfl⟩ := (tokenize_eq_ok_iff text ts).mp h
  rw [map_kind_placed, List.forall_mem_map]
  exact legible_of_cut hcut

end Lexer

/-! ### Trees -/

namespace Derivation

theorem legible_indexed {v : Variable} {x : Expr} (h : x.Legible) : (indexed v x).Legible := by
  rw [indexed]
  split
  next => exact h
  next => exact ⟨trivial, h⟩

theorem legible_of_assigned? {target value e : Expr} (ht : target.Legible) (hv : value.Legible)
    (h : target.assigned? value = some e) : e.Legible := by
  cases target with
  | value name =>
      cases h
      exact ⟨ht, hv⟩
  | readCell table index =>
      cases h
      exact ⟨ht.1, ht.2, hv⟩
  | _ => cases h

mutual

theorem legible_of_tree? (d : Derivation) {e : Expr} (h : d.tree? = some e)
    (ht : ∀ kind ∈ d.tokens, kind.Legible) : e.Legible := by
  cases d with
  | integer n =>
      cases h
      trivial
  | number x | name n =>
      cases h
      exact ht _ List.mem_cons_self
  | string text =>
      rw [tree?, quotation?] at h
      split at h
      next =>
        obtain ⟨v, -, rfl⟩ := Option.map_eq_some_iff.mp h
        trivial
      next =>
        cases h
        exact ht (.str text) List.mem_cons_self
  | sigil text =>
      obtain ⟨v, -, rfl⟩ := Option.map_eq_some_iff.mp h
      trivial
  | parenthesized d =>
      simp only [tokens, List.cons_append, List.forall_mem_cons, List.forall_mem_append] at ht
      exact legible_of_tree? d (by simpa only [tree?] using h) ht.2.1
  | call name args =>
      simp only [tree?, Option.bind_eq_bind, Option.bind_eq_some_iff] at h
      obtain ⟨f, -, es, hes, ⟨⟩⟩ := h
      simp only [tokens, List.cons_append, List.forall_mem_cons, List.forall_mem_append] at ht
      exact allLegible_of_argumentTokens args hes ht.2.2.1
  | namedCell name d =>
      simp only [tree?, Option.bind_eq_bind, Option.bind_eq_some_iff] at h
      obtain ⟨x, hx, ⟨⟩⟩ := h
      simp only [tokens, List.cons_append, List.forall_mem_cons, List.forall_mem_append] at ht
      exact ⟨ht.1, legible_of_tree? d hx ht.2.2.1⟩
  | indexedSigil text d =>
      simp only [tree?, Option.bind_eq_bind, Option.bind_eq_some_iff] at h
      obtain ⟨v, -, x, hx, ⟨⟩⟩ := h
      simp only [tokens, List.cons_append, List.forall_mem_cons, List.forall_mem_append] at ht
      exact legible_indexed (legible_of_tree? d hx ht.2.2.1)
  | prefixed op d =>
      simp only [tree?, Option.bind_eq_bind, Option.bind_eq_some_iff] at h
      obtain ⟨x, hx, ⟨⟩⟩ := h
      rw [tokens, List.forall_mem_cons] at ht
      have hoperand := legible_of_tree? d hx ht.2
      exact hoperand
  | binary op l r =>
      simp only [tree?, Option.bind_eq_bind, Option.bind_eq_some_iff] at h
      obtain ⟨x, hx, y, hy, ⟨⟩⟩ := h
      rw [tokens, List.forall_mem_append, List.forall_mem_cons] at ht
      exact ⟨legible_of_tree? l hx ht.1, legible_of_tree? r hy ht.2.2⟩
  | assignment t v =>
      simp only [tree?, Option.bind_eq_bind, Option.bind_eq_some_iff] at h
      obtain ⟨x, hx, y, hy, hassigned⟩ := h
      rw [tokens, List.forall_mem_append, List.forall_mem_cons] at ht
      exact legible_of_assigned? (legible_of_tree? t hx ht.1) (legible_of_tree? v hy ht.2.2)
        hassigned

theorem allLegible_of_argumentTokens (ds : List Derivation) {es : List Expr}
    (h : trees? ds = some es) (ht : ∀ kind ∈ argumentTokens ds, kind.Legible) :
    Expr.AllLegible es := by
  cases ds with
  | nil =>
      cases h
      trivial
  | cons d ds =>
      simp only [trees?, Option.bind_eq_bind, Option.bind_eq_some_iff] at h
      obtain ⟨x, hx, xs, hxs, ⟨⟩⟩ := h
      rw [argumentTokens, List.forall_mem_append] at ht
      exact ⟨legible_of_tree? d hx ht.1, allLegible_of_moreArgumentTokens ds hxs ht.2⟩

theorem allLegible_of_moreArgumentTokens (ds : List Derivation) {es : List Expr}
    (h : trees? ds = some es) (ht : ∀ kind ∈ moreArgumentTokens ds, kind.Legible) :
    Expr.AllLegible es := by
  cases ds with
  | nil =>
      cases h
      trivial
  | cons d ds =>
      simp only [trees?, Option.bind_eq_bind, Option.bind_eq_some_iff] at h
      obtain ⟨x, hx, xs, hxs, ⟨⟩⟩ := h
      rw [moreArgumentTokens, List.cons_append, List.forall_mem_cons, List.forall_mem_append] at ht
      exact ⟨legible_of_tree? d hx ht.2.1, allLegible_of_moreArgumentTokens ds hxs ht.2.2⟩

end

theorem Tail.allLegible {rest : List TokenKind} {ds : List Derivation} {es : List Expr}
    (h : Tail rest ds) (hes : List.Forall₂ Admits ds es) (ht : ∀ kind ∈ rest, kind.Legible) :
    Expr.AllLegible es := by
  induction h generalizing es with
  | nil | semicolon =>
      cases hes
      trivial
  | cons d _ _ ih =>
      cases hes with
      | cons hd hds =>
          rw [List.forall_mem_cons, List.forall_mem_append] at ht
          exact ⟨legible_of_tree? d hd.makes.tree ht.2.1, ih hds ht.2.2⟩

theorem Statements.allLegible {ts : List TokenKind} {ds : List Derivation} {es : List Expr}
    (h : Statements ts ds) (hes : List.Forall₂ Admits ds es) (ht : ∀ kind ∈ ts, kind.Legible) :
    Expr.AllLegible es := by
  obtain ⟨d, htail⟩ := h
  cases hes with
  | cons hd hds =>
      rw [List.forall_mem_append] at ht
      exact ⟨legible_of_tree? d hd.makes.tree ht.1, htail.allLegible hds ht.2⟩

end Derivation

end SignalExpr
