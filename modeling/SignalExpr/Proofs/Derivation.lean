import SignalExpr.Arena
import SignalExpr.Proofs.WellTyped

/-!
The grammar of statements, apart from any way to read them. A derivation is what is written: it has
one node for each rule that takes or groups tokens, and the levels that a phrase only passes
through are left out. Its tokens, its nesting and its tree are computed from it.
-/

namespace SignalExpr

/-- The levels of operators, from the loosest to the tightest. -/
def BinaryOp.level : BinaryOp → Nat
  | logicalOr => 1
  | logicalAnd => 2
  | bitOr => 3
  | bitXor => 4
  | bitAnd => 5
  | equal | notEqual => 6
  | less | greater | lessEqual | greaterEqual => 7
  | shiftLeft | shiftRight => 8
  | add | subtract => 9
  | multiply | divide => 10

def BinaryOp.token : BinaryOp → TokenKind
  | logicalOr => .orOr
  | logicalAnd => .andAnd
  | bitOr => .pipe
  | bitXor => .caret
  | bitAnd => .ampersand
  | equal => .equalEqual
  | notEqual => .notEqual
  | less => .less
  | greater => .greater
  | lessEqual => .lessEqual
  | greaterEqual => .greaterEqual
  | shiftLeft => .shiftLeft
  | shiftRight => .shiftRight
  | add => .plus
  | subtract => .minus
  | multiply => .star
  | divide => .slash

theorem BinaryOp.level_pos (op : BinaryOp) : 1 ≤ op.level := by
  cases op <;> decide

theorem BinaryOp.level_le (op : BinaryOp) : op.level ≤ 10 := by
  cases op <;> decide

theorem BinaryOp.token_injective : Function.Injective BinaryOp.token := by
  intro op other h
  cases op <;> cases other <;> first | rfl | cases h

def UnaryOp.token : UnaryOp → TokenKind
  | negate => .minus
  | bitNot => .tilde
  | not => .bang

theorem UnaryOp.token_injective : Function.Injective UnaryOp.token := by
  intro op other h
  cases op <;> cases other <;> first | rfl | cases h

/-- The variable that a text names. -/
def Variable.ofText? (text : String) : Option Variable :=
  (parse text).toOption

theorem Variable.parse_of_ofText? {text : String} {v : Variable} (h : ofText? text = some v) :
    parse text = .ok v := by
  rw [ofText?] at h
  cases hparse : parse text with
  | error fault =>
      rw [hparse] at h
      cases h
  | ok w =>
      rw [hparse] at h
      cases h
      rfl

/-- The assignment of a value to what the expression reads: a name or a table cell. -/
def Expr.assigned? : Expr → Expr → Option Expr
  | .value name, v => some (.assign name v)
  | .readCell table index, v => some (.assignCell table index v)
  | _, _ => none

/-- Derivations of one statement. -/
inductive Derivation where
  | integer (n : Nat)
  | number (x : Sample)
  | string (text : String)
  | name (name : String)
  | sigil (text : String)
  | parenthesized (inner : Derivation)
  | call (name : String) (args : List Derivation)
  | namedCell (name : String) (index : Derivation)
  | indexedSigil (text : String) (index : Derivation)
  | prefixed (op : UnaryOp) (operand : Derivation)
  | binary (op : BinaryOp) (left right : Derivation)
  | assignment (target value : Derivation)

namespace Derivation

mutual

/-- The tokens that are derived. -/
def tokens : Derivation → List TokenKind
  | integer n => [.integer n]
  | number x => [.number x]
  | string text => [.str text]
  | name n => [.ident n]
  | sigil text => [.sigil text]
  | parenthesized d => .leftParen :: d.tokens ++ [.rightParen]
  | call n args => .ident n :: .leftParen :: argumentTokens args ++ [.rightParen]
  | namedCell n index => .ident n :: .leftBracket :: index.tokens ++ [.rightBracket]
  | indexedSigil text index => .sigil text :: .leftBracket :: index.tokens ++ [.rightBracket]
  | prefixed op d => op.token :: d.tokens
  | binary op l r => l.tokens ++ op.token :: r.tokens
  | assignment t v => t.tokens ++ .assign :: v.tokens

/-- Arguments with commas between them. -/
def argumentTokens : List Derivation → List TokenKind
  | [] => []
  | d :: ds => d.tokens ++ moreArgumentTokens ds

/-- Arguments with a comma before each of them. -/
def moreArgumentTokens : List Derivation → List TokenKind
  | [] => []
  | d :: ds => .comma :: d.tokens ++ moreArgumentTokens ds

end

/-- The tightest level at which the phrase can stand: assignments are loosest, then come the
operators between operands, those before one, and operands without operators. -/
def level : Derivation → Nat
  | assignment _ _ => 0
  | binary op _ _ => op.level
  | prefixed _ _ => 11
  | _ => 12

mutual

/-- Every phrase stands where its level allows it. Operators of one level group from the left,
assignments from the right. -/
def Grouped : Derivation → Prop
  | integer _ | number _ | string _ | name _ | sigil _ => True
  | parenthesized d | namedCell _ d | indexedSigil _ d => d.Grouped
  | call _ args => AllGrouped args
  | prefixed _ d => d.Grouped ∧ 11 ≤ d.level
  | binary op l r => (l.Grouped ∧ op.level ≤ l.level) ∧ r.Grouped ∧ op.level < r.level
  | assignment t v => (t.Grouped ∧ 1 ≤ t.level) ∧ v.Grouped

def AllGrouped : List Derivation → Prop
  | [] => True
  | d :: ds => d.Grouped ∧ AllGrouped ds

end

mutual

/-- How deep the phrase nests: a parenthesis, an argument, a subscript, an operator before an
operand and the value of an assignment are one level deeper than what they stand in. -/
def nesting : Derivation → Nat
  | integer _ | number _ | string _ | name _ | sigil _ => 0
  | parenthesized d | namedCell _ d | indexedSigil _ d | prefixed _ d => d.nesting + 1
  | call _ args => argumentNesting args
  | binary _ l r => max l.nesting r.nesting
  | assignment t v => max t.nesting (v.nesting + 1)

def argumentNesting : List Derivation → Nat
  | [] => 0
  | d :: ds => max (d.nesting + 1) (argumentNesting ds)

end

/-- The tree of quoted text: a variable behind a dollar sign, else the text itself. -/
def quotation? (text : String) : Option Expr :=
  if text.toList.head? = some '$' then (Variable.ofText? text).map .quotedVar
  else some (.quoted text)

/-- The tree of a variable with an index: a stream at an offset, or a cell. -/
def indexed (v : Variable) (index : Expr) : Expr :=
  if v.kind.hasHistory then .history v index else .readCell (.slot v) index

mutual

/-- The tree of a phrase, if its variables and functions exist and its assignments have targets. -/
def tree? : Derivation → Option Expr
  | integer n => some (.int n)
  | number x => some (.float x)
  | string text => quotation? text
  | name n => some (.value n)
  | sigil text => (Variable.ofText? text).map .var
  | parenthesized d => d.tree?
  | call n args => do
      let f ← Builtin.ofName? n
      return .call f (← trees? args)
  | namedCell n index => return .readCell (.named n) (← index.tree?)
  | indexedSigil text index => do
      let v ← Variable.ofText? text
      return indexed v (← index.tree?)
  | prefixed op d => return .unary op (← d.tree?)
  | binary op l r => return .binary op (← l.tree?) (← r.tree?)
  | assignment t v => do
      let target ← t.tree?
      target.assigned? (← v.tree?)

def trees? : List Derivation → Option (List Expr)
  | [] => some []
  | d :: ds => return (← d.tree?) :: (← trees? ds)

end

/-- The phrase can stand at this level, with fewer than `limit` levels of nesting below it. -/
structure Fits (level limit : Nat) (d : Derivation) : Prop where
  grouped : d.Grouped
  level_le : level ≤ d.level
  nesting_lt : d.nesting < limit

section Fits

variable {k n : Nat} {d t v l r : Derivation} {args : List Derivation}

theorem Fits.of_level_le {j : Nat} (h : Fits k n d) (hj : j ≤ d.level) : Fits j n d :=
  ⟨h.grouped, hj, h.nesting_lt⟩

theorem fits_parenthesized_iff : Fits k (n + 1) (.parenthesized d) ↔ k ≤ 12 ∧ Fits 0 n d :=
  ⟨fun ⟨hg, hk, hn⟩ => ⟨hk, hg, Nat.zero_le _, Nat.lt_of_succ_lt_succ hn⟩,
    fun ⟨hk, hd⟩ => ⟨hd.grouped, hk, Nat.succ_lt_succ hd.nesting_lt⟩⟩

theorem fits_namedCell_iff {name : String} :
    Fits k (n + 1) (.namedCell name d) ↔ k ≤ 12 ∧ Fits 0 n d :=
  ⟨fun ⟨hg, hk, hn⟩ => ⟨hk, hg, Nat.zero_le _, Nat.lt_of_succ_lt_succ hn⟩,
    fun ⟨hk, hd⟩ => ⟨hd.grouped, hk, Nat.succ_lt_succ hd.nesting_lt⟩⟩

theorem fits_indexedSigil_iff {text : String} :
    Fits k (n + 1) (.indexedSigil text d) ↔ k ≤ 12 ∧ Fits 0 n d :=
  ⟨fun ⟨hg, hk, hn⟩ => ⟨hk, hg, Nat.zero_le _, Nat.lt_of_succ_lt_succ hn⟩,
    fun ⟨hk, hd⟩ => ⟨hd.grouped, hk, Nat.succ_lt_succ hd.nesting_lt⟩⟩

theorem fits_prefixed_iff {op : UnaryOp} :
    Fits k (n + 1) (.prefixed op d) ↔ k ≤ 11 ∧ Fits 11 n d :=
  ⟨fun ⟨hg, hk, hn⟩ => ⟨hk, hg.1, hg.2, Nat.lt_of_succ_lt_succ hn⟩,
    fun ⟨hk, hd⟩ => ⟨⟨hd.grouped, hd.level_le⟩, hk, Nat.succ_lt_succ hd.nesting_lt⟩⟩

theorem fits_call_iff {name : String} :
    Fits k (n + 1) (.call name args) ↔ k ≤ 12 ∧ ∀ d ∈ args, Fits 0 n d := by
  have hargs : AllGrouped args ∧ argumentNesting args < n + 1 ↔ ∀ d ∈ args, Fits 0 n d := by
    induction args with
    | nil => simp [AllGrouped, argumentNesting]
    | cons d ds ih =>
        simp only [AllGrouped, argumentNesting, List.forall_mem_cons, ← ih, Nat.max_lt,
          Nat.add_lt_add_iff_right]
        constructor
        · rintro ⟨⟨hd, hds⟩, hn, hns⟩
          exact ⟨⟨hd, Nat.zero_le _, hn⟩, hds, hns⟩
        · rintro ⟨hd, hds, hns⟩
          exact ⟨⟨hd.grouped, hds⟩, hd.nesting_lt, hns⟩
  rw [← hargs]
  exact ⟨fun ⟨hg, hk, hn⟩ => ⟨hk, hg, hn⟩, fun ⟨hk, hg, hn⟩ => ⟨hg, hk, hn⟩⟩

theorem fits_binary_iff {op : BinaryOp} :
    Fits k n (.binary op l r) ↔ k ≤ op.level ∧ Fits op.level n l ∧ Fits (op.level + 1) n r := by
  constructor
  · rintro ⟨⟨⟨hl, hll⟩, hr, hrl⟩, hk, hn⟩
    rw [nesting, Nat.max_lt] at hn
    exact ⟨hk, ⟨hl, hll, hn.1⟩, ⟨hr, hrl, hn.2⟩⟩
  · rintro ⟨hk, hl, hr⟩
    exact ⟨⟨⟨hl.grouped, hl.level_le⟩, hr.grouped, hr.level_le⟩, hk,
      Nat.max_lt.mpr ⟨hl.nesting_lt, hr.nesting_lt⟩⟩

theorem fits_assignment_iff :
    Fits k (n + 1) (.assignment t v) ↔ k = 0 ∧ Fits 1 (n + 1) t ∧ Fits 0 n v := by
  constructor
  · rintro ⟨⟨⟨ht, htl⟩, hv⟩, hk, hn⟩
    rw [nesting, Nat.max_lt] at hn
    exact ⟨Nat.le_zero.mp hk, ⟨ht, htl, hn.1⟩, ⟨hv, Nat.zero_le _, Nat.lt_of_succ_lt_succ hn.2⟩⟩
  · rintro ⟨rfl, ht, hv⟩
    exact ⟨⟨⟨ht.grouped, ht.level_le⟩, hv.grouped⟩, Nat.zero_le _,
      Nat.max_lt.mpr ⟨ht.nesting_lt, Nat.succ_lt_succ hv.nesting_lt⟩⟩

theorem not_fits_binary {op : BinaryOp} : ¬ Fits 11 n (.binary op l r) := by
  rintro ⟨-, hlevel, -⟩
  have hop := op.level_le
  simp only [level] at hlevel
  omega

theorem not_fits_assignment : ¬ Fits (k + 1) n (.assignment t v) := by
  rintro ⟨-, hlevel, -⟩
  exact absurd hlevel (Nat.not_succ_le_zero k)

theorem Fits.assignment_or_expression (h : Fits 0 n d) :
    (∃ t v, d = .assignment t v) ∨ Fits 1 n d := by
  cases d with
  | assignment t v => exact .inl ⟨t, v, rfl⟩
  | binary op l r => exact .inr (h.of_level_le op.level_pos)
  | _ => exact .inr (h.of_level_le (by simp [level]))

theorem Fits.prefixed_or_operand (h : Fits 11 n d) :
    (∃ op x, d = .prefixed op x) ∨ Fits 12 n d := by
  cases d with
  | prefixed op x => exact .inl ⟨op, x, rfl⟩
  | binary op l r => exact absurd h not_fits_binary
  | assignment t v => exact absurd h not_fits_assignment
  | _ => exact .inr (h.of_level_le (Nat.le_refl 12))

end Fits

/-- The phrase has the tree `e`, which follows the typing rules and has at most height 256. -/
structure Makes (d : Derivation) (e : Expr) : Prop where
  tree : d.tree? = some e
  wellTyped : e.WellTyped
  depth_le : e.depth ≤ 256

theorem Makes.inner {d : Derivation} {e : Expr} (h : (parenthesized d).Makes e) : d.Makes e :=
  ⟨by simpa only [tree?] using h.tree, h.wellTyped, h.depth_le⟩

/-- The statement derives the tree `e` within the limits: it nests at most 64 levels, itself
included. -/
structure Admits (d : Derivation) (e : Expr) : Prop where
  grouped : d.Grouped
  nesting_le : 1 + d.nesting ≤ 64
  makes : d.Makes e

theorem Admits.fits {d : Derivation} {e : Expr} (h : Admits d e) : Fits 0 64 d :=
  ⟨h.grouped, Nat.zero_le _, by have := h.nesting_le; omega⟩

section Makes

variable {d l r : Derivation} {e : Expr}

theorem trees?_eq_some_iff {ds : List Derivation} {es : List Expr} :
    trees? ds = some es ↔ List.Forall₂ (fun d e => d.tree? = some e) ds es := by
  induction ds generalizing es with
  | nil => cases es <;> simp [trees?]
  | cons d ds ih => cases es <;> simp [trees?, Option.bind_eq_some_iff, ih]

theorem Makes.exists_unary {op : UnaryOp} (h : (prefixed op d).Makes e) :
    ∃ x, e = .unary op x ∧ d.Makes x := by
  obtain ⟨htree, hwell, hdepth⟩ := h
  simp only [tree?, Option.bind_eq_bind, Option.bind_eq_some_iff] at htree
  obtain ⟨x, hx, ⟨⟩⟩ := htree
  simp only [Expr.WellTyped, Expr.depth] at hwell hdepth
  exact ⟨x, rfl, hx, hwell.1, by omega⟩

theorem Makes.exists_binary {op : BinaryOp} (h : (binary op l r).Makes e) :
    ∃ x y, e = .binary op x y ∧ l.Makes x ∧ r.Makes y := by
  obtain ⟨htree, hwell, hdepth⟩ := h
  simp only [tree?, Option.bind_eq_bind, Option.bind_eq_some_iff] at htree
  obtain ⟨x, hx, y, hy, ⟨⟩⟩ := htree
  simp only [Expr.WellTyped, Expr.depth] at hwell hdepth
  exact ⟨x, y, rfl, ⟨hx, hwell.1.1, by omega⟩, hy, hwell.2.1, by omega⟩

theorem Makes.exists_namedCell {name : String} (h : (namedCell name d).Makes e) :
    ∃ x, e = .readCell (.named name) x ∧ d.Makes x := by
  obtain ⟨htree, hwell, hdepth⟩ := h
  simp only [tree?, Option.bind_eq_bind, Option.bind_eq_some_iff] at htree
  obtain ⟨x, hx, ⟨⟩⟩ := htree
  simp only [Expr.WellTyped, Expr.depth] at hwell hdepth
  exact ⟨x, rfl, hx, hwell.2.1, by omega⟩

theorem Makes.exists_indexed {text : String} (h : (indexedSigil text d).Makes e) :
    ∃ v x, Variable.ofText? text = some v ∧ e = indexed v x ∧ d.Makes x := by
  obtain ⟨htree, hwell, hdepth⟩ := h
  simp only [tree?, Option.bind_eq_bind, Option.bind_eq_some_iff] at htree
  obtain ⟨v, hv, x, hx, ⟨⟩⟩ := htree
  have hindex : x.WellTyped ∧ x.depth ≤ 256 := by
    by_cases hk : v.kind.hasHistory = true
    all_goals
      simp only [indexed, hk, if_true, Bool.false_eq_true, if_false, Expr.WellTyped,
        Expr.depth] at hwell hdepth
      exact ⟨hwell.2.1, by omega⟩
  exact ⟨v, x, hv, rfl, hx, hindex.1, hindex.2⟩

theorem Makes.exists_call {name : String} {args : List Derivation}
    (h : (call name args).Makes e) :
    ∃ f es, Builtin.ofName? name = some f ∧ e = .call f es ∧ List.Forall₂ Makes args es := by
  obtain ⟨htree, hwell, hdepth⟩ := h
  simp only [tree?, Option.bind_eq_bind, Option.bind_eq_some_iff, trees?_eq_some_iff] at htree
  obtain ⟨f, hf, es, hes, ⟨⟩⟩ := htree
  simp only [Expr.WellTyped, Expr.depth, Expr.allWellTyped_iff] at hwell hdepth
  refine ⟨f, es, hf, rfl, ?_⟩
  rw [List.forall₂_iff_get] at hes ⊢
  refine ⟨hes.1, fun i hd he => ⟨hes.2 i hd he, hwell.1 _ (List.get_mem _ _), ?_⟩⟩
  have hle := Expr.depth_le_maxDepth (List.get_mem es ⟨i, he⟩)
  omega

theorem Makes.exists_assigned (h : (assignment l r).Makes e) :
    ∃ x y, x.assigned? y = some e ∧ l.Makes x ∧ r.Makes y := by
  obtain ⟨htree, hwell, hdepth⟩ := h
  simp only [tree?, Option.bind_eq_bind, Option.bind_eq_some_iff] at htree
  obtain ⟨x, hx, y, hy, hassigned⟩ := htree
  refine ⟨x, y, hassigned, ?_⟩
  cases x with
  | value name =>
      cases hassigned
      simp only [Expr.WellTyped, Expr.depth] at hwell hdepth
      exact ⟨⟨hx, trivial, by simp [Expr.depth]⟩, hy, hwell.1, by omega⟩
  | readCell table index =>
      cases hassigned
      have hread := Expr.depth_readCell_le_assignCell table index y
      have htarget : l.Makes (.readCell table index) :=
        ⟨hx, hwell.readCell_of_assignCell, by omega⟩
      simp only [Expr.WellTyped, Expr.depth] at hwell hdepth
      exact ⟨htarget, hy, hwell.2.2.1, by omega⟩
  | _ => cases hassigned

end Makes

/-- What stands behind a statement: nothing, a last semicolon, or a separator and a further
statement with what stands behind that one. -/
inductive Tail : List TokenKind → List Derivation → Prop
  | nil : Tail [] []
  | semicolon : Tail [.semicolon] []
  | cons {separator : TokenKind} {rest : List TokenKind} {ds : List Derivation} (d : Derivation) :
      separator.isSeparator = true → Tail rest ds → Tail (separator :: (d.tokens ++ rest)) (d :: ds)

/-- The tokens are the statements with separators between them, and perhaps a semicolon behind
the last one. -/
inductive Statements : List TokenKind → List Derivation → Prop
  | mk {rest : List TokenKind} {ds : List Derivation} (d : Derivation) :
      Tail rest ds → Statements (d.tokens ++ rest) (d :: ds)

/-! ### What can stand behind a phrase -/

/-- A phrase of this level can go on with the token. -/
inductive Continues (level : Nat) : TokenKind → Prop
  | leftParen : Continues level .leftParen
  | leftBracket : Continues level .leftBracket
  | operator (op : BinaryOp) : level ≤ op.level → Continues level op.token
  | assign : level = 0 → Continues level .assign

/-- A phrase of this level ends before these tokens. -/
def Ends (level : Nat) (rest : List TokenKind) : Prop :=
  ∀ kind ∈ rest.head?, ¬ Continues level kind

theorem ends_nil (level : Nat) : Ends level [] := by
  simp [Ends]

theorem ends_cons {level : Nat} {kind : TokenKind} {rest : List TokenKind} :
    Ends level (kind :: rest) ↔ ¬ Continues level kind := by
  simp [Ends]

theorem Continues.mono {k l : Nat} (hkl : k ≤ l) {kind : TokenKind} (h : Continues l kind) :
    Continues k kind := by
  cases h with
  | leftParen => exact .leftParen
  | leftBracket => exact .leftBracket
  | operator op hop => exact .operator op (Nat.le_trans hkl hop)
  | assign hl => exact .assign (Nat.le_zero.mp (hl ▸ hkl))

theorem Ends.mono {k l : Nat} (hkl : k ≤ l) {rest : List TokenKind} (h : Ends k rest) :
    Ends l rest :=
  fun kind hkind hl => h kind hkind (hl.mono hkl)

theorem not_continues_closer {level : Nat} {kind : TokenKind}
    (h : kind = .rightParen ∨ kind = .rightBracket ∨ kind = .comma ∨ kind = .semicolon) :
    ¬ Continues level kind := by
  rintro (_ | _ | ⟨op, _⟩ | _) <;> try cases op
  all_goals simp [BinaryOp.token] at h

theorem Tail.ends {rest : List TokenKind} {ds : List Derivation} (h : Tail rest ds) :
    Ends 0 rest := by
  cases h with
  | nil => exact ends_nil 0
  | semicolon => exact ends_cons.mpr (not_continues_closer (by simp))
  | @cons separator _ _ d hseparator =>
      refine ends_cons.mpr (not_continues_closer ?_)
      cases separator <;> simp [TokenKind.isSeparator] at hseparator ⊢

theorem not_continues_token {k : Nat} {op : BinaryOp} (h : op.level < k) :
    ¬ Continues k op.token := by
  intro hc
  generalize hkind : op.token = kind at hc
  cases hc with
  | leftParen | leftBracket | assign => cases op <;> cases hkind
  | operator other hother =>
      obtain rfl := BinaryOp.token_injective hkind
      omega

theorem not_continues_assign {k : Nat} (h : 0 < k) : ¬ Continues k .assign := by
  intro hc
  generalize hkind : TokenKind.assign = kind at hc
  cases hc with
  | leftParen | leftBracket => cases hkind
  | operator op => cases op <;> cases hkind
  | assign hk => omega

end Derivation

end SignalExpr
