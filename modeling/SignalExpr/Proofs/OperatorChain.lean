import SignalExpr.Proofs.Derivation

/-!
Phrases of one operator level as chains: a first operand, and operators of the level each with its
right operand. A phrase that stands at the level is such a chain, grouped from the left.
-/

namespace SignalExpr.Derivation

/-- The tokens of operators with their right operands. -/
def linkTokens : List (BinaryOp × Derivation) → List TokenKind
  | [] => []
  | (op, d) :: links => op.token :: d.tokens ++ linkTokens links

/-- The chain grouped from the left. -/
def group (first : Derivation) : List (BinaryOp × Derivation) → Derivation
  | [] => first
  | (op, d) :: links => group (.binary op first d) links

/-- The operator has the level, and its right operand a tighter one. -/
structure IsLink (k limit : Nat) (link : BinaryOp × Derivation) : Prop where
  level_eq : link.1.level = k
  operand : Fits (k + 1) limit link.2

theorem IsLink.continues {k limit : Nat} {link : BinaryOp × Derivation}
    (h : IsLink k limit link) : Continues k link.1.token :=
  .operator link.1 (Nat.le_of_eq h.level_eq.symm)

theorem group_append_singleton (first : Derivation) (links : List (BinaryOp × Derivation))
    (op : BinaryOp) (d : Derivation) :
    group first (links ++ [(op, d)]) = .binary op (group first links) d := by
  induction links generalizing first with
  | nil => rfl
  | cons link links ih => exact ih _

theorem tokens_group (first : Derivation) (links : List (BinaryOp × Derivation)) :
    (group first links).tokens = first.tokens ++ linkTokens links := by
  induction links generalizing first with
  | nil => simp [group, linkTokens]
  | cons link links ih => simp [group, linkTokens, ih, tokens]

theorem exists_chain {k limit : Nat} (hpos : 1 ≤ k) (hle : k ≤ 10) (d : Derivation)
    (h : Fits k limit d) :
    ∃ first links, d = group first links ∧ Fits (k + 1) limit first ∧
      ∀ link ∈ links, IsLink k limit link := by
  have htighter (hlevel : k + 1 ≤ d.level) : ∃ first links, d = group first links ∧
      Fits (k + 1) limit first ∧ ∀ link ∈ links, IsLink k limit link :=
    ⟨d, [], rfl, ⟨h.grouped, hlevel, h.nesting_lt⟩, by simp⟩
  cases d with
  | binary op l r =>
      obtain ⟨hk, hl, hr⟩ := fits_binary_iff.mp h
      rcases Nat.eq_or_lt_of_le hk with rfl | hlt
      · obtain ⟨first, links, rfl, hfirst, hlinks⟩ := exists_chain hpos hle l hl
        refine ⟨first, links ++ [(op, r)], (group_append_singleton first links op r).symm,
          hfirst, ?_⟩
        intro link hlink
        rcases List.mem_append.mp hlink with hmem | hmem
        · exact hlinks link hmem
        · obtain rfl := List.mem_singleton.mp hmem
          exact ⟨rfl, hr⟩
      · exact htighter hlt
  | assignment t v => exact absurd h.level_le (by simp only [level]; omega)
  | _ => exact htighter (by simp only [level]; omega)

theorem ends_linkTokens {k limit : Nat} {links : List (BinaryOp × Derivation)}
    {rest : List TokenKind} (hlinks : ∀ link ∈ links, IsLink k limit link) (hrest : Ends k rest) :
    Ends (k + 1) (linkTokens links ++ rest) := by
  cases links with
  | nil => exact hrest.mono (Nat.le_succ k)
  | cons link links =>
      refine ends_cons.mpr (not_continues_token ?_)
      rw [(hlinks link (by simp)).level_eq]
      exact Nat.lt_succ_self k

theorem length_le_linkTokens (links : List (BinaryOp × Derivation)) :
    links.length ≤ (linkTokens links).length := by
  induction links with
  | nil => exact Nat.le_refl 0
  | cons link links ih =>
      simp only [linkTokens, List.length_cons, List.length_append]
      omega

theorem Makes.exists_first {first : Derivation} {links : List (BinaryOp × Derivation)} {e : Expr}
    (h : (group first links).Makes e) : ∃ x, first.Makes x := by
  induction links generalizing first with
  | nil => exact ⟨e, h⟩
  | cons link links ih =>
      obtain ⟨x, hx⟩ := ih h
      obtain ⟨l, r, -, hl, -⟩ := hx.exists_binary
      exact ⟨l, hl⟩

end SignalExpr.Derivation
