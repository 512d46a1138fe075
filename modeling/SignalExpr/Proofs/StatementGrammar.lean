import SignalExpr.Proofs.ParserOperands
import SignalExpr.Proofs.ParserOperators

/-!
The parser reads the grammar. Tokens are parsed exactly if they derive statements within the
limits of nesting and height, the roots then have the trees of these statements, and no tokens
derive two different lists of statements.
-/

namespace SignalExpr.Parser

open SignalExpr.Derivation

variable {s s' : ParseState}

theorem reads_grammar (n : Nat) :
    Reads (grammar n).unary 11 (n + 1) ∧ Reads (grammar n).expr 0 n := by
  induction n with
  | zero => exact ⟨reads_prefixed (reads_tooDeep 11) (reads_operand (reads_tooDeep 0)),
      reads_tooDeep 0⟩
  | succ n ih =>
      obtain ⟨hunary, hexpr⟩ := ih
      have hstatement : Reads (grammar (n + 1)).expr 0 (n + 1) :=
        reads_assignment (reads_ladder areLevels_levels hunary) hexpr
      exact ⟨reads_prefixed hunary (reads_operand hstatement), hstatement⟩

theorem reads_statement : Reads statement 0 64 := (reads_grammar maxNesting).2

theorem admits_of_parsed {d : Derivation} {e : Expr} {id : NodeId} (hd : Fits 0 64 d)
    (h : Parsed s d e id s') : Admits d e :=
  ⟨hd.grouped, by have := hd.nesting_lt; omega, h.tree, h.represents.wellTyped,
    h.represents.depth_le⟩

/-- The nodes stand for the trees of the statements. -/
structure StatementsParsed (s : ParseState) (ds : List Derivation) (es : List Expr)
    (ids : List NodeId) (s' : ParseState) : Prop where
  admits : List.Forall₂ Admits ds es
  grows : s.arena.Grows s'.arena
  represents : List.Forall₂ s'.arena.Represents ids es

section MoreStatements

variable {fuel : Nat} {roots : List NodeId} {separator : TokenKind} {rest : List TokenKind}

theorem separated_of_no_separator (h : ∀ kind ∈ s.kinds.head?, kind.isSeparator = false) :
    separated s = .ok (false, s) := by
  rw [separated, next?_bind]
  cases hnext : s.kinds.head? with
  | none => rfl
  | some kind =>
      have hkind := h kind hnext
      cases kind with
      | comma | semicolon => cases hkind
      | _ => rfl

theorem separated_of_semicolon (h : s.kinds = [.semicolon]) : separated s = .ok (false, s) := by
  rw [separated, next?_bind, h]
  change (remaining >>= _) s = _
  rw [remaining_bind, h, pure_run]
  rfl

theorem separated_of_separator (h : s.kinds = separator :: rest)
    (hseparator : separator.isSeparator = true) (hrest : separator = .semicolon → rest ≠ []) :
    separated s = .ok (true, s) := by
  rw [separated, next?_bind, h]
  cases separator with
  | comma => rfl
  | semicolon =>
      have hlength : s.kinds.length ≠ 1 := by simpa [h] using hrest rfl
      change (remaining >>= _) s = _
      rw [remaining_bind, pure_run, decide_eq_true hlength]
  | _ => cases hseparator

theorem moreStatements_of_no_separator
    (h : ∀ kind ∈ s.kinds.head?, kind.isSeparator = false) :
    moreStatements fuel roots s = .ok (roots, s) := by
  have hnext : s.kinds.head? ≠ some .semicolon := fun e => nomatch h _ e
  cases fuel with
  | zero => rw [moreStatements, pure_run]
  | succ fuel =>
      rw [moreStatements, bind_of_ok (separated_of_no_separator h)]
      change (next? >>= _) s = _
      rw [next?_bind, if_neg hnext, pure_run]

theorem moreStatements_of_semicolon (h : s.kinds = [.semicolon]) :
    moreStatements (fuel + 1) roots s = .ok (roots, s.skip) := by
  rw [moreStatements, bind_of_ok (separated_of_semicolon h)]
  change (next? >>= _) s = _
  rw [next?_bind, h, List.head?_cons, if_pos rfl, advance_bind, pure_run]

theorem moreStatements_of_separator (h : s.kinds = separator :: rest)
    (hseparator : separator.isSeparator = true) (hrest : separator = .semicolon → rest ≠ []) :
    moreStatements (fuel + 1) roots s =
      (do let root ← statement; moreStatements fuel (roots ++ [root])) s.skip := by
  rw [moreStatements, bind_of_ok (separated_of_separator h hseparator hrest), if_pos rfl,
    advance_bind]

theorem moreStatements_sound {ids : List NodeId} (hs : s.arena.Valid)
    (hfuel : s.kinds.length ≤ fuel) (h : moreStatements fuel roots s = .ok (ids, s'))
    (hend : s'.kinds = []) :
    ∃ ds es new, ids = roots ++ new ∧ Tail s.kinds ds ∧ StatementsParsed s ds es new s' := by
  induction fuel generalizing roots s with
  | zero =>
      have hnil : s.kinds = [] := List.length_eq_zero_iff.mp (Nat.le_zero.mp hfuel)
      rw [moreStatements_of_no_separator (by simp [hnil])] at h
      cases h
      exact ⟨[], [], [], by simp, hnil ▸ .nil, .nil, .refl _, .nil⟩
  | succ fuel ih =>
      cases hkinds : s.kinds with
      | nil =>
          rw [moreStatements_of_no_separator (by simp [hkinds])] at h
          cases h
          exact ⟨[], [], [], by simp, .nil, .nil, .refl _, .nil⟩
      | cons separator rest =>
          cases hseparator : separator.isSeparator with
          | false =>
              rw [moreStatements_of_no_separator (by simpa [hkinds] using hseparator)] at h
              cases h
              simp [hkinds] at hend
          | true =>
              by_cases hlast : separator = .semicolon ∧ rest = []
              · obtain ⟨rfl, rfl⟩ := hlast
                rw [moreStatements_of_semicolon hkinds] at h
                cases h
                exact ⟨[], [], [], by simp, .semicolon, .nil, .refl _, .nil⟩
              · rw [moreStatements_of_separator hkinds hseparator
                  (fun hsep hrest => hlast ⟨hsep, hrest⟩)] at h
                obtain ⟨root, t, hroot, h⟩ := bind_eq_ok_iff.mp h
                obtain ⟨d, e, hd, hparsed⟩ := reads_statement.sound (s := s.skip) hs hroot
                have hskip := (ParseState.kinds_skip_of_eq hkinds).symm.trans hparsed.kinds
                have hlength : t.kinds.length ≤ fuel := by
                  rw [hkinds, hskip, List.length_cons, List.length_append] at hfuel
                  omega
                obtain ⟨ds, es, new, rfl, htail, hmore⟩ :=
                  ih (hparsed.grows.valid hs) hlength h
                refine ⟨d :: ds, e :: es, root :: new, by simp, ?_,
                  .cons (admits_of_parsed hd hparsed) hmore.admits,
                  hparsed.grows.trans hmore.grows,
                  .cons (hparsed.represents.mono hmore.grows.extension) hmore.represents⟩
                rw [hskip]
                exact .cons d hseparator htail

theorem exists_moreStatements {ds : List Derivation} {es : List Expr} (roots : List NodeId)
    (hs : s.arena.Valid) (hfuel : s.kinds.length ≤ fuel) (htail : Tail s.kinds ds)
    (hadmits : List.Forall₂ Admits ds es) :
    ∃ new s', moreStatements fuel roots s = .ok (roots ++ new, s') ∧ s'.kinds = [] ∧
      StatementsParsed s ds es new s' := by
  induction ds generalizing fuel roots s es with
  | nil =>
      cases hadmits
      generalize hkinds : s.kinds = rest at htail
      cases htail with
      | nil =>
          refine ⟨[], s, ?_, hkinds, .nil, .refl _, .nil⟩
          rw [moreStatements_of_no_separator (by simp [hkinds]), List.append_nil]
      | semicolon =>
          obtain ⟨fuel, rfl⟩ : ∃ k, fuel = k + 1 :=
            Nat.exists_eq_succ_of_ne_zero (Nat.ne_zero_of_lt (by rwa [hkinds] at hfuel))
          refine ⟨[], s.skip, ?_, ParseState.kinds_skip_of_eq hkinds, .nil, .refl _, .nil⟩
          rw [moreStatements_of_semicolon hkinds, List.append_nil]
  | cons d ds ih =>
      cases hadmits with
      | cons hd hds =>
          generalize hkinds : s.kinds = rest at htail
          cases htail with
          | @cons separator rest _ _ hseparator htail =>
              rw [hkinds, List.length_cons, List.length_append] at hfuel
              obtain ⟨fuel, rfl⟩ : ∃ k, fuel = k + 1 :=
                Nat.exists_eq_succ_of_ne_zero (by omega)
              obtain ⟨root, t, hroot, ht, hgrows, hrepresents⟩ :=
                reads_statement.complete (s := s.skip) hs hd.fits hd.makes
                  (ParseState.kinds_skip_of_eq hkinds) htail.ends
              have hlength : t.kinds.length ≤ fuel := by
                rw [ht]
                omega
              obtain ⟨new, u, hmore, hu, hparsed⟩ :=
                ih (roots ++ [root]) (hgrows.valid hs) hlength (ht ▸ htail) hds
              refine ⟨root :: new, u, ?_, hu, .cons hd hparsed.admits,
                hgrows.trans hparsed.grows,
                .cons (hrepresents.mono hparsed.grows.extension) hparsed.represents⟩
              rw [moreStatements_of_separator hkinds hseparator (by simp [d.tokens_ne_nil]),
                bind_of_ok hroot, hmore]
              simp

end MoreStatements

/-! ### Whole texts -/

theorem statements_sound {ids : List NodeId} (hs : s.arena.Valid)
    (h : statements s = .ok (ids, s')) :
    ∃ ds es, Statements s.kinds ds ∧ StatementsParsed s ds es ids s' := by
  rw [statements, remaining_bind] at h
  split at h
  next => exact absurd h fail_ne_ok
  next =>
    obtain ⟨first, t, hfirst, h⟩ := bind_eq_ok_iff.mp h
    rw [remaining_bind] at h
    obtain ⟨roots, u, hroots, h⟩ := bind_eq_ok_iff.mp h
    rw [next?_bind] at h
    cases hnext : u.kinds.head? with
    | some kind =>
        rw [hnext] at h
        exact absurd h fail_ne_ok
    | none =>
        rw [hnext] at h
        cases h
        obtain ⟨d, e, hd, hparsed⟩ := reads_statement.sound hs hfirst
        obtain ⟨ds, es, new, rfl, htail, hmore⟩ := moreStatements_sound
          (hparsed.grows.valid hs) (Nat.le_refl _) hroots (List.head?_eq_none_iff.mp hnext)
        refine ⟨d :: ds, e :: es, ?_, .cons (admits_of_parsed hd hparsed) hmore.admits,
          hparsed.grows.trans hmore.grows,
          .cons (hparsed.represents.mono hmore.grows.extension) hmore.represents⟩
        rw [hparsed.kinds]
        exact .mk d htail

theorem exists_statements {ds : List Derivation} {es : List Expr} (hs : s.arena.Valid)
    (hds : Statements s.kinds ds) (hadmits : List.Forall₂ Admits ds es) :
    ∃ ids s', statements s = .ok (ids, s') := by
  generalize hkinds : s.kinds = ts at hds
  cases hds with
  | mk d htail =>
      cases hadmits with
      | cons hd hds =>
          have hne : s.kinds.length ≠ 0 := by simp [hkinds, d.tokens_ne_nil]
          obtain ⟨root, t, hroot, ht, hgrows, hrepresents⟩ :=
            reads_statement.complete hs hd.fits hd.makes hkinds htail.ends
          obtain ⟨new, u, hmore, hu, -⟩ := exists_moreStatements [root]
            (hgrows.valid hs) (Nat.le_refl _) (ht ▸ htail) hds
          refine ⟨[root] ++ new, u, ?_⟩
          rw [statements, remaining_bind, if_neg hne]
          change (statement >>= _) s = _
          rw [bind_of_ok hroot, remaining_bind, bind_of_ok hmore, next?_bind, hu]
          rfl

theorem parse_eq_ok_iff {input : TokenList} {arena : Arena} {roots : List NodeId} :
    parse input = .ok (arena, roots) ↔
      ∃ s', statements ⟨input, Arena.empty⟩ = .ok (roots, s') ∧ s'.arena = arena := by
  change (statements ⟨input, Arena.empty⟩).map _ = _ ↔ _
  cases statements ⟨input, Arena.empty⟩ with
  | error e => simp [Except.map]
  | ok r => simp [Except.map, Prod.ext_iff, and_comm]

theorem exists_derivation_of_parse {input : TokenList} {arena : Arena} {roots : List NodeId}
    (h : parse input = .ok (arena, roots)) :
    ∃ ds es, Statements (input.tokens.map Token.kind) ds ∧ List.Forall₂ Admits ds es ∧
      arena.Valid ∧ List.Forall₂ arena.Represents roots es := by
  obtain ⟨s', hrun, rfl⟩ := parse_eq_ok_iff.mp h
  obtain ⟨ds, es, hds, hparsed⟩ := statements_sound Arena.valid_empty hrun
  exact ⟨ds, es, hds, hparsed.admits, hparsed.grows.valid Arena.valid_empty, hparsed.represents⟩

theorem grouped_of_admits {ds : List Derivation} {es : List Expr}
    (h : List.Forall₂ Admits ds es) : ∀ d ∈ ds, d.Grouped := by
  induction h with
  | nil => simp
  | cons hd _ ih => exact List.forall_mem_cons.mpr ⟨hd.grouped, ih⟩

theorem trees_unique {ds : List Derivation} {es es' : List Expr} (h : List.Forall₂ Admits ds es)
    (h' : List.Forall₂ Admits ds es') : es = es' := by
  induction h generalizing es' with
  | nil =>
      cases h'
      rfl
  | cons hd _ ih =>
      cases h' with
      | cons hd' hds' =>
          rw [ih hds', Option.some.inj (hd.makes.tree.symm.trans hd'.makes.tree)]

/-- The parser reads exactly the grammar. Tokens are parsed if and only if they derive statements
within the limits; the roots are then the trees of these statements, in order; and tokens derive
at most one list of statements, whatever the limits. -/
theorem parse_iff_derivable (input : TokenList) :
    ((∃ arena roots, parse input = .ok (arena, roots)) ↔
      ∃ ds es, Statements (input.tokens.map Token.kind) ds ∧ List.Forall₂ Admits ds es) ∧
    (∀ arena roots ds es, parse input = .ok (arena, roots) →
      Statements (input.tokens.map Token.kind) ds → List.Forall₂ Admits ds es →
        roots.map arena.tree? = es.map some) ∧
    ∀ ds ds', Statements (input.tokens.map Token.kind) ds →
      Statements (input.tokens.map Token.kind) ds' →
        (∀ d ∈ ds, d.Grouped) → (∀ d ∈ ds', d.Grouped) → ds = ds' := by
  refine ⟨⟨?_, ?_⟩, ?_, fun ds ds' h h' hds hds' => h.unique h' hds hds'⟩
  · rintro ⟨arena, roots, h⟩
    obtain ⟨ds, es, hds, hadmits, -, -⟩ := exists_derivation_of_parse h
    exact ⟨ds, es, hds, hadmits⟩
  · rintro ⟨ds, es, hds, hadmits⟩
    obtain ⟨roots, s', hrun⟩ :=
      exists_statements (s := ⟨input, Arena.empty⟩) Arena.valid_empty hds hadmits
    exact ⟨s'.arena, roots, parse_eq_ok_iff.mpr ⟨s', hrun, rfl⟩⟩
  · intro arena roots ds es h hds hadmits
    obtain ⟨ds', es', hds', hadmits', -, hroots⟩ := exists_derivation_of_parse h
    obtain rfl := hds.unique hds' (grouped_of_admits hadmits) (grouped_of_admits hadmits')
    obtain rfl := trees_unique hadmits hadmits'
    rw [← List.forall₂_eq_eq_eq, List.forall₂_map_left_iff, List.forall₂_map_right_iff]
    exact hroots.imp fun _ _ hroot => hroot.tree

end SignalExpr.Parser
