import SignalExpr.Proofs.ParserRun
import SignalExpr.Proofs.Unambiguity

/-!
How operands are read: numbers, quoted text, names and variables, with what stands behind them in
parentheses or brackets. All of them rest on a parser of the phrases inside.
-/

namespace SignalExpr.Parser

open SignalExpr.Derivation

variable {s s' : ParseState} {id : NodeId} {n : Nat} {expr : Parser NodeId} {p : Position}

/-! ### Phrases before a closing token -/

section Closed

variable {closer : TokenKind}

theorem closed_sound (hexpr : Reads expr 0 n) (hs : s.arena.Valid)
    (h : (do let inner ← expr; expect closer; return inner : Parser NodeId) s = .ok (id, s')) :
    ∃ d e, Fits 0 n d ∧ s.kinds = d.tokens ++ closer :: s'.kinds ∧ d.tree? = some e ∧
      s.arena.Grows s'.arena ∧ s'.arena.Represents id e := by
  obtain ⟨inner, t, hinner, h⟩ := bind_eq_ok_iff.mp h
  obtain ⟨_, u, hclose, h⟩ := bind_eq_ok_iff.mp h
  obtain ⟨hkinds, rfl⟩ := expect_eq_ok_iff.mp hclose
  cases h
  obtain ⟨d, e, hd, hparsed⟩ := hexpr.sound hs hinner
  exact ⟨d, e, hd, hparsed.kinds.trans (by rw [hkinds]), hparsed.tree, hparsed.grows,
    hparsed.represents⟩

theorem yields_closed (hexpr : Reads expr 0 n) (hs : s.arena.Valid) {d : Derivation} {e : Expr}
    {rest : List TokenKind} (hd : Fits 0 n d) (he : d.Makes e)
    (hcloser : closer = .rightParen ∨ closer = .rightBracket)
    (hkinds : s.kinds = d.tokens ++ closer :: rest) :
    Yields ((do let inner ← expr; expect closer; return inner : Parser NodeId) s)
      s.arena e rest := by
  have hends : Ends 0 (closer :: rest) :=
    ends_cons.mpr (not_continues_closer (hcloser.elim .inl (.inr ∘ .inl)))
  obtain ⟨inner, t, hinner, ht, hgrows, hrepresents⟩ := hexpr.complete hs hd he hkinds hends
  refine ⟨inner, t.skip, ?_, ParseState.kinds_skip_of_eq ht, hgrows, hrepresents⟩
  rw [bind_of_ok hinner, bind_of_ok (expect_of_kinds ht), pure_run]

end Closed

theorem subscript_sound (hexpr : Reads expr 0 n) (hs : s.arena.Valid)
    (h : subscript expr s = .ok (id, s')) :
    ∃ d e, Fits 0 n d ∧ s.kinds = .leftBracket :: d.tokens ++ .rightBracket :: s'.kinds ∧
      d.tree? = some e ∧ s.arena.Grows s'.arena ∧ s'.arena.Represents id e := by
  obtain ⟨_, t, hopen, h⟩ := bind_eq_ok_iff.mp h
  obtain ⟨hkinds, rfl⟩ := expect_eq_ok_iff.mp hopen
  obtain ⟨d, e, hd, hinner, hresult⟩ := closed_sound (s := s.skip) hexpr hs h
  exact ⟨d, e, hd, hkinds.trans (by rw [hinner]; rfl), hresult⟩

theorem yields_subscript (hexpr : Reads expr 0 n) (hs : s.arena.Valid) {d : Derivation} {e : Expr}
    {rest : List TokenKind} (hd : Fits 0 n d) (he : d.Makes e)
    (hkinds : s.kinds = .leftBracket :: (d.tokens ++ .rightBracket :: rest)) :
    Yields (subscript expr s) s.arena e rest := by
  rw [subscript, bind_of_ok (expect_of_kinds hkinds)]
  exact yields_closed (s := s.skip) hexpr hs hd he (.inr rfl) (ParseState.kinds_skip_of_eq hkinds)

/-! ### Arguments -/

/-- The run took arguments up to the closing parenthesis and built a node for each of them. -/
structure ArgumentsParsed (n : Nat) (s : ParseState) (ds : List Derivation) (ids : List NodeId)
    (s' : ParseState) (es : List Expr) : Prop where
  fits : ∀ d ∈ ds, Fits 0 n d
  kinds : s.kinds = argumentTokens ds ++ .rightParen :: s'.kinds
  trees : List.Forall₂ (fun d e => d.tree? = some e) ds es
  grows : s.arena.Grows s'.arena
  represents : List.Forall₂ s'.arena.Represents ids es

theorem moreArguments_sound (hexpr : Reads expr 0 n) {fuel : Nat} {args ids : List NodeId}
    (hs : s.arena.Valid) (hfuel : s.kinds.length < fuel)
    (h : moreArguments expr fuel args s = .ok (ids, s')) :
    ∃ d ds new es, ids = args ++ new ∧ ArgumentsParsed n s (d :: ds) new s' es := by
  induction fuel generalizing args s with
  | zero => exact absurd hfuel (Nat.not_lt_zero _)
  | succ fuel ih =>
      rw [moreArguments] at h
      obtain ⟨arg, t, harg, h⟩ := bind_eq_ok_iff.mp h
      obtain ⟨d, e, hd, hparsed⟩ := hexpr.sound hs harg
      rw [next?_bind] at h
      split at h
      next hcomma =>
        rw [advance_bind] at h
        have hkinds := ParseState.head?_kinds_eq_some_iff.mp hcomma
        have hlength : t.skip.kinds.length < fuel := by
          have hall := congrArg List.length (hparsed.kinds.trans (by rw [hkinds]))
          simp only [List.length_append, List.length_cons] at hall
          omega
        obtain ⟨d', ds, new, es, rfl, hmore⟩ :=
          ih (s := t.skip) (hparsed.grows.valid hs) hlength h
        refine ⟨d, d' :: ds, arg :: new, e :: es, by simp, ?_, ?_, .cons hparsed.tree hmore.trees,
          hparsed.grows.trans hmore.grows, ?_⟩
        · exact List.forall_mem_cons.mpr ⟨hd, hmore.fits⟩
        · rw [hparsed.kinds, hkinds, hmore.kinds]
          simp [argumentTokens, moreArgumentTokens]
        · exact .cons (hparsed.represents.mono hmore.grows.extension) hmore.represents
      next =>
        obtain ⟨_, u, hclose, h⟩ := bind_eq_ok_iff.mp h
        obtain ⟨hkinds, rfl⟩ := expect_eq_ok_iff.mp hclose
        cases h
        refine ⟨d, [], [arg], [e], rfl, by simpa using hd, ?_, .cons hparsed.tree .nil,
          hparsed.grows, .cons hparsed.represents .nil⟩
        rw [hparsed.kinds, hkinds]
        simp [argumentTokens, moreArgumentTokens]

theorem arguments_sound (hexpr : Reads expr 0 n) {ids : List NodeId} (hs : s.arena.Valid)
    (h : arguments expr s = .ok (ids, s')) : ∃ ds es, ArgumentsParsed n s ds ids s' es := by
  rw [arguments, next?_bind] at h
  split at h
  next hclose =>
    rw [advance_bind] at h
    cases h
    exact ⟨[], [], by simp, ParseState.head?_kinds_eq_some_iff.mp hclose, .nil, .refl _, .nil⟩
  next =>
    rw [remaining_bind] at h
    obtain ⟨d, ds, new, es, rfl, hparsed⟩ := moreArguments_sound hexpr hs (Nat.lt_succ_self _) h
    exact ⟨d :: ds, es, hparsed⟩

theorem exists_moreArguments (hexpr : Reads expr 0 n) {fuel : Nat} (args : List NodeId)
    {d : Derivation} {ds : List Derivation} {es : List Expr} {rest : List TokenKind}
    (hs : s.arena.Valid) (hfuel : ds.length < fuel) (hfits : ∀ x ∈ d :: ds, Fits 0 n x)
    (hmakes : List.Forall₂ Makes (d :: ds) es)
    (hkinds : s.kinds = argumentTokens (d :: ds) ++ .rightParen :: rest) :
    ∃ ids s', moreArguments expr fuel args s = .ok (args ++ ids, s') ∧ s'.kinds = rest ∧
      s.arena.Grows s'.arena ∧ List.Forall₂ s'.arena.Represents ids es := by
  induction ds generalizing fuel args d es s with
  | nil =>
      cases hmakes with
      | cons he hes =>
          cases hes
          obtain ⟨fuel, rfl⟩ := Nat.exists_eq_succ_of_ne_zero (Nat.ne_zero_of_lt hfuel)
          simp only [argumentTokens, moreArgumentTokens, List.append_nil] at hkinds
          obtain ⟨arg, t, harg, ht, hgrows, hrepresents⟩ :=
            hexpr.complete hs (hfits d (by simp)) he hkinds
              (ends_cons.mpr (not_continues_closer (by simp)))
          have hnext : t.kinds.head? ≠ some .comma := by simp [ht]
          refine ⟨[arg], t.skip, ?_, ParseState.kinds_skip_of_eq ht, hgrows,
            .cons hrepresents .nil⟩
          rw [moreArguments, bind_of_ok harg, next?_bind, if_neg hnext,
            bind_of_ok (expect_of_kinds ht), pure_run]
  | cons d' ds ih =>
      cases hmakes with
      | cons he hes =>
          obtain ⟨fuel, rfl⟩ := Nat.exists_eq_succ_of_ne_zero (Nat.ne_zero_of_lt hfuel)
          obtain ⟨hd, hds⟩ := List.forall_mem_cons.mp hfits
          rw [argumentTokens, moreArgumentTokens, List.append_assoc] at hkinds
          obtain ⟨arg, t, harg, ht, hgrows, hrepresents⟩ :=
            hexpr.complete hs hd he hkinds (ends_cons.mpr (not_continues_closer (by simp)))
          have hnext : t.kinds.head? = some .comma := by rw [ht]; rfl
          obtain ⟨ids, u, hmore, hu, hgrows', hrepresents'⟩ :=
            ih (args ++ [arg]) (s := t.skip) (hgrows.valid hs)
              (Nat.lt_of_succ_lt_succ hfuel) hds hes (ParseState.kinds_skip_of_eq ht)
          refine ⟨arg :: ids, u, ?_, hu, hgrows.trans hgrows',
            .cons (hrepresents.mono hgrows'.extension) hrepresents'⟩
          rw [moreArguments, bind_of_ok harg, next?_bind, if_pos hnext, advance_bind, hmore]
          simp

theorem length_lt_argumentTokens (d : Derivation) (ds : List Derivation) :
    ds.length < (argumentTokens (d :: ds)).length := by
  induction ds generalizing d with
  | nil => simpa [argumentTokens, moreArgumentTokens] using
      List.length_pos_iff.mpr d.tokens_ne_nil
  | cons d' ds ih =>
      have h := ih d'
      simp only [argumentTokens, moreArgumentTokens, List.length_append, List.length_cons] at h ⊢
      omega

theorem exists_arguments (hexpr : Reads expr 0 n) {ds : List Derivation} {es : List Expr}
    {rest : List TokenKind} (hs : s.arena.Valid) (hfits : ∀ d ∈ ds, Fits 0 n d)
    (hmakes : List.Forall₂ Makes ds es)
    (hkinds : s.kinds = argumentTokens ds ++ .rightParen :: rest) :
    ∃ ids s', arguments expr s = .ok (ids, s') ∧ s'.kinds = rest ∧
      s.arena.Grows s'.arena ∧ List.Forall₂ s'.arena.Represents ids es := by
  rw [arguments, next?_bind]
  cases ds with
  | nil =>
      cases hmakes
      have hnext : s.kinds.head? = some .rightParen := by rw [hkinds]; rfl
      rw [if_pos hnext, advance_bind]
      exact ⟨[], s.skip, rfl, ParseState.kinds_skip_of_eq hkinds, .refl _, .nil⟩
  | cons d ds =>
      have hnext : s.kinds.head? ≠ some .rightParen := by
        obtain ⟨kind, ts, hd, hne⟩ := d.tokens_eq_cons
        simpa [hkinds, argumentTokens, hd] using hne
      rw [if_neg hnext, remaining_bind]
      refine exists_moreArguments hexpr [] hs ?_ hfits hmakes hkinds
      have hlength := length_lt_argumentTokens d ds
      rw [hkinds, List.length_append]
      omega

/-! ### Cells and variables -/

section Cell

variable {base : CellBase} {table : TableRef} {index : NodeId} {e : Expr}

theorem cellRead_sound (hcell : s.arena.Builds (.cell table e) (s.arena.cell base index))
    (h : cellRead p base index s = .ok (id, s')) :
    s'.kinds = s.kinds ∧ s.arena.Grows s'.arena ∧
      s'.arena.Represents id (.readCell table e) := by
  obtain ⟨access, t, haccess, h⟩ := bind_eq_ok_iff.mp h
  obtain ⟨ht, hgrows, hrepresents⟩ := represents_of_build hcell haccess
  obtain ⟨hs', hgrows', hid⟩ := represents_of_build (Arena.builds_readCell hrepresents) h
  exact ⟨hs'.trans ht, hgrows.trans hgrows', hid⟩

theorem yields_cellRead (hcell : s.arena.Builds (.cell table e) (s.arena.cell base index))
    (hwell : (Expr.readCell table e).WellTyped) (hdepth : (Expr.readCell table e).depth ≤ 256) :
    Yields (cellRead p base index s) s.arena (.readCell table e) s.kinds := by
  have hwell' : (Expr.cell table e).WellTyped := by
    simpa only [Expr.WellTyped] using hwell
  have hdepth' : (Expr.cell table e).depth ≤ 256 := by
    simp only [Expr.depth] at hdepth ⊢
    omega
  refine (yields_build hcell hwell' hdepth').bind fun access t ht hgrows haccess => ?_
  rw [← ht]
  exact yields_build (Arena.builds_readCell haccess) hwell hdepth

end Cell

theorem slot_sound (hexpr : Reads expr 0 n) (hs : s.arena.Valid) {text : String}
    (hkinds : s.kinds = .sigil text :: s.skip.kinds)
    (h : slot expr p text s.skip = .ok (id, s')) :
    ∃ d e, Fits 12 (n + 1) d ∧ Parsed s d e id s' := by
  obtain ⟨v, t, hread, h⟩ := bind_eq_ok_iff.mp h
  obtain ⟨hv, rfl⟩ := readVariable_eq_ok_iff.mp hread
  obtain ⟨node, t, hnode, h⟩ := bind_eq_ok_iff.mp h
  obtain ⟨ht, hgrows, hrepresents⟩ := represents_of_plant (Arena.plants_var · v) hnode
  rw [next?_bind] at h
  split at h
  next hopen =>
    obtain ⟨i, u, hi, h⟩ := bind_eq_ok_iff.mp h
    obtain ⟨d, x, hd, hbrackets, htree, hgrows', hx⟩ :=
      subscript_sound hexpr (hgrows.valid hs) hi
    have hnode := hrepresents.mono hgrows'.extension
    have hresult : s'.kinds = u.kinds ∧ u.arena.Grows s'.arena ∧
        s'.arena.Represents id (indexed v x) := by
      rw [indexed]
      split at h
      next hk =>
        rw [if_pos hk]
        exact represents_of_build (Arena.builds_history hnode hx) h
      next hk =>
        rw [if_neg hk]
        exact cellRead_sound (Arena.builds_slotCell hnode hx) h
    obtain ⟨hs', hgrows'', hid⟩ := hresult
    refine ⟨.indexedSigil text d, indexed v x,
      fits_indexedSigil_iff.mpr ⟨Nat.le_refl _, hd⟩, ?_, ?_,
      (hgrows.trans hgrows').trans hgrows'', hid⟩
    · rw [hkinds, ← ht, hbrackets, hs']
      simp [tokens]
    · simp [tree?, hv, htree]
  next =>
    cases h
    exact ⟨.sigil text, .var v, ⟨trivial, Nat.le_refl _, Nat.succ_pos _⟩,
      hkinds.trans (by rw [ht]; rfl), by simp [tree?, hv], hgrows, hrepresents⟩

theorem yields_slot {text : String} {v : Variable} (hv : Variable.ofText? text = some v)
    (hrest : Ends 12 s.kinds) : Yields (slot expr p text s) s.arena (.var v) s.kinds := by
  rw [slot, bind_of_ok (readVariable_eq_ok_iff.mpr ⟨hv, rfl⟩)]
  refine (yields_plant (Arena.plants_var · v)).bind fun node t ht hgrows hnode => ?_
  have hnext : t.kinds.head? ≠ some .leftBracket := by
    intro hopen
    exact hrest _ (ht ▸ hopen) .leftBracket
  rw [next?_bind, if_neg hnext]
  exact ⟨node, t, rfl, ht, .refl _, hnode⟩

theorem yields_indexed (hexpr : Reads expr 0 n) (hs : s.arena.Valid) {text : String}
    {v : Variable} (hv : Variable.ofText? text = some v) {d : Derivation} {x : Expr}
    {rest : List TokenKind} (hd : Fits 0 n d) (hx : d.Makes x)
    (hwell : (indexed v x).WellTyped) (hdepth : (indexed v x).depth ≤ 256)
    (hkinds : s.kinds = .leftBracket :: (d.tokens ++ .rightBracket :: rest)) :
    Yields (slot expr p text s) s.arena (indexed v x) rest := by
  rw [slot, bind_of_ok (readVariable_eq_ok_iff.mpr ⟨hv, rfl⟩)]
  refine (yields_plant (Arena.plants_var · v)).bind fun node t ht hgrows hnode => ?_
  have hnext : t.kinds.head? = some .leftBracket := by rw [ht, hkinds]; rfl
  rw [next?_bind, if_pos hnext]
  refine (yields_subscript hexpr (hgrows.valid hs) hd hx (ht.trans hkinds)).bind
    fun i u hu hgrows' hi => ?_
  have hnode := hnode.mono hgrows'.extension
  rw [← hu]
  rw [indexed] at hwell hdepth ⊢
  by_cases hk : v.kind.hasHistory = true
  · rw [if_pos hk] at hwell hdepth ⊢
    rw [if_pos hk]
    exact yields_build (Arena.builds_history hnode hi) hwell hdepth
  · rw [if_neg hk] at hwell hdepth ⊢
    rw [if_neg hk]
    exact yields_cellRead (Arena.builds_slotCell hnode hi) hwell hdepth

/-! ### Names and quoted text -/

theorem named_of_leftParen {name : String} (h : s.kinds.head? = some .leftParen) :
    named expr p name s =
      (do let args ← arguments expr; build p (·.call name args) : Parser NodeId) s.skip := by
  simp only [named, next?_bind, h, advance_bind]

theorem named_of_leftBracket {name : String} (h : s.kinds.head? = some .leftBracket) :
    named expr p name s =
      (do let index ← subscript expr; cellRead p (.named name) index : Parser NodeId) s := by
  simp only [named, next?_bind, h]

theorem named_of_ne {name : String} (hparen : s.kinds.head? ≠ some .leftParen)
    (hbracket : s.kinds.head? ≠ some .leftBracket) :
    named expr p name s = plant (·.value name) s := by
  rw [named, next?_bind]
  cases hnext : s.kinds.head? with
  | none => rfl
  | some kind =>
      cases kind with
      | leftParen => exact absurd hnext hparen
      | leftBracket => exact absurd hnext hbracket
      | _ => rfl

theorem named_sound (hexpr : Reads expr 0 n) (hs : s.arena.Valid) {name : String}
    (hkinds : s.kinds = .ident name :: s.skip.kinds)
    (h : named expr p name s.skip = .ok (id, s')) :
    ∃ d e, Fits 12 (n + 1) d ∧ Parsed s d e id s' := by
  by_cases hparen : s.skip.kinds.head? = some .leftParen
  · rw [named_of_leftParen hparen] at h
    obtain ⟨args, t, hargs, h⟩ := bind_eq_ok_iff.mp h
    obtain ⟨ds, es, hparsed⟩ := arguments_sound (s := s.skip.skip) hexpr hs hargs
    obtain ⟨a, ha, -⟩ := build_eq_ok_iff.mp h
    obtain ⟨f, hf⟩ := Arena.exists_builtin_of_call ha
    obtain ⟨hs', hgrows, hid⟩ := represents_of_build (Arena.builds_call hf hparsed.represents) h
    refine ⟨.call name ds, .call f es, fits_call_iff.mpr ⟨Nat.le_refl _, hparsed.fits⟩, ?_, ?_,
      hparsed.grows.trans hgrows, hid⟩
    · rw [hkinds, ParseState.head?_kinds_eq_some_iff.mp hparen, hparsed.kinds, hs']
      simp [tokens]
    · simp [tree?, hf, trees?_eq_some_iff.mpr hparsed.trees]
  by_cases hbracket : s.skip.kinds.head? = some .leftBracket
  · rw [named_of_leftBracket hbracket] at h
    obtain ⟨i, t, hi, h⟩ := bind_eq_ok_iff.mp h
    obtain ⟨d, x, hd, hbrackets, htree, hgrows, hx⟩ :=
      subscript_sound (s := s.skip) hexpr hs hi
    obtain ⟨hs', hgrows', hid⟩ := cellRead_sound (Arena.builds_namedCell hx name) h
    refine ⟨.namedCell name d, .readCell (.named name) x,
      fits_namedCell_iff.mpr ⟨Nat.le_refl _, hd⟩, ?_, by simp [tree?, htree],
      hgrows.trans hgrows', hid⟩
    rw [hkinds, hbrackets, hs']
    simp [tokens]
  · rw [named_of_ne hparen hbracket] at h
    obtain ⟨hs', hgrows, hid⟩ := represents_of_plant (Arena.plants_value · name) h
    exact ⟨.name name, .value name, ⟨trivial, Nat.le_refl _, Nat.succ_pos _⟩,
      hkinds.trans (by rw [hs']; rfl), by simp [tree?], hgrows, hid⟩

theorem yields_name {name : String} (hrest : Ends 12 s.kinds) :
    Yields (named expr p name s) s.arena (.value name) s.kinds := by
  rw [named_of_ne (fun hparen => hrest _ hparen .leftParen)
    (fun hbracket => hrest _ hbracket .leftBracket)]
  exact yields_plant (Arena.plants_value · name)

theorem yields_call (hexpr : Reads expr 0 n) (hs : s.arena.Valid) {name : String} {f : Builtin}
    (hf : Builtin.ofName? name = some f) {ds : List Derivation} {es : List Expr}
    {rest : List TokenKind} (hfits : ∀ d ∈ ds, Fits 0 n d) (hes : List.Forall₂ Makes ds es)
    (he : (Expr.call f es).WellTyped) (hdepth : (Expr.call f es).depth ≤ 256)
    (hkinds : s.kinds = .leftParen :: (argumentTokens ds ++ .rightParen :: rest)) :
    Yields (named expr p name s) s.arena (.call f es) rest := by
  have hnext : s.kinds.head? = some .leftParen := by rw [hkinds]; rfl
  obtain ⟨args, t, hargs, ht, hgrows, hrepresents⟩ :=
    exists_arguments (s := s.skip) hexpr hs hfits hes (ParseState.kinds_skip_of_eq hkinds)
  obtain ⟨id, u, hid, hu, hgrows', hnode⟩ :=
    yields_build (s := t) (p := p) (f := (·.call name args))
      (Arena.builds_call hf hrepresents) he hdepth
  refine ⟨id, u, ?_, hu.trans ht, hgrows.trans hgrows', hnode⟩
  rw [named_of_leftParen hnext, bind_of_ok hargs, hid]

theorem yields_namedCell (hexpr : Reads expr 0 n) (hs : s.arena.Valid) {name : String}
    {d : Derivation} {x : Expr} {rest : List TokenKind} (hd : Fits 0 n d) (hx : d.Makes x)
    (hwell : (Expr.readCell (.named name) x).WellTyped)
    (hdepth : (Expr.readCell (.named name) x).depth ≤ 256)
    (hkinds : s.kinds = .leftBracket :: (d.tokens ++ .rightBracket :: rest)) :
    Yields (named expr p name s) s.arena (.readCell (.named name) x) rest := by
  have hnext : s.kinds.head? = some .leftBracket := by rw [hkinds]; rfl
  rw [named_of_leftBracket hnext]
  refine (yields_subscript hexpr hs hd hx hkinds).bind fun i t ht hgrows hi => ?_
  rw [← ht]
  exact yields_cellRead (Arena.builds_namedCell hi name) hwell hdepth

theorem quotation_sound {text : String} (h : quotation p text s = .ok (id, s')) :
    ∃ e, quotation? text = some e ∧ s'.kinds = s.kinds ∧ s.arena.Grows s'.arena ∧
      s'.arena.Represents id e := by
  rw [quotation] at h
  rw [quotation?]
  split at h
  next hdollar =>
    rw [if_pos hdollar]
    obtain ⟨v, t, hread, h⟩ := bind_eq_ok_iff.mp h
    obtain ⟨hv, rfl⟩ := readVariable_eq_ok_iff.mp hread
    obtain ⟨node, u, hnode, h⟩ := bind_eq_ok_iff.mp h
    obtain ⟨hu, hgrows, hrepresents⟩ := represents_of_plant (Arena.plants_var · v) hnode
    obtain ⟨hs', hgrows', hid⟩ := represents_of_build (Arena.builds_quotedVar hrepresents) h
    exact ⟨.quotedVar v, by simp [hv], hs'.trans hu, hgrows.trans hgrows', hid⟩
  next hdollar =>
    rw [if_neg hdollar]
    exact ⟨.quoted text, rfl, represents_of_plant (Arena.plants_quoted · text) h⟩

theorem yields_quotation {text : String} {e : Expr} (h : (Derivation.string text).Makes e) :
    Yields (quotation p text s) s.arena e s.kinds := by
  have htree : quotation? text = some e := by simpa only [tree?] using h.tree
  rw [quotation? ] at htree
  rw [quotation]
  split at htree
  next hdollar =>
    obtain ⟨v, hv, rfl⟩ := Option.map_eq_some_iff.mp htree
    rw [if_pos hdollar, bind_of_ok (readVariable_eq_ok_iff.mpr ⟨hv, rfl⟩)]
    refine (yields_plant (Arena.plants_var · v)).bind fun node t ht hgrows hnode => ?_
    rw [← ht]
    exact yields_build (Arena.builds_quotedVar hnode) h.wellTyped h.depth_le
  next hdollar =>
    cases htree
    rw [if_neg hdollar]
    exact yields_plant (Arena.plants_quoted · text)

/-! ### Operands -/

theorem operand_sound (hexpr : Reads expr 0 n) (hs : s.arena.Valid)
    (h : operand expr s = .ok (id, s')) : ∃ d e, Fits 12 (n + 1) d ∧ Parsed s d e id s' := by
  rw [operand, position_bind, next?_bind] at h
  cases hnext : s.kinds.head? with
  | none =>
      rw [hnext] at h
      exact absurd h failAt_ne_ok
  | some kind =>
      rw [hnext] at h
      simp only [advance_bind] at h
      have hkinds := ParseState.head?_kinds_eq_some_iff.mp hnext
      cases kind with
      | ident name => exact named_sound hexpr hs hkinds h
      | sigil text => exact slot_sound hexpr hs hkinds h
      | integer m =>
          obtain ⟨hs', hgrows, hid⟩ := represents_of_plant (Arena.plants_int · m) h
          exact ⟨.integer m, .int m, ⟨trivial, Nat.le_refl _, Nat.succ_pos _⟩,
            hkinds.trans (by rw [hs']; rfl), by simp [tree?], hgrows, hid⟩
      | number x =>
          obtain ⟨hs', hgrows, hid⟩ := represents_of_plant (Arena.plants_float · x) h
          exact ⟨.number x, .float x, ⟨trivial, Nat.le_refl _, Nat.succ_pos _⟩,
            hkinds.trans (by rw [hs']; rfl), by simp [tree?], hgrows, hid⟩
      | str text =>
          obtain ⟨e, he, hs', hgrows, hid⟩ := quotation_sound h
          exact ⟨.string text, e, ⟨trivial, Nat.le_refl _, Nat.succ_pos _⟩,
            hkinds.trans (by rw [hs']; rfl), by simp [tree?, he], hgrows, hid⟩
      | leftParen =>
          obtain ⟨d, e, hd, hinner, htree, hgrows, hid⟩ := closed_sound (s := s.skip) hexpr hs h
          exact ⟨.parenthesized d, e, fits_parenthesized_iff.mpr ⟨Nat.le_refl _, hd⟩,
            hkinds.trans (by rw [hinner]; simp [tokens]), by simp [tree?, htree], hgrows, hid⟩
      | _ => exact absurd h failAt_ne_ok

theorem yields_operand (hexpr : Reads expr 0 n) {d : Derivation} {e : Expr}
    {rest : List TokenKind} (hs : s.arena.Valid) (hd : Fits 12 (n + 1) d) (he : d.Makes e)
    (hkinds : s.kinds = d.tokens ++ rest) (hrest : Ends 12 rest) :
    Yields (operand expr s) s.arena e rest := by
  have hrun {kind : TokenKind} {ts : List TokenKind} (h : s.kinds = kind :: ts) :
      s.kinds.head? = some kind ∧ s.skip.kinds = ts :=
    ⟨by rw [h]; rfl, ParseState.kinds_skip_of_eq h⟩
  rw [operand, position_bind, next?_bind]
  cases d with
  | integer m =>
      obtain ⟨hnext, rfl⟩ := hrun hkinds
      cases he.tree
      rw [hnext]
      exact yields_plant (s := s.skip) (Arena.plants_int · m)
  | number x =>
      obtain ⟨hnext, rfl⟩ := hrun hkinds
      cases he.tree
      rw [hnext]
      exact yields_plant (s := s.skip) (Arena.plants_float · x)
  | string text =>
      obtain ⟨hnext, rfl⟩ := hrun hkinds
      rw [hnext]
      exact yields_quotation (s := s.skip) he
  | name name =>
      obtain ⟨hnext, rfl⟩ := hrun hkinds
      cases he.tree
      rw [hnext]
      exact yields_name (s := s.skip) hrest
  | sigil text =>
      obtain ⟨hnext, rfl⟩ := hrun hkinds
      obtain ⟨v, hv, rfl⟩ := Option.map_eq_some_iff.mp he.tree
      rw [hnext]
      exact yields_slot (s := s.skip) hv hrest
  | parenthesized d =>
      simp only [tokens, List.cons_append, List.append_assoc] at hkinds
      obtain ⟨hnext, hskip⟩ := hrun hkinds
      rw [hnext]
      exact yields_closed (s := s.skip) hexpr hs (fits_parenthesized_iff.mp hd).2 he.inner
        (.inl rfl) hskip
  | call name args =>
      simp only [tokens, List.cons_append, List.append_assoc] at hkinds
      obtain ⟨hnext, hskip⟩ := hrun hkinds
      obtain ⟨f, es, hf, rfl, hes⟩ := he.exists_call
      rw [hnext]
      exact yields_call (s := s.skip) hexpr hs hf (fits_call_iff.mp hd).2 hes he.wellTyped
        he.depth_le hskip
  | namedCell name d =>
      simp only [tokens, List.cons_append, List.append_assoc] at hkinds
      obtain ⟨hnext, hskip⟩ := hrun hkinds
      obtain ⟨x, rfl, hx⟩ := he.exists_namedCell
      rw [hnext]
      exact yields_namedCell (s := s.skip) hexpr hs (fits_namedCell_iff.mp hd).2 hx he.wellTyped
        he.depth_le hskip
  | indexedSigil text d =>
      simp only [tokens, List.cons_append, List.append_assoc] at hkinds
      obtain ⟨hnext, hskip⟩ := hrun hkinds
      obtain ⟨v, x, hv, rfl, hx⟩ := he.exists_indexed
      rw [hnext]
      exact yields_indexed (s := s.skip) hexpr hs hv (fits_indexedSigil_iff.mp hd).2 hx
        he.wellTyped he.depth_le hskip
  | prefixed op d => exact absurd hd.level_le (by simp [level])
  | binary op l r => exact absurd (hd.of_level_le (Nat.le_of_lt hd.level_le)) not_fits_binary
  | assignment t v => exact absurd hd not_fits_assignment

theorem reads_operand (hexpr : Reads expr 0 n) : Reads (operand expr) 12 (n + 1) :=
  ⟨operand_sound hexpr, yields_operand hexpr⟩

end SignalExpr.Parser
