import SignalExpr.Proofs.ArenaTrees

/-!
What the operations of an arena build. Each statement names the tree of the new node in terms of
the trees of the nodes that the operation is given.
-/

namespace SignalExpr

theorem ValueType.isNumeric_eq_true_iff {t : ValueType} : t.isNumeric = true ↔ t ≠ .string := by
  cases t <;> simp [isNumeric]

namespace Arena

variable {a : Arena} {i j : NodeId} {e l r : Expr}

/-! ### Leaves -/

theorem plants_leaf (a : Arena) {kind : NodeKind} (htree : kind.Denotes a.tree? e)
    (hwell : e.WellTyped) (hdepth : e.depth = 1) : a.Plants e (a.leaf kind e.type) := by
  rw [leaf, ← hdepth]
  exact plants_push a htree hwell (by rw [hdepth]; decide)

theorem plants_var (a : Arena) (v : Variable) : a.Plants (.var v) (a.var v) :=
  plants_leaf a (.var v) trivial rfl

theorem plants_int (a : Arena) (n : Int) : a.Plants (.int n) (a.int n) :=
  plants_leaf a (.int n) trivial rfl

theorem plants_float (a : Arena) (x : Sample) : a.Plants (.float x) (a.float x) :=
  plants_leaf a (.float x) trivial rfl

theorem plants_quoted (a : Arena) (text : String) : a.Plants (.quoted text) (a.quoted text) :=
  plants_leaf a (.quoted text) trivial rfl

theorem plants_value (a : Arena) (name : String) : a.Plants (.value name) (a.value name) :=
  plants_leaf a (.value name) trivial rfl

/-! ### Nodes above others -/

theorem slot?_eq_some_iff (h : a.tree? i = some e) {v : Variable} :
    a.slot? i = some v ↔ e = .var v := by
  obtain ⟨kind, hkind, hdenotes⟩ := exists_kind_of_tree? h
  rw [slot?, hkind]
  cases hdenotes <;> simp

theorem builds_requireNumeric (h : a.Represents i e) (place : NumericPlace) {x : Expr}
    {result : Except Cause (Arena × NodeId)} (hnumeric : e.Numeric → a.Builds x result)
    (hstring : x.WellTyped → e.Numeric) :
    a.Builds x (do a.requireNumeric i place; result) := by
  rw [requireNumeric, h.type]
  by_cases hn : e.Numeric
  · rw [if_pos (ValueType.isNumeric_eq_true_iff.mpr hn)]
    exact hnumeric hn
  · rw [if_neg (mt ValueType.isNumeric_eq_true_iff.mp hn)]
    exact builds_error a (mt hstring hn) _

theorem depthOver_singleton (h : a.Represents i e) : a.depthOver [i] = 1 + e.depth := by
  simp [depthOver, h.depth]

theorem depthOver_pair (hl : a.Represents i l) (hr : a.Represents j r) :
    a.depthOver [i, j] = 1 + max l.depth r.depth := by
  simp [depthOver, hl.depth, hr.depth]

theorem builds_quotedVar {v : Variable} (h : a.Represents i (.var v)) :
    a.Builds (.quotedVar v) (a.quotedVar i) := by
  rw [quotedVar, (slot?_eq_some_iff h.tree).mpr rfl]
  obtain ⟨kind, index⟩ := v
  cases kind with
  | symbol => exact builds_branch a (.quotedVar h.tree) (depthOver_singleton h) rfl
  | _ => exact builds_error a (by simp [Expr.WellTyped]) _

theorem builds_unary (h : a.Represents i e) (op : UnaryOp) :
    a.Builds (.unary op e) (a.unary op i) := by
  refine builds_requireNumeric h _ (fun hn => ?_) (fun hwell => hwell.2)
  rw [h.type]
  exact builds_branch a (.unary op h.tree) (depthOver_singleton h) ⟨h.wellTyped, hn⟩

theorem builds_binary (hl : a.Represents i l) (hr : a.Represents j r) (op : BinaryOp) :
    a.Builds (.binary op l r) (a.binary op i j) := by
  refine builds_requireNumeric hl _ (fun hln => ?_) (fun hwell => hwell.1.2)
  refine builds_requireNumeric hr _ (fun hrn => ?_) (fun hwell => hwell.2.2)
  rw [hl.type, hr.type]
  exact builds_branch a (.binary op hl.tree hr.tree) (depthOver_pair hl hr)
    ⟨⟨hl.wellTyped, hln⟩, hr.wellTyped, hrn⟩

theorem builds_history {v : Variable} (hv : a.Represents i (.var v)) (h : a.Represents j e) :
    a.Builds (.history v e) (a.history i j) := by
  simp only [history, (slot?_eq_some_iff hv.tree).mpr rfl]
  by_cases hk : v.kind.hasHistory = true
  · rw [if_pos hk]
    refine builds_requireNumeric h _ (fun hn => ?_) (fun hwell => hwell.2.2)
    exact builds_branch a (.history hv.tree h.tree) (depthOver_pair hv h)
      ⟨hk, h.wellTyped, hn⟩
  · rw [if_neg hk]
    have hill : ¬ (Expr.history v e).WellTyped := fun hwell => hk hwell.1
    exact builds_error a hill _

theorem builds_namedCell (h : a.Represents i e) (name : String) :
    a.Builds (.cell (.named name) e) (a.cell (.named name) i) := by
  refine builds_requireNumeric h _ (fun hn => ?_) (fun hwell => hwell.2.2)
  exact builds_branch a (.namedCell name h.tree) (depthOver_singleton h)
    ⟨trivial, h.wellTyped, hn⟩

theorem isTable_slot_iff {v : Variable} (h : a.Represents i (.var v)) :
    a.isTable (.slot i) = true ↔ (TableRef.slot v).Readable := by
  simp only [isTable, (slot?_eq_some_iff h.tree).mpr rfl, TableRef.Readable]
  obtain ⟨kind, index⟩ := v
  cases kind <;> simp

theorem builds_slotCell {v : Variable} (hv : a.Represents i (.var v)) (h : a.Represents j e) :
    a.Builds (.cell (.slot v) e) (a.cell (.slot i) j) := by
  rw [cell]
  by_cases htable : a.isTable (.slot i) = true
  · rw [if_pos htable]
    refine builds_requireNumeric h _ (fun hn => ?_) (fun hwell => hwell.2.2)
    refine builds_branch a (.slotCell hv.tree h.tree) ?_
      ⟨(isTable_slot_iff hv).mp htable, h.wellTyped, hn⟩
    rw [NodeKind.children, depthOver_pair hv h]
    have hone : (Expr.var v).depth = 1 := rfl
    have hpos := e.depth_pos
    simp only [Expr.depth]
    omega
  · rw [if_neg htable]
    have hill : ¬ (Expr.cell (.slot v) e).WellTyped :=
      fun hwell => htable ((isTable_slot_iff hv).mpr hwell.1)
    exact builds_error a hill _

theorem builds_readCell {table : TableRef} (h : a.Represents i (.cell table e)) :
    a.Builds (.readCell table e) (a.readCell i) := by
  obtain ⟨kind, hkind, hdenotes⟩ := exists_kind_of_tree? h.tree
  have hdepth : a.depthOver [i] = (Expr.readCell table e).depth := by
    rw [depthOver_singleton h]
    simp only [Expr.depth]
    omega
  have hbranch : a.Builds (.readCell table e) (a.branch (.readCell i) .float) :=
    builds_branch a (.readCell h.tree) hdepth h.wellTyped
  rw [readCell, hkind]
  cases hdenotes <;> exact hbranch

theorem builds_assign (h : a.Represents i e) (name : String) :
    a.Builds (.assign name e) (a.assign name i) := by
  refine builds_requireNumeric h _ (fun hn => ?_) (fun hwell => hwell.2)
  rw [h.type]
  exact builds_branch a (.assign name h.tree) (depthOver_singleton h) ⟨h.wellTyped, hn⟩

theorem requireAssignable_eq_ok_iff {table : TableRef} (h : a.tree? i = some (.cell table e)) :
    a.requireAssignable i = .ok () ↔ table.Assignable := by
  obtain ⟨kind, hkind, hdenotes⟩ := exists_kind_of_tree? h
  rw [requireAssignable, hkind]
  cases hdenotes with
  | namedCell name hindex => simp [TableRef.Assignable]
  | @slotCell _ _ v _ hv hindex =>
      simp only [(slot?_eq_some_iff hv).mpr rfl, TableRef.Assignable]
      obtain ⟨kind, index⟩ := v
      cases kind <;> simp

theorem builds_assignCell {table : TableRef} (haccess : a.Represents i (.cell table l))
    (h : a.Represents j e) : a.Builds (.assignCell table l e) (a.assignCell i j) := by
  rw [assignCell]
  by_cases hassignable : table.Assignable
  · rw [(requireAssignable_eq_ok_iff haccess.tree).mpr hassignable]
    refine builds_requireNumeric h _ (fun hn => ?_) (fun hwell => hwell.2.2.2)
    rw [h.type]
    exact builds_branch a (.assignCell haccess.tree h.tree) (depthOver_pair haccess h)
      ⟨hassignable, haccess.wellTyped.2, h.wellTyped, hn⟩
  · have hill : ¬ (Expr.assignCell table l e).WellTyped := fun hwell => hassignable hwell.1
    cases hr : a.requireAssignable i with
    | ok _ => exact absurd ((requireAssignable_eq_ok_iff haccess.tree).mp hr) hassignable
    | error cause => exact builds_error a hill cause

/-! ### Calls -/

variable {ids : List NodeId} {es : List Expr}

theorem map_typeOf_eq_types (h : List.Forall₂ a.Represents ids es) :
    ids.map a.typeOf = Expr.types es := by
  induction h with
  | nil => rfl
  | cons hx _ ih => simp only [List.map_cons, Expr.types, hx.type, ih]

theorem foldl_depthOf_eq_max (h : List.Forall₂ a.Represents ids es) (n : Nat) :
    ids.foldl (fun d c => max d (a.depthOf c)) n = max n (Expr.maxDepth es) := by
  induction h generalizing n with
  | nil => simp [Expr.maxDepth]
  | cons hx _ ih =>
      rw [List.foldl_cons, ih, hx.depth, Expr.maxDepth, Nat.max_assoc]

theorem allWellTyped_of_represents (h : List.Forall₂ a.Represents ids es) :
    Expr.AllWellTyped es := by
  induction h with
  | nil => trivial
  | cons hx _ ih => exact ⟨hx.wellTyped, ih⟩

theorem mismatch?_eq_none_iff (h : List.Forall₂ a.Represents ids es) {ps : List Parameter}
    (hlength : ps.length = ids.length) :
    a.mismatch? ps ids = none ↔ List.Forall₂ Parameter.Takes ps (Expr.types es) := by
  rw [← map_typeOf_eq_types h, List.forall₂_map_right_iff, List.forall₂_iff_zip, mismatch?,
    List.findIdx?_eq_none_iff]
  simp only [hlength, true_and, Prod.forall, Parameter.Takes]
  refine forall_congr' fun p => forall_congr' fun id => imp_congr_right fun _ => ?_
  cases a.typeOf id <;> cases p <;> decide

theorem exists_builtin_of_call {name : String} {p : Arena × NodeId}
    (h : a.call name ids = .ok p) : ∃ f, Builtin.ofName? name = some f := by
  rw [call] at h
  split at h
  next => cases h
  next f hf => exact ⟨f, hf⟩

theorem builds_call {name : String} {f : Builtin} (hf : Builtin.ofName? name = some f)
    (h : List.Forall₂ a.Represents ids es) : a.Builds (.call f es) (a.call name ids) := by
  have htakes : (Expr.call f es).WellTyped →
      List.Forall₂ Parameter.Takes f.parameters (Expr.types es) := fun hwell => hwell.2
  have hids : (Expr.types es).length = ids.length := by
    rw [Expr.types_eq_map, List.length_map, h.length_eq]
  simp only [call, hf]
  by_cases hlength : f.parameters.length = ids.length
  · rw [if_neg (not_not.mpr hlength)]
    cases hm : a.mismatch? f.parameters ids with
    | some k =>
        refine builds_error a (fun hwell => ?_) _
        rw [(mismatch?_eq_none_iff h hlength).mpr (htakes hwell)] at hm
        cases hm
    | none =>
        have hdepth : a.depthOver ids = (Expr.call f es).depth := by
          rw [depthOver, foldl_depthOf_eq_max h, Nat.zero_max, Expr.depth]
        rw [map_typeOf_eq_types h]
        exact builds_branch a (.call f (h.imp fun _ _ hx => hx.tree)) hdepth
          ⟨allWellTyped_of_represents h, (mismatch?_eq_none_iff h hlength).mp hm⟩
  · rw [if_pos hlength]
    exact builds_error a (fun hwell => hlength ((htakes hwell).length_eq.trans hids)) _

end Arena

end SignalExpr
