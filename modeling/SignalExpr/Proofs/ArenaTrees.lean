import Mathlib.Data.List.Induction
import SignalExpr.Arena.Tree
import SignalExpr.Proofs.WellTyped

/-!
An arena as a store of trees. A node keeps the tree that it had when it came in, whatever comes in
behind it. In a valid arena the type and the height kept with every node are those of its tree,
and the tree follows the typing rules.

Each operation that puts in a node has one statement here: it succeeds exactly if the new tree is
well typed and not too tall, and then the new node has that tree.
-/

namespace SignalExpr

namespace Arena

theorem induction_push {P : Arena → Prop} (hempty : P empty)
    (hpush : ∀ a node, P a → P (a.push node).1) (a : Arena) : P a := by
  obtain ⟨⟨nodes⟩⟩ := a
  induction nodes using List.reverseRecOn with
  | nil => exact hempty
  | append_singleton nodes node ih => simpa [push] using hpush ⟨⟨nodes⟩⟩ node ih

@[simp] theorem size_push (a : Arena) (node : Node) : (a.push node).1.size = a.size + 1 := by
  simp [push, size]

theorem trees_push (a : Arena) (node : Node) :
    (a.push node).1.trees = a.trees.push (node.kind.tree? a.trees) := by
  simp [push, trees]

@[simp] theorem size_trees (a : Arena) : a.trees.size = a.size := by
  induction a using induction_push with
  | hempty => rfl
  | hpush a node ih => rw [trees_push, Array.size_push, ih, size_push]

theorem lt_size_of_tree? {a : Arena} {id : NodeId} {e : Expr} (h : a.tree? id = some e) :
    id < a.size := by
  by_contra hle
  have hnone : a.trees[id]? = none := by
    rw [Array.getElem?_eq_none_iff, size_trees]
    exact Nat.not_lt.mp hle
  simp [tree?, hnone] at h

theorem tree?_push_of_lt {a : Arena} {id : NodeId} (node : Node) (h : id < a.size) :
    (a.push node).1.tree? id = a.tree? id := by
  have hne : id ≠ a.trees.size := by
    rw [size_trees]
    exact Nat.ne_of_lt h
  rw [tree?, tree?, trees_push, Array.getElem?_push, if_neg hne]

theorem tree?_push_size (a : Arena) (node : Node) :
    (a.push node).1.tree? a.size = node.kind.tree? a.trees := by
  rw [tree?, trees_push, Array.getElem?_push, if_pos (size_trees a).symm]
  rfl

theorem getElem?_push_of_lt {a : Arena} {id : NodeId} (node : Node) (h : id < a.size) :
    (a.push node).1.nodes[id]? = a.nodes[id]? := by
  rw [push, Array.getElem?_push, if_neg (by simpa [size] using Nat.ne_of_lt h)]

theorem getElem?_push_size (a : Arena) (node : Node) :
    (a.push node).1.nodes[a.size]? = some node := by
  simp [push, size]

/-- The second arena is the first one with more nodes behind. -/
inductive Extends (a : Arena) : Arena → Prop
  | refl : Extends a a
  | push {b : Arena} (node : Node) : Extends a b → Extends a (b.push node).1

theorem Extends.trans {a b c : Arena} (hab : a.Extends b) (hbc : b.Extends c) : a.Extends c := by
  induction hbc with
  | refl => exact hab
  | push node _ ih => exact ih.push node

theorem Extends.size_le {a b : Arena} (h : a.Extends b) : a.size ≤ b.size := by
  induction h with
  | refl => exact Nat.le_refl _
  | push node _ ih =>
      rw [size_push]
      exact Nat.le_succ_of_le ih

theorem Extends.getElem?_eq {a b : Arena} (h : a.Extends b) {id : NodeId} (hid : id < a.size) :
    b.nodes[id]? = a.nodes[id]? := by
  induction h with
  | refl => rfl
  | push node hab ih => rw [getElem?_push_of_lt node (Nat.lt_of_lt_of_le hid hab.size_le), ih]

theorem Extends.tree?_eq {a b : Arena} (h : a.Extends b) {id : NodeId} (hid : id < a.size) :
    b.tree? id = a.tree? id := by
  induction h with
  | refl => rfl
  | push node hab ih => rw [tree?_push_of_lt node (Nat.lt_of_lt_of_le hid hab.size_le), ih]

end Arena

theorem mapM_eq_some_iff {α β : Type} {f : α → Option β} {xs : List α} {ys : List β} :
    xs.mapM f = some ys ↔ List.Forall₂ (fun x y => f x = some y) xs ys := by
  induction xs generalizing ys with
  | nil =>
      cases ys with
      | nil => simp
      | cons y ys => simp
  | cons x xs ih =>
      cases ys with
      | nil => simp [List.mapM_cons, Option.bind_eq_some_iff]
      | cons y ys => simp [List.mapM_cons, Option.bind_eq_some_iff, ih]

theorem Expr.slot?_eq_some_iff {e : Expr} {v : Variable} : e.slot? = some v ↔ e = .var v := by
  cases e <;> simp [slot?]

namespace NodeKind

/-- A node of this kind has the tree `e`, if `child` gives the trees of its children. -/
inductive Denotes (child : NodeId → Option Expr) : NodeKind → Expr → Prop
  | var (v : Variable) : Denotes child (.var v) (.var v)
  | int (n : Int) : Denotes child (.int n) (.int n)
  | float (x : Sample) : Denotes child (.float x) (.float x)
  | quoted (text : String) : Denotes child (.quoted text) (.quoted text)
  | quotedVar {i : NodeId} {v : Variable} :
      child i = some (.var v) → Denotes child (.quotedVar i) (.quotedVar v)
  | unary (op : UnaryOp) {i : NodeId} {e : Expr} :
      child i = some e → Denotes child (.unary op i) (.unary op e)
  | binary (op : BinaryOp) {i j : NodeId} {l r : Expr} :
      child i = some l → child j = some r → Denotes child (.binary op i j) (.binary op l r)
  | call (f : Builtin) {ids : List NodeId} {args : List Expr} :
      List.Forall₂ (fun i e => child i = some e) ids args →
        Denotes child (.call f ids) (.call f args)
  | history {i j : NodeId} {v : Variable} {offset : Expr} :
      child i = some (.var v) → child j = some offset →
        Denotes child (.history i j) (.history v offset)
  | namedCell (name : String) {i : NodeId} {index : Expr} :
      child i = some index → Denotes child (.cell (.named name) i) (.cell (.named name) index)
  | slotCell {i j : NodeId} {v : Variable} {index : Expr} :
      child i = some (.var v) → child j = some index →
        Denotes child (.cell (.slot i) j) (.cell (.slot v) index)
  | readCell {i : NodeId} {table : TableRef} {index : Expr} :
      child i = some (.cell table index) → Denotes child (.readCell i) (.readCell table index)
  | assignCell {i j : NodeId} {table : TableRef} {index v : Expr} :
      child i = some (.cell table index) → child j = some v →
        Denotes child (.assignCell i j) (.assignCell table index v)
  | value (name : String) : Denotes child (.value name) (.value name)
  | assign (name : String) {i : NodeId} {v : Expr} :
      child i = some v → Denotes child (.assign name i) (.assign name v)

theorem tree?_eq_some_iff {trees : Array (Option Expr)} {kind : NodeKind} {e : Expr} :
    kind.tree? trees = some e ↔ kind.Denotes (tree?.child trees) e := by
  constructor
  · intro h
    cases kind with
    | var v =>
        cases h
        exact .var v
    | int n =>
        cases h
        exact .int n
    | float x =>
        cases h
        exact .float x
    | quoted text =>
        cases h
        exact .quoted text
    | value name =>
        cases h
        exact .value name
    | quotedVar i =>
        simp only [tree?, Option.bind_eq_bind, Option.bind_eq_some_iff,
          Expr.slot?_eq_some_iff] at h
        obtain ⟨_, hv, v, rfl, ⟨⟩⟩ := h
        exact .quotedVar hv
    | unary op i =>
        simp only [tree?, Option.bind_eq_bind, Option.bind_eq_some_iff] at h
        obtain ⟨x, hx, ⟨⟩⟩ := h
        exact .unary op hx
    | assign name i =>
        simp only [tree?, Option.bind_eq_bind, Option.bind_eq_some_iff] at h
        obtain ⟨x, hx, ⟨⟩⟩ := h
        exact .assign name hx
    | binary op i j =>
        simp only [tree?, Option.bind_eq_bind, Option.bind_eq_some_iff] at h
        obtain ⟨l, hl, r, hr, ⟨⟩⟩ := h
        exact .binary op hl hr
    | call f ids =>
        simp only [tree?, Option.bind_eq_bind, Option.bind_eq_some_iff, mapM_eq_some_iff] at h
        obtain ⟨args, hargs, ⟨⟩⟩ := h
        exact .call f hargs
    | history i j =>
        simp only [tree?, Option.bind_eq_bind, Option.bind_eq_some_iff,
          Expr.slot?_eq_some_iff] at h
        obtain ⟨_, hv, v, rfl, offset, hoffset, ⟨⟩⟩ := h
        exact .history hv hoffset
    | cell base j =>
        cases base with
        | named name =>
            simp only [tree?, Option.bind_eq_bind, Option.bind_eq_some_iff] at h
            obtain ⟨index, hindex, ⟨⟩⟩ := h
            exact .namedCell name hindex
        | slot i =>
            simp only [tree?, Option.bind_eq_bind, Option.bind_eq_some_iff,
              Expr.slot?_eq_some_iff] at h
            obtain ⟨_, hv, v, rfl, index, hindex, ⟨⟩⟩ := h
            exact .slotCell hv hindex
    | readCell i =>
        simp only [tree?, Option.bind_eq_bind, Option.bind_eq_some_iff] at h
        obtain ⟨access, haccess, h⟩ := h
        cases access with
        | cell table index =>
            cases h
            exact .readCell haccess
        | _ => cases h
    | assignCell i j =>
        simp only [tree?, Option.bind_eq_bind, Option.bind_eq_some_iff] at h
        obtain ⟨access, haccess, h⟩ := h
        cases access with
        | cell table index =>
            simp only [Option.bind_eq_some_iff] at h
            obtain ⟨v, hv, ⟨⟩⟩ := h
            exact .assignCell haccess hv
        | _ => cases h
  · intro h
    cases h with
    | var | int | float | quoted | value => rfl
    | call f hargs => simp [tree?, mapM_eq_some_iff.mpr hargs]
    | _ => simp [tree?, Expr.slot?, *]

theorem Denotes.mono {earlier later : NodeId → Option Expr}
    (hchild : ∀ id e, earlier id = some e → later id = some e)
    {kind : NodeKind} {e : Expr} (h : kind.Denotes earlier e) : kind.Denotes later e := by
  cases h with
  | call f hargs => exact .call f (hargs.imp hchild)
  | _ => constructor <;> solve_by_elim

end NodeKind

namespace Arena

theorem exists_kind_of_tree? {a : Arena} {id : NodeId} {e : Expr} (h : a.tree? id = some e) :
    ∃ kind, a.kind? id = some kind ∧ kind.Denotes a.tree? e := by
  induction a using induction_push with
  | hempty => exact absurd (lt_size_of_tree? h) (Nat.not_lt_zero id)
  | hpush a node ih =>
      have hkeep : ∀ child x, a.tree? child = some x → (a.push node).1.tree? child = some x :=
        fun child x hx => (tree?_push_of_lt node (lt_size_of_tree? hx)).trans hx
      rcases Nat.lt_succ_iff_lt_or_eq.mp (size_push a node ▸ lt_size_of_tree? h) with hlt | rfl
      · rw [tree?_push_of_lt node hlt] at h
        obtain ⟨kind, hkind, hdenotes⟩ := ih h
        refine ⟨kind, ?_, hdenotes.mono hkeep⟩
        rw [kind?, getElem?_push_of_lt node hlt]
        exact hkind
      · rw [tree?_push_size] at h
        refine ⟨node.kind, ?_, (NodeKind.tree?_eq_some_iff.mp h).mono hkeep⟩
        rw [kind?, getElem?_push_size]
        rfl

/-- The node stands for the tree: the type and the height kept with it are those of the tree,
which follows the typing rules and is not too tall. -/
structure Represents (a : Arena) (id : NodeId) (e : Expr) : Prop where
  tree : a.tree? id = some e
  type : a.typeOf id = e.type
  depth : a.depthOf id = e.depth
  wellTyped : e.WellTyped
  depth_le : e.depth ≤ maxDepth

/-- Every node stands for a tree. -/
def Valid (a : Arena) : Prop :=
  ∀ id < a.size, ∃ e, a.Represents id e

theorem valid_empty : empty.Valid := fun id h => absurd h (Nat.not_lt_zero id)

theorem Represents.mono {a b : Arena} (hab : a.Extends b) {id : NodeId} {e : Expr}
    (h : a.Represents id e) : b.Represents id e := by
  have hid := lt_size_of_tree? h.tree
  have hnode := hab.getElem?_eq hid
  refine ⟨(hab.tree?_eq hid).trans h.tree, ?_, ?_, h.wellTyped, h.depth_le⟩
  · rw [typeOf, hnode]
    exact h.type
  · rw [depthOf, hnode]
    exact h.depth

theorem represents_push (a : Arena) {kind : NodeKind} {e : Expr}
    (htree : kind.Denotes a.tree? e) (hwell : e.WellTyped) (hdepth : e.depth ≤ maxDepth) :
    (a.push ⟨kind, e.type, e.depth⟩).1.Represents a.size e := by
  have hnode := getElem?_push_size a ⟨kind, e.type, e.depth⟩
  refine ⟨(tree?_push_size a _).trans (NodeKind.tree?_eq_some_iff.mpr htree), ?_, ?_,
    hwell, hdepth⟩
  · rw [typeOf, hnode]
    rfl
  · rw [depthOf, hnode]
    rfl

theorem Valid.push {a : Arena} (ha : a.Valid) {node : Node} {e : Expr}
    (hnew : (a.push node).1.Represents a.size e) : (a.push node).1.Valid := by
  intro id hid
  rcases Nat.lt_succ_iff_lt_or_eq.mp (size_push a node ▸ hid) with hlt | rfl
  · obtain ⟨x, hx⟩ := ha id hlt
    exact ⟨x, hx.mono (Extends.refl.push node)⟩
  · exact ⟨e, hnew⟩

theorem Valid.represents {a : Arena} (ha : a.Valid) {id : NodeId} {e : Expr}
    (h : a.tree? id = some e) : a.Represents id e := by
  obtain ⟨x, hx⟩ := ha id (lt_size_of_tree? h)
  obtain rfl : x = e := Option.some.inj (hx.tree.symm.trans h)
  exact hx

/-- More nodes, and none of them breaks validity. -/
structure Grows (a b : Arena) : Prop where
  extension : a.Extends b
  valid : a.Valid → b.Valid

theorem Grows.refl (a : Arena) : a.Grows a := ⟨.refl, id⟩

theorem Grows.trans {a b c : Arena} (hab : a.Grows b) (hbc : b.Grows c) : a.Grows c :=
  ⟨hab.extension.trans hbc.extension, hbc.valid ∘ hab.valid⟩

/-- The pair is the arena with more nodes and the place of a node for the tree `e`. -/
structure Plants (a : Arena) (e : Expr) (r : Arena × NodeId) : Prop where
  grows : a.Grows r.1
  represents : r.1.Represents r.2 e

theorem plants_push (a : Arena) {kind : NodeKind} {e : Expr} (htree : kind.Denotes a.tree? e)
    (hwell : e.WellTyped) (hdepth : e.depth ≤ maxDepth) :
    a.Plants e (a.push ⟨kind, e.type, e.depth⟩) :=
  have hnew := represents_push a htree hwell hdepth
  ⟨⟨Extends.refl.push _, fun ha => ha.push hnew⟩, hnew⟩

/-- What an operation for the tree `e` does: it succeeds if the tree follows the typing rules and
is not too tall, and otherwise it is refused. -/
structure Builds (a : Arena) (e : Expr) (r : Except Cause (Arena × NodeId)) : Prop where
  succeeds : e.WellTyped → e.depth ≤ maxDepth → ∃ p, r = .ok p
  result : ∀ {p : Arena × NodeId}, r = .ok p → a.Plants e p

theorem builds_error (a : Arena) {e : Expr} (h : ¬ e.WellTyped) (cause : Cause) :
    a.Builds e (.error cause) :=
  ⟨fun hwell => absurd hwell h, fun hr => by cases hr⟩

theorem builds_branch (a : Arena) {kind : NodeKind} {e : Expr} (htree : kind.Denotes a.tree? e)
    (hdepth : a.depthOver kind.children = e.depth) (hwell : e.WellTyped) :
    a.Builds e (a.branch kind e.type) := by
  rw [branch, hdepth]
  by_cases hle : e.depth ≤ maxDepth
  · rw [if_pos hle]
    refine ⟨fun _ _ => ⟨_, rfl⟩, ?_⟩
    rintro p ⟨⟩
    exact plants_push a htree hwell hle
  · rw [if_neg hle]
    exact ⟨fun _ h => absurd h hle, fun hr => by cases hr⟩

end Arena

end SignalExpr
