import SignalExpr.Proofs.ArenaOperations
import SignalExpr.Proofs.Lowering

/-!
Arenas along runs of the operations. Whatever calls were made, and whichever of them were refused,
every node names earlier nodes only, keeps the type and the height of its tree, and obeys the typing
rules. Nodes may be shared, so the rules are stated about what is kept with a node and its children.
-/

namespace SignalExpr

/-- A call of an operation that puts in a node. -/
inductive NodeCall where
  | var (v : Variable)
  | int (n : Int)
  | float (x : Sample)
  | quoted (text : String)
  | quotedVar (var : NodeId)
  | unary (op : UnaryOp) (operand : NodeId)
  | binary (op : BinaryOp) (left right : NodeId)
  | call (name : String) (args : List NodeId)
  | history (var offset : NodeId)
  | cell (base : CellBase) (index : NodeId)
  | readCell (access : NodeId)
  | assignCell (access value : NodeId)
  | value (name : String)
  | assign (name : String) (value : NodeId)

/-- The nodes that a call names. -/
def NodeCall.ids : NodeCall → List NodeId
  | var _ | int _ | float _ | quoted _ | value _ => []
  | quotedVar i | unary _ i | cell (.named _) i | readCell i | assign _ i => [i]
  | binary _ i j | history i j | cell (.slot i) j | assignCell i j => [i, j]
  | call _ args => args

/-- The kind of the node that a call puts in, if there is a function with the name in it. -/
def NodeCall.kind? : NodeCall → Option NodeKind
  | var v => some (.var v)
  | int n => some (.int n)
  | float x => some (.float x)
  | quoted text => some (.quoted text)
  | quotedVar i => some (.quotedVar i)
  | unary op i => some (.unary op i)
  | binary op i j => some (.binary op i j)
  | call name args => (Builtin.ofName? name).map (.call · args)
  | history i j => some (.history i j)
  | cell base i => some (.cell base i)
  | readCell i => some (.readCell i)
  | assignCell i j => some (.assignCell i j)
  | value name => some (.value name)
  | assign name i => some (.assign name i)

theorem NodeCall.children_of_kind? {c : NodeCall} {kind : NodeKind} (h : c.kind? = some kind) :
    kind.children = c.ids := by
  cases c with
  | call name args =>
      obtain ⟨f, -, rfl⟩ := Option.map_eq_some_iff.mp h
      rfl
  | cell base i =>
      cases h
      cases base <;> rfl
  | _ =>
      cases h
      rfl

namespace Arena

def perform (a : Arena) : NodeCall → Except Cause (Arena × NodeId)
  | .var v => .ok (a.var v)
  | .int n => .ok (a.int n)
  | .float x => .ok (a.float x)
  | .quoted text => .ok (a.quoted text)
  | .quotedVar i => a.quotedVar i
  | .unary op i => a.unary op i
  | .binary op i j => a.binary op i j
  | .call name args => a.call name args
  | .history i j => a.history i j
  | .cell base i => a.cell base i
  | .readCell i => a.readCell i
  | .assignCell i j => a.assignCell i j
  | .value name => .ok (a.value name)
  | .assign name i => a.assign name i

/-- Makes a call. The arena changes only if the call succeeds. -/
def make (a : Arena) (c : NodeCall) : Except Cause NodeId × Arena :=
  match a.perform c with
  | .ok (b, id) => (.ok id, b)
  | .error cause => (.error cause, a)

def clear (_ : Arena) : Arena := empty

/-- The arenas that calls and clearings lead to. A call names nodes that are there. -/
inductive Reached : Arena → Prop
  | empty : Reached empty
  | make {a : Arena} (c : NodeCall) :
      Reached a → (∀ id ∈ c.ids, id < a.size) → Reached (a.make c).2
  | clear {a : Arena} : Reached a → Reached a.clear

end Arena

/-! ### What is kept with the nodes -/

/-- The table of a cell is named, or given by the node of a variable of a suitable kind. -/
def CellBase.OfKind (a : Arena) (P : VariableKind → Prop) : CellBase → Prop
  | named _ => True
  | slot i => ∃ v, a.kind? i = some (.var v) ∧ P v.kind

namespace NodeKind

def IsQuoted : NodeKind → Prop
  | quoted _ | quotedVar _ => True
  | _ => False

/-- The typing rules, by what is kept with the children of a node. -/
def Obeys (a : Arena) : NodeKind → Prop
  | var _ | int _ | float _ | quoted _ | value _ => True
  | quotedVar i => ∃ v, a.kind? i = some (.var v) ∧ v.kind = .symbol
  | unary _ i | assign _ i => a.typeOf i ≠ .string
  | binary _ i j => a.typeOf i ≠ .string ∧ a.typeOf j ≠ .string
  | call f args => List.Forall₂ (fun p i => a.typeOf i = .string ↔ p = .symbol) f.parameters args
  | history i j =>
      (∃ v, a.kind? i = some (.var v) ∧ (v.kind = .input ∨ v.kind = .output)) ∧
        a.typeOf j ≠ .string
  | cell base i =>
      base.OfKind a (fun kind => kind = .symbol ∨ kind = .vector) ∧ a.typeOf i ≠ .string
  | readCell i => ∃ base j, a.kind? i = some (.cell base j)
  | assignCell i j =>
      (∃ base k, a.kind? i = some (.cell base k) ∧ base.OfKind a (· = .symbol)) ∧
        a.typeOf j ≠ .string

end NodeKind

/-- All that is kept with a node is right. -/
structure Node.Sound (a : Arena) (id : NodeId) (node : Node) : Prop where
  children_lt : ∀ child ∈ node.kind.children, child < id
  type_eq : (a.tree? id).map Expr.type = some node.type
  string_iff : node.type = .string ↔ node.kind.IsQuoted
  depth_eq : node.depth = 1 + (node.kind.children.map a.depthOf).foldr max 0
  depth_le : node.depth ≤ 256
  obeys : node.kind.Obeys a

def Arena.Sound (a : Arena) : Prop :=
  ∀ (id : NodeId) (node : Node), a.nodes[id]? = some node → node.Sound a id

namespace NodeKind

theorem Denotes.exists_child {child : NodeId → Option Expr} {kind : NodeKind} {e : Expr}
    (h : kind.Denotes child e) : ∀ i ∈ kind.children, ∃ x, child i = some x := by
  cases h with
  | var | int | float | quoted | value => simp [children]
  | call f hargs =>
      intro i hi
      induction hargs with
      | nil => simp [children] at hi
      | cons hx _ ih =>
          rcases List.mem_cons.mp hi with rfl | hrest
          · exact ⟨_, hx⟩
          · exact ih hrest
  | _ => simp [children, *]

theorem Denotes.isQuotation_iff {child : NodeId → Option Expr} {kind : NodeKind} {e : Expr}
    (h : kind.Denotes child e) : e.IsQuotation ↔ kind.IsQuoted := by
  cases h <;> exact Iff.rfl

end NodeKind

namespace Arena

variable {a : Arena} {id : NodeId} {node : Node} {e : Expr}

theorem lt_of_mem_children (htree : a.tree? id = some e) (hnode : a.nodes[id]? = some node) :
    ∀ child ∈ node.kind.children, child < id := by
  induction a using induction_push with
  | hempty => exact absurd (lt_size_of_tree? htree) (Nat.not_lt_zero id)
  | hpush a last ih =>
      rcases Nat.lt_succ_iff_lt_or_eq.mp (size_push a last ▸ lt_size_of_tree? htree) with hlt | rfl
      · rw [tree?_push_of_lt last hlt] at htree
        rw [getElem?_push_of_lt last hlt] at hnode
        exact ih htree hnode
      · rw [getElem?_push_size] at hnode
        obtain rfl := Option.some.inj hnode
        rw [tree?_push_size, NodeKind.tree?_eq_some_iff] at htree
        intro child hchild
        obtain ⟨x, hx⟩ := htree.exists_child child hchild
        exact lt_size_of_tree? hx

theorem Valid.typeOf_eq (ha : a.Valid) (h : a.tree? id = some e) : a.typeOf id = e.type :=
  (ha.represents h).type

theorem Valid.depthOf_eq (ha : a.Valid) (h : a.tree? id = some e) : a.depthOf id = e.depth :=
  (ha.represents h).depth

theorem kind?_of_tree?_var {v : Variable} (h : a.tree? id = some (.var v)) :
    a.kind? id = some (.var v) := by
  obtain ⟨kind, hkind, hdenotes⟩ := exists_kind_of_tree? h
  cases hdenotes
  exact hkind

theorem kind?_of_tree?_cell {table : TableRef} (h : a.tree? id = some (.cell table e)) :
    ∃ base i, a.kind? id = some (.cell base i) ∧
      (NodeKind.cell base i).Denotes a.tree? (.cell table e) := by
  obtain ⟨kind, hkind, hdenotes⟩ := exists_kind_of_tree? h
  cases hdenotes with
  | namedCell name hindex => exact ⟨_, _, hkind, .namedCell name hindex⟩
  | slotCell hv hindex => exact ⟨_, _, hkind, .slotCell hv hindex⟩

theorem Valid.depth_eq (ha : a.Valid) {kind : NodeKind} (h : kind.Denotes a.tree? e) :
    e.depth = 1 + (kind.children.map a.depthOf).foldr max 0 := by
  have hdepth {i : NodeId} {x : Expr} (hx : a.tree? i = some x) : a.depthOf i = x.depth :=
    ha.depthOf_eq hx
  cases h with
  | var | int | float | quoted | value => rfl
  | quotedVar hv | unary op hv | assign name hv | namedCell name hv | readCell hv =>
      simp only [NodeKind.children, List.map_cons, List.map_nil, List.foldr_cons, List.foldr_nil,
        hdepth hv, Expr.depth]
      omega
  | binary op hl hr | history hl hr | slotCell hl hr | assignCell hl hr =>
      have hpos := Expr.depth_pos
      simp only [NodeKind.children, List.map_cons, List.map_nil, List.foldr_cons, List.foldr_nil,
        hdepth hl, hdepth hr, Expr.depth]
      grind
  | @call f ids args hargs =>
      have hmax : (ids.map a.depthOf).foldr max 0 = Expr.maxDepth args := by
        induction hargs with
        | nil => rfl
        | cons hx _ ih => rw [List.map_cons, List.foldr_cons, ih, hdepth hx, Expr.maxDepth]
      rw [Expr.depth, NodeKind.children, hmax]

theorem ofKind_of_denotes {base : CellBase} {i : NodeId} {table : TableRef} {P : VariableKind → Prop}
    (h : (NodeKind.cell base i).Denotes a.tree? (.cell table e))
    (htable : ∀ v, table = .slot v → P v.kind) : base.OfKind a P := by
  cases h with
  | namedCell name hindex => trivial
  | slotCell hv hindex => exact ⟨_, kind?_of_tree?_var hv, htable _ rfl⟩

theorem Valid.obeys (ha : a.Valid) {kind : NodeKind} (h : kind.Denotes a.tree? e)
    (hwell : e.WellTyped) : kind.Obeys a := by
  have hnumeric {i : NodeId} {x : Expr} (hx : a.tree? i = some x) (hn : x.Numeric) :
      a.typeOf i ≠ .string := by
    rw [ha.typeOf_eq hx]
    exact hn
  cases h with
  | var | int | float | quoted | value => trivial
  | quotedVar hv => exact ⟨_, kind?_of_tree?_var hv, by simpa only [Expr.WellTyped] using hwell⟩
  | unary op hx | assign name hx =>
      simp only [Expr.WellTyped] at hwell
      exact hnumeric hx hwell.2
  | binary op hl hr =>
      simp only [Expr.WellTyped] at hwell
      exact ⟨hnumeric hl hwell.1.2, hnumeric hr hwell.2.2⟩
  | @call f ids args hargs =>
      simp only [Expr.WellTyped] at hwell
      have htypes : Expr.types args = ids.map a.typeOf := by
        clear hwell
        induction hargs with
        | nil => rfl
        | cons hx _ ih => rw [Expr.types, List.map_cons, ih, ha.typeOf_eq hx]
      have htakes := hwell.2
      rw [htypes, List.forall₂_map_right_iff] at htakes
      exact htakes
  | @history i j v offset hv hx =>
      simp only [Expr.WellTyped] at hwell
      refine ⟨⟨v, kind?_of_tree?_var hv, ?_⟩, hnumeric hx hwell.2.2⟩
      obtain ⟨kind, index⟩ := v
      have hhistory := hwell.1
      cases kind <;> simp_all [VariableKind.hasHistory]
  | namedCell name hx =>
      simp only [Expr.WellTyped] at hwell
      exact ⟨trivial, hnumeric hx hwell.2.2⟩
  | slotCell hv hx =>
      simp only [Expr.WellTyped] at hwell
      exact ⟨⟨_, kind?_of_tree?_var hv, hwell.1⟩, hnumeric hx hwell.2.2⟩
  | readCell hx =>
      obtain ⟨base, i, hkind, -⟩ := kind?_of_tree?_cell hx
      exact ⟨base, i, hkind⟩
  | assignCell hx hv =>
      simp only [Expr.WellTyped] at hwell
      obtain ⟨base, i, hkind, hdenotes⟩ := kind?_of_tree?_cell hx
      refine ⟨⟨base, i, hkind, ofKind_of_denotes hdenotes ?_⟩, hnumeric hv hwell.2.2.2⟩
      rintro v rfl
      exact hwell.1

theorem Valid.sound (ha : a.Valid) (hnode : a.nodes[id]? = some node) : node.Sound a id := by
  obtain ⟨hlt, -⟩ := Array.getElem?_eq_some_iff.mp hnode
  obtain ⟨e, he⟩ := ha id hlt
  obtain ⟨kind, hkind, hdenotes⟩ := exists_kind_of_tree? he.tree
  obtain rfl : node.kind = kind := by
    rw [kind?, hnode] at hkind
    exact Option.some.inj hkind
  have htype : node.type = e.type := by
    rw [← he.type, typeOf, hnode]
    rfl
  have hdepth : node.depth = e.depth := by
    rw [← he.depth, depthOf, hnode]
    rfl
  refine ⟨lt_of_mem_children he.tree hnode, ?_, ?_, ?_, ?_, ha.obeys hdenotes he.wellTyped⟩
  · rw [he.tree, htype]
    rfl
  · rw [htype, ← he.wellTyped.isQuotation_iff]
    exact hdenotes.isQuotation_iff
  · rw [hdepth]
    exact ha.depth_eq hdenotes
  · rw [hdepth]
    exact he.depth_le

/-! ### Runs -/

theorem Valid.exists_represents (ha : a.Valid) {ids : List NodeId} (h : ∀ i ∈ ids, i < a.size) :
    ∃ es, List.Forall₂ a.Represents ids es := by
  induction ids with
  | nil => exact ⟨[], .nil⟩
  | cons i ids ih =>
      obtain ⟨hi, hids⟩ := List.forall_mem_cons.mp h
      obtain ⟨x, hx⟩ := ha i hi
      obtain ⟨xs, hxs⟩ := ih hids
      exact ⟨x :: xs, .cons hx hxs⟩

theorem Valid.exists_plants (ha : a.Valid) {c : NodeCall} (hids : ∀ i ∈ c.ids, i < a.size)
    {p : Arena × NodeId} (h : a.perform c = .ok p) : ∃ e, a.Plants e p := by
  obtain ⟨es, hes⟩ := ha.exists_represents hids
  cases c with
  | var v =>
      cases h
      exact ⟨_, plants_var a v⟩
  | int n =>
      cases h
      exact ⟨_, plants_int a n⟩
  | float x =>
      cases h
      exact ⟨_, plants_float a x⟩
  | quoted text =>
      cases h
      exact ⟨_, plants_quoted a text⟩
  | value name =>
      cases h
      exact ⟨_, plants_value a name⟩
  | unary op i =>
      obtain _ | ⟨hx, _ | _⟩ := hes
      exact ⟨_, (builds_unary hx op).result h⟩
  | assign name i =>
      obtain _ | ⟨hx, _ | _⟩ := hes
      exact ⟨_, (builds_assign hx name).result h⟩
  | binary op i j =>
      obtain _ | ⟨hl, _ | ⟨hr, _ | _⟩⟩ := hes
      exact ⟨_, (builds_binary hl hr op).result h⟩
  | call name args =>
      obtain ⟨f, hf⟩ := exists_builtin_of_call h
      exact ⟨_, (builds_call hf hes).result h⟩
  | quotedVar i =>
      obtain _ | ⟨hx, _ | _⟩ := hes
      cases hslot : a.slot? i with
      | none => simp [perform, quotedVar, hslot] at h
      | some v =>
          obtain rfl := (slot?_eq_some_iff hx.tree).mp hslot
          exact ⟨_, (builds_quotedVar hx).result h⟩
  | history i j =>
      obtain _ | ⟨hv, _ | ⟨hx, _ | _⟩⟩ := hes
      cases hslot : a.slot? i with
      | none => simp [perform, history, hslot] at h
      | some v =>
          obtain rfl := (slot?_eq_some_iff hv.tree).mp hslot
          exact ⟨_, (builds_history hv hx).result h⟩
  | cell base j =>
      cases base with
      | named name =>
          obtain _ | ⟨hx, _ | _⟩ := hes
          exact ⟨_, (builds_namedCell hx name).result h⟩
      | slot i =>
          obtain _ | ⟨hv, _ | ⟨hx, _ | _⟩⟩ := hes
          cases hslot : a.slot? i with
          | none => simp [perform, cell, isTable, hslot] at h
          | some v =>
              obtain rfl := (slot?_eq_some_iff hv.tree).mp hslot
              exact ⟨_, (builds_slotCell hv hx).result h⟩
  | readCell i =>
      obtain _ | ⟨hx, _ | _⟩ := hes
      obtain ⟨kind, hkind, hdenotes⟩ := exists_kind_of_tree? hx.tree
      cases hdenotes with
      | namedCell | slotCell => exact ⟨_, (builds_readCell hx).result h⟩
      | _ => simp [perform, readCell, hkind] at h
  | assignCell i j =>
      obtain _ | ⟨haccess, _ | ⟨hx, _ | _⟩⟩ := hes
      obtain ⟨kind, hkind, hdenotes⟩ := exists_kind_of_tree? haccess.tree
      cases hdenotes with
      | namedCell | slotCell => exact ⟨_, (builds_assignCell haccess hx).result h⟩
      | _ => simp [perform, assignCell, requireAssignable, hkind, bind, Except.bind] at h

theorem exists_push_of_branch {kind : NodeKind} {type : ValueType} {p : Arena × NodeId}
    (h : a.branch kind type = .ok p) : ∃ node, p = a.push node ∧ some kind = some node.kind := by
  rw [branch] at h
  split at h
  · cases h
    exact ⟨_, rfl, rfl⟩
  · cases h

theorem exists_push_of_bind {α : Type} {check : Except Cause α} {kind? : Option NodeKind}
    {rest : α → Except Cause (Arena × NodeId)} {p : Arena × NodeId} (h : check >>= rest = .ok p)
    (hrest : ∀ x, rest x = .ok p → ∃ node, p = a.push node ∧ kind? = some node.kind) :
    ∃ node, p = a.push node ∧ kind? = some node.kind := by
  obtain ⟨x, -, hx⟩ := Outcome.bind_eq_ok_iff.mp h
  exact hrest x hx

theorem exists_push_of_perform {c : NodeCall} {p : Arena × NodeId} (h : a.perform c = .ok p) :
    ∃ node, p = a.push node ∧ c.kind? = some node.kind := by
  cases c with
  | var | int | float | quoted | value =>
      cases h
      exact ⟨_, rfl, rfl⟩
  | unary op i | assign name i => exact exists_push_of_bind h fun _ => exists_push_of_branch
  | binary op i j | assignCell i j =>
      exact exists_push_of_bind h fun _ h => exists_push_of_bind h fun _ => exists_push_of_branch
  | quotedVar i =>
      simp only [perform, quotedVar] at h
      split at h
      · exact exists_push_of_branch h
      · cases h
  | readCell i =>
      simp only [perform, readCell] at h
      split at h
      · exact exists_push_of_branch h
      · cases h
  | cell base i =>
      simp only [perform, cell] at h
      split at h
      · exact exists_push_of_bind h fun _ => exists_push_of_branch
      · cases h
  | history i j =>
      simp only [perform, history] at h
      split at h
      · split at h
        · exact exists_push_of_bind h fun _ => exists_push_of_branch
        · cases h
      · cases h
  | call name args =>
      simp only [perform, call] at h
      split at h
      · cases h
      next f hname =>
        rw [NodeCall.kind?, hname]
        split at h
        · cases h
        · split at h
          · cases h
          · exact exists_push_of_branch h

theorem make_cases (a : Arena) (c : NodeCall) :
    (∃ node, a.perform c = .ok (a.push node) ∧ a.make c = (.ok a.size, (a.push node).1)) ∨
      ∃ cause, a.make c = (.error cause, a) := by
  cases h : a.perform c with
  | ok p =>
      obtain ⟨node, rfl, -⟩ := exists_push_of_perform h
      left
      refine ⟨node, rfl, ?_⟩
      rw [make, h]
      rfl
  | error cause =>
      right
      refine ⟨cause, ?_⟩
      rw [make, h]

theorem Reached.valid (h : Reached a) : a.Valid := by
  induction h with
  | empty => exact valid_empty
  | clear => exact valid_empty
  | @make a c _ hids ih =>
      rcases a.make_cases c with ⟨node, hperform, hmake⟩ | ⟨cause, hmake⟩
      · obtain ⟨e, hplants⟩ := ih.exists_plants hids hperform
        rw [hmake]
        exact hplants.grows.valid ih
      · rw [hmake]
        exact ih

/-- In every arena that calls lead to, all that is kept with the nodes is right. Any further call
puts one node at the end and gives its place, or it is refused and leaves the arena as it was. -/
theorem sound_of_reached {a : Arena} (h : Reached a) :
    a.Sound ∧ ∀ c : NodeCall, (∃ node, a.make c = (.ok a.size, (a.push node).1)) ∨
      ∃ cause, a.make c = (.error cause, a) := by
  constructor
  · intro id node hnode
    exact h.valid.sound hnode
  · intro c
    rcases a.make_cases c with ⟨node, -, hmake⟩ | hrefused
    · exact .inl ⟨node, hmake⟩
    · exact .inr hrefused

/-- A sum and a product share their operands; between them, the quotation of a number is refused. -/
theorem sound_of_reached_shared :
    let a := (((empty.make (.int 2)).2.make (.binary .add 0 0)).2.make (.quotedVar 0)).2
    let b := (a.make (.binary .multiply 1 1)).2
    Reached b ∧ b.size = 3 ∧ b.Sound := by
  intro a b
  have hb : Reached b :=
    .make _ (.make _ (.make _ (.make _ .empty (by decide)) (by decide)) (by decide)) (by decide)
  exact ⟨hb, by decide, (sound_of_reached hb).1⟩

end Arena

end SignalExpr
