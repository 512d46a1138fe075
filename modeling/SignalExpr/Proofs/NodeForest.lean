import Mathlib.Data.List.Nodup
import Mathlib.Data.List.Pairwise
import Mathlib.Data.Set.Function
import SignalExpr.Proofs.ArenaRuns

/-!
Arenas without sharing. Whoever builds one holds the nodes that stand under no other node yet, and a
new node takes its children from them. An assignment takes also the node that read its target, which
then stands under no other node for good. So each node is held, or the child of one node, or the
former target of an assignment, and it is only one of these; the held nodes are the roots of a
forest.
-/

namespace SignalExpr

namespace NodeKind

def IsAssignment : NodeKind → Prop
  | assign _ _ | assignCell _ _ => True
  | _ => False

/-- The first node reads what the second one assigns to. -/
inductive Assigns (value : NodeId) : NodeKind → NodeKind → Prop
  | name (name : String) : Assigns value (.value name) (.assign name value)
  | cell (access : NodeId) : Assigns value (.readCell access) (.assignCell access value)

theorem Assigns.children_eq {value : NodeId} {target kind : NodeKind}
    (h : Assigns value target kind) : kind.children = target.children ++ [value] := by
  cases h with
  | name => rfl
  | cell => rfl

theorem Assigns.isAssignment {value : NodeId} {target kind : NodeKind}
    (h : Assigns value target kind) : kind.IsAssignment := by
  cases h with
  | name => trivial
  | cell => trivial

end NodeKind

namespace Arena

/-- The arenas that parsers make. The held nodes stand under no other node yet; each use is a
former target of an assignment, with the assignment. -/
inductive Grown : Arena → List NodeId → List (NodeId × NodeId) → Prop
  | empty : Grown .empty [] []
  | perm {a : Arena} {held held' : List NodeId} {uses : List (NodeId × NodeId)} :
      Grown a held uses → held.Perm held' → Grown a held' uses
  | node {a : Arena} {held : List NodeId} {uses : List (NodeId × NodeId)} {node : Node} :
      Grown a (node.kind.children ++ held) uses → ¬ node.kind.IsAssignment →
      Grown (a.push node).1 (a.size :: held) uses
  | assignment {a : Arena} {held : List NodeId} {uses : List (NodeId × NodeId)} {node : Node}
      {left right : NodeId} {target : NodeKind} :
      Grown a (left :: right :: held) uses → a.kind? left = some target →
      target.Assigns right node.kind →
      Grown (a.push node).1 (a.size :: held) ((left, a.size) :: uses)

/-! ### Each node in one place -/

def childrenOf (a : Arena) (id : NodeId) : List NodeId :=
  ((a.kind? id).map NodeKind.children).getD []

/-- The children of all nodes but some. -/
def inner (a : Arena) (targets : List NodeId) : List NodeId :=
  (List.range a.size).flatMap fun id => if id ∈ targets then [] else a.childrenOf id

variable {a : Arena} {held roots : List NodeId} {uses : List (NodeId × NodeId)} {node : Node}

theorem kind?_push_of_lt (node : Node) {id : NodeId} (h : id < a.size) :
    (a.push node).1.kind? id = a.kind? id := by
  rw [kind?, kind?, getElem?_push_of_lt node h]

theorem kind?_push_size (a : Arena) (node : Node) :
    (a.push node).1.kind? a.size = some node.kind := by
  rw [kind?, getElem?_push_size, Option.map_some]

theorem lt_size_of_kind? {id : NodeId} {kind : NodeKind} (h : a.kind? id = some kind) :
    id < a.size := by
  obtain ⟨node, hnode, -⟩ := Option.map_eq_some_iff.mp h
  exact (Array.getElem?_eq_some_iff.mp hnode).1

theorem childrenOf_eq {id : NodeId} {kind : NodeKind} (h : a.kind? id = some kind) :
    a.childrenOf id = kind.children := by
  rw [childrenOf, h, Option.map_some, Option.getD_some]

theorem inner_push {targets : List NodeId} (h : a.size ∉ targets) :
    (a.push node).1.inner targets = a.inner targets ++ node.kind.children := by
  have hbefore : ∀ id ∈ List.range a.size,
      (if id ∈ targets then [] else (a.push node).1.childrenOf id) =
        if id ∈ targets then [] else a.childrenOf id := by
    intro id hid
    rw [childrenOf, childrenOf, kind?_push_of_lt node (List.mem_range.mp hid)]
  rw [inner, size_push, List.range_succ, List.flatMap_append, List.flatMap_congr hbefore,
    List.flatMap_singleton, if_neg h, childrenOf_eq (kind?_push_size a node), inner]

theorem inner_cons {targets : List NodeId} {left : NodeId} (hleft : left < a.size)
    (h : left ∉ targets) :
    (a.inner targets).Perm (a.childrenOf left ++ a.inner (left :: targets)) := by
  have hrange : (List.range a.size).Perm (left :: (List.range a.size).erase left) :=
    List.perm_cons_erase (List.mem_range.mpr hleft)
  have hothers : ∀ id ∈ (List.range a.size).erase left,
      (if id ∈ targets then [] else a.childrenOf id) =
        if id ∈ left :: targets then [] else a.childrenOf id := by
    intro id hid
    have hne : id ≠ left := ((List.nodup_range).mem_erase_iff.mp hid).1
    simp [hne]
  have hwith := hrange.flatMap_right fun id => if id ∈ targets then [] else a.childrenOf id
  have hwithout := hrange.flatMap_right fun id =>
    if id ∈ left :: targets then [] else a.childrenOf id
  rw [List.flatMap_cons, if_neg h, List.flatMap_congr hothers] at hwith
  rw [List.flatMap_cons, if_pos List.mem_cons_self, List.nil_append] at hwithout
  exact hwith.trans (hwithout.symm.append_left _)

theorem Grown.perm_range_of_node {targets : List NodeId}
    (h : (node.kind.children ++ held ++ (a.inner targets ++ targets)).Perm (List.range a.size)) :
    (a.size :: held ++ ((a.push node).1.inner targets ++ targets)).Perm
      (List.range (a.push node).1.size) := by
  have hsize : a.size ∉ targets := by
    intro hmem
    have hrange := h.mem_iff.mp (List.mem_append_right _ (List.mem_append_right _ hmem))
    exact Nat.lt_irrefl _ (List.mem_range.mp hrange)
  rw [inner_push hsize, size_push, List.range_succ]
  rw [List.perm_iff_count] at h ⊢
  intro id
  have hid := h id
  simp only [List.count_append, List.count_cons, List.count_nil, List.cons_append] at hid ⊢
  omega

/-- Each node is held, or the child of one node, or a former target, and only one of these. -/
theorem Grown.perm_range (h : Grown a held uses) :
    (held ++ (a.inner (uses.map Prod.fst) ++ uses.map Prod.fst)).Perm (List.range a.size) := by
  induction h with
  | empty => exact .nil
  | perm _ hperm ih => exact (hperm.symm.append_right _).trans ih
  | node _ _ ih => exact perm_range_of_node ih
  | @assignment a held uses node left right target _ hkind hassigns ih =>
      refine perm_range_of_node ?_
      have hleft : left ∉ uses.map Prod.fst := by
        intro hmem
        have hnodup := ih.nodup_iff.mpr List.nodup_range
        exact (List.nodup_cons.mp hnodup).1
          (List.mem_append_right _ (List.mem_append_right _ hmem))
      have hinner := inner_cons (lt_size_of_kind? hkind) hleft
      rw [childrenOf_eq hkind] at hinner
      rw [hassigns.children_eq, List.map_cons]
      rw [List.perm_iff_count] at ih hinner ⊢
      intro id
      have hid := ih id
      have hid' := hinner id
      simp only [List.count_append, List.count_cons, List.count_nil, List.cons_append] at hid hid' ⊢
      omega

theorem kind?_push_eq_some_iff {id : NodeId} {kind : NodeKind} :
    (a.push node).1.kind? id = some kind ↔
      a.kind? id = some kind ∨ id = a.size ∧ kind = node.kind := by
  rcases Nat.lt_trichotomy id a.size with hlt | rfl | hgt
  · rw [kind?_push_of_lt node hlt]
    simp [Nat.ne_of_lt hlt]
  · have hnone : a.kind? a.size ≠ some kind := fun h => Nat.lt_irrefl _ (lt_size_of_kind? h)
    rw [kind?_push_size]
    simp [hnone, eq_comm]
  · have hnone : a.kind? id ≠ some kind := fun h => Nat.lt_asymm hgt (lt_size_of_kind? h)
    have hnone' : (a.push node).1.kind? id ≠ some kind := by
      intro h
      have hlt := lt_size_of_kind? h
      rw [size_push] at hlt
      exact Nat.not_lt_of_ge hgt hlt
    simp [hnone, hnone', Nat.ne_of_gt hgt]

/-- The uses go through the assignments one by one. -/
structure Uses (a : Arena) (uses : List (NodeId × NodeId)) : Prop where
  nodup : (uses.map Prod.snd).Nodup
  mem_iff : ∀ n, n ∈ uses.map Prod.snd ↔ ∃ kind, a.kind? n = some kind ∧ kind.IsAssignment
  assigns : ∀ use ∈ uses, ∃ target kind value, a.kind? use.1 = some target ∧
    a.kind? use.2 = some kind ∧ target.Assigns value kind

theorem Uses.push (h : Uses a uses) (hnode : ¬ node.kind.IsAssignment) :
    Uses (a.push node).1 uses where
  nodup := h.nodup
  mem_iff n := by
    rw [h.mem_iff]
    simp only [kind?_push_eq_some_iff]
    grind
  assigns use huse := by
    obtain ⟨target, kind, value, htarget, hkind, hassigns⟩ := h.assigns use huse
    exact ⟨target, kind, value, kind?_push_eq_some_iff.mpr (.inl htarget),
      kind?_push_eq_some_iff.mpr (.inl hkind), hassigns⟩

theorem Uses.push_assignment (h : Uses a uses) {left right : NodeId} {target : NodeKind}
    (hkind : a.kind? left = some target) (hassigns : target.Assigns right node.kind) :
    Uses (a.push node).1 ((left, a.size) :: uses) where
  nodup := by
    refine List.nodup_cons.mpr ⟨fun hmem => ?_, h.nodup⟩
    obtain ⟨kind, hsize, -⟩ := (h.mem_iff _).mp hmem
    exact Nat.lt_irrefl _ (lt_size_of_kind? hsize)
  mem_iff n := by
    have hnode := hassigns.isAssignment
    rw [List.map_cons, List.mem_cons, h.mem_iff]
    simp only [kind?_push_eq_some_iff]
    grind
  assigns := by
    refine List.forall_mem_cons.mpr ⟨?_, fun use huse => ?_⟩
    · exact ⟨target, node.kind, right, kind?_push_eq_some_iff.mpr (.inl hkind),
        kind?_push_size a node, hassigns⟩
    · obtain ⟨target', kind, value, htarget, hkind, hassigns⟩ := h.assigns use huse
      exact ⟨target', kind, value, kind?_push_eq_some_iff.mpr (.inl htarget),
        kind?_push_eq_some_iff.mpr (.inl hkind), hassigns⟩

theorem Grown.uses_assignments (h : Grown a held uses) : Uses a uses := by
  induction h with
  | empty => exact ⟨.nil, fun n => by simp [kind?, Arena.empty], by simp⟩
  | perm _ _ ih => exact ih
  | node _ hnode ih => exact ih.push hnode
  | assignment _ hkind hassigns ih => exact ih.push_assignment hkind hassigns

theorem Grown.lt_size (h : Grown a held uses) {id : NodeId} (hid : id ∈ held) : id < a.size :=
  List.mem_range.mp (h.perm_range.mem_iff.mp (List.mem_append_left _ hid))

theorem Grown.child_lt (h : Grown a held uses) {id child : NodeId} {kind : NodeKind}
    (hkind : a.kind? id = some kind) (hchild : child ∈ kind.children) : child < id := by
  induction h generalizing id kind with
  | empty => simp [kind?, Arena.empty] at hkind
  | perm _ _ ih => exact ih hkind hchild
  | @node a held uses node hgrown _ ih =>
      rcases kind?_push_eq_some_iff.mp hkind with hkind | ⟨rfl, rfl⟩
      · exact ih hkind hchild
      · exact hgrown.lt_size (List.mem_append_left _ hchild)
  | @assignment a held uses node left right target hgrown htarget hassigns ih =>
      rcases kind?_push_eq_some_iff.mp hkind with hkind | ⟨rfl, rfl⟩
      · exact ih hkind hchild
      · rw [hassigns.children_eq, List.mem_append, List.mem_singleton] at hchild
        rcases hchild with hchild | rfl
        · exact Nat.lt_trans (ih htarget hchild) (lt_size_of_kind? htarget)
        · exact hgrown.lt_size (List.mem_cons_of_mem _ List.mem_cons_self)

/-! ### Paths -/

/-- The path leads from the root down to the node. It says which child is taken at each step. -/
inductive Leads (a : Arena) (root : NodeId) : List Nat → NodeId → Prop
  | here : Leads a root [] root
  | child {path : List Nat} {id child : NodeId} {kind : NodeKind} {i : Nat} :
      Leads a root path id → a.kind? id = some kind → kind.children[i]? = some child →
      Leads a root (path ++ [i]) child

def Reachable (a : Arena) (roots : List NodeId) (id : NodeId) : Prop :=
  ∃ root ∈ roots, ∃ path, a.Leads root path id

theorem mem_inner_iff {targets : List NodeId} {id : NodeId} :
    id ∈ a.inner targets ↔
      ∃ parent kind, parent ∉ targets ∧ a.kind? parent = some kind ∧ id ∈ kind.children := by
  rw [inner, List.mem_flatMap]
  constructor
  · rintro ⟨parent, -, hid⟩
    split at hid
    · cases hid
    next hparent =>
      cases hkind : a.kind? parent with
      | none => simp [childrenOf, hkind] at hid
      | some kind => exact ⟨parent, kind, hparent, hkind, childrenOf_eq hkind ▸ hid⟩
  · rintro ⟨parent, kind, hparent, hkind, hid⟩
    refine ⟨parent, List.mem_range.mpr (lt_size_of_kind? hkind), ?_⟩
    rwa [if_neg hparent, childrenOf_eq hkind]

theorem eq_of_nodup_inner {targets : List NodeId} (h : (a.inner targets).Nodup)
    {id id' child : NodeId} {kind kind' : NodeKind} {i i' : Nat} (hid : id ∉ targets)
    (hid' : id' ∉ targets) (hkind : a.kind? id = some kind) (hkind' : a.kind? id' = some kind')
    (hchild : kind.children[i]? = some child) (hchild' : kind'.children[i']? = some child) :
    id = id' ∧ i = i' := by
  obtain ⟨hnodup, hdisjoint⟩ := List.nodup_flatMap.mp h
  have hrange := List.mem_range.mpr (lt_size_of_kind? hkind)
  have hsame : id = id' := by
    by_contra hne
    have : Std.Symm (Function.onFun List.Disjoint fun id =>
        if id ∈ targets then [] else a.childrenOf id) :=
      ⟨fun _ _ h _ hleft hright => h hright hleft⟩
    have hapart := hdisjoint.forall hrange (List.mem_range.mpr (lt_size_of_kind? hkind')) hne
    simp only [Function.onFun, if_neg hid, if_neg hid', childrenOf_eq hkind, childrenOf_eq hkind']
      at hapart
    exact hapart (List.mem_of_getElem? hchild) (List.mem_of_getElem? hchild')
  subst hsame
  obtain rfl := Option.some.inj (hkind.symm.trans hkind')
  have hchildren := hnodup id hrange
  rw [if_neg hid, childrenOf_eq hkind] at hchildren
  have hi := (List.getElem?_eq_some_iff.mp hchild).1
  exact ⟨rfl, (List.getElem?_inj hi hchildren).mp (hchild.trans hchild'.symm)⟩

section Paths

variable (h : Grown a roots uses)
include h

theorem Grown.not_target {root id : NodeId} {path : List Nat} (hroot : root ∈ roots)
    (hleads : a.Leads root path id) : id ∉ uses.map Prod.fst := by
  have hnodup := h.perm_range.nodup_iff.mpr List.nodup_range
  obtain ⟨-, hrest, hroots⟩ := List.nodup_append'.mp hnodup
  obtain ⟨-, -, hinner⟩ := List.nodup_append'.mp hrest
  induction hleads with
  | here => exact fun htarget => hroots hroot (List.mem_append_right _ htarget)
  | child _ hkind hchild ih =>
      exact fun htarget =>
        hinner (mem_inner_iff.mpr ⟨_, _, ih, hkind, List.mem_of_getElem? hchild⟩) htarget

theorem Grown.path_unique {root root' id : NodeId} {path path' : List Nat} (hroot : root ∈ roots)
    (hroot' : root' ∈ roots) (hleads : a.Leads root path id) (hleads' : a.Leads root' path' id) :
    root = root' ∧ path = path' := by
  have hnodup := h.perm_range.nodup_iff.mpr List.nodup_range
  obtain ⟨-, hrest, hroots⟩ := List.nodup_append'.mp hnodup
  obtain ⟨hinner, -, -⟩ := List.nodup_append'.mp hrest
  have hchild {top above below : NodeId} {steps : List Nat} {kind : NodeKind} {i : Nat}
      (htop : top ∈ roots) (hsteps : a.Leads top steps above) (hkind : a.kind? above = some kind)
      (hbelow : kind.children[i]? = some below) : below ∉ roots := by
    intro hmem
    refine hroots hmem (List.mem_append_left _ (mem_inner_iff.mpr ?_))
    exact ⟨above, kind, h.not_target htop hsteps, hkind, List.mem_of_getElem? hbelow⟩
  induction hleads generalizing path' with
  | here =>
      cases hleads' with
      | here => exact ⟨rfl, rfl⟩
      | child hsteps hkind hbelow => exact absurd hroot (hchild hroot' hsteps hkind hbelow)
  | child hsteps hkind hbelow ih =>
      cases hleads' with
      | here => exact absurd hroot' (hchild hroot hsteps hkind hbelow)
      | child hsteps' hkind' hbelow' =>
          obtain ⟨rfl, rfl⟩ := eq_of_nodup_inner hinner (h.not_target hroot hsteps)
            (h.not_target hroot' hsteps') hkind hkind' hbelow hbelow'
          obtain ⟨rfl, rfl⟩ := ih hsteps'
          exact ⟨rfl, rfl⟩

/-- Parents are younger than their children, so going up from a node comes to an end. -/
theorem Grown.reachable {id : NodeId} (hid : id < a.size) (htarget : id ∉ uses.map Prod.fst) :
    a.Reachable roots id := by
  induction hn : a.size - id using Nat.strong_induction_on generalizing id with
  | _ n ih =>
      have hplace := h.perm_range.mem_iff.mpr (List.mem_range.mpr hid)
      rcases List.mem_append.mp hplace with hroot | hplace
      · exact ⟨id, hroot, [], .here⟩
      rcases List.mem_append.mp hplace with hinner | hmem
      · obtain ⟨parent, kind, hparent, hkind, hchild⟩ := mem_inner_iff.mp hinner
        have hlt := h.child_lt hkind hchild
        have hsize := lt_size_of_kind? hkind
        have hless : a.size - parent < n := hn ▸ Nat.sub_lt_sub_left hid hlt
        obtain ⟨root, hroot, path, hpath⟩ := ih (a.size - parent) hless hsize hparent rfl
        obtain ⟨i, hi⟩ := List.mem_iff_getElem?.mp hchild
        exact ⟨root, hroot, path ++ [i], hpath.child hkind hi⟩
      · exact absurd hmem htarget

theorem Grown.lt_size_of_reachable {id : NodeId} (hid : a.Reachable roots id) : id < a.size := by
  obtain ⟨root, hroot, path, hleads⟩ := hid
  cases hleads with
  | here => exact h.lt_size hroot
  | child _ hkind hchild =>
      exact Nat.lt_trans (h.child_lt hkind (List.mem_of_getElem? hchild)) (lt_size_of_kind? hkind)

theorem Grown.mem_targets_iff {id : NodeId} :
    id ∈ uses.map Prod.fst ↔ id < a.size ∧ ¬ a.Reachable roots id := by
  constructor
  · intro hmem
    have hrange := h.perm_range.mem_iff.mp (List.mem_append_right _ (List.mem_append_right _ hmem))
    refine ⟨List.mem_range.mp hrange, ?_⟩
    rintro ⟨root, hroot, path, hleads⟩
    exact h.not_target hroot hleads hmem
  · rintro ⟨hid, hunreached⟩
    by_contra hmem
    exact hunreached (h.reachable hid hmem)

end Paths

end Arena

theorem Arena.Uses.exists_bijOn {a : Arena} {uses : List (NodeId × NodeId)} (h : a.Uses uses)
    (hnodup : (uses.map Prod.fst).Nodup) :
    ∃ target : NodeId → NodeId,
      Set.BijOn target {n | ∃ kind, a.kind? n = some kind ∧ kind.IsAssignment}
        {n | n ∈ uses.map Prod.fst} ∧
      ∀ n kind, a.kind? n = some kind → kind.IsAssignment →
        ∃ former value, a.kind? (target n) = some former ∧ former.Assigns value kind := by
  have hchoice (n : NodeId) : ∃ t, (∃ kind, a.kind? n = some kind ∧ kind.IsAssignment) →
      (t, n) ∈ uses := by
    by_cases hn : ∃ kind, a.kind? n = some kind ∧ kind.IsAssignment
    · obtain ⟨⟨t, m⟩, huse, rfl⟩ := List.mem_map.mp ((h.mem_iff n).mpr hn)
      exact ⟨t, fun _ => huse⟩
    · exact ⟨0, fun hn' => absurd hn' hn⟩
  choose target htarget using hchoice
  refine ⟨target, ⟨?_, ?_, ?_⟩, ?_⟩
  · intro n hn
    exact List.mem_map.mpr ⟨_, htarget n hn, rfl⟩
  · intro n hn n' hn' heq
    exact congrArg Prod.snd (List.inj_on_of_nodup_map hnodup (htarget n hn) (htarget n' hn') heq)
  · intro t ht
    obtain ⟨⟨t, n⟩, huse, rfl⟩ := List.mem_map.mp ht
    have hn := (h.mem_iff n).mp (List.mem_map_of_mem huse)
    exact ⟨n, hn, congrArg Prod.fst (List.inj_on_of_nodup_map h.nodup (htarget n hn) huse rfl)⟩
  · intro n kind hkind hassignment
    obtain ⟨former, kind', value, hformer, hkind', hassigns⟩ :=
      h.assigns _ (htarget n ⟨kind, hkind, hassignment⟩)
    obtain rfl := Option.some.inj (hkind.symm.trans hkind')
    exact ⟨former, value, hformer, hassigns⟩

theorem Arena.Grown.existsUnique_place {a : Arena} {roots : List NodeId}
    {uses : List (NodeId × NodeId)} (h : a.Grown roots uses) {id : NodeId}
    (hid : a.Reachable roots id) :
    ∃! place : Nat × List Nat, ∃ root, roots[place.1]? = some root ∧ a.Leads root place.2 id := by
  obtain ⟨root, hroot, path, hleads⟩ := hid
  obtain ⟨i, hi⟩ := List.mem_iff_getElem?.mp hroot
  refine ⟨(i, path), ⟨root, hi, hleads⟩, ?_⟩
  rintro ⟨i', path'⟩ ⟨root', hi', hleads'⟩
  obtain ⟨rfl, rfl⟩ := h.path_unique hroot (List.mem_of_getElem? hi') hleads hleads'
  have hnodup := (List.nodup_append'.mp (h.perm_range.nodup_iff.mpr List.nodup_range)).1
  have hlt := (List.getElem?_eq_some_iff.mp hi).1
  rw [(List.getElem?_inj hlt hnodup).mp (hi.trans hi'.symm)]

end SignalExpr
