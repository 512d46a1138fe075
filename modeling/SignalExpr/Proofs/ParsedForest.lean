import Mathlib
import SignalExpr.Proofs.NodeForest
import SignalExpr.Proofs.ReaderRuns

/-!
The nodes of a parsed text form a forest. Each parser takes nodes that are held and leaves others in
their stead, so what is held at the end are the roots of the statements.
-/

namespace SignalExpr

namespace Parser

variable {α β : Type}

/-- A run takes the held nodes, whatever else is held, and leaves those that it gives in their
stead. -/
def Turns (p : Parser α) (held : List NodeId) (gives : α → List NodeId) : Prop :=
  ∀ (s s' : ParseState) (r : α) (others : List NodeId) (uses : List (NodeId × NodeId)),
    s.arena.Grown (held ++ others) uses → p s = .ok (r, s') →
      ∃ uses', s'.arena.Grown (gives r ++ others) uses'

/-- A run puts nothing into the arena. -/
def Still (p : Parser α) : Prop :=
  ∀ (s s' : ParseState) (r : α), p s = .ok (r, s') → s'.arena = s.arena

variable {p : Parser α} {f : α → Parser β} {held mid : List NodeId} {gives : β → List NodeId}

theorem Turns.bind {between : α → List NodeId} (hp : Turns p held between)
    (hf : ∀ r, Turns (f r) (between r) gives) : Turns (p >>= f) held gives := by
  intro s s' r others uses hgrown hrun
  obtain ⟨x, t, hx, hrest⟩ := bind_eq_ok_iff.mp hrun
  obtain ⟨uses', hgrown'⟩ := hp s t x others uses hgrown hx
  exact hf x t s' r others uses' hgrown' hrest

theorem Still.bind (hp : Still p) (hf : ∀ r, Turns (f r) held gives) :
    Turns (p >>= f) held gives := by
  intro s s' r others uses hgrown hrun
  obtain ⟨x, t, hx, hrest⟩ := bind_eq_ok_iff.mp hrun
  exact hf x t s' r others uses (hp s t x hx ▸ hgrown) hrest

theorem turns_pure {r : β} (h : gives r = held) : Turns (pure r) held gives := by
  rintro s _ _ others uses hgrown ⟨⟩
  exact ⟨uses, h ▸ hgrown⟩

theorem Turns.behind {q : Parser β} (hq : Turns q held gives) (front : List NodeId) :
    Turns q (front ++ held) fun r => front ++ gives r := by
  intro s s' r others uses hgrown hrun
  have hperm (nodes : List NodeId) :
      (front ++ nodes ++ others).Perm (nodes ++ (front ++ others)) := by
    rw [List.append_assoc]
    exact List.perm_append_comm_assoc front nodes others
  obtain ⟨uses', hgrown'⟩ := hq s s' r (front ++ others) uses (hgrown.perm (hperm held)) hrun
  exact ⟨uses', hgrown'.perm (hperm (gives r)).symm⟩

/-! ### Steps -/

theorem still_next? : Still next? := by
  rintro s _ _ ⟨⟩
  rfl

theorem still_position : Still position := by
  rintro s _ _ ⟨⟩
  rfl

theorem still_remaining : Still remaining := by
  rintro s _ _ ⟨⟩
  rfl

theorem still_advance : Still advance := by
  rintro s _ _ ⟨⟩
  rfl

theorem still_expect (kind : TokenKind) : Still (expect kind) := by
  intro s s' r hrun
  obtain ⟨-, rfl⟩ := expect_eq_ok_iff.mp hrun
  rfl

theorem still_readVariable (place : Position) (text : String) :
    Still (readVariable place text) := by
  intro s s' v hrun
  obtain ⟨-, rfl⟩ := readVariable_eq_ok_iff.mp hrun
  rfl

theorem still_separated : Still separated := by
  intro s s' r hrun
  rw [separated, next?_bind] at hrun
  generalize s.kinds.head? = found at hrun
  split at hrun
  · cases hrun
    rfl
  · rw [remaining_bind] at hrun
    cases hrun
    rfl
  · cases hrun
    rfl

theorem turns_failAt (place : Position) (cause : Cause) : Turns (failAt place cause) held gives :=
  fun _ _ _ _ _ _ hrun => absurd hrun failAt_ne_ok

theorem turns_fail (cause : Cause) : Turns (fail cause) held gives :=
  fun _ _ _ _ _ _ hrun => absurd hrun fail_ne_ok

theorem turns_fail_bind (cause : Cause) (f : α → Parser β) :
    Turns (fail cause >>= f) held gives := by
  intro s s' r others uses _ hrun
  obtain ⟨x, t, hfail, -⟩ := bind_eq_ok_iff.mp hrun
  exact absurd hfail fail_ne_ok

theorem turns_plant {g : Arena → Arena × NodeId} {node : Node} (hg : ∀ a, g a = a.push node)
    (hchildren : node.kind.children = []) (hnode : ¬ node.kind.IsAssignment) :
    Turns (plant g) [] fun id => [id] := by
  intro s s' r others uses hgrown hrun
  rw [plant_run, hg] at hrun
  cases hrun
  refine ⟨uses, .node ?_ hnode⟩
  rw [hchildren]
  exact hgrown

theorem turns_build (place : Position) {c : NodeCall}
    (hc : ∀ kind, c.kind? = some kind → ¬ kind.IsAssignment) :
    Turns (build place (·.perform c)) c.ids fun id => [id] := by
  intro s s' r others uses hgrown hrun
  obtain ⟨a, hperform, rfl⟩ := build_eq_ok_iff.mp hrun
  obtain ⟨node, hpush, hkind⟩ := Arena.exists_push_of_perform hperform
  rw [← NodeCall.children_of_kind? hkind] at hgrown
  cases hpush
  exact ⟨uses, .node hgrown (hc _ hkind)⟩

/-! ### Phrases -/

variable {expr inner operand : Parser NodeId}

theorem turns_climb (level : Level) (h : Turns operand [] fun id => [id]) (fuel : Nat)
    (left : NodeId) : Turns (climb level operand fuel left) [left] fun id => [id] := by
  induction fuel generalizing left with
  | zero => exact turns_pure rfl
  | succ fuel ih =>
      refine still_next?.bind fun found => ?_
      split
      · exact turns_pure rfl
      next op _ =>
        refine still_position.bind fun place => still_advance.bind fun _ => ?_
        refine (h.behind [left]).bind fun right => ?_
        exact (turns_build place (c := .binary op left right) (by rintro _ ⟨⟩ ⟨⟩)).bind ih

theorem turns_ladder (levels : List Level) (h : Turns operand [] fun id => [id]) :
    Turns (ladder levels operand) [] fun id => [id] := by
  induction levels with
  | nil => exact h
  | cons level tighter ih =>
      exact ih.bind fun first => still_remaining.bind fun n => turns_climb level ih n first

theorem turns_assign (place : Position) (left right : NodeId) :
    Turns (do
      match (← get).arena.kind? left with
      | some (.value name) => build place (·.assign name right)
      | some (.readCell access) => build place (·.assignCell access right)
      | _ => failAt place .badAssignmentTarget) [left, right] fun id => [id] := by
  have hbuild {s s' : ParseState} {r : NodeId} {others : List NodeId}
      {uses : List (NodeId × NodeId)} {target : NodeKind} {c : NodeCall}
      (hgrown : s.arena.Grown ([left, right] ++ others) uses)
      (htarget : s.arena.kind? left = some target)
      (hassigns : ∀ kind, c.kind? = some kind → target.Assigns right kind)
      (hrun : build place (·.perform c) s = .ok (r, s')) :
      ∃ uses', s'.arena.Grown ([r] ++ others) uses' := by
    obtain ⟨a, hperform, rfl⟩ := build_eq_ok_iff.mp hrun
    obtain ⟨node, hpush, hkind⟩ := Arena.exists_push_of_perform hperform
    cases hpush
    exact ⟨_, .assignment hgrown htarget (hassigns _ hkind)⟩
  intro s s' r others uses hgrown hrun
  rw [get_bind] at hrun
  cases htarget : s.arena.kind? left with
  | none =>
      rw [htarget] at hrun
      exact absurd hrun failAt_ne_ok
  | some target =>
      rw [htarget] at hrun
      cases target with
      | value name =>
          exact hbuild (c := .assign name right) hgrown htarget
            (by rintro _ ⟨⟩; exact .name name) hrun
      | readCell access =>
          exact hbuild (c := .assignCell access right) hgrown htarget
            (by rintro _ ⟨⟩; exact .cell access) hrun
      | _ => exact absurd hrun failAt_ne_ok

theorem turns_assignment {target value : Parser NodeId} (htarget : Turns target [] fun id => [id])
    (hvalue : Turns value [] fun id => [id]) :
    Turns (assignment target value) [] fun id => [id] := by
  refine htarget.bind fun left => still_next?.bind fun found => ?_
  split
  · refine still_position.bind fun place => still_advance.bind fun _ => ?_
    exact (hvalue.behind [left]).bind fun right => turns_assign place left right
  · exact turns_pure rfl

theorem turns_prefixed (hinner : Turns inner [] fun id => [id])
    (hoperand : Turns operand [] fun id => [id]) :
    Turns (prefixed inner operand) [] fun id => [id] := by
  refine still_next?.bind fun found => ?_
  split
  · exact hoperand
  next op _ =>
    refine still_position.bind fun place => still_advance.bind fun _ => hinner.bind fun node => ?_
    exact turns_build place (c := .unary op node) (by rintro _ ⟨⟩ ⟨⟩)

theorem turns_moreArguments (h : Turns expr [] fun id => [id]) (fuel : Nat) (args : List NodeId) :
    Turns (moreArguments expr fuel args) args fun ids => ids := by
  induction fuel generalizing args with
  | zero => exact turns_pure rfl
  | succ fuel ih =>
      have hfirst : Turns expr args fun id => args ++ [id] := by
        simpa only [List.append_nil] using h.behind args
      refine hfirst.bind fun arg => still_next?.bind fun found => ?_
      split
      · exact still_advance.bind fun _ => ih _
      · exact (still_expect _).bind fun _ => turns_pure rfl

theorem turns_arguments (h : Turns expr [] fun id => [id]) :
    Turns (arguments expr) [] fun ids => ids := by
  refine still_next?.bind fun found => ?_
  split
  · exact still_advance.bind fun _ => turns_pure rfl
  · exact still_remaining.bind fun n => turns_moreArguments h (n + 1) []

theorem turns_subscript (h : Turns expr [] fun id => [id]) :
    Turns (subscript expr) [] fun id => [id] :=
  (still_expect _).bind fun _ => h.bind fun _ => (still_expect _).bind fun _ => turns_pure rfl

theorem turns_cellRead (place : Position) (base : CellBase) (index : NodeId) :
    Turns (cellRead place base index) (NodeCall.cell base index).ids fun id => [id] := by
  refine (turns_build place (c := .cell base index) (by rintro _ ⟨⟩ ⟨⟩)).bind fun access => ?_
  exact turns_build place (c := .readCell access) (by rintro _ ⟨⟩ ⟨⟩)

theorem turns_named (h : Turns expr [] fun id => [id]) (place : Position) (name : String) :
    Turns (named expr place name) [] fun id => [id] := by
  refine still_next?.bind fun found => ?_
  split
  · refine still_advance.bind fun _ => (turns_arguments h).bind fun args => ?_
    refine turns_build place (c := .call name args) fun kind hkind => ?_
    obtain ⟨f, -, rfl⟩ := Option.map_eq_some_iff.mp hkind
    rintro ⟨⟩
  · exact (turns_subscript h).bind fun index => turns_cellRead place (.named name) index
  · exact turns_plant (fun a => rfl) rfl (by rintro ⟨⟩)

theorem turns_var (v : Variable) : Turns (plant (·.var v)) [] fun id => [id] :=
  turns_plant (fun a => rfl) rfl (by rintro ⟨⟩)

theorem turns_slot (h : Turns expr [] fun id => [id]) (place : Position) (text : String) :
    Turns (slot expr place text) [] fun id => [id] := by
  refine (still_readVariable place text).bind fun v => (turns_var v).bind fun node => ?_
  refine still_next?.bind fun found => ?_
  split
  · refine ((turns_subscript h).behind [node]).bind fun index => ?_
    split
    · exact turns_build place (c := .history node index) (by rintro _ ⟨⟩ ⟨⟩)
    · exact turns_cellRead place (.slot node) index
  · exact turns_pure rfl

theorem turns_quotation (place : Position) (text : String) :
    Turns (quotation place text) [] fun id => [id] := by
  simp only [quotation]
  split
  · refine (still_readVariable place text).bind fun v => (turns_var v).bind fun node => ?_
    exact turns_build place (c := .quotedVar node) (by rintro _ ⟨⟩ ⟨⟩)
  · exact turns_plant (fun a => rfl) rfl (by rintro ⟨⟩)

theorem turns_operand (h : Turns expr [] fun id => [id]) :
    Turns (Parser.operand expr) [] fun id => [id] := by
  refine still_position.bind fun place => still_next?.bind fun found => ?_
  cases found with
  | none => exact turns_failAt place _
  | some kind =>
      refine still_advance.bind fun _ => ?_
      cases kind with
      | ident name => exact turns_named h place name
      | sigil text => exact turns_slot h place text
      | integer n => exact turns_plant (fun a => rfl) rfl (by rintro ⟨⟩)
      | number x => exact turns_plant (fun a => rfl) rfl (by rintro ⟨⟩)
      | str text => exact turns_quotation place text
      | leftParen => exact h.bind fun node => (still_expect _).bind fun _ => turns_pure rfl
      | _ => exact turns_failAt place _

theorem turns_grammar (n : Nat) :
    Turns (grammar n).unary [] (fun id => [id]) ∧ Turns (grammar n).expr [] fun id => [id] := by
  induction n with
  | zero =>
      have hdeep : Turns tooDeep [] fun id => [id] := turns_fail _
      exact ⟨turns_prefixed hdeep (turns_operand hdeep), hdeep⟩
  | succ n ih =>
      have hexpr : Turns (grammar (n + 1)).expr [] fun id => [id] :=
        turns_assignment (turns_ladder levels ih.1) ih.2
      exact ⟨turns_prefixed ih.1 (turns_operand hexpr), hexpr⟩

theorem turns_statement : Turns statement [] fun id => [id] := (turns_grammar maxNesting).2

theorem turns_moreStatements (fuel : Nat) (roots : List NodeId) :
    Turns (moreStatements fuel roots) roots fun ids => ids := by
  induction fuel generalizing roots with
  | zero => exact turns_pure rfl
  | succ fuel ih =>
      have hnext : Turns statement roots fun id => roots ++ [id] := by
        simpa only [List.append_nil] using turns_statement.behind roots
      refine still_separated.bind fun more => ?_
      split
      · exact still_advance.bind fun _ => hnext.bind fun root => ih _
      · refine still_next?.bind fun found => ?_
        split
        · exact still_advance.bind fun _ => turns_pure rfl
        · exact turns_pure rfl

theorem turns_statements : Turns statements [] fun ids => ids := by
  refine still_remaining.bind fun n => ?_
  split
  · exact turns_fail_bind _ _
  · refine turns_statement.bind fun first => still_remaining.bind fun n => ?_
    refine (turns_moreStatements n [first]).bind fun roots => still_next?.bind fun found => ?_
    cases found with
    | none => exact turns_pure rfl
    | some kind => exact turns_fail _

theorem grown_of_parse {input : TokenList} {arena : Arena} {roots : List NodeId}
    (h : parse input = .ok (arena, roots)) : ∃ uses, arena.Grown roots uses := by
  cases hrun : statements ⟨input, .empty⟩ with
  | error e =>
      rw [parse, StateT.run, hrun] at h
      cases h
  | ok result =>
      rw [parse, StateT.run, hrun] at h
      cases h
      obtain ⟨uses, hgrown⟩ := turns_statements _ _ _ [] [] .empty hrun
      exact ⟨uses, List.append_nil result.1 ▸ hgrown⟩

end Parser

/-! ### Parsed texts -/

/-- The roots of a parsed text and the nodes below them form a forest: one path from one root leads
to each of them. All other nodes of the arena were made for the targets of assignments, and there is
one for each assignment. -/
theorem Reader.parse_forest (r : Reader) (text : String) (p : Program)
    (h : (r.parse text).1 = .ok p) :
    (∀ id, p.arena.Reachable p.roots id → id < p.arena.size ∧
      ∃! place : Nat × List Nat, ∃ root, p.roots[place.1]? = some root ∧
        p.arena.Leads root place.2 id) ∧
    ∃ target : NodeId → NodeId,
      Set.BijOn target {n | ∃ kind, p.arena.kind? n = some kind ∧ kind.IsAssignment}
        {n | n < p.arena.size ∧ ¬ p.arena.Reachable p.roots n} ∧
      ∀ n kind, p.arena.kind? n = some kind → kind.IsAssignment →
        ∃ former value, p.arena.kind? (target n) = some former ∧ former.Assigns value kind := by
  obtain ⟨ts, -, hparse⟩ := exists_tokens_of_ok h
  obtain ⟨uses, hgrown⟩ := Parser.grown_of_parse hparse
  refine ⟨fun id hid => ⟨hgrown.lt_size_of_reachable hid, hgrown.existsUnique_place hid⟩, ?_⟩
  have hplaces := List.nodup_append'.mp (hgrown.perm_range.nodup_iff.mpr List.nodup_range)
  have htargets := (List.nodup_append'.mp hplaces.2.1).2.1
  have hunreached : {n | n ∈ uses.map Prod.fst} =
      {n | n < p.arena.size ∧ ¬ p.arena.Reachable p.roots n} :=
    Set.ext fun n => hgrown.mem_targets_iff
  rw [← hunreached]
  exact hgrown.uses_assignments.exists_bijOn htargets

/-- Two targets, and a root that is an assignment. -/
theorem Reader.parse_forest_two_targets :
    ∃ p, (Reader.parse {} "t[1] = x = 2").1 = .ok p ∧ p.roots = [6] ∧ p.arena.size = 7 ∧
      (∀ id, p.arena.Reachable p.roots id → id < p.arena.size ∧
        ∃! place : Nat × List Nat, ∃ root, p.roots[place.1]? = some root ∧
          p.arena.Leads root place.2 id) ∧
      ∃ target : NodeId → NodeId,
        Set.BijOn target {n | ∃ kind, p.arena.kind? n = some kind ∧ kind.IsAssignment}
          {n | n < p.arena.size ∧ ¬ p.arena.Reachable p.roots n} := by
  have hread : ((Reader.parse {} "t[1] = x = 2").1.map fun p => (p.roots, p.arena.size)).toOption =
      some ([6], 7) := by
    cbv
  cases hp : (Reader.parse {} "t[1] = x = 2").1 with
  | error e => simp [hp, Except.map, Except.toOption] at hread
  | ok p =>
      obtain ⟨hroots, hsize⟩ :=
        Prod.mk.inj (Option.some.inj (hp ▸ hread : some (p.roots, p.arena.size) = _))
      obtain ⟨hforest, target, htarget, -⟩ := Reader.parse_forest {} _ p hp
      exact ⟨p, rfl, hroots, hsize, hforest, target, htarget⟩

end SignalExpr
