import SignalExpr.Proofs.OperatorChain
import SignalExpr.Proofs.ParserRun

/-!
How operators and assignments are read: what a parser of operands reads decides what the parser
of a level above it reads.
-/

namespace SignalExpr.Parser

open SignalExpr.Derivation

variable {s s' : ParseState} {id : NodeId} {n : Nat} {p : Parser NodeId}

/-! ### Operators before an operand -/

theorem unaryOp?_eq_some_iff {kind : TokenKind} {op : UnaryOp} :
    unaryOp? kind = some op ↔ kind = op.token := by
  constructor
  · intro h
    unfold unaryOp? at h
    split at h <;> cases h <;> rfl
  · rintro rfl
    cases op <;> rfl

theorem next_unaryOp?_eq_some_iff {op : UnaryOp} :
    s.kinds.head?.bind unaryOp? = some op ↔ s.kinds = op.token :: s.skip.kinds := by
  rw [← ParseState.head?_kinds_eq_some_iff]
  cases s.kinds <;> simp [unaryOp?_eq_some_iff]

theorem next_unaryOp?_eq_none {d : Derivation} {rest : List TokenKind} (hd : Fits 12 n d)
    (hs : s.kinds = d.tokens ++ rest) : s.kinds.head?.bind unaryOp? = none := by
  rw [hs]
  cases d with
  | binary => exact absurd (hd.of_level_le (Nat.le_of_lt hd.level_le)) not_fits_binary
  | assignment => exact absurd hd not_fits_assignment
  | prefixed => exact absurd hd.level_le (by simp [level])
  | _ => rfl

theorem reads_prefixed {operand : Parser NodeId} (hp : Reads p 11 n)
    (hoperand : Reads operand 12 (n + 1)) : Reads (prefixed p operand) 11 (n + 1) := by
  refine ⟨fun {s s' id} hs h => ?_, fun {s d e rest} hs hd he hkinds hrest => ?_⟩
  · rw [prefixed, next?_bind] at h
    cases hop : s.kinds.head?.bind unaryOp? with
    | none =>
        simp only [hop] at h
        obtain ⟨d, e, hd, hparsed⟩ := hoperand.sound hs h
        exact ⟨d, e, hd.of_level_le (Nat.le_of_lt hd.level_le), hparsed⟩
    | some op =>
        simp only [hop, position_bind, advance_bind] at h
        obtain ⟨node, t, hnode, hbuild⟩ := bind_eq_ok_iff.mp h
        obtain ⟨d, e, hd, hparsed⟩ := hp.sound (s := s.skip) hs hnode
        obtain ⟨hkinds, hgrows, hid⟩ :=
          represents_of_build (Arena.builds_unary hparsed.represents op) hbuild
        refine ⟨.prefixed op d, .unary op e, fits_prefixed_iff.mpr ⟨Nat.le_refl _, hd⟩, ?_, ?_,
          hparsed.grows.trans hgrows, hid⟩
        · rw [next_unaryOp?_eq_some_iff.mp hop, hparsed.kinds, hkinds]
          rfl
        · simp [tree?, hparsed.tree]
  · simp only [prefixed, next?_bind]
    rcases hd.prefixed_or_operand with ⟨op, d, rfl⟩ | hd
    · obtain ⟨-, hd⟩ := fits_prefixed_iff.mp hd
      obtain ⟨x, rfl, hx⟩ := he.exists_unary
      have hskip := ParseState.kinds_skip_of_eq hkinds
      have hnext : s.kinds.head?.bind unaryOp? = some op :=
        next_unaryOp?_eq_some_iff.mpr (by rw [hskip]; exact hkinds)
      simp only [hnext, position_bind, advance_bind]
      refine (hp.complete (s := s.skip) hs hd hx hskip hrest).bind fun node t ht hgrows hnode => ?_
      rw [← ht]
      exact yields_build (Arena.builds_unary hnode op) he.wellTyped he.depth_le
    · simp only [next_unaryOp?_eq_none hd hkinds]
      exact hoperand.complete hs hd he hkinds (hrest.mono (Nat.le_succ 11))

/-! ### Operators between operands -/

/-- The operators on the level are those of the number `k`. -/
def IsLevel (level : Level) (k : Nat) : Prop :=
  ∀ kind op, level kind = some op ↔ kind = op.token ∧ op.level = k

section Level

variable {level : Level} {k : Nat}

theorem IsLevel.next_eq_some_iff (hlevel : IsLevel level k) {op : BinaryOp} :
    s.kinds.head?.bind level = some op ↔ s.kinds = op.token :: s.skip.kinds ∧ op.level = k := by
  rw [← ParseState.head?_kinds_eq_some_iff]
  cases s.kinds with
  | nil => simp
  | cons kind kinds => simpa using hlevel kind op

theorem IsLevel.next_eq_none (hlevel : IsLevel level k) {rest : List TokenKind}
    (hs : s.kinds = rest) (hrest : Ends k rest) : s.kinds.head?.bind level = none := by
  rw [Option.eq_none_iff_forall_ne_some]
  intro op hop
  obtain ⟨hkinds, hk⟩ := hlevel.next_eq_some_iff.mp hop
  rw [← hs, hkinds] at hrest
  exact ends_cons.mp hrest (.operator op (Nat.le_of_eq hk.symm))

theorem climb_sound (hlevel : IsLevel level k) (hp : Reads p (k + 1) n) {fuel : Nat}
    {start : ParseState} {first : Derivation} {x : Expr} {left : NodeId}
    (hstart : start.arena.Valid) (hfirst : Fits k n first) (hparsed : Parsed start first x left s)
    (h : climb level p fuel left s = .ok (id, s')) :
    ∃ d e, Fits k n d ∧ Parsed start d e id s' := by
  induction fuel generalizing first x left s with
  | zero =>
      cases h
      exact ⟨first, x, hfirst, hparsed⟩
  | succ fuel ih =>
      rw [climb, next?_bind] at h
      cases hop : s.kinds.head?.bind level with
      | none =>
          simp only [hop, pure_run] at h
          cases h
          exact ⟨first, x, hfirst, hparsed⟩
      | some op =>
          obtain ⟨hkinds, rfl⟩ := hlevel.next_eq_some_iff.mp hop
          simp only [hop, position_bind, advance_bind] at h
          obtain ⟨right, t, hright, h⟩ := bind_eq_ok_iff.mp h
          obtain ⟨node, u, hnode, h⟩ := bind_eq_ok_iff.mp h
          have hs : s.skip.arena.Valid := hparsed.grows.valid hstart
          obtain ⟨d, e, hd, hparsed'⟩ := hp.sound hs hright
          have hleft := hparsed.represents.mono hparsed'.grows.extension
          obtain ⟨hu, hgrows, hrepresents⟩ :=
            represents_of_build (Arena.builds_binary hleft hparsed'.represents op) hnode
          have hfits : Fits op.level n (.binary op first d) :=
            fits_binary_iff.mpr ⟨Nat.le_refl _, hfirst, hd⟩
          refine ih hfits ⟨?_, ?_, ?_, hrepresents⟩ h
          · rw [hparsed.kinds, hkinds, hparsed'.kinds, hu]
            simp [tokens]
          · simp [tree?, hparsed.tree, hparsed'.tree]
          · exact (hparsed.grows.trans hparsed'.grows).trans hgrows

theorem yields_climb (hlevel : IsLevel level k) (hp : Reads p (k + 1) n) {fuel : Nat}
    {first : Derivation} {links : List (BinaryOp × Derivation)} {x e : Expr} {left : NodeId}
    {rest : List TokenKind} (hfuel : links.length ≤ fuel) (hs : s.arena.Valid)
    (hfirst : first.tree? = some x) (hleft : s.arena.Represents left x)
    (hlinks : ∀ link ∈ links, IsLink k n link) (he : (group first links).Makes e)
    (hkinds : s.kinds = linkTokens links ++ rest) (hrest : Ends k rest) :
    Yields (climb level p fuel left s) s.arena e rest := by
  induction links generalizing fuel first x left s with
  | nil =>
      have hstop : climb level p fuel left s = .ok (left, s) := by
        cases fuel with
        | zero => rfl
        | succ fuel => simp only [climb, next?_bind, hlevel.next_eq_none hkinds hrest, pure_run]
      obtain rfl : x = e := Option.some.inj (hfirst.symm.trans he.tree)
      exact ⟨left, s, hstop, hkinds, .refl _, hleft⟩
  | cons link links ih =>
      obtain ⟨op, d⟩ := link
      obtain ⟨hlink, hlinks⟩ := List.forall_mem_cons.mp hlinks
      cases fuel with
      | zero => exact absurd hfuel (Nat.not_succ_le_zero _)
      | succ fuel =>
          obtain ⟨y, hy⟩ : ∃ y, (Derivation.binary op first d).Makes y := Makes.exists_first he
          obtain ⟨l, r, rfl, hl, hr⟩ := hy.exists_binary
          obtain rfl : x = l := Option.some.inj (hfirst.symm.trans hl.tree)
          simp only [linkTokens, List.cons_append, List.append_assoc] at hkinds
          have hskip := ParseState.kinds_skip_of_eq hkinds
          have hnext : s.kinds.head?.bind level = some op :=
            hlevel.next_eq_some_iff.mpr ⟨by rw [hskip]; exact hkinds, hlink.level_eq⟩
          simp only [climb, next?_bind, hnext, position_bind, advance_bind]
          refine (hp.complete (s := s.skip) hs hlink.operand hr hskip
            (ends_linkTokens hlinks hrest)).bind fun right t ht hgrows hright => ?_
          refine (yields_build (Arena.builds_binary (hleft.mono hgrows.extension) hright op)
            hy.wellTyped hy.depth_le).bind fun node u hu hgrows' hnode => ?_
          exact ih (Nat.le_of_succ_le_succ hfuel) ((hgrows.trans hgrows').valid hs) hy.tree hnode
            hlinks he (hu.trans ht)

theorem reads_leftAssociative (hlevel : IsLevel level k) (hpos : 1 ≤ k) (hle : k ≤ 10)
    (hp : Reads p (k + 1) n) : Reads (leftAssociative level p) k n := by
  refine ⟨fun {s s' id} hs h => ?_, fun {s d e rest} hs hd he hkinds hrest => ?_⟩
  · obtain ⟨first, t, hfirst, h⟩ := bind_eq_ok_iff.mp h
    obtain ⟨d, e, hd, hparsed⟩ := hp.sound hs hfirst
    rw [remaining_bind] at h
    exact climb_sound hlevel hp hs (hd.of_level_le (Nat.le_of_lt hd.level_le)) hparsed h
  · obtain ⟨first, links, rfl, hfirst, hlinks⟩ := exists_chain hpos hle d hd
    obtain ⟨x, hx⟩ := he.exists_first
    rw [tokens_group, List.append_assoc] at hkinds
    refine (hp.complete hs hfirst hx hkinds (ends_linkTokens hlinks hrest)).bind
      fun left t ht hgrows hleft => ?_
    rw [remaining_bind]
    refine yields_climb hlevel hp ?_ (hgrows.valid hs) hx.tree hleft hlinks he ht hrest
    have hlength := length_le_linkTokens links
    rw [ht, List.length_append]
    omega

end Level

/-- The levels in the list have the numbers from `k` to 10. -/
inductive AreLevels : Nat → List Level → Prop
  | nil : AreLevels 11 []
  | cons {k : Nat} {level : Level} {tighter : List Level} : 1 ≤ k → k ≤ 10 → IsLevel level k →
      AreLevels (k + 1) tighter → AreLevels k (level :: tighter)

theorem areLevels_levels : AreLevels 1 levels := by
  have hlevel (level : Level) (k : Nat)
    (hsome : ∀ kind op, level kind = some op → kind = op.token ∧ op.level = k)
    (htoken : ∀ op : BinaryOp, op.level = k → level op.token = some op) : IsLevel level k :=
    fun kind op => ⟨hsome kind op, fun ⟨hkind, hk⟩ => hkind ▸ htoken op hk⟩
  repeat
    refine .cons (by decide) (by decide) (hlevel _ _ ?_ ?_) ?_
    · intro kind op h
      split at h <;> cases h <;> exact ⟨rfl, rfl⟩
    · intro op h
      cases op <;> first | rfl | cases h
  exact .nil

theorem reads_ladder {k : Nat} {levels : List Level} (hlevels : AreLevels k levels)
    (hp : Reads p 11 n) : Reads (ladder levels p) k n := by
  induction hlevels with
  | nil => exact hp
  | cons hpos hle hlevel _ ih => exact reads_leftAssociative hlevel hpos hle ih

/-! ### Assignments -/

theorem assignment_sound {target value : Parser NodeId} (htarget : Reads target 1 (n + 1))
    (hvalue : Reads value 0 n) (hs : s.arena.Valid)
    (h : assignment target value s = .ok (id, s')) :
    ∃ d e, Fits 0 (n + 1) d ∧ Parsed s d e id s' := by
  obtain ⟨left, t, hleft, h⟩ := bind_eq_ok_iff.mp h
  obtain ⟨d, x, hd, hparsed⟩ := htarget.sound hs hleft
  rw [next?_bind] at h
  split at h
  next hassign =>
    simp only [position_bind, advance_bind] at h
    obtain ⟨right, u, hright, h⟩ := bind_eq_ok_iff.mp h
    rw [get_bind] at h
    have ht : t.skip.arena.Valid := hparsed.grows.valid hs
    obtain ⟨v, y, hv, hparsed'⟩ := hvalue.sound ht hright
    have hx := hparsed.represents.mono hparsed'.grows.extension
    have hresult : ∃ e, x.assigned? y = some e ∧ s'.kinds = u.kinds ∧
        u.arena.Grows s'.arena ∧ s'.arena.Represents id e := by
      obtain ⟨kind, hkind, hdenotes⟩ := Arena.exists_kind_of_tree? hx.tree
      rw [hkind] at h
      cases hdenotes with
      | value name =>
          exact ⟨_, rfl, represents_of_build (Arena.builds_assign hparsed'.represents name) h⟩
      | readCell haccess =>
          have haccess := (hparsed'.grows.valid ht).represents haccess
          exact ⟨_, rfl, represents_of_build
            (Arena.builds_assignCell haccess hparsed'.represents) h⟩
      | _ => exact absurd h failAt_ne_ok
    obtain ⟨e, he, hkinds, hgrows, hid⟩ := hresult
    refine ⟨.assignment d v, e, fits_assignment_iff.mpr ⟨rfl, hd, hv⟩, ?_, ?_,
      (hparsed.grows.trans hparsed'.grows).trans hgrows, hid⟩
    · rw [hparsed.kinds, ParseState.head?_kinds_eq_some_iff.mp hassign, hparsed'.kinds, hkinds]
      simp [tokens]
    · simp [tree?, hparsed.tree, hparsed'.tree, he]
  next =>
    cases h
    exact ⟨d, x, hd.of_level_le (Nat.zero_le _), hparsed⟩

theorem yields_assignment {target value : Parser NodeId} (htarget : Reads target 1 (n + 1))
    (hvalue : Reads value 0 n) (hs : s.arena.Valid) {l r : Derivation} {e : Expr}
    {rest : List TokenKind} (hl : Fits 1 (n + 1) l) (hr : Fits 0 n r)
    (he : (Derivation.assignment l r).Makes e)
    (hkinds : s.kinds = l.tokens ++ .assign :: (r.tokens ++ rest)) (hrest : Ends 0 rest) :
    Yields (assignment target value s) s.arena e rest := by
  obtain ⟨x, y, hassigned, hx, hy⟩ := he.exists_assigned
  have hends : Ends 1 (.assign :: (r.tokens ++ rest)) :=
    ends_cons.mpr (not_continues_assign Nat.one_pos)
  refine (htarget.complete hs hl hx hkinds hends).bind fun left t ht hgrows hleft => ?_
  have hnext : t.kinds.head? = some .assign := by
    rw [ht]
    rfl
  simp only [next?_bind, hnext, if_true, position_bind, advance_bind]
  refine (hvalue.complete (s := t.skip) (hgrows.valid hs) hr hy
    (ParseState.kinds_skip_of_eq ht) hrest).bind fun right u hu hgrows' hright => ?_
  have hleft := hleft.mono hgrows'.extension
  obtain ⟨kind, hkind, hdenotes⟩ := Arena.exists_kind_of_tree? hleft.tree
  rw [get_bind, hkind, ← hu]
  cases hdenotes with
  | value name =>
      cases hassigned
      exact yields_build (Arena.builds_assign hright name) he.wellTyped he.depth_le
  | readCell haccess =>
      cases hassigned
      have haccess := (hgrows'.valid (hgrows.valid hs)).represents haccess
      exact yields_build (Arena.builds_assignCell haccess hright) he.wellTyped he.depth_le
  | _ => cases hassigned

theorem reads_assignment {target value : Parser NodeId} (htarget : Reads target 1 (n + 1))
    (hvalue : Reads value 0 n) : Reads (assignment target value) 0 (n + 1) := by
  refine ⟨assignment_sound htarget hvalue, fun {s d e rest} hs hd he hkinds hrest => ?_⟩
  rcases hd.assignment_or_expression with ⟨l, r, rfl⟩ | hexpr
  · obtain ⟨-, hl, hr⟩ := fits_assignment_iff.mp hd
    simp only [tokens, List.append_assoc, List.cons_append] at hkinds
    exact yields_assignment htarget hvalue hs hl hr he hkinds hrest
  · obtain ⟨left, t, hrun, ht, hgrows, hleft⟩ :=
      htarget.complete hs hexpr he hkinds (hrest.mono (Nat.zero_le 1))
    have hnext : t.kinds.head? ≠ some .assign := by
      intro hassign
      exact hrest _ (ht ▸ hassign) (.assign rfl)
    refine ⟨left, t, ?_, ht, hgrows, hleft⟩
    rw [assignment, bind_of_ok hrun, next?_bind, if_neg hnext, pure_run]

end SignalExpr.Parser
