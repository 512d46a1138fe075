import SignalExpr.Proofs.ArenaRuns
import SignalExpr.Proofs.ParserRun

/-!
What parsers look at. A parser decides by the kinds of tokens and by the arena, and puts the places
of tokens into errors only. So runs from states that are alike end alike, whatever is meant by
places being alike, and each of their errors is at the place of a token that was next.
-/

namespace SignalExpr

/-- The cause lies in the text: it is malformed, or well-formed but ill-typed. -/
def Cause.IsTextual (cause : Cause) : Prop :=
  cause.kind = .malformed ∨ cause.kind = .semantic

/-! ### Refused nodes -/

namespace Arena

variable {a : Arena} {cause : Cause}

theorem isTextual_of_branch {kind : NodeKind} {type : ValueType}
    (h : a.branch kind type = .error cause) : cause.IsTextual := by
  rw [branch] at h
  split at h
  · cases h
  · cases h
    exact .inl rfl

theorem isTextual_of_requireNumeric {id : NodeId} {place : NumericPlace}
    (h : a.requireNumeric id place = .error cause) : cause.IsTextual := by
  rw [requireNumeric] at h
  split at h
  · cases h
  · cases h
    exact .inr rfl

theorem isTextual_of_requireAssignable {access : NodeId}
    (h : a.requireAssignable access = .error cause) : cause.IsTextual := by
  rw [requireAssignable] at h
  split at h
  · cases h
  · split at h
    · cases h
    · cases h
      exact .inr rfl
  · cases h
    exact .inr rfl

theorem isTextual_of_bind {α β : Type} {check : Except Cause α} {rest : α → Except Cause β}
    (h : check >>= rest = .error cause) (hcheck : check = .error cause → cause.IsTextual)
    (hrest : ∀ x, rest x = .error cause → cause.IsTextual) : cause.IsTextual := by
  rcases Outcome.bind_eq_error_iff.mp h with h | ⟨x, -, h⟩
  · exact hcheck h
  · exact hrest x h

theorem isTextual_of_perform {c : NodeCall} (h : a.perform c = .error cause) :
    cause.IsTextual := by
  cases c with
  | var | int | float | quoted | value => cases h
  | unary op i | assign name i =>
      exact isTextual_of_bind h isTextual_of_requireNumeric fun _ => isTextual_of_branch
  | binary op i j =>
      exact isTextual_of_bind h isTextual_of_requireNumeric fun _ h =>
        isTextual_of_bind h isTextual_of_requireNumeric fun _ => isTextual_of_branch
  | assignCell i j =>
      exact isTextual_of_bind h isTextual_of_requireAssignable fun _ h =>
        isTextual_of_bind h isTextual_of_requireNumeric fun _ => isTextual_of_branch
  | quotedVar i =>
      simp only [perform, quotedVar] at h
      split at h
      · exact isTextual_of_branch h
      · cases h
        exact .inr rfl
  | readCell i =>
      simp only [perform, readCell] at h
      split at h
      · exact isTextual_of_branch h
      · cases h
        exact .inr rfl
  | cell base i =>
      simp only [perform, cell] at h
      split at h
      · exact isTextual_of_bind h isTextual_of_requireNumeric fun _ => isTextual_of_branch
      · cases h
        exact .inr rfl
  | history i j =>
      simp only [perform, history] at h
      split at h
      · split at h
        · exact isTextual_of_bind h isTextual_of_requireNumeric fun _ => isTextual_of_branch
        · cases h
          exact .inr rfl
      · cases h
        exact .inr rfl
  | call name args =>
      simp only [perform, call] at h
      split at h
      · cases h
        exact .inr rfl
      · split at h
        · cases h
          exact .inr rfl
        · split at h
          · cases h
            exact .inr rfl
          · exact isTextual_of_branch h

end Arena

namespace Parser

/-- States that are alike agree on the kinds of tokens and on the arena; their next tokens are at
places that are alike. -/
structure Likeness where
  places : Position → Position → Prop
  states : ParseState → ParseState → Prop
  kinds {s s' : ParseState} : states s s' → s'.kinds = s.kinds
  arena {s s' : ParseState} : states s s' → s'.arena = s.arena
  position {s s' : ParseState} : states s s' → places s.input.position s'.input.position
  skip {s s' : ParseState} : states s s' → states s.skip s'.skip
  withArena {s s' : ParseState} (a : Arena) :
    states s s' → states (s.withArena a) (s'.withArena a)

variable {α β : Type} (R : Likeness)

/-- The runs end with the same result in states that are alike, or with one textual cause at places
that are alike. -/
inductive EndsAlike : Except Error (α × ParseState) → Except Error (α × ParseState) → Prop
  | ok {a : α} {s s' : ParseState} : R.states s s' → EndsAlike (.ok (a, s)) (.ok (a, s'))
  | error {p p' : Position} {cause : Cause} : R.places p p' → cause.IsTextual →
      EndsAlike (.error (.atPosition p cause)) (.error (.atPosition p' cause))

/-- The parsers look at the kinds of tokens and at the arena only. -/
def Alike (p p' : Parser α) : Prop :=
  ∀ s s' : ParseState, R.states s s' → EndsAlike R (p s) (p' s')

variable {R}

/-! ### Steps -/

theorem Alike.bind {p p' : Parser α} {f f' : α → Parser β} (h : Alike R p p')
    (hf : ∀ a, Alike R (f a) (f' a)) : Alike R (p >>= f) (p' >>= f') := by
  intro s s' hs
  have hends := h s s' hs
  change EndsAlike R ((p s).bind fun x => f x.1 x.2) ((p' s').bind fun x => f' x.1 x.2)
  generalize p s = r, p' s' = r' at hends
  cases hends with
  | ok ht => exact hf _ _ _ ht
  | error hplaces hcause => exact .error hplaces hcause

theorem alike_pure (a : α) : Alike R (pure a) (pure a) := fun _ _ hs => .ok hs

theorem alike_next? : Alike R next? next? := by
  intro s s' hs
  have h := next?_bind (s := s) pure
  have h' := next?_bind (s := s') pure
  rw [bind_pure] at h h'
  rw [h, h', R.kinds hs]
  exact .ok hs

theorem alike_remaining : Alike R remaining remaining := by
  intro s s' hs
  have h := remaining_bind (s := s) pure
  have h' := remaining_bind (s := s') pure
  rw [bind_pure] at h h'
  rw [h, h', R.kinds hs]
  exact .ok hs

theorem alike_advance : Alike R advance advance := fun _ _ hs => .ok (R.skip hs)

theorem alike_position_bind {f f' : Position → Parser β}
    (h : ∀ p p', R.places p p' → Alike R (f p) (f' p')) :
    Alike R (position >>= f) (position >>= f') := by
  intro s s' hs
  rw [position_bind, position_bind]
  exact h _ _ (R.position hs) s s' hs

theorem alike_get_bind {f f' : ParseState → Parser β}
    (h : ∀ s s', R.states s s' → Alike R (f s) (f' s')) : Alike R (get >>= f) (get >>= f') := by
  intro s s' hs
  rw [get_bind, get_bind]
  exact h s s' hs s s' hs

variable {p p' : Position}

theorem alike_failAt (hp : R.places p p') {cause : Cause} (hcause : cause.IsTextual) :
    Alike R (failAt p cause : Parser α) (failAt p' cause) :=
  fun _ _ _ => .error hp hcause

theorem alike_fail {cause : Cause} (hcause : cause.IsTextual) :
    Alike R (fail cause : Parser α) (fail cause) :=
  alike_position_bind fun _ _ hp => alike_failAt hp hcause

theorem alike_fail_bind {cause : Cause} (hcause : cause.IsTextual) (f f' : α → Parser β) :
    Alike R (fail cause >>= f) (fail cause >>= f') :=
  fun _ _ hs => .error (R.position hs) hcause

theorem alike_plant (f : Arena → Arena × NodeId) : Alike R (plant f) (plant f) := by
  intro s s' hs
  rw [plant_run, plant_run, R.arena hs]
  exact .ok (R.withArena _ hs)

theorem alike_build (hp : R.places p p') (c : NodeCall) :
    Alike R (build p (·.perform c)) (build p' (·.perform c)) := by
  intro s s' hs
  simp only [build, get_bind, R.arena hs]
  cases hc : s.arena.perform c with
  | ok r => exact .ok (R.withArena _ hs)
  | error cause => exact alike_failAt hp (Arena.isTextual_of_perform hc) s s' hs

theorem alike_readVariable (hp : R.places p p') (text : String) :
    Alike R (readVariable p text) (readVariable p' text) := by
  simp only [readVariable]
  cases Variable.parse text with
  | ok v => exact alike_pure v
  | error fault => exact alike_failAt hp (.inr rfl)

theorem alike_expect (kind : TokenKind) : Alike R (expect kind) (expect kind) := by
  refine alike_next?.bind fun found => ?_
  split
  · exact alike_advance
  · exact alike_fail (.inl rfl)

/-! ### Phrases -/

variable {expr inner operand : Parser NodeId}

theorem alike_climb (level : Level) (h : Alike R operand operand) (fuel : Nat) (left : NodeId) :
    Alike R (climb level operand fuel left) (climb level operand fuel left) := by
  induction fuel generalizing left with
  | zero => exact alike_pure left
  | succ fuel ih =>
      refine alike_next?.bind fun found => ?_
      split
      · exact alike_pure left
      · refine alike_position_bind fun p p' hp => ?_
        refine alike_advance.bind fun _ => h.bind fun right => ?_
        exact (alike_build hp (.binary _ left right)).bind ih

theorem alike_ladder (levels : List Level) (h : Alike R operand operand) :
    Alike R (ladder levels operand) (ladder levels operand) := by
  induction levels with
  | nil => exact h
  | cons level tighter ih =>
      exact ih.bind fun first => alike_remaining.bind fun n => alike_climb level ih n first

theorem alike_assignment {target value : Parser NodeId} (htarget : Alike R target target)
    (hvalue : Alike R value value) :
    Alike R (assignment target value) (assignment target value) := by
  refine htarget.bind fun left => alike_next?.bind fun found => ?_
  split
  · refine alike_position_bind fun p p' hp => ?_
    refine alike_advance.bind fun _ => hvalue.bind fun right => alike_get_bind fun t t' ht => ?_
    rw [R.arena ht]
    split
    next name _ => exact alike_build hp (.assign name right)
    next access _ => exact alike_build hp (.assignCell access right)
    next => exact alike_failAt hp (.inl rfl)
  · exact alike_pure left

theorem alike_prefixed (hinner : Alike R inner inner) (hoperand : Alike R operand operand) :
    Alike R (prefixed inner operand) (prefixed inner operand) := by
  refine alike_next?.bind fun found => ?_
  split
  · exact hoperand
  · refine alike_position_bind fun p p' hp => ?_
    refine alike_advance.bind fun _ => hinner.bind fun node => ?_
    exact alike_build hp (.unary _ node)

theorem alike_moreArguments (h : Alike R expr expr) (fuel : Nat) (args : List NodeId) :
    Alike R (moreArguments expr fuel args) (moreArguments expr fuel args) := by
  induction fuel generalizing args with
  | zero => exact alike_pure args
  | succ fuel ih =>
      refine h.bind fun arg => alike_next?.bind fun found => ?_
      split
      · exact alike_advance.bind fun _ => ih _
      · exact (alike_expect _).bind fun _ => alike_pure _

theorem alike_arguments (h : Alike R expr expr) : Alike R (arguments expr) (arguments expr) := by
  refine alike_next?.bind fun found => ?_
  split
  · exact alike_advance.bind fun _ => alike_pure _
  · exact alike_remaining.bind fun n => alike_moreArguments h (n + 1) []

theorem alike_subscript (h : Alike R expr expr) : Alike R (subscript expr) (subscript expr) :=
  (alike_expect _).bind fun _ => h.bind fun index => (alike_expect _).bind fun _ =>
    alike_pure index

theorem alike_cellRead (hp : R.places p p') (base : CellBase) (index : NodeId) :
    Alike R (cellRead p base index) (cellRead p' base index) :=
  (alike_build hp (.cell base index)).bind fun access => alike_build hp (.readCell access)

theorem alike_named (h : Alike R expr expr) (hp : R.places p p') (name : String) :
    Alike R (named expr p name) (named expr p' name) := by
  refine alike_next?.bind fun found => ?_
  split
  · refine alike_advance.bind fun _ => (alike_arguments h).bind fun args => ?_
    exact alike_build hp (.call name args)
  · exact (alike_subscript h).bind fun index => alike_cellRead hp _ index
  · exact alike_plant _

theorem alike_slot (h : Alike R expr expr) (hp : R.places p p') (text : String) :
    Alike R (slot expr p text) (slot expr p' text) := by
  refine (alike_readVariable hp text).bind fun v => (alike_plant _).bind fun node => ?_
  refine alike_next?.bind fun found => ?_
  split
  · refine (alike_subscript h).bind fun index => ?_
    split
    · exact alike_build hp (.history node index)
    · exact alike_cellRead hp _ index
  · exact alike_pure node

theorem alike_quotation (hp : R.places p p') (text : String) :
    Alike R (quotation p text) (quotation p' text) := by
  simp only [quotation]
  split
  · refine (alike_readVariable hp text).bind fun v => (alike_plant _).bind fun node => ?_
    exact alike_build hp (.quotedVar node)
  · exact alike_plant _

theorem alike_operand (h : Alike R expr expr) :
    Alike R (Parser.operand expr) (Parser.operand expr) := by
  refine alike_position_bind fun p p' hp => alike_next?.bind fun found => ?_
  cases found with
  | none => exact alike_failAt hp (.inl rfl)
  | some kind =>
      refine alike_advance.bind fun _ => ?_
      cases kind with
      | ident name => exact alike_named h hp name
      | sigil text => exact alike_slot h hp text
      | integer n => exact alike_plant _
      | number x => exact alike_plant _
      | str text => exact alike_quotation hp text
      | leftParen => exact h.bind fun node => (alike_expect _).bind fun _ => alike_pure node
      | _ => exact alike_failAt hp (.inl rfl)

theorem alike_grammar (n : Nat) :
    Alike R (grammar n).unary (grammar n).unary ∧ Alike R (grammar n).expr (grammar n).expr := by
  induction n with
  | zero =>
      have hdeep : Alike R tooDeep tooDeep := alike_fail (.inl rfl)
      exact ⟨alike_prefixed hdeep (alike_operand hdeep), hdeep⟩
  | succ n ih =>
      have hexpr : Alike R (grammar (n + 1)).expr (grammar (n + 1)).expr :=
        alike_assignment (alike_ladder levels ih.1) ih.2
      exact ⟨alike_prefixed ih.1 (alike_operand hexpr), hexpr⟩

theorem alike_statement : Alike R statement statement := (alike_grammar maxNesting).2

theorem alike_separated : Alike R separated separated := by
  refine alike_next?.bind fun found => ?_
  split
  · exact alike_pure true
  · exact alike_remaining.bind fun n => alike_pure _
  · exact alike_pure false

theorem alike_moreStatements (fuel : Nat) (roots : List NodeId) :
    Alike R (moreStatements fuel roots) (moreStatements fuel roots) := by
  induction fuel generalizing roots with
  | zero => exact alike_pure roots
  | succ fuel ih =>
      refine alike_separated.bind fun more => ?_
      split
      · exact alike_advance.bind fun _ => alike_statement.bind fun root => ih _
      · refine alike_next?.bind fun found => ?_
        split
        · exact alike_advance.bind fun _ => alike_pure roots
        · exact alike_pure roots

theorem alike_statements : Alike R statements statements := by
  refine alike_remaining.bind fun n => ?_
  split
  · exact alike_fail_bind (.inl rfl) _ _
  · refine alike_statement.bind fun first => alike_remaining.bind fun n => ?_
    refine (alike_moreStatements n [first]).bind fun roots => alike_next?.bind fun found => ?_
    cases found with
    | none => exact alike_pure roots
    | some kind => exact alike_fail (.inl rfl)

theorem parse_likeness {ts ts' : TokenList} (h : R.states ⟨ts, .empty⟩ ⟨ts', .empty⟩) :
    (∃ r, parse ts = .ok r ∧ parse ts' = .ok r) ∨
      ∃ p p' cause, parse ts = .error (.atPosition p cause) ∧
        parse ts' = .error (.atPosition p' cause) ∧ R.places p p' ∧ cause.IsTextual := by
  have hends := alike_statements _ _ h
  simp only [parse, StateT.run]
  generalize statements ⟨ts, .empty⟩ = r, statements ⟨ts', .empty⟩ = r' at hends
  cases hends with
  | @ok roots t t' ht =>
      refine .inl ⟨(t.arena, roots), rfl, ?_⟩
      rw [← R.arena ht]
      rfl
  | error hplaces hcause => exact .inr ⟨_, _, _, rfl, rfl, hplaces, hcause⟩

end Parser

end SignalExpr
