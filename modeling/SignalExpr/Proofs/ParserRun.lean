import SignalExpr.Parser
import SignalExpr.Proofs.ArenaOperations
import SignalExpr.Proofs.Derivation

/-!
Runs of parsers. The steps from which the parsers are made have one equation each; what a run has
read and built is `Parsed`.
-/

namespace SignalExpr

namespace ParseState

/-- The kinds of the tokens that are left. -/
def kinds (s : ParseState) : List TokenKind := s.input.tokens.map Token.kind

/-- The state behind the next token. -/
def skip (s : ParseState) : ParseState :=
  { s with input := { s.input with tokens := s.input.tokens.tail } }

/-- The state with another arena. -/
def withArena (s : ParseState) (a : Arena) : ParseState := { s with arena := a }

@[simp] theorem kinds_skip (s : ParseState) : s.skip.kinds = s.kinds.tail := by
  simp [kinds, skip, List.map_tail]

theorem head?_kinds_eq_some_iff {s : ParseState} {kind : TokenKind} :
    s.kinds.head? = some kind ↔ s.kinds = kind :: s.skip.kinds := by
  rw [kinds_skip]
  cases s.kinds <;> simp

theorem kinds_skip_of_eq {s : ParseState} {kind : TokenKind} {rest : List TokenKind}
    (h : s.kinds = kind :: rest) : s.skip.kinds = rest := by
  rw [kinds_skip, h, List.tail_cons]

end ParseState

namespace Parser

variable {α β : Type} {s s' : ParseState}

theorem bind_eq_ok_iff {p : Parser α} {f : α → Parser β} {r : β × ParseState} :
    (p >>= f) s = .ok r ↔ ∃ a s', p s = .ok (a, s') ∧ f a s' = .ok r := by
  change (p s).bind (fun x => f x.1 x.2) = .ok r ↔ _
  cases p s with
  | error e => simp [Except.bind]
  | ok x => simp [Except.bind, Prod.ext_iff]

theorem bind_of_ok {p : Parser α} {f : α → Parser β} {a : α} (h : p s = .ok (a, s')) :
    (p >>= f) s = f a s' := by
  change (p s).bind (fun x => f x.1 x.2) = f a s'
  rw [h]
  rfl

@[simp] theorem pure_run (a : α) : (pure a : Parser α) s = .ok (a, s) := rfl

@[simp] theorem get_bind (f : ParseState → Parser β) :
    ((get : Parser ParseState) >>= f) s = f s s := rfl

@[simp] theorem next?_bind (f : Option TokenKind → Parser β) :
    (next? >>= f) s = f s.kinds.head? s := by
  rw [ParseState.kinds, List.head?_map]
  rfl

@[simp] theorem position_bind (f : Position → Parser β) :
    (position >>= f) s = f s.input.position s := rfl

@[simp] theorem remaining_bind (f : Nat → Parser β) :
    (remaining >>= f) s = f s.kinds.length s := by
  rw [ParseState.kinds, List.length_map]
  rfl

@[simp] theorem advance_bind (f : Unit → Parser β) : (advance >>= f) s = f () s.skip := rfl

theorem failAt_ne_ok {p : Position} {cause : Cause} {r : α × ParseState} :
    failAt p cause s ≠ .ok r := by
  intro h
  cases h

theorem fail_ne_ok {cause : Cause} {r : α × ParseState} : fail cause s ≠ .ok r := by
  intro h
  cases h

theorem plant_run (f : Arena → Arena × NodeId) :
    plant f s = .ok ((f s.arena).2, s.withArena (f s.arena).1) := rfl

theorem build_eq_ok_iff {p : Position} {f : Arena → Except Cause (Arena × NodeId)} {id : NodeId} :
    build p f s = .ok (id, s') ↔ ∃ a, f s.arena = .ok (a, id) ∧ s' = s.withArena a := by
  rw [build, get_bind]
  cases hf : f s.arena with
  | error cause => simp [failAt_ne_ok]
  | ok r =>
      obtain ⟨a, node⟩ := r
      change Except.ok (node, s.withArena a) = .ok (id, s') ↔ _
      simp only [Except.ok.injEq, Prod.mk.injEq]
      constructor
      · rintro ⟨rfl, rfl⟩
        exact ⟨a, ⟨rfl, rfl⟩, rfl⟩
      · rintro ⟨_, ⟨rfl, rfl⟩, rfl⟩
        exact ⟨rfl, rfl⟩

theorem readVariable_eq_ok_iff {p : Position} {text : String} {v : Variable} :
    readVariable p text s = .ok (v, s') ↔ Variable.ofText? text = some v ∧ s = s' := by
  rw [readVariable, Variable.ofText?]
  cases Variable.parse text with
  | error fault => simp [failAt_ne_ok, Except.toOption]
  | ok x => simp [Except.toOption]

theorem expect_eq_ok_iff {kind : TokenKind} {u : Unit} :
    expect kind s = .ok (u, s') ↔ s.kinds = kind :: s.skip.kinds ∧ s' = s.skip := by
  rw [expect, next?_bind, ← ParseState.head?_kinds_eq_some_iff]
  by_cases hkind : s.kinds.head? = some kind
  · rw [if_pos hkind]
    change Except.ok ((), s.skip) = .ok (u, s') ↔ _
    simp [hkind, eq_comm]
  · rw [if_neg hkind]
    simp [hkind, fail_ne_ok]

theorem expect_of_kinds {kind : TokenKind} {rest : List TokenKind} (h : s.kinds = kind :: rest) :
    expect kind s = .ok ((), s.skip) :=
  expect_eq_ok_iff.mpr ⟨by rw [ParseState.kinds_skip_of_eq h]; exact h, rfl⟩

/-! ### Nodes built by a run -/

/-- The run ends before `rest`, with a node for the tree `e` in a larger arena. -/
def Yields (r : Except Error (NodeId × ParseState)) (a : Arena) (e : Expr)
    (rest : List TokenKind) : Prop :=
  ∃ id s', r = .ok (id, s') ∧ s'.kinds = rest ∧ a.Grows s'.arena ∧ s'.arena.Represents id e

theorem Yields.bind {p : Parser NodeId} {f : NodeId → Parser NodeId} {a : Arena} {x e : Expr}
    {rest rest' : List TokenKind} (h : Yields (p s) a x rest)
    (hf : ∀ id t, t.kinds = rest → a.Grows t.arena → t.arena.Represents id x →
      Yields (f id t) t.arena e rest') :
    Yields ((p >>= f) s) a e rest' := by
  obtain ⟨id, t, hrun, ht, hgrows, hid⟩ := h
  obtain ⟨id', t', hrun', ht', hgrows', hid'⟩ := hf id t ht hgrows hid
  exact ⟨id', t', (bind_of_ok hrun).trans hrun', ht', hgrows.trans hgrows', hid'⟩

section Build

variable {e : Expr} {p : Position} {f : Arena → Except Cause (Arena × NodeId)}
  {g : Arena → Arena × NodeId} {id : NodeId}

theorem represents_of_build (hf : s.arena.Builds e (f s.arena)) (h : build p f s = .ok (id, s')) :
    s'.kinds = s.kinds ∧ s.arena.Grows s'.arena ∧ s'.arena.Represents id e := by
  obtain ⟨a, ha, rfl⟩ := build_eq_ok_iff.mp h
  have hplants := hf.result ha
  exact ⟨rfl, hplants.grows, hplants.represents⟩

theorem yields_build (hf : s.arena.Builds e (f s.arena)) (hwell : e.WellTyped)
    (hdepth : e.depth ≤ 256) : Yields (build p f s) s.arena e s.kinds := by
  obtain ⟨⟨a, id⟩, ha⟩ := hf.succeeds hwell hdepth
  have hplants := hf.result ha
  exact ⟨id, s.withArena a, build_eq_ok_iff.mpr ⟨a, ha, rfl⟩, rfl, hplants.grows,
    hplants.represents⟩

theorem represents_of_plant (hg : ∀ a : Arena, a.Plants e (g a)) (h : plant g s = .ok (id, s')) :
    s'.kinds = s.kinds ∧ s.arena.Grows s'.arena ∧ s'.arena.Represents id e := by
  cases h
  exact ⟨rfl, (hg s.arena).grows, (hg s.arena).represents⟩

theorem yields_plant (hg : ∀ a : Arena, a.Plants e (g a)) :
    Yields (plant g s) s.arena e s.kinds :=
  ⟨_, _, plant_run g, rfl, (hg s.arena).grows, (hg s.arena).represents⟩

end Build

/-- The run took the tokens of the phrase and built a node for its tree. -/
structure Parsed (s : ParseState) (d : Derivation) (e : Expr) (id : NodeId) (s' : ParseState) :
    Prop where
  kinds : s.kinds = d.tokens ++ s'.kinds
  tree : d.tree? = some e
  grows : s.arena.Grows s'.arena
  represents : s'.arena.Represents id e

/-- The parser reads the phrases that fit: a run that succeeds has read one of them, and a run on
the tokens of one of them succeeds, if the phrase ends where its tokens do. -/
structure Reads (p : Parser NodeId) (level limit : Nat) : Prop where
  sound : ∀ {s s' : ParseState} {id : NodeId}, s.arena.Valid → p s = .ok (id, s') →
    ∃ d e, Derivation.Fits level limit d ∧ Parsed s d e id s'
  complete : ∀ {s : ParseState} {d : Derivation} {e : Expr} {rest : List TokenKind},
    s.arena.Valid → Derivation.Fits level limit d → d.Makes e → s.kinds = d.tokens ++ rest →
      Derivation.Ends level rest → Yields (p s) s.arena e rest

theorem reads_tooDeep (level : Nat) : Reads tooDeep level 0 :=
  ⟨fun _ h => absurd h fail_ne_ok, fun _ hd => absurd hd.nesting_lt (Nat.not_lt_zero _)⟩

end Parser

end SignalExpr
