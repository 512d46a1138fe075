import SignalExpr.Proofs.SlotLayout
import SignalExpr.Proofs.StatementGrammar

/-!
What a reader answers to one text after another: the statements with their input slots, or the
fault that comes first. No text leaves a trace in the answers to those behind it.
-/

namespace SignalExpr

namespace Program

variable {outputs : Nat} {vars : List Variable} {cause other : Cause}

theorem Offends.unique {earlier : List Variable} {v : Variable}
    (h : Offends outputs earlier v cause) (h' : Offends outputs earlier v other) :
    cause = other := by
  cases h with
  | outOfRange hkind =>
      cases h' with
      | outOfRange => rfl
      | conflict hne => exact absurd hkind hne
  | conflict hne =>
      cases h' with
      | outOfRange hkind => exact absurd hkind hne
      | conflict => rfl

theorem Faultless.not_firstFault (h : Faultless outputs vars) :
    ¬ FirstFault outputs vars cause := by
  rintro ⟨earlier, v, later, heq, -, hv⟩
  exact h earlier v later cause heq hv

theorem FirstFault.unique (h : FirstFault outputs vars cause) (h' : FirstFault outputs vars other) :
    cause = other := by
  obtain ⟨earlier, v, later, rfl, hearlier, hv⟩ := h
  obtain ⟨earlier', v', later', heq, hearlier', hv'⟩ := h'
  rcases List.append_eq_append_iff.mp heq with ⟨between, rfl, hrest⟩ | ⟨between, rfl, hrest⟩
  · cases between with
    | nil =>
        obtain ⟨rfl, -⟩ := List.cons.inj hrest
        exact hv.unique (by simpa using hv')
    | cons w between =>
        obtain ⟨rfl, -⟩ := List.cons.inj hrest
        exact absurd hv (hearlier' earlier v between cause rfl)
  · cases between with
    | nil =>
        obtain ⟨rfl, -⟩ := List.cons.inj hrest
        exact Offends.unique (by simpa using hv) hv'
    | cons w between =>
        obtain ⟨rfl, -⟩ := List.cons.inj hrest
        exact absurd hv' (hearlier earlier' v' between other rfl)

theorem LeastAbsent.unique {i j : Nat} (h : LeastAbsent vars i) (h' : LeastAbsent vars j) :
    i = j := by
  rcases Nat.lt_trichotomy i j with hlt | heq | hgt
  · exact absurd (h'.below i hlt) h.absent
  · exact heq
  · exact absurd (h.below j hgt) h'.absent

theorem Reports.unique (h : Reports outputs vars cause) (h' : Reports outputs vars other) :
    cause = other := by
  cases h with
  | fault hfault =>
      cases h' with
      | fault hfault' => exact hfault.unique hfault'
      | missing hnone => exact absurd hfault hnone.not_firstFault
  | missing hnone habsent =>
      cases h' with
      | fault hfault' => exact absurd hfault' hnone.not_firstFault
      | missing _ habsent' => rw [habsent.unique habsent']

theorem consistent_of_slotsOf {inputs : List Variable} (hvars : Faultless outputs vars)
    (h : SlotsOf vars inputs) : Consistent outputs vars :=
  ⟨(faultless_iff.mp hvars).1, (faultless_iff.mp hvars).2, inputs.length, h.used_iff⟩

theorem Reports.not_consistent (h : Reports outputs vars cause) : ¬ Consistent outputs vars := by
  rintro ⟨hkinds, hrange, n, hdense⟩
  have hvars : Faultless outputs vars := faultless_iff.mpr ⟨hkinds, hrange⟩
  cases h with
  | fault hfault => exact hvars.not_firstFault hfault
  | @missing i _ habsent =>
      obtain ⟨j, hij, hj⟩ := habsent.above
      exact habsent.absent ((hdense i).mpr (Nat.lt_trans hij ((hdense j).mp hj)))

theorem trees_eq {arena : Arena} {roots : List NodeId} {es : List Expr}
    (h : List.Forall₂ arena.Represents roots es) (inputs : List Variable) :
    (⟨arena, roots, inputs⟩ : Program).trees = es := by
  rw [trees]
  induction h with
  | nil => rfl
  | cons hroot _ ih => rw [List.filterMap_cons_some hroot.tree, ih]

end Program

namespace Reader

/-- The statements, before their input slots are found. -/
def unchecked (arena : Arena) (roots : List NodeId) : Program := ⟨arena, roots, []⟩

theorem validate_cases (arena : Arena) (roots : List NodeId) :
    (∃ inputs registry,
      validate {} arena roots = (.ok ⟨arena, roots, inputs⟩, ⟨registry, inputs⟩) ∧
      Program.Faultless roots.length (unchecked arena roots).vars ∧
      Program.SlotsOf (unchecked arena roots).vars inputs) ∨
    ∃ cause registry, validate {} arena roots = (.error cause, ⟨registry, []⟩) ∧
      Program.Reports roots.length (unchecked arena roots).vars cause := by
  have hfill := Program.fill_cases roots.length Program.registers_nil Program.faultless_nil
    (unchecked arena roots).vars
  simp only [validate, Program.outputs]
  rcases hfill with ⟨registry, hfill, hregisters, hvars⟩ | ⟨cause, registry, hfill, hfault⟩
  · rw [unchecked] at hfill
    rw [hfill]
    cases hrun : Program.inOrder registry with
    | ok inputs =>
        exact .inl ⟨inputs, registry, by simp only [hrun], hvars,
          Program.slotsOf_of_inOrder hregisters hrun⟩
    | error cause =>
        obtain ⟨i, rfl, habsent⟩ := Program.leastAbsent_of_inOrder hregisters hrun
        exact .inr ⟨.missingInput i, registry, by simp only [hrun], .missing hvars habsent⟩
  · rw [unchecked] at hfill
    rw [hfill]
    exact .inr ⟨cause, registry, rfl, .fault hfault⟩

theorem parse_eq_new (r : Reader) (text : String) : r.parse text = Reader.parse {} text := rfl

theorem parse_of_refused {text : String} {e : Error}
    (h : (Lexer.tokenize text >>= Parser.parse) = .error e) (r : Reader) :
    r.parse text = (.error e, {}) := by
  simp only [parse, h, clear]

theorem parse_cases {text : String} {arena : Arena} {roots : List NodeId}
    (h : (Lexer.tokenize text >>= Parser.parse) = .ok (arena, roots)) (r : Reader) :
    (∃ inputs registry,
      r.parse text = (.ok ⟨arena, roots, inputs⟩, ⟨registry, inputs⟩) ∧
      Program.Faultless roots.length (unchecked arena roots).vars ∧
      Program.SlotsOf (unchecked arena roots).vars inputs) ∨
    ∃ cause registry, r.parse text = (.error (.ofCause cause), ⟨registry, []⟩) ∧
      Program.Reports roots.length (unchecked arena roots).vars cause := by
  rw [parse_eq_new]
  rcases validate_cases arena roots with
    ⟨inputs, registry, hrun, hvars⟩ | ⟨cause, registry, hrun, hvars⟩
  · exact .inl ⟨inputs, registry, by simp only [parse, h, clear, hrun], hvars⟩
  · exact .inr ⟨cause, registry, by simp only [parse, h, clear, hrun], hvars⟩

theorem exists_tokens_of_ok {r : Reader} {text : String} {p : Program}
    (h : (r.parse text).1 = .ok p) :
    ∃ ts, Lexer.tokenize text = .ok ts ∧ Parser.parse ts = .ok (p.arena, p.roots) := by
  cases hread : Lexer.tokenize text >>= Parser.parse with
  | error e =>
      rw [parse_of_refused hread] at h
      cases h
  | ok parsed =>
      obtain ⟨inputs, registry, hrun, -⟩ | ⟨cause, registry, hrun, -⟩ := parse_cases hread r
      · rw [hrun] at h
        obtain rfl := Except.ok.inj h
        exact Outcome.bind_eq_ok_iff.mp hread
      · rw [hrun] at h
        cases h

/-- The input slots that an answer leaves with the reader. -/
def inputsAfter : Except Error Program → List Variable
  | .ok p => p.inputs
  | .error _ => []

theorem inputs_parse (r : Reader) (text : String) :
    (r.parse text).2.inputs = inputsAfter (r.parse text).1 := by
  cases h : Lexer.tokenize text >>= Parser.parse with
  | error e =>
      rw [parse_of_refused h]
      rfl
  | ok parsed =>
      obtain ⟨inputs, registry, hrun, -⟩ | ⟨cause, registry, hrun, -⟩ := parse_cases h r
      · rw [hrun]
        rfl
      · rw [hrun]
        rfl

/-- The answers to texts that are read one after another, each with the input slots that the
reader has behind it. -/
def run : Reader → List String → List (Except Error Program × List Variable)
  | _, [] => []
  | r, text :: texts =>
      ((r.parse text).1, (r.parse text).2.inputs) :: (r.parse text).2.run texts

theorem run_eq_map (r : Reader) (texts : List String) :
    r.run texts = texts.map fun text =>
      (Program.parse text, inputsAfter (Program.parse text)) := by
  induction texts generalizing r with
  | nil => rfl
  | cons text texts ih =>
      rw [run, List.map_cons, ih, inputs_parse, parse_eq_new, Program.parse]

/-- The variables of a text decide about it. A parsed text is read exactly if its variables can
stand together, and then has a slot for every index; otherwise the first fault is reported. A
reader answers each of several texts as a new one would, and holds the slots of the last. -/
theorem parse_iff_consistent (text : String) (r : Reader) (texts : List String) :
    (∀ arena roots, (Lexer.tokenize text >>= Parser.parse) = .ok (arena, roots) →
      (unchecked arena roots).trees.map some = roots.map arena.tree? ∧
      ((∃ p, Program.parse text = .ok p) ↔
        Program.Consistent roots.length (unchecked arena roots).vars) ∧
      (∀ p, Program.parse text = .ok p → p.arena = arena ∧ p.roots = roots ∧
        Program.SlotsOf (unchecked arena roots).vars p.inputs) ∧
      ∀ e, Program.parse text = .error e ↔ ∃ cause, e = .ofCause cause ∧
        Program.Reports roots.length (unchecked arena roots).vars cause) ∧
    r.run texts = texts.map fun text => (Program.parse text, inputsAfter (Program.parse text)) := by
  refine ⟨fun arena roots h => ⟨?_, ?_⟩, run_eq_map r texts⟩
  · obtain ⟨input, -, hparse⟩ := Outcome.bind_eq_ok_iff.mp h
    obtain ⟨ds, es, -, -, -, hroots⟩ := Parser.exists_derivation_of_parse hparse
    rw [unchecked, Program.trees_eq hroots, ← List.forall₂_eq_eq_eq, List.forall₂_map_left_iff,
      List.forall₂_map_right_iff]
    exact hroots.flip.imp fun _ _ hroot => hroot.tree.symm
  · simp only [Program.parse]
    rcases parse_cases h {} with
      ⟨inputs, registry, hrun, hvars, hslots⟩ | ⟨cause, registry, hrun, hreports⟩
    · have hconsistent := Program.consistent_of_slotsOf hvars hslots
      rw [hrun]
      refine ⟨⟨fun _ => hconsistent, fun _ => ⟨_, rfl⟩⟩, ?_, ?_⟩
      · rintro p ⟨⟩
        exact ⟨rfl, rfl, hslots⟩
      · intro e
        constructor
        · rintro ⟨⟩
        · rintro ⟨cause, -, hreports⟩
          exact absurd hconsistent hreports.not_consistent
    · rw [hrun]
      refine ⟨⟨?_, fun hconsistent => absurd hconsistent hreports.not_consistent⟩, ?_, ?_⟩
      · rintro ⟨p, ⟨⟩⟩
      · rintro p ⟨⟩
      · intro e
        constructor
        · rintro ⟨⟩
          exact ⟨cause, rfl, hreports⟩
        · rintro ⟨cause', rfl, hreports'⟩
          rw [hreports.unique hreports']

end Reader

end SignalExpr
