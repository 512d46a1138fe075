import SignalExpr.Proofs.CallDependence
import SignalExpr.Proofs.TextCuts
import SignalExpr.Proofs.Printing
import SignalExpr.Proofs.Sessions
import SignalExpr.Proofs.WrittenVariables

/-!
Two texts with a comma between them. The joined text has the statements of both, one after the
other, and as many input slots as the one that has more. Evaluating it is evaluating the first
text and then the second, each with as many arguments as it has slots.
-/

namespace SignalExpr

/-! ### Statements of both texts -/

namespace Derivation

variable {rest ts ts' : List TokenKind} {ds ds' : List Derivation}

theorem getLast?_ne_of_append {xs : List TokenKind} {kind : TokenKind}
    (h : (xs ++ rest).getLast? ≠ some kind) : rest.getLast? ≠ some kind := by
  intro hlast
  rw [List.getLast?_append, hlast] at h
  exact h rfl

theorem Tail.append (h : Tail rest ds) (hlast : rest.getLast? ≠ some .semicolon)
    (h' : Statements ts' ds') : Tail (rest ++ .comma :: ts') (ds ++ ds') := by
  induction h with
  | nil =>
      obtain ⟨d, htail⟩ := h'
      exact .cons d rfl htail
  | semicolon =>
      exact absurd rfl hlast
  | @cons separator rest ds d hseparator _ ih =>
      rw [List.cons_append, List.append_assoc]
      refine .cons d hseparator (ih ?_)
      rw [← List.singleton_append, ← List.append_assoc] at hlast
      exact getLast?_ne_of_append hlast

theorem Statements.append (h : Statements ts ds) (hlast : ts.getLast? ≠ some .semicolon)
    (h' : Statements ts' ds') : Statements (ts ++ .comma :: ts') (ds ++ ds') := by
  obtain ⟨d, htail⟩ := h
  rw [List.append_assoc]
  exact .mk d (htail.append (getLast?_ne_of_append hlast) h')

end Derivation

namespace Program

variable {text text' : String} {p p' : Program}

theorem exists_parsesTo (h : Program.parse text = .ok p) :
    ∃ ts, Lexer.tokenize text = .ok ts ∧ Parser.ParsesTo ts p.trees := by
  obtain ⟨ts, hlex, hparse⟩ := Reader.exists_tokens_of_ok h
  obtain ⟨ds, es, -, -, -, hroots⟩ := Parser.exists_derivation_of_parse hparse
  have htrees : p.trees = es := trees_eq hroots p.inputs
  exact ⟨ts, hlex, p.arena, p.roots, hparse, htrees ▸ Parser.map_tree?_of_represents hroots⟩

theorem exists_parse_of_parsesTo {ts : TokenList} {es : List Expr}
    (hlex : Lexer.tokenize text = .ok ts) (hparses : Parser.ParsesTo ts es)
    (hvars : Consistent es.length (es.flatMap Expr.vars)) :
    ∃ p, Program.parse text = .ok p ∧ p.trees = es := by
  obtain ⟨arena, roots, hparse, hroots⟩ := hparses
  obtain ⟨ds, es', -, -, -, hrepresents⟩ := Parser.exists_derivation_of_parse hparse
  obtain rfl : es = es' := by
    have heq := hroots.symm.trans (Parser.map_tree?_of_represents hrepresents)
    exact List.map_injective_iff.mpr (fun _ _ => Option.some.inj) heq
  have hread : (Lexer.tokenize text >>= Parser.parse) = .ok (arena, roots) :=
    Outcome.bind_eq_ok_iff.mpr ⟨ts, hlex, hparse⟩
  obtain ⟨inputs, registry, hrun, -⟩ | ⟨cause, registry, hrun, hreports⟩ :=
    Reader.parse_cases hread {}
  · exact ⟨⟨arena, roots, inputs⟩, by rw [Program.parse, hrun], trees_eq hrepresents inputs⟩
  · refine absurd ?_ hreports.not_consistent
    rw [hrepresents.length_eq, Reader.unchecked, vars, trees_eq hrepresents]
    exact hvars

theorem exists_parsesTo_join (h : Program.parse text = .ok p) (h' : Program.parse text' = .ok p')
    (hlast : ∀ ts, Lexer.tokenize text = .ok ts →
      ts.tokens.getLast?.map Token.kind ≠ some .semicolon) :
    ∃ ts, Lexer.tokenize (text ++ " , " ++ text') = .ok ts ∧
      Parser.ParsesTo ts (p.trees ++ p'.trees) := by
  obtain ⟨ts, hlex, hparses⟩ := exists_parsesTo h
  obtain ⟨ts', hlex', hparses'⟩ := exists_parsesTo h'
  obtain ⟨ds, hds, hadmits⟩ := Parser.parsesTo_iff.mp hparses
  obtain ⟨ds', hds', hadmits'⟩ := Parser.parsesTo_iff.mp hparses'
  have hspells := (Lexer.tokenize_iff_spells text).mp ⟨ts, hlex, rfl⟩
  have hspells' := (Lexer.tokenize_iff_spells text').mp ⟨ts', hlex', rfl⟩
  have hcomma : Lexer.Spells (' ' :: ',' :: ' ' :: text'.toList)
      (.comma :: ts'.tokens.map Token.kind) :=
    Lexer.Spells.lexeme (l := ⟨.comma, [','], ' ' :: text'.toList⟩) rfl rfl
      (hspells'.cons_blank rfl)
  have hjoin : Lexer.Spells (text ++ " , " ++ text').toList
      (ts.tokens.map Token.kind ++ .comma :: ts'.tokens.map Token.kind) := by
    simpa using hspells.append rfl hcomma
  obtain ⟨us, hlexed, hkinds⟩ := (Lexer.tokenize_iff_spells _).mpr hjoin
  refine ⟨us, hlexed, Parser.parsesTo_iff.mpr ⟨ds ++ ds', ?_, List.rel_append hadmits hadmits'⟩⟩
  rw [hkinds]
  exact hds.append (by simpa using hlast ts hlex) hds'

/-! ### Input slots of both texts -/

theorem SlotsOf.unique {vars inputs inputs' : List Variable} (h : SlotsOf vars inputs)
    (h' : SlotsOf vars inputs') : inputs = inputs' := by
  refine List.ext_getElem? fun i => ?_
  by_cases hi : Used vars i
  · obtain ⟨v, hv, hkind, rfl⟩ := hi
    rw [h.getElem?_inputs hv hkind, h'.getElem?_inputs hv hkind]
  · rw [List.getElem?_eq_none (Nat.not_lt.mp fun hlt => hi ((h.used_iff i).mpr hlt)),
      List.getElem?_eq_none (Nat.not_lt.mp fun hlt => hi ((h'.used_iff i).mpr hlt))]

/-- Variables that have the same kind where they have the same index. -/
def SameKinds (vars vars' : List Variable) : Prop :=
  ∀ v ∈ vars, ∀ w ∈ vars', v.index = w.index → v.kind = w.kind

theorem SlotsOf.eq_take {vars vars' inputs inputs' : List Variable} (h : SlotsOf vars inputs)
    (h' : SlotsOf vars' inputs') (hkinds : SameKinds vars vars')
    (hle : inputs.length ≤ inputs'.length) : inputs = inputs'.take inputs.length := by
  refine List.ext_getElem? fun i => ?_
  rw [List.getElem?_take]
  split
  next hi =>
    obtain ⟨v, hv, hvkind, rfl⟩ := (h.used_iff i).mpr hi
    obtain ⟨w, hw, hwkind, hindex⟩ := (h'.used_iff v.index).mpr (Nat.lt_of_lt_of_le hi hle)
    have hsame : v = w := by
      obtain ⟨kind, index⟩ := v
      obtain ⟨kind', index'⟩ := w
      cases hindex
      rw [show kind = kind' from hkinds _ hv _ hw rfl]
    subst hsame
    rw [h.getElem?_inputs hv hvkind, h'.getElem?_inputs hw hwkind]
  next hi => exact List.getElem?_eq_none (Nat.not_lt.mp hi)

theorem SlotsOf.union {vars vars' us inputs inputs' : List Variable} (h : SlotsOf vars inputs)
    (h' : SlotsOf vars' inputs') (hus : ∀ v, v ∈ us ↔ v ∈ vars ∨ v ∈ vars')
    (heq : inputs = inputs'.take inputs.length) : SlotsOf us inputs' := by
  have hget {i : Nat} {w : Variable} (hi : i < inputs.length) (hw : inputs'[i]? = some w) :
      inputs[i]? = some w := by
    rw [heq, List.getElem?_take, if_pos hi]
    exact hw
  have hle : inputs.length ≤ inputs'.length := by
    have := congrArg List.length heq
    rw [List.length_take] at this
    omega
  refine ⟨fun i => ?_, h'.index, fun v hv hkind w hw => ?_⟩
  · rw [← h'.used_iff i]
    constructor
    · rintro ⟨v, hv, hkind, rfl⟩
      rcases (hus v).mp hv with hv | hv
      · exact (h'.used_iff _).mpr (Nat.lt_of_lt_of_le ((h.used_iff _).mp ⟨v, hv, hkind, rfl⟩) hle)
      · exact ⟨v, hv, hkind, rfl⟩
    · rintro ⟨v, hv, hkind, rfl⟩
      exact ⟨v, (hus v).mpr (.inr hv), hkind, rfl⟩
  · rcases (hus v).mp hv with hv | hv
    · exact h.kind v hv hkind w (hget ((h.used_iff _).mp ⟨v, hv, hkind, rfl⟩) hw)
    · exact h'.kind v hv hkind w hw

theorem SlotsOf.consistent {vars inputs : List Variable} (h : SlotsOf vars inputs)
    (houtput : ∀ v ∈ vars, v.kind ≠ .output) (outputs : Nat) : Consistent outputs vars where
  kinds v hv w hw hvkind hwkind hindex := by
    have hget := h.getElem?_inputs hv hvkind
    rw [hindex, h.getElem?_inputs hw hwkind] at hget
    rw [Option.some.inj hget]
  range v hv hkind := absurd hkind (houtput v hv)
  dense := ⟨inputs.length, h.used_iff⟩

theorem SlotsOf.join {vars vars' inputs inputs' : List Variable} (h : SlotsOf vars inputs)
    (h' : SlotsOf vars' inputs') (hkinds : SameKinds vars vars') {us : List Variable}
    (hus : us = if inputs.length ≤ inputs'.length then inputs' else inputs) :
    SlotsOf (vars ++ vars') us ∧ inputs = us.take inputs.length ∧
      inputs' = us.take inputs'.length := by
  subst hus
  split
  next hle =>
    have htake := h.eq_take h' hkinds hle
    exact ⟨h.union h' (fun _ => List.mem_append) htake, htake, List.take_length.symm⟩
  next hlt =>
    have hkinds' : SameKinds vars' vars := fun w hw v hv hindex =>
      (hkinds v hv w hw hindex.symm).symm
    have htake := h'.eq_take h hkinds' (Nat.le_of_not_le hlt)
    exact ⟨h'.union h (fun _ => List.mem_append.trans or_comm) htake, List.take_length.symm, htake⟩

theorem exists_parse_join (h : Program.parse text = .ok p) (h' : Program.parse text' = .ok p')
    (hlast : ∀ ts, Lexer.tokenize text = .ok ts →
      ts.tokens.getLast?.map Token.kind ≠ some .semicolon)
    (hkinds : SameKinds p.vars p'.vars) (houtput : ∀ v ∈ p.vars ++ p'.vars, v.kind ≠ .output) :
    ∃ q, Program.parse (text ++ " , " ++ text') = .ok q ∧ q.trees = p.trees ++ p'.trees ∧
      q.inputs = if p.inputs.length ≤ p'.inputs.length then p'.inputs else p.inputs := by
  obtain ⟨hslots, -⟩ :=
    (wellFormed_of_parse h).slots.join (wellFormed_of_parse h').slots hkinds rfl
  obtain ⟨ts, hlex, hparses⟩ := exists_parsesTo_join h h' hlast
  have hvars : (p.trees ++ p'.trees).flatMap Expr.vars = p.vars ++ p'.vars := List.flatMap_append
  obtain ⟨q, hq, htrees⟩ := exists_parse_of_parsesTo hlex hparses
    (hvars ▸ hslots.consistent houtput _)
  have hqslots := (wellFormed_of_parse hq).slots
  rw [vars, htrees, hvars] at hqslots
  exact ⟨q, hq, htrees, hqslots.unique hslots⟩

theorem code_join {q : Program} {shape : Shape} {statements statements' : List Code}
    (hq : q.WellFormed) (htrees : q.trees = p.trees ++ p'.trees)
    (hcode : p.code shape = .ok statements) (hcode' : p'.code shape = .ok statements') :
    q.code shape = .ok (statements ++ statements') := by
  obtain ⟨haccepted, -, hlowered⟩ := code_eq_ok_iff.mp hcode
  obtain ⟨haccepted', -, hlowered'⟩ := code_eq_ok_iff.mp hcode'
  refine code_eq_ok_iff.mpr ⟨?_, hq.checkInputs_eq_ok, ?_⟩
  · rw [vars, htrees, List.flatMap_append]
    exact List.forall_mem_append.mpr ⟨haccepted, haccepted'⟩
  · rw [htrees]
    exact List.rel_append hlowered hlowered'

end Program

/-! ### Running both -/

namespace Code

theorem IsScalar.kind_ne {v : Variable} (h : IsScalar v) : v.kind ≠ .vector ∧ v.kind ≠ .output := by
  rw [IsScalar] at h
  constructor
  · intro hkind
    rw [hkind] at h
    cases h
  · intro hkind
    rw [hkind] at h
    cases h

theorem runStatements_append (ctx : Context) (k : Nat) (cs ds : List Code) (m : Machine) :
    runStatements ctx k (cs ++ ds) m =
      runStatements ctx (k + cs.length) ds (runStatements ctx k cs m) := by
  induction cs generalizing k m with
  | nil => rfl
  | cons c cs ih =>
      rw [List.cons_append, runStatements, runStatements, ih, List.length_cons]
      congr 1
      omega

theorem results_append (ctx : Context) (k : Nat) (cs ds : List Code) (m : Machine) :
    results ctx k (cs ++ ds) m =
      results ctx k cs m ++ results ctx (k + cs.length) ds (runStatements ctx k cs m) := by
  induction cs generalizing k m with
  | nil => rfl
  | cons c cs ih =>
      rw [List.cons_append, results, results, runStatements, ih, List.length_cons,
        List.cons_append]
      congr 3
      omega

variable {vars : List Variable} {ctx ctx' : Context}

theorem runStatements_of_alike (hctx : ctx.Alike vars { ctx' with links := ctx.links })
    (hvars : ∀ v ∈ vars, v.kind ≠ .output) (k k' : Nat) {cs : List Code}
    (hcs : ∀ c ∈ cs, c.Uses (· ∈ vars))
    (hlinks : ∀ c ∈ cs, ∀ r ∈ c.imports, ctx'.links.get? r.link = ctx.links.get? r.link)
    (m : Machine) (outs' : Array (Array Sample)) :
    results ctx' k' cs (m.withOutputs outs') = results ctx k cs m ∧
      (runStatements ctx' k' cs (m.withOutputs outs')).memory =
        (runStatements ctx k cs m).memory := by
  refine runStatements_of_run ctx (fun c hc m outs' => ?_) k k' m outs'
  calc
    c.run ctx' (m.withOutputs outs')
    _ = c.run { ctx' with links := ctx.links } (m.withOutputs outs') :=
      run_withLinks { ctx' with links := ctx.links } c (hlinks c hc) _
    _ = ((c.run ctx m).1, (c.run ctx m).2.withOutputs outs') :=
      run_of_agrees hctx.links_eq c m fun a ha => Access.agrees_of_alike hctx
        (fun j hj => absurd rfl (hvars _ hj)) ((hcs c hc).accesses m a ha)

end Code

namespace Compiled

variable {args : List Argument} {frames : Nat}

theorem packFrom_take {i : Nat} {vs : List Variable} {slots : List Slot}
    (h : packFrom frames i vs args = .ok slots) (n : Nat) :
    packFrom frames i (vs.take n) (args.take n) = .ok (slots.take n) := by
  induction vs generalizing i args slots n with
  | nil =>
      cases h
      simp [packFrom]
  | cons v vs ih =>
      cases n with
      | zero => rfl
      | succ n =>
          cases args with
          | nil =>
              cases h
              rfl
          | cons arg args =>
              rw [packFrom] at h
              rw [List.take_succ_cons, List.take_succ_cons, packFrom]
              cases hslot : arg.slot? frames v.kind with
              | none =>
                  rw [hslot] at h
                  cases h
              | some slot =>
                  rw [hslot] at h
                  obtain ⟨rest, hrest, hslots⟩ := Outcome.bind_eq_ok_iff.mp h
                  cases hslots
                  simp only [ih hrest n]
                  rfl

theorem pack_take {f g : Compiled} {slots : Array Slot} (h : g.pack frames args = .ok slots)
    (hinputs : f.inputs = g.inputs.take f.inputs.length) :
    f.pack frames (args.take f.inputs.length) =
      .ok (slots.toList.take f.inputs.length).toArray := by
  obtain ⟨hlength, hpack⟩ := pack_eq_ok_iff.mp h
  have hle : f.inputs.length ≤ g.inputs.length := by
    have := congrArg List.length hinputs
    rw [List.length_take] at this
    omega
  refine pack_eq_ok_iff.mpr ⟨?_, ?_⟩
  · rw [List.length_take]
    omega
  · have htake := packFrom_take hpack f.inputs.length
    rwa [← hinputs] at htake

theorem BoundBy.get?_eq_of_subset {f g : Compiled} {l : Linker} (hf : f.BoundBy l)
    (hg : g.BoundBy l) (hsub : f.statements ⊆ g.statements) :
    ∀ c ∈ f.statements, ∀ r ∈ c.imports, g.links.get? r.link = f.links.get? r.link := by
  have hlinks : { f with links := g.links }.BoundBy l := by
    intro link hlink
    obtain ⟨r, hr, rfl⟩ := List.mem_map.mp (List.mem_eraseDups.mp hlink)
    obtain ⟨c, hc, hr⟩ := List.mem_flatMap.mp hr
    exact hg _ (List.mem_eraseDups.mpr
      (List.mem_map_of_mem (List.mem_flatMap.mpr ⟨c, hsub hc, hr⟩)))
  exact hf.get?_eq hlinks

theorem eval_part {p : Program} (hp : p.WellFormed) {f g : Compiled}
    (hcode : p.code .scalar = .ok f.statements) (hshape : f.shape = .scalar)
    (hinputs : f.inputs = p.inputs) (htake : f.inputs = g.inputs.take f.inputs.length)
    (hlinks : ∀ c ∈ f.statements, ∀ r ∈ c.imports, g.links.get? r.link = f.links.get? r.link)
    {slots : Array Slot} (hpack : g.pack 0 args = .ok slots) (k : Nat) (m : Machine) :
    f.eval (args.take f.inputs.length) m.memory =
      .ok (Code.results (g.context slots 0 0) k f.statements m,
        (Code.runStatements (g.context slots 0 0) k f.statements m).memory) := by
  have hpart := pack_take hpack htake
  obtain ⟨haccepted, -⟩ := Program.code_eq_ok_iff.mp hcode
  have hctx : (f.context (slots.toList.take f.inputs.length).toArray 0 0).Alike p.vars
      { g.context slots 0 0 with links := f.links } := by
    refine ⟨rfl, rfl, rfl, fun v hv => ?_⟩
    obtain ⟨hvector, houtput⟩ := Code.IsScalar.kind_ne (haccepted v hv)
    have hlt : v.index < f.inputs.length := by
      rw [hinputs]
      exact (hp.slots.used_iff _).mp ⟨v, hv, houtput, rfl⟩
    refine Variable.readsAlike_of_slot hvector ?_
    change slots[v.index]? = (slots.toList.take f.inputs.length).toArray[v.index]?
    rw [← Array.getElem?_toList, ← Array.getElem?_toList, List.getElem?_take, if_pos hlt]
  have huses : ∀ c ∈ f.statements, c.Uses (· ∈ p.vars) := hp.uses_code hcode fun _ hv => hv
  obtain ⟨hresults, hmemory⟩ := Code.runStatements_of_alike hctx
    (fun v hv => (Code.IsScalar.kind_ne (haccepted v hv)).2) 0 k huses hlinks
    (f.evalStart m.memory) m.outputs
  rw [eval_of_pack hshape hpart, Code.runFrame, ← hresults, ← hmemory]
  rfl

/-- Two texts with a comma between them, of which the first does not end with a semicolon, and which
use the same kinds at the indices that they share, compile together. The function has the input
slots of the one that has more. Where its symbols are resolved as those of both texts were bound,
evaluating it gives the results of the first text and then those of the second, each evaluated with
as many arguments as it has slots, and ends with the memory with which the second evaluation ends
when it starts from that of the first. -/
theorem eval_joined {text text' : String} {p p' : Program} (hparse : Program.parse text = .ok p)
    (hparse' : Program.parse text' = .ok p')
    (hlast : ∀ ts, Lexer.tokenize text = .ok ts →
      ts.tokens.getLast?.map Token.kind ≠ some .semicolon)
    (hkinds : Program.SameKinds p.vars p'.vars) {e₁ e₁' e₂ e₂' : Engine} {name name' : String}
    {f f' : Compiled} (hcompile : e₁.compileAs p .scalar name = .ok (f, e₁'))
    (hcompile' : e₂.compileAs p' .scalar name' = .ok (f', e₂')) :
    ∃ q, Program.parse (text ++ " , " ++ text') = .ok q ∧
      (∀ e, Engine.Reachable e → ∃ r, e.compile q .scalar = .ok r) ∧
      ∀ (e : Engine) name g e', e.compileAs q .scalar name = .ok (g, e') →
        g.inputs = (if f.inputs.length ≤ f'.inputs.length then f'.inputs else f.inputs) ∧
        (f.BoundBy e.linker → f'.BoundBy e.linker →
          ∀ args memory r, g.eval args memory = .ok r →
            ∃ r₁ r₂, f.eval (args.take f.inputs.length) memory = .ok r₁ ∧
              f'.eval (args.take f'.inputs.length) r₁.2 = .ok r₂ ∧ r = (r₁.1 ++ r₂.1, r₂.2)) := by
  have hp := Program.wellFormed_of_parse hparse
  have hp' := Program.wellFormed_of_parse hparse'
  obtain ⟨hcode, -, hshape, hinputs⟩ := Engine.compileAs_eq_ok hcompile
  obtain ⟨hcode', -, hshape', hinputs'⟩ := Engine.compileAs_eq_ok hcompile'
  obtain ⟨haccepted, -⟩ := Program.code_eq_ok_iff.mp hcode
  obtain ⟨haccepted', -⟩ := Program.code_eq_ok_iff.mp hcode'
  obtain ⟨q, hq, htrees, hqinputs⟩ := Program.exists_parse_join hparse hparse' hlast hkinds
    fun v hv => (Code.IsScalar.kind_ne (List.forall_mem_append.mpr ⟨haccepted, haccepted'⟩ v hv)).2
  have hwell := Program.wellFormed_of_parse hq
  have hjoin := Program.code_join hwell htrees hcode hcode'
  refine ⟨q, hq, fun e he => ?_, fun e name g e' hg => ?_⟩
  · obtain ⟨g, e', hg, -⟩ :=
      he.exists_compileAs hwell hjoin (Engine.defaultName_not_imported q e.nextHandle)
    exact ⟨(g, e'), hg⟩
  · obtain ⟨hqcode, ⟨hlink, -⟩, hqshape, hginputs⟩ := Engine.compileAs_eq_ok hg
    have hstatements : g.statements = f.statements ++ f'.statements :=
      Except.ok.inj (hqcode.symm.trans hjoin)
    rw [← hginputs, ← hinputs, ← hinputs'] at hqinputs
    refine ⟨hqinputs, fun hbound hbound' args memory r hcall => ?_⟩
    have hslots := hp.slots.join hp'.slots hkinds rfl
    rw [← hinputs, ← hinputs', ← hqinputs] at hslots
    obtain ⟨-, htake, htake'⟩ := hslots
    have hboundBy : g.BoundBy e.linker := Linker.get?_of_link hlink
    obtain ⟨-, slots, hpack, -⟩ := eval_eq_ok_iff.mp hcall
    rw [eval_of_pack hqshape hpack, Code.runFrame, hstatements, Code.results_append,
      Code.runStatements_append] at hcall
    obtain rfl := Except.ok.inj hcall
    refine ⟨_, _, eval_part hp hcode hshape hinputs htake (hbound.get?_eq_of_subset hboundBy ?_)
        hpack 0 (g.evalStart memory),
      eval_part hp' hcode' hshape' hinputs' htake' (hbound'.get?_eq_of_subset hboundBy ?_)
        hpack (0 + f.statements.length) _, rfl⟩
    · rw [hstatements]
      exact List.subset_append_left _ _
    · rw [hstatements]
      exact List.subset_append_right _ _

/-- A running sum behind which its product with the first input and the second input stand. -/
theorem eval_joined_sum :
    ∃ p p' f f' e₁ e₂ q g e₃, Program.parse "a = a + $f1" = .ok p ∧
      Program.parse "$f1 * a, $f2" = .ok p' ∧
      (Engine.new {}).compile p .scalar = .ok (f, e₁) ∧
      (Engine.new {}).compile p' .scalar = .ok (f', e₂) ∧
      Program.parse "a = a + $f1 , $f1 * a, $f2" = .ok q ∧
      (Engine.new {}).compile q .scalar = .ok (g, e₃) ∧
      ∃ r r₁ r₂, g.eval [.number 2, .number 3] .initial = .ok r ∧
        f.eval [.number 2] .initial = .ok r₁ ∧
        f'.eval [.number 2, .number 3] r₁.2 = .ok r₂ ∧ r = (r₁.1 ++ r₂.1, r₂.2) := by
  obtain ⟨hlast, hparse, hparse'⟩ :
      ((Lexer.tokenize "a = a + $f1").map
        fun ts => ts.tokens.getLast?.map Token.kind).toOption = some (some (.sigil "$f1")) ∧
      ((Program.parse "a = a + $f1").map fun p => (p.trees, p.inputs)).toOption =
        some ([.assign "a" (.binary .add (.value "a") (.var ⟨.float, 0⟩))], [⟨.float, 0⟩]) ∧
      ((Program.parse "$f1 * a, $f2").map fun p => (p.trees, p.inputs)).toOption =
        some ([.binary .multiply (.var ⟨.float, 0⟩) (.value "a"), .var ⟨.float, 1⟩],
          [⟨.float, 0⟩, ⟨.float, 1⟩]) := by
    refine ⟨?_, ?_, ?_⟩ <;> cbv
  obtain ⟨p, f, e₁, hp, hcompile, -, hinputs, -⟩ :=
    Engine.exists_compile_of_trees .scalar hparse (by decide) rfl
  obtain ⟨p', f', e₂, hp', hcompile', -, hinputs', -⟩ :=
    Engine.exists_compile_of_trees .scalar hparse' (by decide) rfl
  rw [hp] at hparse
  rw [hp'] at hparse'
  have hvars : p.vars = [⟨.float, 0⟩] := by
    rw [Program.vars, (Prod.mk.inj (Option.some.inj hparse)).1]
    rfl
  have hvars' : p'.vars = [⟨.float, 0⟩, ⟨.float, 1⟩] := by
    rw [Program.vars, (Prod.mk.inj (Option.some.inj hparse')).1]
    rfl
  have hend : ∀ ts, Lexer.tokenize "a = a + $f1" = .ok ts →
      ts.tokens.getLast?.map Token.kind ≠ some .semicolon := by
    intro ts hts hsemicolon
    rw [hts] at hlast
    have hkind := hsemicolon.symm.trans (Option.some.inj hlast)
    cases hkind
  have hkinds : Program.SameKinds p.vars p'.vars := by
    rw [hvars, hvars', Program.SameKinds]
    decide
  obtain ⟨q, hq, hexists, hcalls⟩ := eval_joined hp hp' hend hkinds hcompile hcompile'
  obtain ⟨⟨g, e₃⟩, hg⟩ := hexists _ (.new {})
  obtain ⟨hginputs, hcalls⟩ := hcalls _ _ g e₃ hg
  rw [hinputs, hinputs'] at hginputs
  obtain ⟨-, ⟨hlink, -⟩, -⟩ := Engine.compileAs_eq_ok hcompile
  obtain ⟨-, ⟨hlink', -⟩, -⟩ := Engine.compileAs_eq_ok hcompile'
  obtain ⟨-, -, hshape, -⟩ := Engine.compileAs_eq_ok hg
  have hpack : g.pack 0 [.number 2, .number 3] = .ok #[.number 2, .number 3] := by
    rw [pack_eq_ok_iff, hginputs]
    exact ⟨rfl, rfl⟩
  have hcall := eval_of_pack hshape hpack .initial
  obtain ⟨r₁, r₂, hfirst, hsecond, heq⟩ := hcalls (Linker.get?_of_link hlink)
    (Linker.get?_of_link hlink') _ _ _ hcall
  rw [hinputs] at hfirst
  rw [hinputs'] at hsecond
  exact ⟨p, p', f, f', e₁, e₂, q, g, e₃, hp, hp', hcompile, hcompile', hq, hg,
    _, r₁, r₂, hcall, hfirst, hsecond, heq⟩

end Compiled

end SignalExpr
