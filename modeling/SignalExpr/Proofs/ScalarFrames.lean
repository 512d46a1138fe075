import SignalExpr.Proofs.Calls

/-!
Statements that need no frames give the same results in all shapes. A call over `n` frames is `n`
evaluations after another: each frame stores what one evaluation gives, and leaves the memory as
that evaluation does.
-/

namespace SignalExpr

/-! ### What a frame stores -/

def Machine.sample? (m : Machine) (k position : Nat) : Option Sample :=
  m.outputs[k]?.bind (·[position]?)

theorem Machine.sample?_store (m : Machine) (k : Nat) (frame : Int32) (x : Sample)
    (k' position : Nat) :
    (m.store k frame x).sample? k' position =
      if k' = k ∧ position = frame.toInt.toNat then (m.sample? k' position).map fun _ => x
      else m.sample? k' position := by
  rw [sample?, sample?, store, Array.getElem?_modify]
  by_cases hk : k = k'
  · subst hk
    rw [if_pos rfl]
    cases m.outputs[k]? with
    | none => simp
    | some out =>
        simp only [Option.map_some, Option.bind_some, true_and, Array.getElem?_setIfInBounds]
        by_cases hposition : frame.toInt.toNat = position
        · subst hposition
          rw [if_pos rfl, if_pos rfl]
          split
          next h => rw [Array.getElem?_eq_getElem h, Option.map_some]
          next h => rw [Array.getElem?_eq_none (Nat.not_lt.mp h), Option.map_none]
        · rw [if_neg hposition, if_neg (Ne.symm hposition)]
  · rw [if_neg hk, if_neg fun h => hk h.1.symm]

theorem Machine.sizes_store (m : Machine) (k : Nat) (frame : Int32) (x : Sample) :
    (m.store k frame x).outputs.map Array.size = m.outputs.map Array.size := by
  apply Array.ext_getElem?
  intro j
  rw [Array.getElem?_map, Array.getElem?_map, store, Array.getElem?_modify]
  split
  · rw [Option.map_map]
    congr 1
    funext out
    exact Array.size_setIfInBounds
  · rfl

namespace Code

variable {ctx' : Context} (ctx : Context)

/-- What statements store, from the one with number `k` on. -/
def results : Nat → List Code → Machine → List Sample
  | _, [], _ => []
  | k, c :: cs, m =>
      let r := c.run ctx m
      r.1 :: results (k + 1) cs (r.2.store k ctx.frame r.1)

theorem length_results (k : Nat) (cs : List Code) (m : Machine) :
    (results ctx k cs m).length = cs.length := by
  induction cs generalizing k m with
  | nil => rfl
  | cons c cs ih => exact congrArg (· + 1) (ih _ _)

theorem sizes_runStatements (k : Nat) (cs : List Code) (m : Machine) :
    (runStatements ctx k cs m).outputs.map Array.size = m.outputs.map Array.size := by
  induction cs generalizing k m with
  | nil => rfl
  | cons c cs ih => rw [runStatements, ih, Machine.sizes_store, outputs_run]

theorem sizes_runFrames (cs : List Code) (first count : Nat) (m : Machine) :
    (runFrames ctx cs first count m).outputs.map Array.size = m.outputs.map Array.size := by
  induction count generalizing ctx first m with
  | zero => rfl
  | succ count ih => rw [runFrames, ih, runFrame, sizes_runStatements]

theorem size_outputs_runStatements (k : Nat) (cs : List Code) (m : Machine) :
    (runStatements ctx k cs m).outputs.size = m.outputs.size := by
  simpa using congrArg Array.size (sizes_runStatements ctx k cs m)

theorem size_outputs_runFrames (cs : List Code) (first count : Nat) (m : Machine) :
    (runFrames ctx cs first count m).outputs.size = m.outputs.size := by
  simpa using congrArg Array.size (sizes_runFrames ctx cs first count m)

theorem sample?_runStatements (k : Nat) (cs : List Code) (m : Machine) (k' position : Nat) :
    (runStatements ctx k cs m).sample? k' position =
      if (k ≤ k' ∧ k' < k + cs.length) ∧ position = ctx.frame.toInt.toNat then
        (m.sample? k' position).bind fun _ => (results ctx k cs m)[k' - k]?
      else m.sample? k' position := by
  induction cs generalizing k m with
  | nil =>
      rw [List.length_nil, if_neg (by omega)]
      rfl
  | cons c cs ih =>
      have hrun : (c.run ctx m).2.sample? k' position = m.sample? k' position := by
        rw [Machine.sample?, outputs_run]
        rfl
      rw [runStatements, ih, Machine.sample?_store, hrun, List.length_cons]
      by_cases hposition : position = ctx.frame.toInt.toNat
      · rcases Nat.lt_trichotomy k' k with hlt | rfl | hgt
        · rw [if_neg (by omega), if_neg (by omega), if_neg (by omega)]
        · rw [if_neg (by omega), if_pos ⟨rfl, hposition⟩, if_pos (by omega), Nat.sub_self]
          rw [results, List.getElem?_cons_zero]
          cases m.sample? k' position <;> rfl
        · have hsub : k' - k = k' - (k + 1) + 1 := by omega
          rw [if_neg (by omega : ¬ (k' = k ∧ position = _)), results, hsub,
            List.getElem?_cons_succ]
          exact if_congr (by omega) rfl rfl
      · rw [if_neg (fun h => hposition h.2), if_neg (fun h => hposition h.2),
          if_neg (fun h => hposition h.2)]

/-! ### Statements without frames -/

/-- The scalar shape has the kind of the variable. -/
def IsScalar (v : Variable) : Prop :=
  Shape.scalar.accepts v.kind = true

theorem agrees_of_isScalar (hslots : ctx'.slots = ctx.slots) {a : Access}
    (h : a.Of IsScalar ctx) (outs outs' : Array (Array Sample)) :
    a.Agrees ctx outs ctx' outs' := by
  cases a with
  | number i =>
      show ctx'.number i = ctx.number i
      rw [Context.number, Context.number, hslots]
  | symbol i =>
      show ctx'.symbol (.slot i) = ctx.symbol (.slot i)
      rw [Context.symbol, Context.symbol, hslots]
  | vector i position => cases h.1
  | input i | inputAt i offset => cases h
  | outputAt k offset => cases h
  | store k position => trivial

theorem runStatements_of_run {cs : List Code}
    (hcs : ∀ c ∈ cs, ∀ (m : Machine) (outs' : Array (Array Sample)),
      c.run ctx' (m.withOutputs outs') = ((c.run ctx m).1, (c.run ctx m).2.withOutputs outs'))
    (k k' : Nat) (m : Machine) (outs' : Array (Array Sample)) :
    results ctx' k' cs (m.withOutputs outs') = results ctx k cs m ∧
      (runStatements ctx' k' cs (m.withOutputs outs')).memory =
        (runStatements ctx k cs m).memory := by
  induction cs generalizing k k' m outs' with
  | nil => exact ⟨rfl, rfl⟩
  | cons c cs ih =>
      obtain ⟨hc, hcs⟩ := List.forall_mem_cons.mp hcs
      obtain ⟨hresults, hmemory⟩ := ih hcs (k + 1) (k' + 1)
        ((c.run ctx m).2.store k ctx.frame (c.run ctx m).1)
        (outs'.modify k' (·.setIfInBounds ctx'.frame.toInt.toNat (c.run ctx m).1))
      rw [results, results, runStatements, runStatements, hc]
      exact ⟨congrArg _ hresults, hmemory⟩

theorem runStatements_of_isScalar (hlinks : ctx'.links = ctx.links)
    (hslots : ctx'.slots = ctx.slots) (k : Nat) {cs : List Code}
    (hcs : ∀ c ∈ cs, c.Uses IsScalar) (m : Machine) (outs' : Array (Array Sample)) :
    results ctx' k cs (m.withOutputs outs') = results ctx k cs m ∧
      (runStatements ctx' k cs (m.withOutputs outs')).memory =
        (runStatements ctx k cs m).memory := by
  refine runStatements_of_run ctx (fun c hc m outs' => ?_) k k m outs'
  exact run_of_agrees hlinks c m fun a ha =>
    agrees_of_isScalar ctx hslots ((hcs c hc).accesses m a ha) _ _

end Code

namespace Lower

mutual

theorem expr_of_scalar (shape : Shape) (e : Expr) {c : Code} (h : expr .scalar e = .ok c) :
    expr shape e = .ok c := by
  cases e with
  | var v =>
      obtain ⟨kind, index⟩ := v
      rw [expr] at h ⊢
      cases kind <;> cases h <;> rfl
  | int n | float x | value name =>
      rw [expr] at h ⊢
      exact h
  | quoted text | quotedVar v | cell table index =>
      rw [expr] at h
      cases h
  | unary op e | assign name e =>
      rw [expr] at h ⊢
      obtain ⟨d, hd, hc⟩ := Outcome.bind_eq_ok_iff.mp h
      rw [expr_of_scalar shape e hd]
      exact hc
  | binary op l r =>
      rw [expr] at h ⊢
      obtain ⟨d, hd, h⟩ := Outcome.bind_eq_ok_iff.mp h
      obtain ⟨d', hd', hc⟩ := Outcome.bind_eq_ok_iff.mp h
      rw [expr_of_scalar shape l hd, expr_of_scalar shape r hd']
      exact hc
  | call f args =>
      rw [expr] at h ⊢
      obtain ⟨os, hos, hc⟩ := Outcome.bind_eq_ok_iff.mp h
      rw [operands_of_scalar shape f.parameters args hos]
      exact hc
  | history v offset =>
      rw [expr] at h
      obtain ⟨d, hd, hc⟩ := Outcome.bind_eq_ok_iff.mp h
      cases hc
  | readCell table index =>
      cases table with
      | named name =>
          rw [expr] at h ⊢
          obtain ⟨d, hd, hc⟩ := Outcome.bind_eq_ok_iff.mp h
          rw [expr_of_scalar shape index hd]
          exact hc
      | slot v =>
          obtain ⟨kind, i⟩ := v
          rw [expr] at h ⊢
          cases kind with
          | symbol =>
              obtain ⟨d, hd, hc⟩ := Outcome.bind_eq_ok_iff.mp h
              simp only [expr_of_scalar shape index hd]
              exact hc
          | vector =>
              obtain ⟨d, hd, hc⟩ := Outcome.bind_eq_ok_iff.mp h
              cases hc
          | _ => cases h
  | assignCell table index value =>
      cases table with
      | named name =>
          rw [expr] at h ⊢
          obtain ⟨d, hd, h⟩ := Outcome.bind_eq_ok_iff.mp h
          obtain ⟨d', hd', hc⟩ := Outcome.bind_eq_ok_iff.mp h
          rw [expr_of_scalar shape index hd, expr_of_scalar shape value hd']
          exact hc
      | slot v =>
          obtain ⟨kind, i⟩ := v
          rw [expr] at h ⊢
          cases kind with
          | symbol =>
              obtain ⟨d, hd, h⟩ := Outcome.bind_eq_ok_iff.mp h
              obtain ⟨d', hd', hc⟩ := Outcome.bind_eq_ok_iff.mp h
              simp only [expr_of_scalar shape index hd, expr_of_scalar shape value hd']
              exact hc
          | _ => cases h

theorem operands_of_scalar (shape : Shape) (ps : List Parameter) (es : List Expr)
    {os : List Operand} (h : operands .scalar ps es = .ok os) :
    operands shape ps es = .ok os := by
  cases ps with
  | nil =>
      cases es <;> simpa only [operands] using h
  | cons p ps =>
      cases es with
      | nil => cases p <;> simpa only [operands] using h
      | cons e es =>
          cases p with
          | number =>
              rw [operands] at h ⊢
              obtain ⟨d, hd, h⟩ := Outcome.bind_eq_ok_iff.mp h
              obtain ⟨rest, hrest, ho⟩ := Outcome.bind_eq_ok_iff.mp h
              rw [expr_of_scalar shape e hd, operands_of_scalar shape ps es hrest]
              exact ho
          | symbol =>
              rw [operands] at h ⊢
              obtain ⟨t, ht, h⟩ := Outcome.bind_eq_ok_iff.mp h
              obtain ⟨rest, hrest, ho⟩ := Outcome.bind_eq_ok_iff.mp h
              rw [ht, operands_of_scalar shape ps es hrest]
              exact ho

end

end Lower

/-! ### Compiling for other shapes -/

theorem Program.code_of_scalar {p : Program} {statements : List Code}
    (h : p.code .scalar = .ok statements) (shape : Shape) : p.code shape = .ok statements := by
  obtain ⟨haccepted, hinputs, hlowered⟩ := code_eq_ok_iff.mp h
  refine code_eq_ok_iff.mpr ⟨fun v hv => ?_, hinputs,
    hlowered.imp fun _ _ => Lower.expr_of_scalar shape _⟩
  have haccepts := haccepted v hv
  obtain ⟨kind, index⟩ := v
  cases kind <;> cases haccepts <;> rfl

theorem Program.WellFormed.accepts_inputs {p : Program} (hp : p.WellFormed) {shape : Shape}
    (haccepted : ∀ v ∈ p.vars, shape.accepts v.kind = true) :
    ∀ v ∈ p.inputs, shape.accepts v.kind = true := by
  intro w hw
  obtain ⟨i, hi, rfl⟩ := List.getElem_of_mem hw
  have hget := List.getElem?_eq_getElem hi
  obtain ⟨v, hv, hkind, hindex⟩ := (hp.slots.used_iff i).mpr hi
  rw [hp.slots.kind v hv hkind _ (hindex.symm ▸ hget)]
  exact haccepted v hv

theorem Linker.link_congr {l l' : Linker} {names : List String}
    (h : ∀ name ∈ names, l'.resolve? name = l.resolve? name) : l'.link names = l.link names := by
  induction names with
  | nil => rfl
  | cons name names ih =>
      obtain ⟨hname, hnames⟩ := List.forall_mem_cons.mp h
      rw [link, link, hname, ih hnames]

theorem Linker.resolve?_addExport (l : Linker) (handle : Nat) {name link : String}
    (h : link ≠ name) : (l.addExport name handle).resolve? link = l.resolve? link := by
  have hfind : (l.addExport name handle).exported? link = l.exported? link := by
    rw [exported?, exported?, addExport, List.find?_cons_of_neg (by simpa using h.symm)]
  rw [resolve?, resolve?, hfind]
  rfl

namespace Engine

variable {e e' : Engine} {p : Program} {shape : Shape} {name : String} {f : Compiled}

/-- The symbols of statements are resolved alike by two engines. -/
def LinksAlike (e e' : Engine) (statements : List Code) : Prop :=
  ∀ link ∈ importsOf statements, e'.linker.resolve? link = e.linker.resolve? link

theorem linksAlike_of_compileAs (h : e.compileAs p shape name = .ok (f, e')) :
    LinksAlike e e' f.statements := by
  obtain ⟨-, ⟨-, hname⟩, -⟩ := compileAs_eq_ok h
  intro link hlink
  rw [linker_of_compileAs h]
  exact Linker.resolve?_addExport _ _ fun heq => hname (heq ▸ hlink)

theorem exists_compile_of_scalar (h : e.compileAs p .scalar name = .ok (f, e'))
    {e₂ : Engine} (hlinks : LinksAlike e e₂ f.statements) (shape : Shape) :
    ∃ r, e₂.compile p shape = .ok r := by
  obtain ⟨hcode, ⟨hlink, -⟩, -⟩ := compileAs_eq_ok h
  rw [← Linker.link_congr hlinks] at hlink
  have hname : defaultName e₂.nextHandle ∉ importsOf f.statements := by
    intro hmem
    obtain ⟨r, -, hr⟩ := List.mem_map.mp (List.mem_eraseDups.mp hmem)
    exact r.link_ne_defaultName _ hr
  rw [compile, compileAs_of_code (Program.code_of_scalar hcode shape) hlink, if_neg hname]
  exact ⟨_, rfl⟩

theorem compileAs_of_scalar (h : e.compileAs p .scalar name = .ok (f, e'))
    {e₂ e₃ : Engine} (hlinks : LinksAlike e e₂ f.statements) {name' : String} {g : Compiled}
    (hg : e₂.compileAs p shape name' = .ok (g, e₃)) :
    g.statements = f.statements ∧ g.links = f.links ∧ g.shape = shape ∧ g.inputs = f.inputs := by
  obtain ⟨hcode, ⟨hlink, -⟩, -, hinputs⟩ := compileAs_eq_ok h
  obtain ⟨hcode', ⟨hlink', -⟩, hshape, hinputs'⟩ := compileAs_eq_ok hg
  have hstatements : g.statements = f.statements :=
    Except.ok.inj (hcode'.symm.trans (Program.code_of_scalar hcode shape))
  rw [hstatements, Linker.link_congr hlinks, hlink] at hlink'
  exact ⟨hstatements, (Except.ok.inj hlink').symm, hshape, hinputs'.trans hinputs.symm⟩

end Engine

namespace Compiled

variable {f : Compiled} {args : List Argument} {slots : Array Slot}

/-- So many evaluations after another, with their results. -/
def evals (f : Compiled) (args : List Argument) :
    Nat → Memory → Except Cause (List (List Sample) × Memory)
  | 0, memory => .ok ([], memory)
  | n + 1, memory => do
      let (result, memory) ← f.eval args memory
      let (results, memory) ← evals f args n memory
      return (result :: results, memory)

theorem packFrom_of_isScalar {i : Nat} {vs : List Variable} (hvs : ∀ v ∈ vs, Code.IsScalar v)
    {slots : List Slot} (h : packFrom 0 i vs args = .ok slots) (frames : Nat) :
    packFrom frames i vs args = .ok slots := by
  have hslot : ∀ v ∈ vs, ∀ arg slot, arg.slot? 0 v.kind = some slot →
      (id arg : Argument).slot? frames v.kind = some (id slot) := by
    intro v hv arg slot hslot
    have hscalar := hvs v hv
    obtain ⟨kind, index⟩ := v
    cases kind <;> cases hscalar <;> cases arg <;> cases hslot <;> rfl
  simpa using packFrom_map id id hslot h

theorem eval_of_pack (hshape : f.shape = .scalar) (hpack : f.pack 0 args = .ok slots)
    (memory : Memory) :
    f.eval args memory = .ok (Code.results (f.context slots 0 0) 0 f.statements (f.evalStart memory),
      (Code.runFrame (f.context slots 0 0) f.statements (f.evalStart memory)).memory) := by
  refine eval_eq_ok_iff.mpr ⟨hshape, slots, hpack, Prod.ext ?_ rfl⟩
  have hsize : (Code.runFrame (f.context slots 0 0) f.statements (f.evalStart memory)).outputs.size =
      f.statements.length :=
    (Code.size_outputs_runStatements _ 0 f.statements _).trans Array.size_replicate
  refine List.ext_getElem (by simp [Code.length_results, hsize]) fun k hk hk' => ?_
  rw [Code.length_results] at hk
  have hstored : (Code.runFrame (f.context slots 0 0) f.statements (f.evalStart memory)).sample? k 0 =
      some (Code.results (f.context slots 0 0) 0 f.statements (f.evalStart memory))[k] := by
    rw [Code.runFrame, Code.sample?_runStatements, if_pos ⟨⟨Nat.zero_le k, by omega⟩, rfl⟩]
    change ((Array.replicate f.outputs #[0])[k]?.bind _).bind _ = _
    rw [Array.getElem?_replicate, if_pos (show k < f.outputs from hk)]
    exact List.getElem?_eq_getElem _
  rw [Machine.sample?, Array.getElem?_eq_getElem (hsize ▸ hk), Option.bind_some] at hstored
  simp only [List.getElem_map, Array.getElem_toList, Buffer.sample, if_pos Int.le_rfl,
    Int.toNat_zero, hstored, Option.getD_some]

theorem runFrame_eq_eval (hstatements : ∀ c ∈ f.statements, c.Uses Code.IsScalar) (ctx : Context)
    (hlinks : ctx.links = f.links) (m : Machine) :
    Code.results ctx 0 f.statements m =
        Code.results (f.context ctx.slots 0 0) 0 f.statements (f.evalStart m.memory) ∧
      (Code.runFrame ctx f.statements m).memory =
        (Code.runFrame (f.context ctx.slots 0 0) f.statements (f.evalStart m.memory)).memory :=
  Code.runStatements_of_isScalar (f.context ctx.slots 0 0) hlinks rfl 0 hstatements
    (f.evalStart m.memory) m.outputs

theorem runFrames_eq_evals (hshape : f.shape = .scalar)
    (hstatements : ∀ c ∈ f.statements, c.Uses Code.IsScalar) (ctx : Context)
    (hlinks : ctx.links = f.links) (hpack : f.pack 0 args = .ok ctx.slots) (count first : Nat)
    (hcount : first + count ≤ maxFrames) (m : Machine) :
    ∃ results, f.evals args count m.memory =
        .ok (results, (Code.runFrames ctx f.statements first count m).memory) ∧
      (results.length = count ∧ ∀ result ∈ results, result.length = f.outputs) ∧
      ∀ k < f.outputs, ∀ p, (Code.runFrames ctx f.statements first count m).sample? k p =
        if first ≤ p ∧ p < first + count then
          (m.sample? k p).bind fun _ => results[p - first]?.bind (·[k]?)
        else m.sample? k p := by
  induction count generalizing first ctx m with
  | zero =>
      refine ⟨[], rfl, ⟨rfl, by simp⟩, fun k _ p => ?_⟩
      rw [if_neg (by omega)]
      rfl
  | succ count ih =>
      let ctx' := { ctx with frame := Int32.ofNat first }
      obtain ⟨hresult, hmemory⟩ := runFrame_eq_eval hstatements ctx' hlinks m
      obtain ⟨results, hevals, ⟨hlength, hlengths⟩, hsamples⟩ := ih ctx' hlinks hpack (first + 1)
        (by omega) (Code.runFrame ctx' f.statements m)
      have hframe : ctx'.frame.toInt.toNat = first := by
        show (Int32.ofNat first).toInt.toNat = first
        rw [Int32.toInt_ofNat_of_lt (by rw [maxFrames] at hcount; omega)]
        rfl
      refine ⟨Code.results ctx' 0 f.statements m :: results, ?_, ⟨by simpa using hlength, ?_⟩, ?_⟩
      · rw [evals, eval_of_pack hshape hpack m.memory, ← hresult, ← hmemory]
        change (f.evals args count _ >>= _) = _
        rw [hevals]
        rfl
      · exact List.forall_mem_cons.mpr ⟨Code.length_results _ 0 f.statements m, hlengths⟩
      · intro k hk p
        have hstep := Code.sample?_runStatements ctx' 0 f.statements m k p
        rw [hframe] at hstep
        rw [Code.runFrames, hsamples k hk p, Code.runFrame, hstep]
        rcases Nat.lt_trichotomy p first with hlt | rfl | hgt
        · rw [if_neg (by omega), if_neg (by omega), if_neg (by omega)]
        · rw [if_neg (by omega), if_pos ⟨⟨Nat.zero_le k, by rwa [Nat.zero_add]⟩, rfl⟩,
            if_pos (by omega), Nat.sub_self]
          rfl
        · have hsub : p - first = p - (first + 1) + 1 := by omega
          rw [if_neg (by omega : ¬ ((0 ≤ k ∧ k < 0 + f.statements.length) ∧ p = first)), hsub,
            List.getElem?_cons_succ]
          exact if_congr (by omega) rfl rfl

theorem fits_of_size {shape : Shape} (hshape : shape ≠ .scalar) {n size : Nat}
    (h : if shape = .sample then size = n else n ≤ size) : fits shape n size = true := by
  cases shape with
  | scalar => exact absurd rfl hshape
  | block => exact decide_eq_true h
  | sample => exact beq_iff_eq.mpr h

theorem process_of_isScalar (hshape : f.shape = .scalar)
    (huses : ∀ c ∈ f.statements, c.Uses Code.IsScalar) (hpack : f.pack 0 args = .ok slots)
    {g : Compiled} (hstatements : g.statements = f.statements) (hlinks : g.links = f.links)
    (hlooped : g.shape ≠ .scalar) {n : Nat} (hn : n ≤ maxFrames)
    (hpack' : g.pack n args = .ok slots) {outs : List (Array Sample)}
    (hlength : outs.length = f.outputs) (hfits : ∀ out ∈ outs, fits g.shape n out.size = true)
    (memory : Memory) :
    ∃ (results : List (List Sample)) (outs' : List (Array Sample)) (final : Memory),
      f.evals args n memory = .ok (results, final) ∧
      g.process outs args n memory = .ok (outs', final) ∧
      ∀ k j : Nat, outs'[k]?.bind (·[j]?) =
        if j < n then results[j]?.bind (·[k]?) else outs[k]?.bind (·[j]?) := by
  obtain ⟨results, hevals, ⟨-, hlengths⟩, hsamples⟩ := runFrames_eq_evals hshape huses
    (g.context slots n 0) hlinks hpack n 0 (by omega) ⟨memory, outs.toArray⟩
  rw [← hstatements] at hevals hsamples
  refine ⟨results, (g.machineAt slots outs n memory n).outputs.toList,
    (g.machineAt slots outs n memory n).memory, hevals, process_eq_ok_iff.mpr
      ⟨⟨hlooped, hn, by rw [hlength, outputs, outputs, hstatements], hfits⟩, slots, hpack', rfl⟩, ?_⟩
  intro k j
  rw [Array.getElem?_toList]
  rcases Nat.lt_or_ge k f.outputs with hk | hk
  · have hk' : k < outs.length := hlength ▸ hk
    have hout : outs[k]? = some outs[k] := List.getElem?_eq_getElem hk'
    refine (hsamples k hk j).trans ?_
    rw [Machine.sample?, List.getElem?_toArray, hout, Option.bind_some, Nat.sub_zero]
    rcases Nat.lt_or_ge j n with hj | hj
    · have hsize := le_size_of_fits (hfits _ (List.getElem_mem hk'))
      rw [if_pos (by omega), if_pos hj, Array.getElem?_eq_getElem (Nat.lt_of_lt_of_le hj hsize),
        Option.bind_some]
    · rw [if_neg (by omega), if_neg (by omega)]
  · have hsize : (g.machineAt slots outs n memory n).outputs.size = f.outputs := by
      rw [machineAt, Code.size_outputs_runFrames, List.size_toArray, hlength]
    have hresult : results[j]?.bind (·[k]?) = none := by
      rw [Option.bind_eq_none_iff]
      intro result hmem
      rw [List.getElem?_eq_none_iff, hlengths result (List.mem_of_getElem? hmem)]
      exact hk
    have hout : outs[k]? = none := List.getElem?_eq_none (hlength ▸ hk)
    rw [Array.getElem?_eq_none (hsize ▸ hk), hout, hresult]
    exact (ite_self _).symm

/-- Statements that compile without frames compile for all shapes. A call over `n` frames gives
in output `k` at position `j` what the evaluation with number `j` gives for statement `k`, leaves
all other positions as they are, and ends with the memory that `n` evaluations end with. -/
theorem process_eq_evals {text : String} {p : Program} {e e₁ : Engine} {name : String}
    {f : Compiled} (hparse : Program.parse text = .ok p)
    (hcompile : e.compileAs p .scalar name = .ok (f, e₁)) :
    e.LinksAlike e₁ f.statements ∧
    ∀ (e₂ : Engine) (shape : Shape), e.LinksAlike e₂ f.statements → shape ≠ .scalar →
      (∃ r, e₂.compile p shape = .ok r) ∧
      ∀ name' g e₃, e₂.compileAs p shape name' = .ok (g, e₃) →
      ∀ args memory r, f.eval args memory = .ok r →
      ∀ (n : Nat) (outs : List (Array Sample)), outs.length = f.outputs →
        (∀ out ∈ outs, if shape = .sample then out.size = n else n ≤ out.size) →
        if n ≤ maxFrames then
          ∃ (results : List (List Sample)) (outs' : List (Array Sample)) (final : Memory),
            f.evals args n memory = .ok (results, final) ∧
            g.process outs args n memory = .ok (outs', final) ∧
            ∀ k j : Nat, outs'[k]?.bind (·[j]?) =
              if j < n then results[j]?.bind (·[k]?) else outs[k]?.bind (·[j]?)
        else g.process outs args n memory = .error (.tooManyFrames n) := by
  have hp := Program.wellFormed_of_parse hparse
  refine ⟨Engine.linksAlike_of_compileAs hcompile, fun e₂ shape hlinks hshape =>
    ⟨Engine.exists_compile_of_scalar hcompile hlinks shape, ?_⟩⟩
  intro name' g e₃ hg args memory r heval n outs hlength hsizes
  obtain ⟨hstatements, hsame, rfl, hinputs⟩ := Engine.compileAs_of_scalar hcompile hlinks hg
  obtain ⟨hcode, -, -, hinputs'⟩ := Engine.compileAs_eq_ok hcompile
  obtain ⟨haccepted, -⟩ := Program.code_eq_ok_iff.mp hcode
  obtain ⟨hscalar, slots, hpack, -⟩ := eval_eq_ok_iff.mp heval
  split
  next hn =>
    refine process_of_isScalar hscalar (hp.uses_code hcode haccepted) hpack hstatements hsame
      hshape hn ?_ hlength (fun out hout => fits_of_size hshape (hsizes out hout)) memory
    obtain ⟨hcount, hslots⟩ := pack_eq_ok_iff.mp hpack
    rw [pack_eq_ok_iff, hinputs]
    refine ⟨hcount, packFrom_of_isScalar ?_ hslots n⟩
    rw [hinputs']
    exact hp.accepts_inputs haccepted
  next hn =>
    rw [process, if_neg hshape, if_pos (Nat.not_le.mp hn)]
    rfl

/-- A running sum over three frames is that of three evaluations. -/
theorem process_eq_evals_sum :
    ∃ p f g e₁ e₂, Program.parse "a = a + $f1" = .ok p ∧
      (Engine.new {}).compile p .scalar = .ok (f, e₁) ∧ e₁.compile p .block = .ok (g, e₂) ∧
      ∃ (results : List (List Sample)) (outs' : List (Array Sample)) (final : Memory),
        f.evals [.number 1] 3 .initial = .ok (results, final) ∧
        g.process [#[0, 0, 0, 0]] [.number 1] 3 .initial = .ok (outs', final) ∧
        ∀ k j : Nat, outs'[k]?.bind (·[j]?) =
          if j < 3 then results[j]?.bind (·[k]?) else [#[0, 0, 0, 0]][k]?.bind (·[j]?) := by
  have hparse : ((Program.parse "a = a + $f1").map fun p => (p.trees, p.inputs)).toOption =
      some ([.assign "a" (.binary .add (.value "a") (.var ⟨.float, 0⟩))], [⟨.float, 0⟩]) := by
    cbv
  obtain ⟨p, f, e₁, hp, hcompile, hshape, hinputs, hstatements⟩ :=
    Engine.exists_compile_of_trees .scalar hparse (by decide) rfl
  obtain ⟨halike, hcalls⟩ := process_eq_evals hp hcompile
  obtain ⟨⟨⟨g, e₂⟩, hg⟩, hcalls⟩ := hcalls e₁ .block halike (by decide)
  have hpack : f.pack 0 [.number 1] = .ok #[.number 1] := by
    rw [pack_eq_ok_iff, hinputs]
    exact ⟨rfl, rfl⟩
  have hrun := hcalls _ g e₂ hg _ _ _ (eval_of_pack hshape hpack .initial) 3 [#[0, 0, 0, 0]]
    (by rw [outputs, hstatements]; rfl) (by decide)
  rw [if_pos (by decide)] at hrun
  exact ⟨p, f, g, e₁, e₂, hp, hcompile, hg, hrun⟩

end Compiled

end SignalExpr
