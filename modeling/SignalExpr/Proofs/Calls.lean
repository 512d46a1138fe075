import SignalExpr.Proofs.Compilation
import SignalExpr.Proofs.SlotUse

/-!
Calls of compiled functions: which calls are accepted, what their slots hold, and from which
machine each frame of them starts.
-/

namespace SignalExpr

/-! ### Compiling -/

theorem Program.code_eq_ok_iff {p : Program} {shape : Shape} {statements : List Code} :
    p.code shape = .ok statements ↔
      (∀ v ∈ p.vars, shape.accepts v.kind = true) ∧ p.checkInputs = .ok () ∧
        List.Forall₂ (fun e c => Lower.expr shape e = .ok c) p.trees statements := by
  rw [code]
  rcases p.checkShape_cases shape with ⟨hshape, haccepted⟩ | ⟨v, hv, hkind, hshape⟩
  · rw [and_iff_right haccepted, hshape, ← Outcome.mapM_eq_ok_iff]
    change (p.checkInputs >>= fun _ => p.trees.mapM (Lower.expr shape)) = .ok statements ↔ _
    rw [Outcome.bind_eq_ok_iff]
    constructor
    · rintro ⟨⟨⟩, h⟩
      exact h
    · exact fun h => ⟨(), h⟩
  · rw [hshape]
    constructor
    · rintro ⟨⟩
    · rintro ⟨haccepted, -⟩
      rw [haccepted v hv] at hkind
      cases hkind

theorem Program.WellFormed.exists_tree {p : Program} (hp : p.WellFormed) {shape : Shape}
    {statements : List Code} (hcode : p.code shape = .ok statements) {c : Code}
    (hc : c ∈ statements) : ∃ e ∈ p.trees, Lower.Gives e c := by
  obtain ⟨-, -, hlowered⟩ := code_eq_ok_iff.mp hcode
  obtain ⟨i, hi, rfl⟩ := List.getElem_of_mem hc
  have hi' : i < p.trees.length := hlowered.length_eq ▸ hi
  have hmem := List.getElem_mem hi'
  exact ⟨_, hmem, Lower.gives_expr _ ((List.forall₂_iff_get.mp hlowered).2 i hi' hi)
    (hp.wellTyped _ hmem).1⟩

theorem Program.WellFormed.uses_code {p : Program} (hp : p.WellFormed) {shape : Shape}
    {statements : List Code} (hcode : p.code shape = .ok statements) {P : Variable → Prop}
    (hvars : ∀ v ∈ p.vars, P v) : ∀ c ∈ statements, c.Uses P := by
  intro c hc
  obtain ⟨e, he, hgives⟩ := hp.exists_tree hcode hc
  exact hgives.uses fun v hv => hvars v (List.mem_flatMap.mpr ⟨e, he, hv⟩)

theorem Engine.compileAs_eq_ok {e e' : Engine} {p : Program} {shape : Shape} {name : String}
    {f : Compiled} (h : e.compileAs p shape name = .ok (f, e')) :
    p.code shape = .ok f.statements ∧
      (e.linker.link (importsOf f.statements) = .ok f.links ∧ name ∉ importsOf f.statements) ∧
      f.shape = shape ∧ f.inputs = p.inputs := by
  rw [compileAs] at h
  obtain ⟨statements, hcode, h⟩ := Outcome.bind_eq_ok_iff.mp h
  obtain ⟨links, hlinks, h⟩ := Outcome.bind_eq_ok_iff.mp h
  split at h
  next => cases h
  next hname =>
    cases h
    exact ⟨hcode, ⟨hlinks, fun hmem => hname (List.contains_iff_mem.mpr hmem)⟩, rfl, rfl⟩

theorem Engine.Reachable.exists_compileAs {e : Engine} (he : Reachable e) {p : Program}
    (hp : p.WellFormed) {shape : Shape} {statements : List Code}
    (hcode : p.code shape = .ok statements) {name : String} (hname : name ∉ p.importedLinks) :
    ∃ f e', e.compileAs p shape name = .ok (f, e') ∧ f.shape = shape ∧ f.inputs = p.inputs ∧
      f.statements = statements := by
  rcases hp.code_cases shape with ⟨-, -, hcompilable, -⟩ | ⟨cause, hrefused, -⟩
  · obtain ⟨⟨f, e'⟩, h⟩ := (he.exists_compileAs_iff hp shape name).mpr ⟨hcompilable, hname⟩
    obtain ⟨hstatements, -, hshape, hinputs⟩ := compileAs_eq_ok h
    exact ⟨f, e', h, hshape, hinputs, Except.ok.inj (hstatements.symm.trans hcode)⟩
  · rw [hcode] at hrefused
    cases hrefused

theorem Engine.Reachable.exists_compileAs_of_trees {e : Engine} (he : Reachable e) {text : String}
    {trees : List Expr} {inputs : List Variable} (shape : Shape) {statements : List Code}
    (hparse : ((Program.parse text).map fun p => (p.trees, p.inputs)).toOption =
      some (trees, inputs))
    (haccepted : ∀ v ∈ trees.flatMap Expr.vars, shape.accepts v.kind = true)
    (hcode : trees.mapM (Lower.expr shape) = .ok statements) {name : String}
    (hname : name ∉ (trees.flatMap Expr.routines).map Routine.link) :
    ∃ p f e', Program.parse text = .ok p ∧ e.compileAs p shape name = .ok (f, e') ∧
      f.shape = shape ∧ f.inputs = inputs ∧ f.statements = statements := by
  cases hp : Program.parse text with
  | error cause => simp [hp, Except.map, Except.toOption] at hparse
  | ok p =>
      obtain ⟨rfl, rfl⟩ :=
        Prod.mk.inj (Option.some.inj (hp ▸ hparse : some (p.trees, p.inputs) = _))
      have hwell := Program.wellFormed_of_parse hp
      obtain ⟨f, e', hcompile, h⟩ := he.exists_compileAs hwell
        (Program.code_eq_ok_iff.mpr
          ⟨haccepted, hwell.checkInputs_eq_ok, Outcome.mapM_eq_ok_iff.mp hcode⟩) hname
      exact ⟨p, f, e', rfl, hcompile, h⟩

theorem Engine.exists_compile_of_trees {text : String} {trees : List Expr}
    {inputs : List Variable} (shape : Shape) {statements : List Code}
    (hparse : ((Program.parse text).map fun p => (p.trees, p.inputs)).toOption =
      some (trees, inputs))
    (haccepted : ∀ v ∈ trees.flatMap Expr.vars, shape.accepts v.kind = true)
    (hcode : trees.mapM (Lower.expr shape) = .ok statements) :
    ∃ p f e', Program.parse text = .ok p ∧ (Engine.new {}).compile p shape = .ok (f, e') ∧
      f.shape = shape ∧ f.inputs = inputs ∧ f.statements = statements :=
  (Reachable.new {}).exists_compileAs_of_trees shape hparse haccepted hcode
    (Routine.defaultName_not_mem _ 0)

/-! ### Slots -/

/-- The slot holds what a variable of this kind is read as, and a buffer is long enough. -/
def Slot.Holds (frames : Nat) : VariableKind → Slot → Prop
  | .float, .number _ | .int, .number _ | .symbol, .symbol _ => True
  | .vector, .buffer samples => frames ≤ samples.size
  | .input, .buffer samples => samples.size = 2 * frames
  | _, _ => False

theorem Argument.holds_of_slot? {frames : Nat} {kind : VariableKind} {arg : Argument} {slot : Slot}
    (h : arg.slot? frames kind = some slot) : slot.Holds frames kind := by
  cases kind with
  | output => cases arg <;> cases h
  | float | int | symbol =>
      cases arg <;> cases h
      trivial
  | vector =>
      cases arg with
      | vector samples =>
          obtain ⟨hsize, hslot⟩ := Option.ite_none_right_eq_some.mp h
          cases hslot
          exact hsize
      | _ => cases h
  | input =>
      cases arg with
      | vector samples =>
          obtain ⟨hsize, hslot⟩ := Option.ite_none_right_eq_some.mp h
          cases hslot
          exact hsize.trans (Nat.mul_comm _ _)
      | history history =>
          obtain ⟨hframes, hslot⟩ := Option.ite_none_right_eq_some.mp h
          cases hslot
          exact history.size_samples.trans (congrArg (2 * ·) hframes)
      | _ => cases h

namespace Compiled

variable {f : Compiled} {args : List Argument} {frames : Nat}

theorem packFrom_eq_ok {i : Nat} {vs : List Variable} {slots : List Slot}
    (h : packFrom frames i vs args = .ok slots) (hlength : args.length = vs.length) :
    ∀ (j : Nat) (v : Variable), vs[j]? = some v → ∃ (arg : Argument) (slot : Slot),
      args[j]? = some arg ∧ slots[j]? = some slot ∧ arg.slot? frames v.kind = some slot := by
  induction vs generalizing i args slots with
  | nil => simp
  | cons v vs ih =>
      cases args with
      | nil => cases hlength
      | cons arg args =>
          rw [packFrom] at h
          cases hslot : arg.slot? frames v.kind with
          | none =>
              rw [hslot] at h
              cases h
          | some slot =>
              rw [hslot] at h
              obtain ⟨rest, hrest, hslots⟩ := Outcome.bind_eq_ok_iff.mp h
              cases hslots
              intro j w hw
              cases j with
              | zero =>
                  cases hw
                  exact ⟨arg, slot, rfl, rfl, hslot⟩
              | succ j => exact ih hrest (Nat.succ.inj hlength) j w hw

theorem packFrom_map {frames' : Nat} (g : Argument → Argument) (g' : Slot → Slot) {i : Nat}
    {vs : List Variable}
    (hvs : ∀ v ∈ vs, ∀ arg slot, arg.slot? frames v.kind = some slot →
      (g arg).slot? frames' v.kind = some (g' slot)) {slots : List Slot}
    (h : packFrom frames i vs args = .ok slots) :
    packFrom frames' i vs (args.map g) = .ok (slots.map g') := by
  induction vs generalizing i args slots with
  | nil =>
      cases h
      rfl
  | cons v vs ih =>
      obtain ⟨hv, hvs⟩ := List.forall_mem_cons.mp hvs
      cases args with
      | nil =>
          cases h
          rfl
      | cons arg args =>
          rw [packFrom] at h
          cases hslot : arg.slot? frames v.kind with
          | none =>
              rw [hslot] at h
              cases h
          | some slot =>
              rw [hslot] at h
              obtain ⟨rest, hrest, hslots⟩ := Outcome.bind_eq_ok_iff.mp h
              cases hslots
              rw [List.map_cons, packFrom, hv arg slot hslot]
              simp only [ih hvs hrest]
              rfl

theorem pack_eq_ok_iff {slots : Array Slot} : f.pack frames args = .ok slots ↔
    args.length = f.inputs.length ∧ packFrom frames 0 f.inputs args = .ok slots.toList := by
  rw [pack]
  by_cases hlength : args.length = f.inputs.length
  · rw [if_neg (not_not.mpr hlength)]
    change (packFrom frames 0 f.inputs args >>= fun slots => .ok slots.toArray) = .ok slots ↔ _
    rw [Outcome.bind_eq_ok_iff]
    constructor
    · rintro ⟨rest, hrest, ⟨⟩⟩
      exact ⟨hlength, hrest⟩
    · rintro ⟨-, hrest⟩
      exact ⟨_, hrest, rfl⟩
  · rw [if_pos hlength]
    constructor
    · rintro ⟨⟩
    · exact fun h => absurd h.1 hlength

theorem exists_slot_of_pack {slots : Array Slot} (h : f.pack frames args = .ok slots) {j : Nat}
    {v : Variable} (hv : f.inputs[j]? = some v) :
    ∃ (arg : Argument) (slot : Slot), args[j]? = some arg ∧ slots[j]? = some slot ∧
      arg.slot? frames v.kind = some slot := by
  obtain ⟨hlength, hpack⟩ := pack_eq_ok_iff.mp h
  obtain ⟨arg, slot, harg, hslot, hfits⟩ := packFrom_eq_ok hpack hlength j v hv
  exact ⟨arg, slot, harg, by rw [← Array.getElem?_toList, hslot], hfits⟩

/-! ### Frames -/

/-- What stays the same while a frame of a call runs. -/
def context (f : Compiled) (slots : Array Slot) (frames frame : Nat) : Context :=
  ⟨f.links, slots, Int32.ofNat frames, Int32.ofNat frame⟩

def evalStart (f : Compiled) (memory : Memory) : Machine :=
  ⟨memory, Array.replicate f.outputs #[0]⟩

/-- The machine at the start of a frame. -/
def machineAt (f : Compiled) (slots : Array Slot) (outs : List (Array Sample)) (frames : Nat)
    (memory : Memory) (frame : Nat) : Machine :=
  Code.runFrames (f.context slots frames 0) f.statements 0 frame ⟨memory, outs.toArray⟩

def evalAccesses (f : Compiled) (slots : Array Slot) (memory : Memory) : List Access :=
  Code.frameAccesses (f.context slots 0 0) f.statements (f.evalStart memory)

def accessesAt (f : Compiled) (slots : Array Slot) (outs : List (Array Sample)) (frames : Nat)
    (memory : Memory) (frame : Nat) : List Access :=
  Code.frameAccesses (f.context slots frames frame) f.statements
    (f.machineAt slots outs frames memory frame)

theorem toInt_context (f : Compiled) (slots : Array Slot) {frames i : Nat}
    (hframes : frames ≤ maxFrames) (hi : i < frames) :
    (f.context slots frames i).frames.toInt = frames ∧
      (f.context slots frames i).frame.toInt = i := by
  rw [maxFrames] at hframes
  exact ⟨Int32.toInt_ofNat_of_lt (by omega), Int32.toInt_ofNat_of_lt (by omega)⟩

theorem checkOutputs_eq_ok_iff {shape : Shape} {k : Nat} {outs : List (Array Sample)} :
    checkOutputs shape frames k outs = .ok () ↔ ∀ out ∈ outs, fits shape frames out.size = true := by
  induction outs generalizing k with
  | nil => simp [checkOutputs]
  | cons out outs ih =>
      rw [checkOutputs, List.forall_mem_cons]
      split
      next hfits => rw [ih, and_iff_right hfits]
      next hfits =>
        constructor
        · rintro ⟨⟩
        · exact fun h => absurd h.1 hfits

theorem le_size_of_fits {shape : Shape} {length : Nat} (h : fits shape frames length = true) :
    frames ≤ length := by
  cases shape with
  | sample => exact Nat.le_of_eq (beq_iff_eq.mp h).symm
  | scalar | block => exact of_decide_eq_true h

theorem eval_eq_ok_iff {memory : Memory} {r : List Sample × Memory} :
    f.eval args memory = .ok r ↔ f.shape = .scalar ∧ ∃ slots, f.pack 0 args = .ok slots ∧
      r = (((Code.runFrame (f.context slots 0 0) f.statements (f.evalStart memory)).outputs.toList.map
          (Buffer.sample · 0)),
        (Code.runFrame (f.context slots 0 0) f.statements (f.evalStart memory)).memory) := by
  rw [eval]
  by_cases hshape : f.shape = .scalar
  · rw [if_neg (not_not.mpr hshape), and_iff_right hshape]
    refine Outcome.bind_eq_ok_iff.trans (exists_congr fun slots => and_congr_right fun _ => ?_)
    constructor
    · rintro ⟨⟩
      rfl
    · rintro rfl
      rfl
  · rw [if_pos hshape]
    constructor
    · rintro ⟨⟩
    · exact fun h => absurd h.1 hshape

theorem process_eq_ok_iff {outs : List (Array Sample)} {memory : Memory}
    {r : List (Array Sample) × Memory} :
    f.process outs args frames memory = .ok r ↔
      (f.shape ≠ .scalar ∧ frames ≤ maxFrames ∧ outs.length = f.outputs ∧
        ∀ out ∈ outs, fits f.shape frames out.size = true) ∧
      ∃ slots, f.pack frames args = .ok slots ∧
        r = ((f.machineAt slots outs frames memory frames).outputs.toList,
          (f.machineAt slots outs frames memory frames).memory) := by
  rw [process]
  by_cases hshape : f.shape = .scalar
  · rw [if_pos hshape]
    exact iff_of_false (by rintro ⟨⟩) fun h => h.1.1 hshape
  rw [if_neg hshape]
  by_cases hframes : maxFrames < frames
  · rw [if_pos hframes]
    exact iff_of_false (by rintro ⟨⟩) fun h => absurd h.1.2.1 (Nat.not_le.mpr hframes)
  rw [if_neg hframes]
  by_cases hlength : outs.length = f.outputs
  swap
  · rw [if_pos hlength]
    exact iff_of_false (by rintro ⟨⟩) fun h => hlength h.1.2.2.1
  rw [if_neg (not_not.mpr hlength)]
  constructor
  · intro h
    obtain ⟨⟨⟩, houts, h⟩ := Outcome.bind_eq_ok_iff.mp h
    obtain ⟨slots, hslots, h⟩ := Outcome.bind_eq_ok_iff.mp h
    cases h
    exact ⟨⟨hshape, Nat.not_lt.mp hframes, hlength, checkOutputs_eq_ok_iff.mp houts⟩,
      slots, hslots, rfl⟩
  · rintro ⟨⟨-, -, -, houts⟩, slots, hslots, rfl⟩
    change (checkOutputs f.shape frames 0 outs >>= _) = _
    rw [checkOutputs_eq_ok_iff.mpr houts]
    change (f.pack frames args >>= _) = _
    rw [hslots]
    rfl

theorem exists_process_of_trees {text : String} {trees : List Expr} {inputs : List Variable}
    (shape : Shape) (hshape : shape ≠ .scalar) {statements : List Code}
    (hparse : ((Program.parse text).map fun p => (p.trees, p.inputs)).toOption =
      some (trees, inputs))
    (haccepted : ∀ v ∈ trees.flatMap Expr.vars, shape.accepts v.kind = true)
    (hcode : trees.mapM (Lower.expr shape) = .ok statements) {slots : List Slot}
    (hargs : args.length = inputs.length) (hpack : packFrom frames 0 inputs args = .ok slots)
    (hframes : frames ≤ maxFrames) (outs : List (Array Sample))
    (hlength : outs.length = statements.length)
    (hfits : ∀ out ∈ outs, fits shape frames out.size = true) (memory : Memory) :
    ∃ p f e' r, Program.parse text = .ok p ∧ (Engine.new {}).compile p shape = .ok (f, e') ∧
      f.statements = statements ∧ f.pack frames args = .ok slots.toArray ∧
      f.process outs args frames memory = .ok r := by
  obtain ⟨p, f, e', hp, hcompile, rfl, rfl, rfl⟩ :=
    Engine.exists_compile_of_trees shape hparse haccepted hcode
  have hslots := pack_eq_ok_iff.mpr ⟨hargs, hpack⟩
  exact ⟨p, f, e', _, hp, hcompile, rfl, hslots,
    process_eq_ok_iff.mpr ⟨⟨hshape, hframes, hlength, hfits⟩, _, hslots, rfl⟩⟩

end Compiled

end SignalExpr
