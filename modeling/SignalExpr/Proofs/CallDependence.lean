import SignalExpr.Proofs.HistoryIndex
import SignalExpr.Proofs.MemoryAgreement

/-!
What the outcome of a call depends on. Two calls of the same statements whose arguments agree, a
block as far as the frames reach, whose output buffers agree where the statements read them, and
whose memories agree on all that the statements mention, give the same samples and leave memories
that agree on the same parts.
-/

namespace SignalExpr

/-! ### What a frame reads of a call -/

/-- The slot of a variable is read alike in two frames. Of a block only the samples up to the
number of frames count; for outputs nothing is asked. -/
def Variable.ReadsAlike (ctx ctx' : Context) (v : Variable) : Prop :=
  match v.kind with
  | .float | .int => ctx'.number v.index = ctx.number v.index
  | .symbol => ctx'.symbol (.slot v.index) = ctx.symbol (.slot v.index)
  | .vector => (0 ≤ ctx.frame.toInt ∧ ctx.frame.toInt < ctx.frames.toInt) ∧
      ∀ position, 0 ≤ position → position < ctx.frames.toInt →
        Buffer.sample (ctx'.buffer v.index) position = Buffer.sample (ctx.buffer v.index) position
  | .input => ctx'.buffer v.index = ctx.buffer v.index
  | .output => True

/-- Two frames of calls with the same functions, at the same place, that read these variables
alike. -/
structure Context.Alike (vars : List Variable) (ctx ctx' : Context) : Prop where
  links_eq : ctx'.links = ctx.links
  frames_eq : ctx'.frames = ctx.frames
  frame_eq : ctx'.frame = ctx.frame
  reads : ∀ v ∈ vars, v.ReadsAlike ctx ctx'

section Frames

variable {vars : List Variable} {ctx ctx' : Context} {outs outs' : Array (Array Sample)}

theorem Access.agrees_of_alike (hctx : ctx.Alike vars ctx')
    (houts : ∀ k, ⟨.output, k⟩ ∈ vars → outs'[k]? = outs[k]?) {a : Access}
    (ha : a.Of (· ∈ vars) ctx) : a.Agrees ctx outs ctx' outs' := by
  cases a with
  | number i =>
      rcases ha with hv | hv
      · exact hctx.reads _ hv
      · exact hctx.reads _ hv
  | symbol i => exact hctx.reads _ ha
  | vector i position =>
      obtain ⟨hv, hposition⟩ := ha
      obtain ⟨⟨hnonneg, hlt⟩, hread⟩ := hctx.reads _ hv
      refine ⟨hctx.frames_eq, hctx.frame_eq, List.forall_mem_singleton.mpr ?_⟩
      rcases hposition with rfl | ⟨index, rfl⟩
      · exact hread _ hnonneg hlt
      · have hclamp := Buffer.clampPosition_bounds (by omega : 0 < ctx.frames.toInt) index
        exact hread _ hclamp.1 hclamp.2
  | input i | inputAt i offset =>
      have hbuffer : ctx'.buffer i = ctx.buffer i := hctx.reads _ ha
      refine ⟨hctx.frames_eq, hctx.frame_eq, fun p _ => ?_⟩
      rw [hbuffer]
  | outputAt k offset =>
      refine ⟨hctx.frames_eq, hctx.frame_eq, fun p _ => ?_⟩
      rw [houts k ha]
  | store k position => trivial

end Frames

/-- Machines whose memories agree, and whose outputs agree where these variables read them. -/
structure Machine.Agree (parts : List Mention) (name? : SymbolRef → Option String)
    (vars : List Variable) (m m' : Machine) : Prop where
  memory : m.memory.Agree parts name? m'.memory
  apart : m.memory.tables.Apart
  apart' : m'.memory.tables.Apart
  outputs : ∀ k, ⟨.output, k⟩ ∈ vars → m'.outputs[k]? = m.outputs[k]?

section Run

variable {parts : List Mention} {name? : SymbolRef → Option String} {vars : List Variable}
  {m m' : Machine}

theorem Machine.Agree.store (h : m.Agree parts name? vars m') (k : Nat) (frame : Int32)
    (x : Sample) : (m.store k frame x).Agree parts name? vars (m'.store k frame x) where
  memory := h.memory
  apart := h.apart
  apart' := h.apart'
  outputs j hj := by
    rw [Machine.store, Machine.store, Array.getElem?_modify, Array.getElem?_modify, h.outputs j hj]

namespace Code

variable {ctx ctx' : Context} (hctx : ctx.Alike vars ctx')
  (hnames : ∀ table name, ctx.symbol table = some name → name? table = some name)
include hctx hnames

theorem agree_run {c : Code} (hc : c.mentions ⊆ parts ∧ c.Uses (· ∈ vars))
    (h : m.Agree parts name? vars m') :
    (c.run ctx' m').1 = (c.run ctx m).1 ∧
      (c.run ctx m).2.Agree parts name? vars (c.run ctx' m').2 := by
  -- First the other memory takes the place of the first one, then the rest of the call.
  have hmemory : m.Alike parts name? (m'.withOutputs m.outputs) :=
    ⟨rfl, h.memory, h.apart, h.apart'⟩
  have hrun : c.run ctx' ((m'.withOutputs m.outputs).withOutputs m'.outputs) = _ :=
    run_of_agrees hctx.links_eq c (m'.withOutputs m.outputs) fun a ha =>
      Access.agrees_of_alike hctx h.outputs (hc.2.accesses _ a ha)
  obtain ⟨heq, hm⟩ := alike_run hnames hc.1 hmemory
  change c.run ctx' m' = _ at hrun
  rw [hrun]
  refine ⟨heq, hm.agree, hm.apart, hm.apart', ?_⟩
  rw [outputs_run]
  exact h.outputs

theorem agree_runStatements (k : Nat) {cs : List Code}
    (hcs : ∀ c ∈ cs, c.mentions ⊆ parts ∧ c.Uses (· ∈ vars)) (h : m.Agree parts name? vars m') :
    results ctx' k cs m' = results ctx k cs m ∧
      (runStatements ctx k cs m).Agree parts name? vars (runStatements ctx' k cs m') := by
  induction cs generalizing k m m' with
  | nil => exact ⟨rfl, h⟩
  | cons c cs ih =>
      obtain ⟨hc, hcs⟩ := List.forall_mem_cons.mp hcs
      obtain ⟨heq, hm⟩ := agree_run hctx hnames hc h
      have hstored := hm.store k ctx.frame (c.run ctx m).1
      rw [results, results, runStatements, runStatements, heq, hctx.frame_eq]
      obtain ⟨hresults, hrest⟩ := ih (k + 1) hcs hstored
      exact ⟨congrArg _ hresults, hrest⟩

end Code

end Run

/-! ### Arguments that agree -/

/-- The arguments are the same for a call over so many frames. A block counts as far as the frames
reach. -/
def Argument.Same (frames : Nat) (kind : VariableKind) (arg arg' : Argument) : Prop :=
  match kind, arg, arg' with
  | .vector, vector samples, vector samples' => ∀ j < frames, samples'[j]? = samples[j]?
  | _, _, _ => arg' = arg

theorem Argument.Same.eq {frames : Nat} {kind : VariableKind} {arg arg' : Argument}
    (h : arg.Same frames kind arg') (hkind : kind ≠ .vector) : arg' = arg := by
  cases kind with
  | vector => exact absurd rfl hkind
  | _ => exact h

theorem Argument.eq_vector_of_slot? {frames : Nat} {arg : Argument} {slot : Slot}
    (h : arg.slot? frames .vector = some slot) :
    ∃ samples, arg = .vector samples ∧ slot = .buffer samples := by
  cases arg with
  | vector samples =>
      obtain ⟨-, hslot⟩ := Option.ite_none_right_eq_some.mp h
      exact ⟨samples, rfl, (Option.some.inj hslot).symm⟩
  | _ => cases h

theorem Variable.readsAlike_of_slot {ctx ctx' : Context} {v : Variable} (hkind : v.kind ≠ .vector)
    (h : ctx'.slots[v.index]? = ctx.slots[v.index]?) : v.ReadsAlike ctx ctx' := by
  obtain ⟨kind, index⟩ := v
  cases kind with
  | vector => exact absurd rfl hkind
  | float | int => simp only [ReadsAlike, Context.number, h]
  | symbol => simp only [ReadsAlike, Context.symbol, h]
  | input => simp only [ReadsAlike, Context.buffer, h]
  | output => trivial

namespace Compiled

variable {f : Compiled} {args args' : List Argument} {frames : Nat} {slots slots' : Array Slot}

/-- The arguments of two calls are the same for all input slots. -/
def SameArguments (f : Compiled) (frames : Nat) (args args' : List Argument) : Prop :=
  ∀ (i : Nat) (v : Variable) (arg arg' : Argument), f.inputs[i]? = some v → args[i]? = some arg →
    args'[i]? = some arg' → arg.Same frames v.kind arg'

theorem slot_eq_of_same (hargs : f.SameArguments frames args args')
    (hpack : f.pack frames args = .ok slots) (hpack' : f.pack frames args' = .ok slots') {i : Nat}
    {v : Variable} (hv : f.inputs[i]? = some v) (hkind : v.kind ≠ .vector) :
    slots'[i]? = slots[i]? := by
  obtain ⟨arg, slot, harg, hslot, hfits⟩ := exists_slot_of_pack hpack hv
  obtain ⟨arg', slot', harg', hslot', hfits'⟩ := exists_slot_of_pack hpack' hv
  obtain rfl := (hargs i v arg arg' hv harg harg').eq hkind
  rw [hslot, hslot', ← hfits, hfits']

theorem sample_eq_of_same (hargs : f.SameArguments frames args args')
    (hpack : f.pack frames args = .ok slots) (hpack' : f.pack frames args' = .ok slots') {i : Nat}
    {v : Variable} (hv : f.inputs[i]? = some v) (hkind : v.kind = .vector) {ctx ctx' : Context}
    (hctx : ctx.slots = slots) (hctx' : ctx'.slots = slots') {position : Int}
    (hposition : position < frames) :
    Buffer.sample (ctx'.buffer i) position = Buffer.sample (ctx.buffer i) position := by
  obtain ⟨arg, slot, harg, hslot, hfits⟩ := exists_slot_of_pack hpack hv
  obtain ⟨arg', slot', harg', hslot', hfits'⟩ := exists_slot_of_pack hpack' hv
  have hsame := hargs i v arg arg' hv harg harg'
  rw [hkind] at hfits hfits' hsame
  obtain ⟨samples, rfl, rfl⟩ := Argument.eq_vector_of_slot? hfits
  obtain ⟨samples', rfl, rfl⟩ := Argument.eq_vector_of_slot? hfits'
  simp only [Context.buffer, hctx, hctx', hslot, hslot', Buffer.sample]
  split
  next hnonneg => rw [hsame position.toNat (by omega)]
  next => rfl

end Compiled

namespace Program

theorem SlotsOf.getElem?_inputs {vars inputs : List Variable} (h : SlotsOf vars inputs)
    {v : Variable} (hv : v ∈ vars) (hkind : v.kind ≠ .output) : inputs[v.index]? = some v := by
  have hlt : v.index < inputs.length := (h.used_iff v.index).mp ⟨v, hv, hkind, rfl⟩
  have hget := List.getElem?_eq_getElem hlt
  rw [hget]
  obtain ⟨kind, index⟩ := v
  have hindex := h.index index _ hget
  have hkinds := h.kind _ hv hkind _ hget
  exact congrArg some (Variable.mk.injEq .. ▸ ⟨hkinds, hindex⟩)

/-- The parts of the memory that the statements read, assign or draw from. -/
def mentions (p : Program) : List Mention :=
  p.trees.flatMap Expr.mentions

theorem WellFormed.mentions_code {p : Program} (hp : p.WellFormed) {shape : Shape}
    {statements : List Code} (hcode : p.code shape = .ok statements) :
    ∀ c ∈ statements, c.mentions ⊆ p.mentions := by
  intro c hc part hpart
  obtain ⟨e, he, hgives⟩ := hp.exists_tree hcode hc
  exact List.mem_flatMap.mpr ⟨e, he, hgives.mentions_subset hpart⟩

end Program

namespace Compiled

variable {f : Compiled} {args args' : List Argument} {frames : Nat} {slots slots' : Array Slot}
  {p : Program} {parts : List Mention} {memory memory' : Memory}

theorem length_machineAt (f : Compiled) (slots : Array Slot) (outs : List (Array Sample))
    (frames : Nat) (memory : Memory) (i : Nat) :
    (f.machineAt slots outs frames memory i).outputs.toList.length = outs.length := by
  simpa using congrArg List.length (f.sizes_machineAt slots outs frames memory i)

section Frames

variable (hp : p.WellFormed) (hinputs : f.inputs = p.inputs)
  (hargs : f.SameArguments frames args args') (hpack : f.pack frames args = .ok slots)
  (hpack' : f.pack frames args' = .ok slots')
include hp hinputs hargs hpack hpack'

theorem alike_context {i : Nat}
    (hframe : (∃ v ∈ p.vars, v.kind = .vector) → frames ≤ maxFrames ∧ i < frames) :
    (f.context slots frames i).Alike p.vars (f.context slots' frames i) := by
  refine ⟨rfl, rfl, rfl, fun v hv => ?_⟩
  by_cases houtput : v.kind = .output
  · rw [Variable.ReadsAlike, houtput]
    trivial
  have hget : f.inputs[v.index]? = some v := by
    rw [hinputs]
    exact hp.slots.getElem?_inputs hv houtput
  by_cases hvector : v.kind = .vector
  · obtain ⟨hframes, hi⟩ := hframe ⟨v, hv, hvector⟩
    obtain ⟨htotal, hcurrent⟩ := toInt_context f slots hframes hi
    rw [Variable.ReadsAlike, hvector, htotal, hcurrent]
    exact ⟨⟨Int.natCast_nonneg i, Int.ofNat_lt.mpr hi⟩, fun position _ hposition =>
      sample_eq_of_same hargs hpack hpack' hget hvector rfl rfl hposition⟩
  · exact Variable.readsAlike_of_slot hvector
      (slot_eq_of_same hargs hpack hpack' hget hvector)

theorem agree_machineAt (hframes : frames ≤ maxFrames)
    (hstatements : ∀ c ∈ f.statements, c.mentions ⊆ parts ∧ c.Uses (· ∈ p.vars))
    {outs outs' : List (Array Sample)}
    (hstart : Machine.Agree parts (SymbolRef.name? args) p.vars ⟨memory, outs.toArray⟩
      ⟨memory', outs'.toArray⟩) {i : Nat} (hi : i ≤ frames) :
    (f.machineAt slots outs frames memory i).Agree parts (SymbolRef.name? args) p.vars
        (f.machineAt slots' outs' frames memory' i) ∧
      ∀ j < i, f.resultsAt slots' outs' frames memory' j =
        f.resultsAt slots outs frames memory j := by
  induction i with
  | zero => exact ⟨hstart, fun j hj => absurd hj (Nat.not_lt_zero j)⟩
  | succ i ih =>
      obtain ⟨hmachine, hresults⟩ := ih (Nat.le_of_succ_le hi)
      have hctx := alike_context hp hinputs hargs hpack hpack' fun _ => ⟨hframes, hi⟩
      obtain ⟨hresult, hnext⟩ :=
        Code.agree_runStatements hctx (name?_of_symbol hpack) 0 hstatements hmachine
      rw [machineAt_succ, machineAt_succ]
      refine ⟨hnext, fun j hj => ?_⟩
      rcases Nat.lt_succ_iff_lt_or_eq.mp hj with hlt | rfl
      · exact hresults j hlt
      · exact hresult

end Frames

/-- The outcome of a call depends on what the statements mention, and on nothing else. If two
memories agree on parts that hold all that is mentioned, two calls with the same arguments, whose
output buffers agree where the statements read them, give the same samples in all frames, and the
memories agree on these parts again. Parts may ask of a value whether it was ever set. -/
theorem call_depends {text : String} {p : Program} (hparse : Program.parse text = .ok p)
    {e e' : Engine} {shape : Shape} {name : String} {f : Compiled}
    (hcompile : e.compileAs p shape name = .ok (f, e')) {parts : List Mention}
    (hparts : p.mentions ⊆ parts) {memory memory' : Memory} (hmemory : memory.Reachable)
    (hmemory' : memory'.Reachable) {args args' : List Argument}
    (hagree : memory.Agree parts (SymbolRef.name? args) memory') :
    (∀ r r', f.SameArguments 0 args args' →
      f.eval args memory = .ok r → f.eval args' memory' = .ok r' →
        r'.1 = r.1 ∧ r.2.Agree parts (SymbolRef.name? args) r'.2) ∧
    ∀ outs outs' frames r r', f.SameArguments frames args args' →
      (∀ v ∈ p.vars, v.kind = .output → outs'[v.index]? = outs[v.index]?) →
      f.process outs args frames memory = .ok r →
      f.process outs' args' frames memory' = .ok r' →
        (∀ k j : Nat, j < frames → r'.1[k]?.bind (·[j]?) = r.1[k]?.bind (·[j]?)) ∧
          r.2.Agree parts (SymbolRef.name? args) r'.2 := by
  have hp := Program.wellFormed_of_parse hparse
  obtain ⟨hcode, -, hshape, hinputs⟩ := Engine.compileAs_eq_ok hcompile
  have hstatements : ∀ c ∈ f.statements, c.mentions ⊆ parts ∧ c.Uses (· ∈ p.vars) :=
    fun c hc => ⟨List.Subset.trans (hp.mentions_code hcode c hc) hparts,
      hp.uses_code hcode (fun _ hv => hv) c hc⟩
  constructor
  · intro r r' hargs hcall hcall'
    obtain ⟨hscalar, slots, hpack, -⟩ := eval_eq_ok_iff.mp hcall
    obtain ⟨-, slots', hpack', -⟩ := eval_eq_ok_iff.mp hcall'
    rw [eval_of_pack hscalar hpack] at hcall
    rw [eval_of_pack hscalar hpack'] at hcall'
    obtain rfl := Except.ok.inj hcall
    obtain rfl := Except.ok.inj hcall'
    have hctx : (f.context slots 0 0).Alike p.vars (f.context slots' 0 0) := by
      refine alike_context hp hinputs hargs hpack hpack' ?_
      rintro ⟨v, hv, hkind⟩
      have haccepted := (Program.code_eq_ok_iff.mp hcode).1 v hv
      rw [hkind, ← hshape, hscalar] at haccepted
      cases haccepted
    have hstart : (f.evalStart memory).Agree parts (SymbolRef.name? args) p.vars
        (f.evalStart memory') :=
      ⟨hagree, hmemory.apart, hmemory'.apart, fun _ _ => rfl⟩
    obtain ⟨hresults, hend⟩ :=
      Code.agree_runStatements hctx (name?_of_symbol hpack) 0 hstatements hstart
    exact ⟨hresults, hend.memory⟩
  · intro outs outs' frames r r' hargs houts hcall hcall'
    obtain ⟨slots, hpack, hsamples⟩ := getElem?_process hcall
    obtain ⟨slots', hpack', hsamples'⟩ := getElem?_process hcall'
    obtain ⟨⟨-, hframes, hlength, -⟩, slots₁, hpack₁, rfl⟩ := process_eq_ok_iff.mp hcall
    obtain ⟨⟨-, -, hlength', -⟩, slots₂, hpack₂, rfl⟩ := process_eq_ok_iff.mp hcall'
    obtain rfl := Except.ok.inj (hpack.symm.trans hpack₁)
    obtain rfl := Except.ok.inj (hpack'.symm.trans hpack₂)
    have hstart : Machine.Agree parts (SymbolRef.name? args) p.vars ⟨memory, outs.toArray⟩
        ⟨memory', outs'.toArray⟩ :=
      ⟨hagree, hmemory.apart, hmemory'.apart, fun k hk => by simpa using houts _ hk rfl⟩
    obtain ⟨hend, hresults⟩ := agree_machineAt hp hinputs hargs hpack hpack' hframes hstatements
      hstart (Nat.le_refl frames)
    refine ⟨fun k j hj => ?_, hend.memory⟩
    rcases Nat.lt_or_ge k f.outputs with hk | hk
    · rw [hsamples k hk j, hsamples' k hk j, if_pos hj, if_pos hj, hresults j hj]
    · have hnone : (f.machineAt slots outs frames memory frames).outputs.toList[k]? = none :=
        List.getElem?_eq_none (by rw [length_machineAt, hlength]; exact hk)
      have hnone' : (f.machineAt slots' outs' frames memory' frames).outputs.toList[k]? = none :=
        List.getElem?_eq_none (by rw [length_machineAt, hlength']; exact hk)
      rw [hnone, hnone']

/-- The last sample of the block, the table that is not named, the place of the one that is, and
what the buffers held make no difference. -/
theorem call_depends_block :
    ∃ p f e' m m' r r', Program.parse "a = a + $v1[9], $s2[0] = a" = .ok p ∧
      (Engine.new {}).compile p .block = .ok (f, e') ∧
      m = ⟨(Tables.empty.set "t" #[1]).set "u" #[5], .empty, .ofSeed 0⟩ ∧
      m' = ⟨(Tables.empty.set "u" #[6, 7]).set "t" #[1], .empty, .ofSeed 1⟩ ∧
      f.process [#[0, 0], #[0, 0]] [.vector #[2, 3, 4], .symbol "t"] 2 m = .ok r ∧
      f.process [#[8, 9, 9], #[8, 9]] [.vector #[2, 3], .symbol "t"] 2 m' = .ok r' ∧
      (∀ k j : Nat, j < 2 → r'.1[k]?.bind (·[j]?) = r.1[k]?.bind (·[j]?)) ∧
      r'.2.value "a" = r.2.value "a" ∧ r'.2.values.get? "a" = r.2.values.get? "a" ∧
      r'.2.tables.get? "t" = r.2.tables.get? "t" := by
  have hparse : ((Program.parse "a = a + $v1[9], $s2[0] = a").map
      fun p => (p.trees, p.inputs)).toOption =
        some ([.assign "a" (.binary .add (.value "a") (.readCell (.slot ⟨.vector, 0⟩) (.int 9))),
          .assignCell (.slot ⟨.symbol, 1⟩) (.int 0) (.value "a")],
        [⟨.vector, 0⟩, ⟨.symbol, 1⟩]) := by
    cbv
  have hslots : packFrom 2 0 [⟨.vector, 0⟩, ⟨.symbol, 1⟩] [.vector #[2, 3, 4], .symbol "t"] =
      .ok [.buffer #[2, 3, 4], .symbol "t"] := rfl
  have hslots' : packFrom 2 0 [⟨.vector, 0⟩, ⟨.symbol, 1⟩] [.vector #[2, 3], .symbol "t"] =
      .ok [.buffer #[2, 3], .symbol "t"] := rfl
  obtain ⟨p, f, e', r, hp, hcompile, -, -, hr⟩ :=
    exists_process_of_trees .block (by decide) hparse (by decide) rfl rfl hslots (by decide)
      [#[0, 0], #[0, 0]] rfl (by decide)
      ⟨(Tables.empty.set "t" #[1]).set "u" #[5], .empty, .ofSeed 0⟩
  obtain ⟨p', f', e'', r', hp', hcompile', -, -, hr'⟩ :=
    exists_process_of_trees .block (by decide) hparse (by decide) rfl rfl hslots' (by decide)
      [#[8, 9, 9], #[8, 9]] rfl (by decide)
      ⟨(Tables.empty.set "u" #[6, 7]).set "t" #[1], .empty, .ofSeed 1⟩
  obtain rfl := Except.ok.inj (hp.symm.trans hp')
  obtain ⟨rfl, rfl⟩ := Prod.mk.inj (Except.ok.inj (hcompile.symm.trans hcompile'))
  rw [hp] at hparse
  obtain ⟨htrees, hinputs⟩ := Prod.mk.inj (Option.some.inj hparse)
  have hmentions : p.mentions =
      [.value "a", .value "a", .table (.slot 0), .table (.slot 1), .value "a"] := by
    rw [Program.mentions, htrees]
    simp [Expr.mentions, TableRef.symbol]
  have hvars : p.vars = [⟨.vector, 0⟩, ⟨.symbol, 1⟩] := by
    rw [Program.vars, htrees]
    simp [Expr.vars, TableRef.vars]
  have hm : Memory.Reachable ⟨(Tables.empty.set "t" #[1]).set "u" #[5], .empty, .ofSeed 0⟩ :=
    .setTable "u" #[5] (.setTable "t" #[1] .initial)
  have hm' : Memory.Reachable ⟨(Tables.empty.set "u" #[6, 7]).set "t" #[1], .empty, .ofSeed 1⟩ :=
    .setRandom (.ofSeed 1) (.setTable "t" #[1] (.setTable "u" #[6, 7] .initial))
  have hsame : f.SameArguments 2 [.vector #[2, 3, 4], .symbol "t"]
      [.vector #[2, 3], .symbol "t"] := by
    intro i v arg arg' hv harg harg'
    obtain ⟨-, -, -, hinputs'⟩ := Engine.compileAs_eq_ok hcompile
    rw [hinputs', hinputs] at hv
    rcases i with _ | _ | i
    · cases hv
      cases harg
      cases harg'
      exact (by decide : ∀ j < 2, (#[2, 3] : Array Sample)[j]? = #[2, 3, 4][j]?)
    · cases hv
      cases harg
      cases harg'
      rfl
    · cases hv
  have hagree : Memory.Agree (.entry "a" :: p.mentions)
      (SymbolRef.name? [.vector #[2, 3, 4], .symbol "t"])
      ⟨(Tables.empty.set "t" #[1]).set "u" #[5], .empty, .ofSeed 0⟩
      ⟨(Tables.empty.set "u" #[6, 7]).set "t" #[1], .empty, .ofSeed 1⟩ := by
    rw [hmentions]
    refine ⟨fun name _ => by rw [Memory.value, Memory.value], fun name _ => rfl,
      fun t name ht hname => ?_, fun hrandom => absurd hrandom (by decide)⟩
    obtain rfl | rfl : t = .slot 0 ∨ t = .slot 1 := by simpa using ht
    · cases hname
    · cases hname
      decide
  obtain ⟨hsamples, hend⟩ := (call_depends hp hcompile (List.subset_cons_self _ _) hm hm'
    hagree).2 _ _ 2 r r' hsame (by simp [hvars]) hr hr'
  rw [hmentions] at hend
  exact ⟨p, f, e', _, _, r, r', hp, hcompile, rfl, rfl, hr, hr', hsamples,
    hend.value_eq "a" (by decide), hend.entry_eq "a" (by decide),
    hend.table_eq (.slot 1) "t" (by decide) rfl⟩

end Compiled

end SignalExpr
