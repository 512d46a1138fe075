import SignalExpr.Proofs.FrameRuns
import SignalExpr.Proofs.HistoryIndex

/-!
Calls stay inside of their buffers. Code makes no checks of its own: what it reads and writes is
in place because of the layout of the slots, the checks before a call, the clamps of positions and
offsets, and the ring of a history.
-/

namespace SignalExpr

/-- The access finds its slot in the representation that it reads, and it addresses positions
inside of the buffer that was passed. -/
def Access.Inside (ctx : Context) (outs : List (Array Sample)) (a : Access) : Prop :=
  match a with
  | number i => ∃ x, ctx.slots[i]? = some (.number x)
  | symbol i => ∃ name, ctx.slots[i]? = some (.symbol name)
  | vector i _ | input i | inputAt i _ => ∃ samples, ctx.slots[i]? = some (.buffer samples) ∧
      ∀ p ∈ a.cells ctx, 0 ≤ p ∧ p < samples.size
  | outputAt k _ | store k _ => ∃ samples, outs[k]? = some samples ∧
      ∀ p ∈ a.cells ctx, 0 ≤ p ∧ p < samples.size

/-- The current frame is one of the call, and a history of the call can be addressed. -/
structure Context.InCall (ctx : Context) : Prop where
  frame_nonneg : 0 ≤ ctx.frame.toInt
  frame_lt : ctx.frame.toInt < ctx.frames.toInt
  frames_lt : 2 * ctx.frames.toInt < 2 ^ 31

/-- The call has what a variable is read as. -/
def Context.Serves (ctx : Context) (outs : List (Array Sample)) (v : Variable) : Prop :=
  match v.kind with
  | .float | .int => ∃ x, ctx.slots[v.index]? = some (.number x)
  | .symbol => ∃ name, ctx.slots[v.index]? = some (.symbol name)
  | .vector => ctx.InCall ∧ ∃ samples, ctx.slots[v.index]? = some (.buffer samples) ∧
      ctx.frames.toInt ≤ samples.size
  | .input => ctx.InCall ∧ ∃ samples, ctx.slots[v.index]? = some (.buffer samples) ∧
      samples.size = 2 * ctx.frames.toInt
  | .output => ctx.InCall ∧ ∃ samples, outs[v.index]? = some samples ∧
      samples.size = ctx.frames.toInt

theorem Access.Of.inside {ctx : Context} {outs : List (Array Sample)} {a : Access}
    (h : a.Of (ctx.Serves outs) ctx) : a.Inside ctx outs := by
  cases a with
  | number i => exact h.elim id id
  | symbol i => exact h
  | vector i position =>
      obtain ⟨⟨⟨hnonneg, hlt, -⟩, samples, hslot, hsize⟩, hposition⟩ := h
      refine ⟨samples, hslot, List.forall_mem_singleton.mpr ?_⟩
      rcases hposition with rfl | ⟨index, rfl⟩
      · omega
      · have hclamp := Buffer.clampPosition_bounds (by omega : 0 < ctx.frames.toInt) index
        omega
  | input i =>
      obtain ⟨⟨hnonneg, hlt, hdouble⟩, samples, hslot, hsize⟩ := h
      refine ⟨samples, hslot, List.forall_mem_singleton.mpr ?_⟩
      rw [Buffer.toInt_inputPosition hnonneg hlt hdouble]
      omega
  | inputAt i offset =>
      obtain ⟨⟨hnonneg, hlt, hdouble⟩, samples, hslot, hsize⟩ := h
      have hlength := Buffer.toInt_inputLength (by omega : 0 ≤ ctx.frames.toInt) hdouble
      have hbounds := Buffer.neighbours_bounds (by omega : 0 < (Buffer.inputLength ctx.frames).toInt)
        (Buffer.historyIndex ctx.frames ctx.frame 0 offset)
      rw [hlength, ← hsize] at hbounds
      exact ⟨samples, hslot, List.forall_mem_cons.mpr
        ⟨hbounds.1, List.forall_mem_singleton.mpr hbounds.2⟩⟩
  | outputAt k offset =>
      obtain ⟨⟨hnonneg, hlt, -⟩, samples, hout, hsize⟩ := h
      have hbounds := Buffer.neighbours_bounds (by omega : 0 < ctx.frames.toInt)
        (Buffer.historyIndex ctx.frames ctx.frame (-1) offset)
      rw [← hsize] at hbounds
      exact ⟨samples, hout, List.forall_mem_cons.mpr
        ⟨hbounds.1, List.forall_mem_singleton.mpr hbounds.2⟩⟩
  | store k position => exact h.elim

namespace Code

theorem mem_statementAccesses {ctx : Context} {k : Nat} {cs : List Code} {m : Machine} {a : Access}
    (h : a ∈ statementAccesses ctx k cs m) :
    (∃ c ∈ cs, ∃ m', a ∈ c.accesses ctx m') ∨
      ∃ j, a = .store j ctx.frame.toInt ∧ j < k + cs.length := by
  induction cs generalizing k m with
  | nil => cases h
  | cons c cs ih =>
      rw [statementAccesses, List.mem_append, List.mem_cons] at h
      rcases h with h | rfl | h
      · exact .inl ⟨c, List.mem_cons_self, m, h⟩
      · exact .inr ⟨k, rfl, by rw [List.length_cons]; omega⟩
      · rcases ih h with ⟨d, hd, m', ha⟩ | ⟨j, rfl, hj⟩
        · exact .inl ⟨d, List.mem_cons_of_mem _ hd, m', ha⟩
        · exact .inr ⟨j, rfl, by rw [List.length_cons]; omega⟩

end Code

namespace Compiled

variable {p : Program} {e e' : Engine} {shape : Shape} {name : String} {f : Compiled}

theorem inside_of_serves (hp : p.WellFormed) (hcompile : e.compileAs p shape name = .ok (f, e'))
    {ctx : Context} {outs : List (Array Sample)} (hserves : ∀ v ∈ p.vars, ctx.Serves outs v)
    (hstore : ∀ k < f.outputs, (Access.store k ctx.frame.toInt).Inside ctx outs) (m : Machine) :
    ∀ a ∈ Code.frameAccesses ctx f.statements m, a.Inside ctx outs := by
  obtain ⟨hcode, -⟩ := Engine.compileAs_eq_ok hcompile
  intro a ha
  rcases Code.mem_statementAccesses ha with ⟨c, hc, m', ha⟩ | ⟨k, rfl, hk⟩
  · exact ((hp.uses_code hcode hserves c hc).accesses m' a ha).inside
  · exact hstore k (by simpa [outputs] using hk)

theorem serves_of_pack (hp : p.WellFormed) (hinputs : f.inputs = p.inputs) (ctx : Context)
    {args : List Argument} {frames : Nat} (hpack : f.pack frames args = .ok ctx.slots)
    {v : Variable} (hv : v ∈ p.vars) (hkind : v.kind ≠ .output)
    (hcall : v.kind = .vector ∨ v.kind = .input → ctx.InCall ∧ ctx.frames.toInt = frames)
    (outs : List (Array Sample)) : ctx.Serves outs v := by
  have hlt : v.index < p.inputs.length := (hp.slots.used_iff _).mp ⟨v, hv, hkind, rfl⟩
  have hget := List.getElem?_eq_getElem hlt
  obtain ⟨arg, slot, -, hslot, hfits⟩ := exists_slot_of_pack hpack (by rw [hinputs]; exact hget)
  rw [hp.slots.kind v hv hkind _ hget] at hfits
  have hholds := Argument.holds_of_slot? hfits
  rw [Context.Serves]
  cases hv : v.kind with
  | output => exact absurd hv hkind
  | float | int =>
      rw [hv] at hholds
      cases slot with
      | number x => exact ⟨x, hslot⟩
      | _ => exact hholds.elim
  | symbol =>
      rw [hv] at hholds
      cases slot with
      | symbol name => exact ⟨name, hslot⟩
      | _ => exact hholds.elim
  | vector =>
      obtain ⟨hcall, hframes⟩ := hcall (.inl hv)
      rw [hv] at hholds
      cases slot with
      | buffer samples => exact ⟨hcall, samples, hslot, by rw [hframes]; exact_mod_cast hholds⟩
      | _ => exact hholds.elim
  | input =>
      obtain ⟨hcall, hframes⟩ := hcall (.inr hv)
      rw [hv] at hholds
      cases slot with
      | buffer samples => exact ⟨hcall, samples, hslot, by rw [hframes]; exact_mod_cast hholds⟩
      | _ => exact hholds.elim

theorem inside_of_eval (hp : p.WellFormed) (hcompile : e.compileAs p shape name = .ok (f, e'))
    (hshape : f.shape = .scalar) {args : List Argument} {slots : Array Slot}
    (hpack : f.pack 0 args = .ok slots) (memory : Memory) :
    ∀ a ∈ f.evalAccesses slots memory,
      a.Inside (f.context slots 0 0) (f.evalStart memory).outputs.toList := by
  obtain ⟨hcode, -, hshape', hinputs⟩ := Engine.compileAs_eq_ok hcompile
  obtain ⟨haccepted, -⟩ := Program.code_eq_ok_iff.mp hcode
  obtain rfl : shape = .scalar := hshape'.symm.trans hshape
  refine inside_of_serves hp hcompile (fun v hv => ?_) (fun k hk => ?_) _
  · have haccepts := haccepted v hv
    have hkind : v.kind ≠ .output ∧ ¬ (v.kind = .vector ∨ v.kind = .input) := by
      constructor
      · intro hkind
        rw [hkind] at haccepts
        cases haccepts
      · rintro (hkind | hkind) <;> rw [hkind] at haccepts <;> cases haccepts
    exact serves_of_pack hp hinputs (f.context slots 0 0) hpack hv hkind.1
      (fun h => absurd h hkind.2) _
  · refine ⟨#[0], ?_, List.forall_mem_singleton.mpr ?_⟩
    · rw [evalStart, Array.toList_replicate, List.getElem?_replicate, if_pos hk]
    · show 0 ≤ (Int32.ofNat 0).toInt ∧ (Int32.ofNat 0).toInt < 1
      decide

theorem inCall_context (f : Compiled) (slots : Array Slot) {frames i : Nat}
    (hframes : 2 * frames < 2 ^ 31) (hi : i < frames) : (f.context slots frames i).InCall := by
  obtain ⟨hcount, hframe⟩ := toInt_context f slots (by rw [maxFrames]; omega) hi
  exact ⟨by omega, by omega, by omega⟩

theorem inside_of_process (hp : p.WellFormed) (hcompile : e.compileAs p shape name = .ok (f, e'))
    {outs : List (Array Sample)} {args : List Argument} {frames : Nat} {slots : Array Slot}
    (hframes : 2 * frames < 2 ^ 31) (hlength : outs.length = f.outputs)
    (hfits : ∀ out ∈ outs, fits f.shape frames out.size = true)
    (hpack : f.pack frames args = .ok slots) (memory : Memory) {i : Nat} (hi : i < frames) :
    ∀ a ∈ f.accessesAt slots outs frames memory i, a.Inside (f.context slots frames i) outs := by
  obtain ⟨hcode, -, rfl, hinputs⟩ := Engine.compileAs_eq_ok hcompile
  obtain ⟨haccepted, -, hlowered⟩ := Program.code_eq_ok_iff.mp hcode
  have hcall := inCall_context f slots hframes hi
  obtain ⟨hcount, hframe⟩ := toInt_context f slots (by rw [maxFrames]; omega) hi
  refine inside_of_serves hp hcompile (fun v hv => ?_) (fun k hk => ?_) _
  · by_cases hkind : v.kind = .output
    · have hlt : v.index < outs.length := by
        rw [hlength, outputs, ← hlowered.length_eq, hp.length_trees]
        exact hp.range v hv hkind
      have hsample : f.shape = .sample := by
        have haccepts := haccepted v hv
        rw [hkind] at haccepts
        simpa [Shape.accepts] using haccepts
      have hsize := hfits _ (List.getElem_mem hlt)
      rw [hsample] at hsize
      rw [Context.Serves, hkind]
      refine ⟨hcall, outs[v.index], List.getElem?_eq_getElem hlt, ?_⟩
      rw [hcount]
      exact_mod_cast beq_iff_eq.mp hsize
    · exact serves_of_pack hp hinputs (f.context slots frames i) hpack hv hkind
        (fun _ => ⟨hcall, hcount⟩) _
  · have hlt : k < outs.length := hlength ▸ hk
    refine ⟨outs[k], List.getElem?_eq_getElem hlt, List.forall_mem_singleton.mpr ?_⟩
    have hsize := le_size_of_fits (hfits _ (List.getElem_mem hlt))
    rw [hframe]
    omega

/-- Every slot holds what its variable is read as. -/
def Represents (f : Compiled) (frames : Nat) (slots : Array Slot) : Prop :=
  ∀ (j : Nat) (v : Variable), f.inputs[j]? = some v →
    ∃ slot : Slot, slots[j]? = some slot ∧ slot.Holds frames v.kind

theorem represents_of_pack {args : List Argument} {frames : Nat} {slots : Array Slot}
    (hpack : f.pack frames args = .ok slots) : f.Represents frames slots := by
  intro j v hv
  obtain ⟨arg, slot, -, hslot, hfits⟩ := exists_slot_of_pack hpack hv
  exact ⟨slot, hslot, Argument.holds_of_slot? hfits⟩

/-- No call of a compiled text leaves its buffers, whatever numbers it computes with and whatever
the memory holds: slots hold what their variables are read as, and all accesses of all frames are
inside. The frames depend on no other data of the call, and nothing but their results is written. -/
theorem accesses_inside {text : String} {p : Program} {e e' : Engine} {shape : Shape}
    {name : String} {f : Compiled} (hparse : Program.parse text = .ok p)
    (hcompile : e.compileAs p shape name = .ok (f, e')) :
    (∀ args memory r, f.eval args memory = .ok r →
      ∃ slots, f.pack 0 args = .ok slots ∧ f.Represents 0 slots ∧
        (∀ a ∈ f.evalAccesses slots memory,
          a.Inside (f.context slots 0 0) (f.evalStart memory).outputs.toList) ∧
        Code.LogsAll (f.context slots 0 0) f.statements (f.evalStart memory) ∧
        r.1 = Code.results (f.context slots 0 0) 0 f.statements (f.evalStart memory)) ∧
    ∀ outs args frames memory r, 2 * frames < 2 ^ 31 →
      f.process outs args frames memory = .ok r →
      ∃ slots, f.pack frames args = .ok slots ∧ f.Represents frames slots ∧
        (∀ i < frames, (∀ a ∈ f.accessesAt slots outs frames memory i,
            a.Inside (f.context slots frames i) outs) ∧
          Code.LogsAll (f.context slots frames i) f.statements
            (f.machineAt slots outs frames memory i)) ∧
        f.HoldsResults slots outs frames memory r.1 := by
  have hp := Program.wellFormed_of_parse hparse
  constructor
  · intro args memory r heval
    obtain ⟨hshape, slots, hpack, -⟩ := eval_eq_ok_iff.mp heval
    rw [eval_of_pack hshape hpack] at heval
    obtain rfl := Except.ok.inj heval
    exact ⟨slots, hpack, represents_of_pack hpack, inside_of_eval hp hcompile hshape hpack memory,
      Code.logsAll _ _ _, rfl⟩
  · intro outs args frames memory r hframes hprocess
    obtain ⟨⟨-, -, hlength, hfits⟩, -⟩ := process_eq_ok_iff.mp hprocess
    obtain ⟨slots, hpack, hsamples⟩ := getElem?_process hprocess
    exact ⟨slots, hpack, represents_of_pack hpack, fun i hi =>
      ⟨inside_of_process hp hcompile hframes hlength hfits hpack memory hi, Code.logsAll _ _ _⟩,
      hsamples⟩

/-- A call over two frames that mixes all kinds of buffers, with offsets and indexes that are not
numbers. -/
theorem accesses_inside_mixed :
    ∃ p f e', Program.parse "$x1[$f2] + $y1, $v3[$f2]" = .ok p ∧
      (Engine.new {}).compile p .sample = .ok (f, e') ∧
      ∃ slots, f.pack 2 [.vector #[1, 2, 3, 4], .number .nan, .vector #[5, 6]] = .ok slots ∧
        f.Represents 2 slots ∧ ∀ i < 2,
          (∀ a ∈ f.accessesAt slots [#[0, 0], #[0, 0]] 2 .initial i,
            a.Inside (f.context slots 2 i) [#[0, 0], #[0, 0]]) ∧
          Code.LogsAll (f.context slots 2 i) f.statements
            (f.machineAt slots [#[0, 0], #[0, 0]] 2 .initial i) := by
  have hparse : ((Program.parse "$x1[$f2] + $y1, $v3[$f2]").map fun p =>
      (p.trees, p.inputs)).toOption =
      some ([.binary .add (.history ⟨.input, 0⟩ (.var ⟨.float, 1⟩)) (.var ⟨.output, 0⟩),
        .readCell (.slot ⟨.vector, 2⟩) (.var ⟨.float, 1⟩)],
        [⟨.input, 0⟩, ⟨.float, 1⟩, ⟨.vector, 2⟩]) := by
    cbv
  have hslots : packFrom 2 0 [⟨.input, 0⟩, ⟨.float, 1⟩, ⟨.vector, 2⟩]
      [.vector #[1, 2, 3, 4], .number .nan, .vector #[5, 6]] =
        .ok [.buffer #[1, 2, 3, 4], .number .nan, .buffer #[5, 6]] := rfl
  obtain ⟨p, f, e', r, hp, hcompile, -, -, hcall⟩ :=
    exists_process_of_trees .sample (by decide) hparse (by decide) rfl rfl hslots (by decide)
      [#[0, 0], #[0, 0]] rfl (by decide) .initial
  obtain ⟨slots, hpack, hrepresents, hinside, -⟩ :=
    (accesses_inside hp hcompile).2 _ _ 2 .initial r (by decide) hcall
  exact ⟨p, f, e', hp, hcompile, slots, hpack, hrepresents, hinside⟩

end Compiled

end SignalExpr
