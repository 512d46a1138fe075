import SignalExpr.Proofs.FrameRuns
import SignalExpr.Proofs.InputStream
import SignalExpr.Proofs.OutputFeedback

/-!
Outputs along a stream. Calls that go on with the output buffers of the call before store, frame by
frame, one stream for each output. A buffer holds only one block of it. In frame `i` of a call, the
positions before `i` belong to the current block and those after it still to the block before, so a
read less than a block back finds the sample of the stream that lies the asked number of frames
back, across the boundary of the calls.
-/

namespace SignalExpr

theorem getElem?_writeRecent {samples values : Array Sample} {j : Nat} (hj : j < values.size)
    (hlt : j < samples.size) :
    (writeRecent samples values)[samples.size - 1 - j]? = values[j]? := by
  rw [writeRecent, Array.getElem?_append_right (by rw [Array.size_extract]; omega),
    Array.getElem?_reverse (by simp only [Array.size_extract]; omega), Array.getElem?_extract]
  simp only [Array.size_extract]
  rw [if_pos (by omega)]
  congr 1
  omega

theorem Machine.sample_output (m : Machine) (k p : Nat) :
    Buffer.sample (m.output k) p = (m.sample? k p).getD 0 := by
  rw [Buffer.sample_nat, output, sample?]
  cases m.outputs[k]? <;> rfl

/-- The code is a read of an output that interpolates from a sample, without any weight on the
other neighbour. -/
def Code.TakesOutput (ctx : Context) (m : Machine) (k : Nat) (x : Sample) (c : Code) : Prop :=
  ∃ offset, c.accesses ctx m = [.outputAt k offset] ∧
    (Access.outputCells ctx offset).2.2.isZero = true ∧
    Buffer.sample (m.output k) (Access.outputCells ctx offset).1 = x ∧
    c.run ctx m = ctx.call .arrayRead [Buffer.historyIndex ctx.frames ctx.frame (-1) offset] m
      (Buffer.sample (m.output k) (Access.outputCells ctx offset).2.1 *
          (Access.outputCells ctx offset).2.2 + x * (1 - (Access.outputCells ctx offset).2.2), m)

namespace Compiled

/-- Calls of a function, each with the output buffers that the one before has left. -/
structure Calls (f : Compiled) (frames count : Nat) where
  args : Nat → List Argument
  slots : Nat → Array Slot
  memory : Nat → Memory
  outs : Nat → List (Array Sample)
  pack_eq : ∀ c < count, f.pack frames (args c) = .ok (slots c)
  process_eq : ∀ c < count, ∃ after,
    f.process (outs c) (args c) frames (memory c) = .ok (outs (c + 1), after)

namespace Calls

variable {f : Compiled} {frames count : Nat} (calls : f.Calls frames count)

def output (c k : Nat) : Array Sample :=
  ((calls.outs c)[k]?).getD #[]

def context (c i : Nat) : Context :=
  f.context (calls.slots c) frames i

def machineAt (c i : Nat) : Machine :=
  f.machineAt (calls.slots c) (calls.outs c) frames (calls.memory c) i

/-- The machine when statement `s` of a frame begins. While the statement runs, the outputs stay as
they are. -/
def machineBefore (c i s : Nat) : Machine :=
  Code.runStatements (calls.context c i) 0 (f.statements.take s) (calls.machineAt c i)

def results (c i : Nat) : List Sample :=
  f.resultsAt (calls.slots c) (calls.outs c) frames (calls.memory c) i

/-- Number `position` of the stream of an output: what its statement has stored in that frame, and
before the first call what the buffer held. -/
def stored (k : Nat) (position : Int) : Sample :=
  if 0 ≤ position then
    ((calls.results (position.toNat / frames) (position.toNat % frames))[k]?).getD 0
  else Buffer.sample (calls.output 0 k) (position + frames)

theorem stored_frame (c k : Nat) {i : Nat} (hi : i < frames) :
    calls.stored k (c * frames + i) = ((calls.results c i)[k]?).getD 0 := by
  have hposition : (c * frames + i : Int) = (frames * c + i : Nat) := by
    push_cast
    rw [Int.mul_comm]
  rw [hposition, stored, if_pos (Int.natCast_nonneg _), Int.toNat_natCast,
    Nat.mul_add_div (by omega), Nat.div_eq_of_lt hi, Nat.add_zero,
    Nat.mul_add_mod_self_left, Nat.mod_eq_of_lt hi]

theorem stored_before {k p : Nat} (hp : p < frames) :
    calls.stored k (p - frames) = Buffer.sample (calls.output 0 k) p := by
  rw [stored, if_neg (by omega), Int.sub_add_cancel]

variable {c k : Nat}

theorem frames_le (calls : f.Calls frames count) (hc : c < count) : frames ≤ maxFrames := by
  obtain ⟨after, hcall⟩ := calls.process_eq c hc
  exact (process_eq_ok_iff.mp hcall).1.2.1

theorem outs_succ (hc : c < count) :
    calls.outs (c + 1) = (calls.machineAt c frames).outputs.toList := by
  obtain ⟨after, hcall⟩ := calls.process_eq c hc
  obtain ⟨-, slots, hpack, hr⟩ := process_eq_ok_iff.mp hcall
  obtain rfl := Except.ok.inj ((calls.pack_eq c hc).symm.trans hpack)
  exact congrArg Prod.fst hr

theorem exists_sample (hshape : f.shape = .sample) (hk : k < f.outputs) (hc : c < count) {p : Nat}
    (hp : p < frames) :
    ∃ x, (calls.outs c)[k]?.bind (·[p]?) = some x ∧ Buffer.sample (calls.output c k) p = x := by
  obtain ⟨after, hcall⟩ := calls.process_eq c hc
  obtain ⟨⟨-, -, hlength, hfits⟩, -⟩ := process_eq_ok_iff.mp hcall
  have hout := List.getElem?_eq_getElem (hlength ▸ hk)
  have hsize := hfits _ (List.getElem_mem (hlength ▸ hk))
  rw [hshape] at hsize
  have hget := Array.getElem?_eq_getElem (hp.trans_eq (beq_iff_eq.mp hsize).symm)
  refine ⟨_, by rw [hout]; exact hget, ?_⟩
  rw [Buffer.sample_nat, output, hout, Option.getD_some, hget, Option.getD_some]

theorem sample_machineAt (hshape : f.shape = .sample) (hk : k < f.outputs) (hc : c < count)
    {i p : Nat} (hi : i ≤ frames) (hp : p < frames) :
    Buffer.sample ((calls.machineAt c i).output k) p =
      if p < i then calls.stored k (c * frames + p) else Buffer.sample (calls.output c k) p := by
  obtain ⟨x, hx, hsample⟩ := calls.exists_sample hshape hk hc hp
  rw [Machine.sample_output, machineAt, sample?_machineAt (calls.frames_le hc) hi hk, hx, hsample,
    calls.stored_frame c k hp]
  split <;> rfl

theorem sample_output_succ (hshape : f.shape = .sample) (hk : k < f.outputs) (hc : c < count)
    {p : Nat} (hp : p < frames) :
    Buffer.sample (calls.output (c + 1) k) p = calls.stored k (c * frames + p) := by
  have houtput : calls.output (c + 1) k = (calls.machineAt c frames).output k := by
    rw [output, calls.outs_succ hc, Machine.output, Array.getElem?_toList]
  rw [houtput, calls.sample_machineAt hshape hk hc (Nat.le_refl frames) hp, if_pos hp]

theorem sample_output (hshape : f.shape = .sample) (hk : k < f.outputs) (hc : c ≤ count) {p : Nat}
    (hp : p < frames) :
    Buffer.sample (calls.output c k) p = calls.stored k (c * frames + p - frames) := by
  cases c with
  | zero => rw [Int.natCast_zero, Int.zero_mul, Int.zero_add, calls.stored_before hp]
  | succ c =>
      rw [calls.sample_output_succ hshape hk hc hp]
      congr 1
      push_cast
      rw [Int.add_mul]
      omega

theorem sample_machineBefore (hshape : f.shape = .sample) (hk : k < f.outputs) (hc : c < count)
    {i p : Nat} (hi : i < frames) (hp : p < frames) (hne : p ≠ i) (s : Nat) :
    Buffer.sample ((calls.machineBefore c i s).output k) p =
      calls.stored k (c * frames + p - if p < i then 0 else frames) := by
  have hposition : (calls.context c i).frame.toInt.toNat = i := by
    rw [context, (toInt_context f _ (calls.frames_le hc) hi).2, Int.toNat_natCast]
  have hkept : (calls.machineBefore c i s).sample? k p = (calls.machineAt c i).sample? k p := by
    rw [machineBefore, Code.sample?_runStatements, hposition, if_neg fun h => hne h.2]
  rw [Machine.sample_output, hkept, ← Machine.sample_output,
    calls.sample_machineAt hshape hk hc (Nat.le_of_lt hi) hp,
    calls.sample_output hshape hk (Nat.le_of_lt hc) hp]
  split
  · rw [Int.natCast_zero, Int.sub_zero]
  · rfl

theorem outputCells_of_whole (hframes : frames ≤ 2 ^ 23) (hc : c < count) {i d : Nat}
    (hi : i < frames) (hd : 0 < d) (hlt : d < frames) :
    (Access.outputCells (calls.context c i) (-Sample.ofInt d)).1 =
        (if i < d then frames + i - d else i - d : Nat) ∧
      (Access.outputCells (calls.context c i) (-Sample.ofInt d)).2.2.isZero = true := by
  obtain ⟨hcount, hframe⟩ := toInt_context f (calls.slots c) (calls.frames_le hc) hi
  obtain ⟨hnan, hquanta⟩ := Sample.neg_ofInt_exact (n := d) (by omega)
  have hwhole := Buffer.isWhole_historyIndex
    (hframe.symm ▸ Int.natCast_nonneg i) (by rw [hcount, hframe]; omega) (by rw [hcount]; omega)
    Buffer.isNaN_neg_one (by rw [Buffer.quanta_neg_one]; omega)
    (by rw [Buffer.quanta_neg_one]; omega) hnan hquanta (by rw [hcount]; omega)
  obtain ⟨hcell, -, hweight⟩ := Buffer.neighbours_of_isWhole hwhole (by omega) (by omega)
    (f.context (calls.slots c) frames i).frames
  refine ⟨?_, hweight⟩
  rw [hcount, hframe, Buffer.emod_ring (Int.natCast_nonneg i) (by omega) (by omega) (by omega)]
    at hcell
  refine Eq.trans hcell ?_
  split <;> split <;> omega

theorem sample_outputCells (hshape : f.shape = .sample) (hframes : frames ≤ 2 ^ 23)
    (hk : k < f.outputs) (hc : c < count) {i d : Nat} (hi : i < frames) (hd : 0 < d)
    (hlt : d < frames) (s : Nat) :
    Buffer.sample ((calls.machineBefore c i s).output k)
        (Access.outputCells (calls.context c i) (-Sample.ofInt d)).1 =
      calls.stored k (c * frames + i - d) := by
  rw [(calls.outputCells_of_whole hframes hc hi hd hlt).1]
  split
  next hback =>
    rw [calls.sample_machineBefore hshape hk hc hi (by omega) (by omega), if_neg (by omega)]
    congr 1
    omega
  next hwithin =>
    rw [calls.sample_machineBefore hshape hk hc hi (by omega) (by omega), if_pos (by omega)]
    congr 1
    omega

theorem takesOutput (hshape : f.shape = .sample) (hframes : frames ≤ 2 ^ 23) (hk : k < f.outputs)
    (hc : c < count) {i d : Nat} (hi : i < frames) (hd : 0 < d) (hlt : d < frames) {s : Nat}
    {m : Machine} (hm : m.outputs = (calls.machineBefore c i s).outputs) :
    (Code.outputAt k (.unary .negate (.const (Sample.ofInt d)))).TakesOutput (calls.context c i) m k
      (calls.stored k (c * frames + i - d)) := by
  have hsample := calls.sample_outputCells hshape hframes hk hc hi hd hlt s
  rw [Machine.output, ← hm] at hsample
  have hpos : 0 < (calls.context c i).frames.toInt := by
    rw [context, (toInt_context f _ (calls.frames_le hc) hi).1]
    omega
  have hread : Buffer.readOutput (m.output k) (calls.context c i).frames (calls.context c i).frame
      (-Sample.ofInt d) = _ := Buffer.interpolate_eq _ _ hpos
  refine ⟨-Sample.ofInt d, rfl, (calls.outputCells_of_whole hframes hc hi hd hlt).2, hsample, ?_⟩
  show Context.call _ _ _ _ (Buffer.readOutput (m.output k) _ _ (-Sample.ofInt d), m) = _
  rw [hread, ← hsample]
  rfl

theorem stored_set {h : OutputHistory} {values : Array Sample} (hsize : h.frames = frames)
    (hout : (calls.outs 0)[k]? = some (h.set values).samples) {j : Nat} (hj : j < frames)
    {x : Sample} (hx : values[j]? = some x) : calls.stored k (-1 - j) = x := by
  subst hsize
  obtain ⟨hlt, -⟩ := Array.getElem?_eq_some_iff.mp hx
  have hposition : (-1 - j : Int) = (h.frames - 1 - j : Nat) - h.frames := by omega
  rw [hposition, calls.stored_before (by omega), Buffer.sample_nat, output, hout, Option.getD_some]
  show ((writeRecent h.samples values)[h.samples.size - 1 - j]?).getD 0 = x
  rw [getElem?_writeRecent hlt hj, hx, Option.getD_some]

end Calls

/-- What calls after another leave in the buffers of the first one. -/
def outsAfter (f : Compiled) (slots : Nat → Array Slot) (frames : Nat) (memory : Nat → Memory)
    (outs : List (Array Sample)) : Nat → List (Array Sample)
  | 0 => outs
  | c + 1 =>
      (f.machineAt (slots c) (f.outsAfter slots frames memory outs c) frames (memory c)
        frames).outputs.toList

theorem sizes_outsAfter (f : Compiled) (slots : Nat → Array Slot) (frames : Nat)
    (memory : Nat → Memory) (outs : List (Array Sample)) (c : Nat) :
    (f.outsAfter slots frames memory outs c).map Array.size = outs.map Array.size := by
  induction c with
  | zero => rfl
  | succ c ih => rw [outsAfter, sizes_machineAt, ih]

theorem exists_calls {f : Compiled} {frames : Nat} (args : Nat → List Argument)
    {slots : Nat → Array Slot} (memory : Nat → Memory) {outs : List (Array Sample)}
    {r : List (Array Sample) × Memory} (hpack : ∀ c, f.pack frames (args c) = .ok (slots c))
    (hcall : f.process outs (args 0) frames (memory 0) = .ok r) (count : Nat) :
    ∃ calls : f.Calls frames count, calls.outs 0 = outs := by
  obtain ⟨⟨hshape, hframes, hlength, hfits⟩, -⟩ := process_eq_ok_iff.mp hcall
  refine ⟨⟨args, slots, memory, f.outsAfter slots frames memory outs, fun c _ => hpack c,
    fun c _ => ⟨_, process_eq_ok_iff.mpr ⟨⟨hshape, hframes, ?_, ?_⟩, slots c, hpack c, rfl⟩⟩⟩, rfl⟩
  · rw [← hlength, ← List.length_map Array.size, sizes_outsAfter, List.length_map]
  · rw [← List.forall_mem_map (P := fun n => fits f.shape frames n = true), sizes_outsAfter,
      List.forall_mem_map]
    exact hfits

/-- The buffers of calls after another carry one stream per output. Wherever a statement reads an
output `d` frames back, less than a block, it takes the sample that lies `d` frames back in the
stream, and before the first call what the history was set to. -/
theorem output_reads_stream {f : Compiled} {frames count : Nat} (calls : f.Calls frames count)
    (hshape : f.shape = .sample) (hframes : frames ≤ 2 ^ 23) {k : Nat} (hk : k < f.outputs) :
    (∀ c < count, ∀ i < frames,
      Buffer.sample (calls.output (c + 1) k) i = calls.stored k (c * frames + i) ∧
      ∀ d : Nat, 0 < d → d < frames →
        ∃ code, Lower.expr .sample (.history ⟨.output, k⟩ (.unary .negate (.int d))) = .ok code ∧
          ∀ s m, m.outputs = (calls.machineBefore c i s).outputs →
            code.TakesOutput (calls.context c i) m k (calls.stored k (c * frames + i - d))) ∧
    ∀ (h : OutputHistory) values, h.frames = frames →
      (calls.outs 0)[k]? = some (h.set values).samples →
      ∀ j < frames, ∀ x, values[j]? = some x → calls.stored k (-1 - j) = x := by
  constructor
  · intro c hc i hi
    refine ⟨calls.sample_output_succ hshape hk hc hi, ?_⟩
    intro d hd hlt
    refine ⟨.outputAt k (.unary .negate (.const (Sample.ofInt d))), rfl, ?_⟩
    intro s m hm
    exact calls.takesOutput hshape hframes hk hc hi hd hlt hm
  · intro h values hsize hout j hj x hx
    exact calls.stored_set hsize hout hj hx

/-- The first frame reads what the history was set to, and the first frame of the second call what
the first call has stored last. -/
theorem output_reads_stream_across_calls :
    ∃ p f e', Program.parse "$y1[-1] + $f1" = .ok p ∧
      (Engine.new {}).compile p .sample = .ok (f, e') ∧
      ∃ (calls : f.Calls 2 2) (code : Code),
        calls.outs 0 = [((OutputHistory.silent 2).set #[3]).samples] ∧
        Lower.expr .sample (.history ⟨.output, 0⟩ (.unary .negate (.int 1))) = .ok code ∧
        code.TakesOutput (calls.context 0 0) (calls.machineBefore 0 0 0) 0 3 ∧
        code.TakesOutput (calls.context 1 0) (calls.machineBefore 1 0 0) 0
          (Buffer.sample (calls.output 1 0) 1) := by
  have hparse : ((Program.parse "$y1[-1] + $f1").map fun p => (p.trees, p.inputs)).toOption =
      some ([.binary .add (.history ⟨.output, 0⟩ (.unary .negate (.int 1))) (.var ⟨.float, 0⟩)],
        [⟨.float, 0⟩]) := by
    cbv
  have hslots : packFrom 2 0 [⟨.float, 0⟩] [.number 1] = .ok [.number 1] := rfl
  obtain ⟨p, f, e', r, hp, hcompile, hstatements, hpack, hcall⟩ :=
    exists_process_of_trees .sample (by decide) hparse (by decide) rfl rfl hslots (by decide)
      [((OutputHistory.silent 2).set #[3]).samples] rfl (by decide) .initial
  obtain ⟨-, -, hshape, -⟩ := Engine.compileAs_eq_ok hcompile
  have houtputs : f.outputs = 1 := by
    rw [outputs, hstatements]
    rfl
  obtain ⟨calls, houts⟩ := exists_calls (fun _ => [.number 1]) (fun _ => .initial) (fun _ => hpack)
    hcall 2
  obtain ⟨hreads, hset⟩ := output_reads_stream calls hshape (by decide) (k := 0) (by omega)
  obtain ⟨code, hcode, hfirst⟩ := (hreads 0 (by decide) 0 (by decide)).2 1 (by decide) (by decide)
  obtain ⟨code', hcode', hsecond⟩ := (hreads 1 (by decide) 0 (by decide)).2 1 (by decide) (by decide)
  obtain rfl := Except.ok.inj (hcode.symm.trans hcode')
  have hthree := hset (.silent 2) #[3] rfl (by rw [houts]; rfl) 0 (by decide) 3 rfl
  have hlast := (hreads 0 (by decide) 1 (by decide)).1
  refine ⟨p, f, e', hp, hcompile, calls, code, houts, hcode, ?_, ?_⟩
  · rw [← hthree]
    exact hfirst 0 _ rfl
  · show code.TakesOutput _ _ 0 (Buffer.sample (calls.output (0 + 1) 0) (1 : Nat))
    rw [hlast]
    exact hsecond 0 _ rfl

end Compiled

end SignalExpr
