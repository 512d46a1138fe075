import SignalExpr.Proofs.CallEffects
import SignalExpr.Proofs.InputStream
import SignalExpr.Proofs.SampleIdentities
import SignalExpr.Proofs.SymbolResolution

/-!
What reads of input histories give. A read interpolates between two samples also where the second
one has no weight, so the sample next to the one that is asked for still counts if it is infinite or
not a number, or for the sign of a zero. The length of a history and the position in it are computed
in 32 bits, which is not enough for all calls that are accepted.
-/

namespace SignalExpr

namespace Sample

/-- The sample is what a read gives that takes all of `a` and nothing of its neighbour `b`. A
neighbour that is not finite leaves no number, and a zero of negative sign loses its sign beside a
neighbour of positive sign. -/
def IsReadBeside (x a b : Sample) : Prop :=
  if b.isFinite then x = if a = negativeZero ∧ b.isNegative = false then 0 else a
  else x.isNaN = true

theorem isReadBeside_weightless (a b : Sample) : (b * 0 + a * (1 - 0)).IsReadBeside a b := by
  have hone : (1 : Sample) - 0 = 1 := by decide +kernel
  rw [hone, mul_one, IsReadBeside]
  split
  next hfinite =>
    rw [mul_zero hfinite]
    cases hb : b.isNegative with
    | true => simpa using negativeZero_add a
    | false => simpa using zero_add a
  next hfinite =>
    have hnan := isNaN_mul_zero hfinite
    change (map₂ (· + ·) (b * 0) a).isNaN = true
    rwa [map₂, if_pos hnan]

end Sample

namespace Buffer

theorem weight_of_isWhole {index : Sample} {n : Int} (h : index.IsWhole n) (length : Int32) :
    (neighbours index length).2.2 = 0 := by
  change index - index.floor = 0
  rw [Sample.floor_of_isWhole h, Sample.sub_self h.1]

theorem isReadBeside_interpolate (buffer : Array Sample) {index : Sample} {n : Int} {length : Int32}
    (h : index.IsWhole n) (hpos : 0 ≤ n) (hlt : n < 2 ^ 62) (hlength : 0 < length.toInt) :
    (interpolate buffer index length).IsReadBeside (sample buffer (n % length.toInt))
      (sample buffer ((n + 1) % length.toInt)) := by
  obtain ⟨hfirst, hsecond, -⟩ := neighbours_of_isWhole h hpos hlt length
  rw [interpolate_eq buffer index hlength, weight_of_isWhole h, hfirst, hsecond]
  exact Sample.isReadBeside_weightless _ _

theorem isReadBeside_readInput (buffer : Array Sample) {frames frame : Int32} {offset : Sample}
    {d : Nat} (hframe : 0 ≤ frame.toInt) (hlt : frame.toInt < frames.toInt)
    (hframes : frames.toInt ≤ 2 ^ 23) (hoffset : offset.IsWhole (-d)) (hd : d ≤ frames.toInt) :
    (readInput buffer frames frame offset).IsReadBeside
      (sample buffer (frames.toInt + frame.toInt - d))
      (sample buffer ((frames.toInt + frame.toInt - d + 1) % (2 * frames.toInt))) := by
  have hzero : (0 : Sample).isNaN = false := rfl
  have hlength := toInt_inputLength (by omega : 0 ≤ frames.toInt) (by omega)
  have hwhole := isWhole_historyIndex hframe hlt hframes hzero (by rw [Sample.quanta_zero]; omega)
    (by rw [Sample.quanta_zero]) hoffset.1.isNaN_eq_false hoffset.2 hd
  have hread := isReadBeside_interpolate buffer hwhole (by omega) (by omega)
    (by omega : 0 < (inputLength frames).toInt)
  rwa [hlength, Int.emod_eq_of_lt (by omega) (by omega)] at hread

end Buffer

namespace Compiled

theorem exists_process_of_history (h : InputHistory) (hmax : h.frames ≤ maxFrames)
    {out : Array Sample} (hout : out.size = h.frames) :
    ∃ p f e' r, Program.parse "$x1[0]" = .ok p ∧
      (Engine.new {}).compile p .sample = .ok (f, e') ∧
      f.statements = [.inputAt 0 (.const (.ofInt 0))] ∧
      f.links.get? Routine.arrayRead.link = some (.routine .arrayRead) ∧
      f.pack h.frames [.history h] = .ok #[.buffer h.samples] ∧
      f.process [out] [.history h] h.frames .initial = .ok r := by
  have hparse : ((Program.parse "$x1[0]").map fun p => (p.trees, p.inputs)).toOption =
      some ([.history ⟨.input, 0⟩ (.int 0)], [⟨.input, 0⟩]) := by
    cbv
  have hslots : packFrom h.frames 0 [⟨.input, 0⟩] [.history h] = .ok [.buffer h.samples] := by
    rw [packFrom, Argument.slot?, if_pos rfl]
    rfl
  have hlowered : [Expr.history ⟨.input, 0⟩ (.int 0)].mapM (Lower.expr .sample) =
      .ok [.inputAt 0 (.const (.ofInt 0))] := rfl
  have hfits : ∀ out' ∈ [out], fits .sample h.frames out'.size = true := by
    intro out' hmem
    rw [List.mem_singleton.mp hmem]
    exact beq_iff_eq.mpr hout
  obtain ⟨p, f, e', r, hp, hcompile, hstatements, hpack, hcall⟩ :=
    exists_process_of_trees .sample (by decide) hparse (by decide) hlowered rfl hslots hmax [out]
      rfl hfits .initial
  have hlink : f.links.get? Routine.arrayRead.link = some (.routine .arrayRead) :=
    (Engine.get?_links_of_new hcompile hstatements (by decide)).trans rfl
  exact ⟨p, f, e', r, hp, hcompile, hstatements, hlink, hpack, hcall⟩

section Reads

variable {f : Compiled} {outs : List (Array Sample)} {args : List Argument} {frames : Nat}
  {memory : Memory} {r : List (Array Sample) × Memory}

/-- In calls of up to `2 ^ 23` frames, an input without an offset is the current sample of its
history. With an offset of a whole number of frames back it is the sample of that frame, read beside
the next one. Next to the newest sample of the history is the oldest. -/
theorem input_reads_beside (hcall : f.process outs args frames memory = .ok r)
    (hframes : frames ≤ 2 ^ 23)
    (hlink : f.links.get? Routine.arrayRead.link = some (.routine .arrayRead)) :
    ∃ slots, f.pack frames args = .ok slots ∧
      ∀ i < frames, ∀ j samples, slots[j]? = some (.buffer samples) →
        (∃ code, Lower.expr .sample (.var ⟨.input, j⟩) = .ok code ∧
          ∀ m, code.run (f.context slots frames i) m = (Buffer.sample samples (frames + i), m)) ∧
        ∀ offset index, Lower.expr .sample offset = .ok index →
          ∃ code, Lower.expr .sample (.history ⟨.input, j⟩ offset) = .ok code ∧
            ∀ m, ∀ d ≤ frames, (index.run (f.context slots frames i) m).1.IsWhole (-d) →
              (code.run (f.context slots frames i) m).2 =
                (index.run (f.context slots frames i) m).2 ∧
              (code.run (f.context slots frames i) m).1.IsReadBeside
                (Buffer.sample samples (frames + i - d))
                (Buffer.sample samples ((frames + i - d + 1) % (2 * frames))) := by
  obtain ⟨⟨-, hmax, -⟩, slots, hpack, -⟩ := process_eq_ok_iff.mp hcall
  refine ⟨slots, hpack, fun i hi j samples hslot => ?_⟩
  obtain ⟨hcount, hframe⟩ := toInt_context f slots hmax hi
  have hbuffer : (f.context slots frames i).buffer j = samples := Context.buffer_of_slot hslot
  constructor
  · refine ⟨.input j, rfl, fun m => ?_⟩
    have hposition : (Buffer.inputPosition (f.context slots frames i).frames
        (f.context slots frames i).frame).toInt = frames + i := by
      rw [Buffer.toInt_inputPosition (by omega) (by omega) (by omega), hcount, hframe]
    rw [Code.run, hbuffer, hposition]
  · intro offset index hindex
    refine ⟨.inputAt j index, by rw [Lower.expr, hindex]; rfl, fun m d hd hwhole => ?_⟩
    have hread := Buffer.isReadBeside_readInput samples
      (by omega : 0 ≤ (f.context slots frames i).frame.toInt)
      (by omega : _ < (f.context slots frames i).frames.toInt) (by omega) hwhole (by omega)
    rw [hcount, hframe] at hread
    rw [Code.run, Context.call_of_routine _ hlink, hbuffer]
    exact ⟨rfl, hread⟩

end Reads

/-- In the last frame, the sample next to the current one is the oldest. -/
theorem input_reads_beside_oldest :
    ∃ p f e' slots code, Program.parse "$x1[0]" = .ok p ∧
      (Engine.new {}).compile p .sample = .ok (f, e') ∧
      f.pack 2 [.history ⟨2, #[1, 2, 3, 4], rfl⟩] = .ok slots ∧
      Lower.expr .sample (.history ⟨.input, 0⟩ (.int 0)) = .ok code ∧
      ∀ m, (code.run (f.context slots 2 1) m).1 = 4 := by
  obtain ⟨p, f, e', r, hp, hcompile, -, hlink, hpack, hcall⟩ :=
    exists_process_of_history ⟨2, #[1, 2, 3, 4], rfl⟩ (by decide)
      (rfl : (#[0, 0] : Array Sample).size = 2)
  obtain ⟨slots, hslots, hreads⟩ := input_reads_beside hcall (by decide) hlink
  obtain rfl := Except.ok.inj (hpack.symm.trans hslots)
  obtain ⟨code, hcode, hread⟩ := (hreads 1 (by decide) 0 _ rfl).2 (.int 0) _ rfl
  have hoffset : (Sample.ofInt 0).IsWhole (-(0 : Nat)) :=
    ⟨Sample.finite_ofInt (by decide), Sample.quanta_ofInt (by decide)⟩
  refine ⟨p, f, e', _, code, hp, hcompile, hpack, hcode, fun m => ?_⟩
  have hbeside : (code.run (f.context #[.buffer #[1, 2, 3, 4]] 2 1) m).1.IsReadBeside 4 1 :=
    (hread m 0 (by decide) hoffset).2
  rwa [Sample.IsReadBeside, if_pos (by decide), if_neg (by decide)] at hbeside

/-- With the offset zero, an infinite sample in the next frame leaves no number of the current
one. -/
theorem input_reads_beside_infinity :
    ∃ p f e' r x, Program.parse "$x1, $x1[0]" = .ok p ∧
      (Engine.new {}).compile p .sample = .ok (f, e') ∧
      f.process [#[0, 0], #[0, 0]] [.vector #[0, 0, 1, .infinity]] 2 .initial = .ok r ∧
      r.1[0]?.bind (·[0]?) = some 1 ∧ r.1[1]?.bind (·[0]?) = some x ∧ x.isNaN = true := by
  have hparse : ((Program.parse "$x1, $x1[0]").map fun p => (p.trees, p.inputs)).toOption =
      some ([.var ⟨.input, 0⟩, .history ⟨.input, 0⟩ (.int 0)], [⟨.input, 0⟩]) := by
    cbv
  have hslots : packFrom 2 0 [⟨.input, 0⟩] [.vector #[0, 0, 1, .infinity]] =
      .ok [.buffer #[0, 0, 1, .infinity]] := rfl
  have hlowered : [Expr.var ⟨.input, 0⟩, .history ⟨.input, 0⟩ (.int 0)].mapM (Lower.expr .sample) =
      .ok [.input 0, .inputAt 0 (.const (.ofInt 0))] := rfl
  obtain ⟨p, f, e', r, hp, hcompile, hstatements, hpack, hcall⟩ :=
    exists_process_of_trees .sample (by decide) hparse (by decide) hlowered rfl hslots (by decide)
      [#[0, 0], #[0, 0]] rfl (by decide) .initial
  have hlink : f.links.get? Routine.arrayRead.link = some (.routine .arrayRead) :=
    (Engine.get?_links_of_new hcompile hstatements (by decide)).trans rfl
  obtain ⟨slots, hslots, hresults⟩ := getElem?_process hcall
  obtain rfl := Except.ok.inj (hpack.symm.trans hslots)
  have hcurrent : Buffer.sample #[0, 0, 1, .infinity] (Buffer.inputPosition 2 0).toInt = 1 := rfl
  have hread : Buffer.readInput #[0, 0, 1, .infinity] 2 0 (.ofInt 0) = .undefined := by
    decide +kernel
  have hframe : f.resultsAt #[.buffer #[0, 0, 1, .infinity]] [#[0, 0], #[0, 0]] 2 .initial 0 =
      [1, .undefined] := by
    have hcalls := Context.call_of_routine (f.context #[.buffer #[0, 0, 1, .infinity]] 2 0) hlink
    simp only [resultsAt, hstatements, Code.results, Code.run, hcalls]
    exact congrArg₂ (fun x y => [x, y]) hcurrent hread
  refine ⟨p, f, e', r, .undefined, hp, hcompile, hcall, ?_, ?_, rfl⟩
  · rw [hresults 0 (by rw [outputs, hstatements]; decide) 0, if_pos (by decide), hframe]
    rfl
  · rw [hresults 1 (by rw [outputs, hstatements]; decide) 0, if_pos (by decide), hframe]
    rfl

end Compiled

/-! ### Addresses in 32 bits -/

namespace Buffer

theorem toInt_add_of_nonneg {a b : Int32} (ha : 0 ≤ a.toInt) (hb : 0 ≤ b.toInt) : (a + b).toInt =
    if a.toInt + b.toInt < 2 ^ 31 then a.toInt + b.toInt else a.toInt + b.toInt - 2 ^ 32 := by
  have halt := a.toInt_lt
  have hblt := b.toInt_lt
  rw [Int32.toInt_add]
  split
  next => exact Int.bmod_eq_of_le (by simp; omega) (by simp; omega)
  next =>
    rw [← Int.sub_bmod_right]
    exact Int.bmod_eq_of_le (by simp; omega) (by simp; omega)

theorem readInput_of_wrapped (buffer : Array Sample) {frames : Int32} (h : 2 ^ 30 ≤ frames.toInt)
    (frame : Int32) (offset : Sample) : readInput buffer frames frame offset = 0 := by
  have hlt := frames.toInt_lt
  have hlength : inputLength frames ≤ 0 := by
    rw [Int32.le_iff_toInt_le, inputLength_eq, toInt_add_of_nonneg (by omega) (by omega),
      if_neg (by omega), Int32.toInt_zero]
    omega
  rw [readInput, interpolate, if_pos hlength]

end Buffer

namespace Compiled

/-- The length of an input history and the position in it are computed in 32 bits. In an accepted
call the length is twice the number of frames only below `2 ^ 30` frames, and the position is that
of the current frame only below `2 ^ 31`. Beyond, they are less by `2 ^ 32`, and so negative: reads
with an offset then give zero, whatever the history holds. -/
theorem input_addresses {f : Compiled} {outs : List (Array Sample)} {args : List Argument}
    {frames : Nat} {memory : Memory} {r : List (Array Sample) × Memory}
    (hcall : f.process outs args frames memory = .ok r) :
    ∃ slots, f.pack frames args = .ok slots ∧ ∀ i < frames,
      (Buffer.inputLength (f.context slots frames i).frames).toInt =
        (if frames < 2 ^ 30 then 2 * frames else 2 * frames - 2 ^ 32 : Int) ∧
      (Buffer.inputPosition (f.context slots frames i).frames
          (f.context slots frames i).frame).toInt =
        (if frames + i < 2 ^ 31 then frames + i else frames + i - 2 ^ 32 : Int) ∧
      (2 ^ 30 ≤ frames → ∀ samples offset, Buffer.readInput samples
        (f.context slots frames i).frames (f.context slots frames i).frame offset = 0) := by
  obtain ⟨⟨-, hmax, -⟩, slots, hpack, -⟩ := process_eq_ok_iff.mp hcall
  refine ⟨slots, hpack, fun i hi => ?_⟩
  obtain ⟨hcount, hframe⟩ := toInt_context f slots hmax hi
  refine ⟨?_, ?_, fun hlong samples offset => ?_⟩
  · rw [Buffer.inputLength_eq, Buffer.toInt_add_of_nonneg (by omega) (by omega), hcount]
    split <;> split <;> omega
  · rw [Buffer.inputPosition, Buffer.toInt_add_of_nonneg (by omega) (by omega), hcount, hframe]
    split <;> split <;> omega
  · exact Buffer.readInput_of_wrapped samples (by omega) _ offset

/-- In the last frame of the longest call whose addresses are exact, both are just below
`2 ^ 31`. -/
theorem input_addresses_longest :
    ∃ p f e' slots, Program.parse "$x1[0]" = .ok p ∧
      (Engine.new {}).compile p .sample = .ok (f, e') ∧
      f.pack (2 ^ 30 - 1) [.history (.silent (2 ^ 30 - 1))] = .ok slots ∧
      (Buffer.inputLength (f.context slots (2 ^ 30 - 1) (2 ^ 30 - 2)).frames).toInt = 2 ^ 31 - 2 ∧
      (Buffer.inputPosition (f.context slots (2 ^ 30 - 1) (2 ^ 30 - 2)).frames
        (f.context slots (2 ^ 30 - 1) (2 ^ 30 - 2)).frame).toInt = 2 ^ 31 - 3 := by
  obtain ⟨p, f, e', r, hp, hcompile, -, -, -, hcall⟩ :=
    exists_process_of_history (.silent (2 ^ 30 - 1)) (by decide : 2 ^ 30 - 1 ≤ maxFrames)
      (Array.size_replicate : (Array.replicate (2 ^ 30 - 1) (0 : Sample)).size = _)
  obtain ⟨slots, hpack, haddresses⟩ := input_addresses hcall
  obtain ⟨hlength, hposition, -⟩ := haddresses (2 ^ 30 - 2) (by decide : 2 ^ 30 - 2 < 2 ^ 30 - 1)
  refine ⟨p, f, e', slots, hp, hcompile, hpack, hlength.trans ?_, hposition.trans ?_⟩
  · decide
  · decide

/-- With one more frame the length is negative: a history of ones is read as zeros. -/
theorem input_length_wraps :
    ∃ p f e' r, Program.parse "$x1[0]" = .ok p ∧
      (Engine.new {}).compile p .sample = .ok (f, e') ∧
      f.process [Array.replicate (2 ^ 30) 0]
        [.history ⟨2 ^ 30, Array.replicate (2 * 2 ^ 30) 1, Array.size_replicate⟩] (2 ^ 30)
        .initial = .ok r ∧
      (Buffer.inputLength (Int32.ofNat (2 ^ 30))).toInt = -2 ^ 31 ∧
      ∀ i < 2 ^ 30, r.1[0]?.bind (·[i]?) = some 0 := by
  obtain ⟨p, f, e', r, hp, hcompile, hstatements, hlink, -, hcall⟩ :=
    exists_process_of_history ⟨2 ^ 30, Array.replicate (2 * 2 ^ 30) 1, Array.size_replicate⟩
      (by decide : 2 ^ 30 ≤ maxFrames)
      (Array.size_replicate : (Array.replicate (2 ^ 30) (0 : Sample)).size = _)
  refine ⟨p, f, e', r, hp, hcompile, hcall, by decide, fun i hi => ?_⟩
  obtain ⟨slots, -, hresults⟩ := getElem?_process hcall
  have hlong : 2 ^ 30 ≤ (f.context slots (2 ^ 30) i).frames.toInt := by
    rw [(toInt_context f slots (by decide) hi).1]
    rfl
  have hcalls := Context.call_of_routine (f.context slots (2 ^ 30) i) hlink
  rw [hresults 0 (by rw [outputs, hstatements]; decide) i, if_pos hi]
  simp only [resultsAt, hstatements, Code.results, Code.run, hcalls,
    Buffer.readInput_of_wrapped _ hlong]
  rfl

end Compiled

end SignalExpr
