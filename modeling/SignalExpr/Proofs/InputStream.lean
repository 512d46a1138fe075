import SignalExpr.Proofs.CallSafety
import SignalExpr.Proofs.FrameRuns
import SignalExpr.Proofs.SymbolResolution

/-!
Input histories along a stream. After each block that is pushed, a history holds the last two
blocks of the stream so far, with silence before its beginning. A read in a frame of a call then
finds the sample of the stream that lies the asked number of frames back.
-/

namespace SignalExpr

namespace Buffer

theorem sample_nat (buffer : Array Sample) (p : Nat) :
    sample buffer p = (buffer[p]?).getD 0 := by
  rw [sample, if_pos (Int.natCast_nonneg p), Int.toNat_natCast]

theorem sample_of_neg (buffer : Array Sample) {position : Int} (h : position < 0) :
    sample buffer position = 0 := by
  rw [sample, if_neg (by omega)]

theorem sample_append_left {a b : Array Sample} {position : Int} (h : position < a.size) :
    sample (a ++ b) position = sample a position := by
  rcases lt_or_ge position 0 with hneg | hpos
  · rw [sample_of_neg _ hneg, sample_of_neg _ hneg]
  · lift position to Nat using hpos
    rw [sample_nat, sample_nat, Array.getElem?_append_left (by omega)]

theorem sample_append_right (a b : Array Sample) (p : Nat) :
    sample (a ++ b) (a.size + p) = sample b p := by
  rw [← Int.natCast_add, sample_nat, sample_nat, Array.getElem?_append_right (by omega),
    Nat.add_sub_cancel_left]

theorem sample_foldl_append {stream : Array Sample} (blocks : List (Array Sample)) {position : Int}
    (h : position < stream.size) :
    sample (blocks.foldl (· ++ ·) stream) position = sample stream position := by
  induction blocks generalizing stream with
  | nil => rfl
  | cons block blocks ih =>
      rw [List.foldl_cons, ih (by rw [Array.size_append]; omega), sample_append_left h]

theorem size_foldl_append {frames : Nat} {blocks : List (Array Sample)} (stream : Array Sample)
    (h : ∀ block ∈ blocks, block.size = frames) :
    (blocks.foldl (· ++ ·) stream).size = stream.size + blocks.length * frames := by
  induction blocks generalizing stream with
  | nil => simp
  | cons block blocks ih =>
      obtain ⟨hblock, hblocks⟩ := List.forall_mem_cons.mp h
      rw [List.foldl_cons, ih _ hblocks, Array.size_append, hblock, List.length_cons, Nat.succ_mul]
      omega

/-- The stream that blocks make up. -/
def joined (blocks : List (Array Sample)) : Array Sample :=
  blocks.foldl (· ++ ·) #[]

theorem size_joined {frames : Nat} {blocks : List (Array Sample)}
    (h : ∀ block ∈ blocks, block.size = frames) :
    (joined blocks).size = blocks.length * frames := by
  rw [joined, size_foldl_append #[] h, Array.size_empty, Nat.zero_add]

theorem sample_joined_take (n : Nat) (blocks : List (Array Sample)) {position : Int}
    (h : position < (joined (blocks.take n)).size) :
    sample (joined (blocks.take n)) position = sample (joined blocks) position := by
  conv_rhs => rw [joined, ← List.take_append_drop n blocks, List.foldl_append]
  exact (sample_foldl_append _ h).symm

end Buffer

/-! ### Pushing blocks -/

namespace InputHistory

/-- The history holds the end of a stream that begins after silence. -/
def Follows (h : InputHistory) (stream : Array Sample) : Prop :=
  ∀ p < 2 * h.frames, Buffer.sample h.samples p =
    Buffer.sample stream (stream.size - 2 * h.frames + p)

theorem follows_silent (frames : Nat) : (silent frames).Follows #[] := by
  intro p hp
  rw [Buffer.sample_nat]
  simp only [silent] at hp ⊢
  rw [Buffer.sample_of_neg _ (by simp; omega), Array.getElem?_replicate, if_pos hp]
  rfl

theorem Follows.push {h : InputHistory} {stream block : Array Sample} (hfollows : h.Follows stream)
    (hblock : block.size = h.frames) :
    ∃ h', h.push block = .ok h' ∧ h'.frames = h.frames ∧ h'.Follows (stream ++ block) := by
  refine ⟨_, dif_pos hblock, rfl, fun p hp => ?_⟩
  change p < 2 * h.frames at hp
  change Buffer.sample (h.current ++ block) p =
    Buffer.sample (stream ++ block) ((stream ++ block).size - 2 * h.frames + p)
  rw [Array.size_append, hblock]
  rcases Nat.lt_or_ge p h.frames with hprevious | hcurrent
  · have hshift : Buffer.sample h.current p = Buffer.sample h.samples (h.frames + p : Nat) := by
      rw [Buffer.sample_nat, Buffer.sample_nat, current, Array.getElem?_extract,
        if_pos (by rw [h.size_samples]; omega)]
    rw [Buffer.sample_append_left (by rw [size_current]; omega), hshift,
      hfollows _ (by omega), Buffer.sample_append_left (by omega)]
    congr 1
    omega
  · obtain ⟨q, rfl⟩ := Nat.exists_eq_add_of_le hcurrent
    have hold : ((h.frames + q : Nat) : Int) = h.current.size + q := by
      rw [size_current]
      omega
    have hnew : ((stream.size + h.frames : Nat) : Int) - 2 * h.frames + (h.frames + q : Nat) =
        stream.size + q := by
      omega
    rw [hnew, hold, Buffer.sample_append_right, Buffer.sample_append_right]

theorem Follows.pushes {blocks : List (Array Sample)} {h : InputHistory} {stream : Array Sample}
    (hfollows : h.Follows stream) (hblocks : ∀ block ∈ blocks, block.size = h.frames) :
    ∃ h', blocks.foldlM InputHistory.push h = .ok h' ∧ h'.frames = h.frames ∧
      h'.Follows (blocks.foldl (· ++ ·) stream) := by
  induction blocks generalizing h stream with
  | nil => exact ⟨h, rfl, rfl, hfollows⟩
  | cons block blocks ih =>
      obtain ⟨hblock, hblocks⟩ := List.forall_mem_cons.mp hblocks
      obtain ⟨h₁, hpush, hframes, hfollows⟩ := hfollows.push hblock
      rw [← hframes] at hblocks ⊢
      obtain ⟨h₂, hpushes, hrest⟩ := ih hfollows hblocks
      exact ⟨h₂, by rw [List.foldlM_cons, hpush]; exact hpushes, hrest⟩

theorem exists_pushes {frames : Nat} {blocks : List (Array Sample)}
    (hblocks : ∀ block ∈ blocks, block.size = frames) {c : Nat} (hc : c < blocks.length) :
    ∃ h, (blocks.take (c + 1)).foldlM InputHistory.push (.silent frames) = .ok h ∧
      h.frames = frames ∧ ∀ p < 2 * h.frames, Buffer.sample h.samples p =
        Buffer.sample (Buffer.joined blocks) (c * frames - frames + p) := by
  have htaken : ∀ block ∈ blocks.take (c + 1), block.size = frames :=
    fun block hmem => hblocks block (List.mem_of_mem_take hmem)
  have hsize := Buffer.size_joined htaken
  rw [List.length_take_of_le hc, Nat.succ_mul] at hsize
  obtain ⟨h, hpushes, hframes, hfollows⟩ := (follows_silent frames).pushes htaken
  change h.frames = frames at hframes
  refine ⟨h, hpushes, hframes, fun p hp => ?_⟩
  have hstart : ((Buffer.joined (blocks.take (c + 1))).size : Int) - 2 * h.frames + p =
      c * frames - frames + p := by
    rw [hsize, hframes]
    push_cast
    omega
  have hsample := hfollows p hp
  change _ = Buffer.sample (Buffer.joined (blocks.take (c + 1)))
    ((Buffer.joined (blocks.take (c + 1))).size - 2 * h.frames + p) at hsample
  rw [hsample, hstart]
  refine Buffer.sample_joined_take (c + 1) blocks ?_
  rw [hsize]
  push_cast
  omega

end InputHistory

/-! ### Whole offsets -/

theorem Buffer.isWhole_historyIndex {frames frame : Int32} {latest offset : Sample} {d : Nat}
    (hframe : 0 ≤ frame.toInt) (hlt : frame.toInt < frames.toInt) (hframes : frames.toInt ≤ 2 ^ 23)
    (hlatest : latest.isNaN = false) (hlow : -d * 2 ^ 149 ≤ latest.quanta)
    (hhigh : latest.quanta ≤ 0) (hoffset : offset.isNaN = false)
    (hquanta : offset.quanta = -d * 2 ^ 149) (hd : d ≤ frames.toInt) :
    (historyIndex frames frame latest offset).IsWhole (frames.toInt + frame.toInt - d) := by
  have happroximates :=
    approximates_historyIndex hframe hlt hframes hlatest (by omega) hhigh hoffset
  have hexact : (frames.toInt + frame.toInt) * 2 ^ 149 +
      min (max offset.quanta (-frames.toInt * 2 ^ 149)) latest.quanta =
      (frames.toInt + frame.toInt - d) * 2 ^ 149 := by
    rw [hquanta]
    omega
  rw [hexact] at happroximates
  exact ⟨happroximates.finite, happroximates.quanta_eq (Sample.representable_whole (by omega))⟩

theorem Buffer.neighbours_of_isWhole {index : Sample} {n : Int} (h : index.IsWhole n) (hpos : 0 ≤ n)
    (hlt : n < 2 ^ 62) (length : Int32) :
    (neighbours index length).1 = n % length.toInt ∧
      (neighbours index length).2.1 = (n + 1) % length.toInt ∧
      (neighbours index length).2.2.isZero = true := by
  obtain ⟨hfinite, hquanta⟩ := h
  obtain ⟨hfirst, hsecond, hweighs, hweight⟩ :=
    neighbours_exact hfinite (by omega) (by omega) length
  rw [hquanta, Int.mul_ediv_cancel _ (by decide)] at hfirst hsecond
  refine ⟨hfirst, hsecond, ?_⟩
  rw [Sample.isZero_iff hweighs, hweight, hquanta, Int.mul_emod_left]

/-- The code is a read of an input history that interpolates from a sample, without any weight on
the other neighbour. -/
def Code.TakesInput (ctx : Context) (m : Machine) (j : Nat) (x : Sample) (c : Code) : Prop :=
  ∃ offset, c.accesses ctx m = [.inputAt j offset] ∧
    (Access.inputCells ctx offset).2.2.isZero = true ∧
    Buffer.sample (ctx.buffer j) (Access.inputCells ctx offset).1 = x ∧
    c.run ctx m = ctx.call .arrayRead [Buffer.historyIndex ctx.frames ctx.frame 0 offset] m
      (Buffer.sample (ctx.buffer j) (Access.inputCells ctx offset).2.1 *
          (Access.inputCells ctx offset).2.2 + x * (1 - (Access.inputCells ctx offset).2.2), m)

section Frame

variable {h : InputHistory} {stream : Array Sample} {start : Int} {ctx : Context} {i j : Nat}

theorem Code.run_input
    (hsamples : ∀ p < 2 * h.frames, Buffer.sample h.samples p = Buffer.sample stream (start + p))
    (hbuffer : ctx.buffer j = h.samples) (hframes : ctx.frames.toInt = h.frames)
    (hframe : ctx.frame.toInt = i) (hi : i < h.frames) (hsmall : h.frames ≤ 2 ^ 23) (m : Machine) :
    (input j).run ctx m = (Buffer.sample stream (start + h.frames + i), m) := by
  have hposition : (Buffer.inputPosition ctx.frames ctx.frame).toInt = (h.frames + i : Nat) := by
    rw [Buffer.toInt_inputPosition (by omega) (by omega) (by omega)]
    omega
  rw [run, hbuffer, hposition, hsamples _ (by omega), Int.natCast_add, Int.add_assoc]

theorem Code.takesInput {d : Nat}
    (hsamples : ∀ p < 2 * h.frames, Buffer.sample h.samples p = Buffer.sample stream (start + p))
    (hbuffer : ctx.buffer j = h.samples) (hframes : ctx.frames.toInt = h.frames)
    (hframe : ctx.frame.toInt = i) (hi : i < h.frames) (hsmall : h.frames ≤ 2 ^ 23)
    (hd : d ≤ h.frames) (m : Machine) :
    (inputAt j (.unary .negate (.const (Sample.ofInt d)))).TakesInput ctx m j
      (Buffer.sample stream (start + h.frames + i - d)) := by
  obtain ⟨hnan, hquanta⟩ := Sample.neg_ofInt_exact (n := d) (by omega)
  have hwhole := Buffer.isWhole_historyIndex
    (hframe.symm ▸ Int.natCast_nonneg i) (by omega : ctx.frame.toInt < ctx.frames.toInt) (by omega)
    (rfl : (0 : Sample).isNaN = false) (by rw [Sample.quanta_zero]; omega)
    (by rw [Sample.quanta_zero]) hnan hquanta (by omega)
  obtain ⟨hcell, -, hweight⟩ := Buffer.neighbours_of_isWhole hwhole (by omega) (by omega)
    (Buffer.inputLength ctx.frames)
  have hlength := Buffer.toInt_inputLength (by omega : 0 ≤ ctx.frames.toInt) (by omega)
  have hposition : (Access.inputCells ctx (-Sample.ofInt d)).1 = (h.frames + i - d : Nat) := by
    rw [Access.inputCells, hcell, hlength, Int.emod_eq_of_lt (by omega) (by omega)]
    omega
  have hsample : Buffer.sample (ctx.buffer j) (Access.inputCells ctx (-Sample.ofInt d)).1 =
      Buffer.sample stream (start + h.frames + i - d) := by
    rw [hbuffer, hposition, hsamples _ (by omega)]
    congr 1
    omega
  have hread : Buffer.readInput (ctx.buffer j) ctx.frames ctx.frame (-Sample.ofInt d) = _ :=
    Buffer.interpolate_eq _ _ (by omega)
  refine ⟨-Sample.ofInt d, rfl, hweight, hsample, ?_⟩
  show Context.call _ _ _ _ (Buffer.readInput (ctx.buffer j) _ _ (-Sample.ofInt d), m) = _
  rw [hread, ← hsample]
  rfl

end Frame

theorem Context.buffer_of_slot {ctx : Context} {i : Nat} {samples : Array Sample}
    (h : ctx.slots[i]? = some (.buffer samples)) : ctx.buffer i = samples := by
  rw [buffer, h]

theorem Argument.eq_buffer_of_slot? {frames : Nat} {kind : VariableKind} {h : InputHistory}
    {slot : Slot} (hfits : (history h).slot? frames kind = some slot) : slot = .buffer h.samples := by
  cases kind with
  | input => exact (Option.some.inj (Option.ite_none_right_eq_some.mp hfits).2).symm
  | _ => cases hfits

namespace Compiled

theorem buffer_of_history {f : Compiled} {args : List Argument} {frames : Nat}
    {slots : Array Slot} (hpack : f.pack frames args = .ok slots) {j : Nat} {h : InputHistory}
    (harg : args[j]? = some (.history h)) (frame : Nat) :
    (f.context slots frames frame).buffer j = h.samples := by
  obtain ⟨hlength, -⟩ := pack_eq_ok_iff.mp hpack
  obtain ⟨hj, -⟩ := List.getElem?_eq_some_iff.mp harg
  obtain ⟨arg, slot, harg', hslot, hfits⟩ :=
    exists_slot_of_pack hpack (List.getElem?_eq_getElem (hlength ▸ hj))
  rw [harg] at harg'
  cases harg'
  cases Argument.eq_buffer_of_slot? hfits
  exact Context.buffer_of_slot hslot

/-- Blocks that are pushed one after the other make up a stream. In a call after block `c`, frame
`i` reads number `c * frames + i` of the stream, and with an offset the number that lies as many
frames back; before its beginning, silence. This is also what a statement gives that is the read. -/
theorem input_reads_stream {frames : Nat} {blocks : List (Array Sample)} (hframes : frames ≤ 2 ^ 23)
    (hblocks : ∀ block ∈ blocks, block.size = frames) {c : Nat} (hc : c < blocks.length) :
    ∃ h, (blocks.take (c + 1)).foldlM InputHistory.push (.silent frames) = .ok h ∧
      ∀ (f : Compiled) outs args memory r, f.process outs args frames memory = .ok r →
        ∃ slots, f.pack frames args = .ok slots ∧
          ∀ i < frames, ∀ j : Nat, args[j]? = some (.history h) →
            (∃ code, Lower.expr .sample (.var ⟨.input, j⟩) = .ok code ∧
              (∀ m, code.accesses (f.context slots frames i) m = [.input j] ∧
                code.run (f.context slots frames i) m =
                  (Buffer.sample (Buffer.joined blocks) (c * frames + i), m)) ∧
              ∀ s : Nat, f.statements[s]? = some code → r.1[s]?.bind (·[i]?) =
                some (Buffer.sample (Buffer.joined blocks) (c * frames + i))) ∧
            ∀ d ≤ frames, ∃ code,
              Lower.expr .sample (.history ⟨.input, j⟩ (.unary .negate (.int d))) = .ok code ∧
              (∀ m, code.TakesInput (f.context slots frames i) m j
                (Buffer.sample (Buffer.joined blocks) (c * frames + i - d))) ∧
              ∀ s : Nat, f.statements[s]? = some code → ∃ m,
                r.1[s]?.bind (·[i]?) = some (code.run (f.context slots frames i) m).1 := by
  obtain ⟨h, hpushes, rfl, hsamples⟩ := InputHistory.exists_pushes hblocks hc
  refine ⟨h, hpushes, fun f outs args memory r hcall => ?_⟩
  obtain ⟨⟨-, hmax, -⟩, slots, hpack, -⟩ := process_eq_ok_iff.mp hcall
  refine ⟨slots, hpack, fun i hi j harg => ?_⟩
  obtain ⟨hcount, hframe⟩ := toInt_context f slots hmax hi
  have hbuffer := buffer_of_history hpack harg i
  constructor
  · have hrun := Code.run_input hsamples hbuffer hcount hframe hi hframes
    rw [Int.sub_add_cancel] at hrun
    refine ⟨.input j, rfl, fun m => ⟨rfl, hrun m⟩, fun s hs => ?_⟩
    obtain ⟨m, hresult⟩ := exists_run_of_process hcall hpack hs hi
    rw [hresult, hrun m]
  · intro d hd
    have htakes := Code.takesInput hsamples hbuffer hcount hframe hi hframes hd
    rw [Int.sub_add_cancel] at htakes
    exact ⟨_, rfl, htakes, fun s hs => exists_run_of_process hcall hpack hs hi⟩

/-- In the first frame after the second block, one frame back is the end of the first block. -/
theorem input_reads_stream_across_blocks :
    ∃ p f e' h slots r code, Program.parse "$x1[-1]" = .ok p ∧
      (Engine.new {}).compile p .sample = .ok (f, e') ∧
      [#[1, 2], #[3, 4]].foldlM InputHistory.push (.silent 2) = .ok h ∧
      f.pack 2 [.history h] = .ok slots ∧
      f.process [#[0, 0]] [.history h] 2 .initial = .ok r ∧ f.statements = [code] ∧
      (∀ m, code.TakesInput (f.context slots 2 0) m 0 2) ∧ r.1[0]?.bind (·[0]?) = some 2 := by
  have hparse : ((Program.parse "$x1[-1]").map fun p => (p.trees, p.inputs)).toOption =
      some ([.history ⟨.input, 0⟩ (.unary .negate (.int 1))], [⟨.input, 0⟩]) := by
    cbv
  have hblocks : ∀ block ∈ ([#[1, 2], #[3, 4]] : List (Array Sample)), block.size = 2 := by
    decide
  obtain ⟨h, hpushes, hreads⟩ := input_reads_stream (by decide) hblocks (c := 1) (by decide)
  have hpushed : (⟨2, #[1, 2, 3, 4], rfl⟩ : InputHistory) = h := Except.ok.inj hpushes
  subst hpushed
  have hslots : packFrom 2 0 [⟨.input, 0⟩] [.history ⟨2, #[1, 2, 3, 4], rfl⟩] =
      .ok [.buffer #[1, 2, 3, 4]] := rfl
  obtain ⟨p, f, e', r, hp, hcompile, hstatements, hpack, hcall⟩ :=
    exists_process_of_trees .sample (by decide) hparse (by decide) rfl rfl hslots (by decide)
      [#[0, 0]] rfl (by decide) .initial
  obtain ⟨slots, hslots, hreads⟩ := hreads f _ _ _ r hcall
  obtain rfl := Except.ok.inj (hpack.symm.trans hslots)
  obtain ⟨code, hcode, htakes, hresults⟩ := (hreads 0 (by decide) 0 rfl).2 1 (by decide)
  obtain rfl := Except.ok.inj hcode
  refine ⟨p, f, e', _, _, r, _, hp, hcompile, hpushes, hpack, hcall, hstatements, htakes, ?_⟩
  have hlink : f.links.get? Routine.arrayRead.link = some (.routine .arrayRead) :=
    (Engine.get?_links_of_new hcompile hstatements (by decide)).trans rfl
  have hread : Buffer.readInput #[1, 2, 3, 4] 2 0 (-Sample.ofInt 1) = 2 := by
    decide +kernel
  obtain ⟨m, hresult⟩ := hresults 0 (by rw [hstatements]; rfl)
  rw [hresult, Code.run, Context.call_of_routine _ hlink]
  exact congrArg some hread

end Compiled

end SignalExpr
