import SignalExpr.Proofs.CallSafety
import SignalExpr.Proofs.SymbolResolution

/-!
Reads of outputs. A read interpolates between two cells of the ring that the statement itself
writes, and the cell of the current frame is overwritten when its statement is done. Offsets stop
one frame before the current one, but the ring closes behind them: a whole block back lies the
current frame again.
-/

namespace SignalExpr

theorem Sample.isZero_of_isNaN {x : Sample} (h : x.isNaN = true) : x.isZero = false := by
  rw [isNaN, decide_eq_true_iff, UInt32.lt_iff_toNat_lt] at h
  rw [isZero, beq_eq_false_iff_ne]
  rintro hzero
  rw [hzero] at h
  exact absurd h (by decide)

namespace Buffer

variable {frames frame : Int32}

/-- The interpolation between two cells gives weight to the sample at a position. -/
def Weighs (cells : Int × Int × Sample) (position : Int) : Prop :=
  (cells.1 = position ∧ (1 - cells.2.2).isZero = false) ∨
    (cells.2.1 = position ∧ cells.2.2.isZero = false)

theorem emod_ring {w i n : Int} (hi : 0 ≤ i) (hlow : i ≤ w) (hhigh : w < i + n) (hlt : i < n) :
    w % n = if w < n then w else w - n := by
  split
  next h => exact Int.emod_eq_of_lt (by omega) h
  next h =>
    rw [← Int.sub_emod_right, Int.emod_eq_of_lt (by omega) (by omega)]

theorem quanta_neg_one : (-1 : Sample).quanta = -2 ^ 149 := by
  rw [Sample.quanta_neg, Sample.quanta_one]

theorem isNaN_neg_one : (-1 : Sample).isNaN = false := by
  rw [Sample.isNaN_neg]
  exact Sample.finite_one.isNaN_eq_false

theorem outputIndex_bounds {offset : Sample} (hframe : 0 ≤ frame.toInt)
    (hlt : frame.toInt < frames.toInt) (hframes : frames.toInt ≤ 2 ^ 23)
    (hoffset : offset.isNaN = false) :
    (historyIndex frames frame (-1) offset).Approximates ((frames.toInt + frame.toInt) * 2 ^ 149 +
        min (max offset.quanta (-frames.toInt * 2 ^ 149)) (-2 ^ 149)) ∧
      frame.toInt * 2 ^ 149 ≤ (historyIndex frames frame (-1) offset).quanta ∧
      (historyIndex frames frame (-1) offset).quanta ≤
        (frames.toInt + frame.toInt - 1) * 2 ^ 149 := by
  have happroximates := approximates_historyIndex hframe hlt hframes isNaN_neg_one
    (by rw [quanta_neg_one]; omega) (by rw [quanta_neg_one]; omega) hoffset
  rw [quanta_neg_one] at happroximates
  refine ⟨happroximates, ?_, ?_⟩
  · exact (happroximates.near _ (Sample.representable_whole (by omega))).1 (by omega)
  · exact (happroximates.near _ (Sample.representable_whole (by omega))).2 (by omega)

theorem weighs_current_iff {offset : Sample} (hframe : 0 ≤ frame.toInt)
    (hlt : frame.toInt < frames.toInt) (hframes : frames.toInt ≤ 2 ^ 23)
    (hoffset : offset.isNaN = false) :
    Weighs (neighbours (historyIndex frames frame (-1) offset) frames) frame.toInt ↔
      historyIndex frames frame (-1) offset < Sample.ofInt (frame.toInt + 1) := by
  obtain ⟨happroximates, hlow, hhigh⟩ := outputIndex_bounds hframe hlt hframes hoffset
  have hfinite := happroximates.finite
  generalize historyIndex frames frame (-1) offset = index at hlow hhigh hfinite ⊢
  obtain ⟨hfirst, hsecond, hweight, hfraction⟩ := neighbours_exact hfinite (by omega) (by omega) frames
  have hnext := Sample.finite_ofInt (n := frame.toInt + 1) (by omega)
  rw [Sample.lt_iff_quanta_lt hfinite.isNaN_eq_false hnext.isNaN_eq_false,
    Sample.quanta_ofInt (by omega), Weighs, hfirst, hsecond,
    emod_ring hframe (by omega) (by omega) hlt]
  have hrest : (1 - (neighbours index frames).2.2).isZero = false :=
    Sample.isZero_one_sub hweight (by omega) (by omega)
  have hzero : (neighbours index frames).2.2.isZero = false ↔ index.quanta % 2 ^ 149 ≠ 0 := by
    rw [← hfraction, ← Bool.not_eq_true, Sample.isZero_iff hweight]
  rw [hzero, and_iff_left hrest]
  constructor
  · rintro (hcell | ⟨hcell, hpart⟩)
    · split at hcell <;> omega
    · -- The second cell is the current one only at the upper end, where it has no weight.
      exfalso
      rcases lt_or_ge (index.quanta / 2 ^ 149 + 1) (frames.toInt + frame.toInt) with hinner | hend
      · rw [emod_ring hframe (by omega) (by omega) hlt] at hcell
        split at hcell <;> omega
      · omega
  · intro hbelow
    left
    rw [if_pos (by omega)]
    omega

theorem isNaN_historyIndex (frames frame : Int32) (latest : Sample) {offset : Sample}
    (hoffset : offset.isNaN = true) :
    (historyIndex frames frame latest offset).isNaN = true := by
  have hclamp : (offset.strictGreater (-Sample.ofInt frames.toInt)).strictLesser latest = offset := by
    rw [Sample.strictGreater, if_pos hoffset, Sample.strictLesser, if_pos hoffset]
  rw [historyIndex, hclamp]
  show (Sample.map₂ _ _ _).isNaN = true
  rw [Sample.map₂]
  split
  next h => exact h
  next => exact hoffset

theorem neighbours_of_isNaN {index : Sample} (h : index.isNaN = true) (length : Int32) :
    neighbours index length = (0, 1 % length.toInt, index) := by
  have hcell : index.toInt64 = 0 := by
    rw [Sample.toInt64, Sample.unpack_of_isNaN h]
    rfl
  have hweight : index - index = index := by
    show Sample.map₂ _ index index = index
    rw [Sample.map₂, if_pos h]
  rw [neighbours, Sample.floor_of_isNaN h, hcell, hweight]
  exact congrArg (·, _) (Int.zero_emod _)

theorem weighs_current_of_isNaN {offset : Sample} (hframe : 0 ≤ frame.toInt)
    (hlt : frame.toInt < frames.toInt) (hoffset : offset.isNaN = true) :
    Weighs (neighbours (historyIndex frames frame (-1) offset) frames) frame.toInt ↔
      frame.toInt ≤ 1 := by
  have hindex := isNaN_historyIndex frames frame (-1) hoffset
  generalize historyIndex frames frame (-1) offset = index at hindex ⊢
  have hweight : index.isZero = false := Sample.isZero_of_isNaN hindex
  have hrest : 1 - index = index := by
    show Sample.map₂ _ 1 index = index
    rw [Sample.map₂, if_neg (by simp [Sample.finite_one.isNaN_eq_false]), if_pos hindex]
  rw [Weighs, neighbours_of_isNaN hindex, hrest, hweight]
  simp only [and_true]
  rcases lt_or_ge 1 frames.toInt with hmany | hone
  · rw [Int.emod_eq_of_lt (by decide) hmany]
    omega
  · omega

theorem weighs_current_of_le {offset : Sample} (hframe : 0 ≤ frame.toInt)
    (hlt : frame.toInt < frames.toInt) (hframes : frames.toInt ≤ 2 ^ 23)
    (hoffset : offset.isNaN = false)
    (h : frames.toInt = 1 ∨ ¬ Sample.ofInt (-frames.toInt) < offset) :
    Weighs (neighbours (historyIndex frames frame (-1) offset) frames) frame.toInt := by
  obtain ⟨happroximates, -, -⟩ := outputIndex_bounds hframe hlt hframes hoffset
  have hnext := Sample.finite_ofInt (n := frame.toInt + 1) (by omega)
  have hlow := Sample.finite_ofInt (n := -frames.toInt) (by omega)
  rw [Sample.lt_iff_quanta_lt hlow.isNaN_eq_false hoffset, Sample.quanta_ofInt (by omega)] at h
  rw [weighs_current_iff hframe hlt hframes hoffset,
    Sample.lt_iff_quanta_lt happroximates.finite.isNaN_eq_false hnext.isNaN_eq_false,
    Sample.quanta_ofInt (by omega)]
  have hindex := (happroximates.near _ (Sample.representable_whole
    (by omega : frame.toInt.natAbs ≤ 2 ^ 24))).2 (by omega)
  omega

theorem not_weighs_current_of_ge {offset : Sample} (hframe : 0 ≤ frame.toInt)
    (hlt : frame.toInt < frames.toInt) (hframes : frames.toInt ≤ 2 ^ 23)
    (hoffset : offset.isNaN = false) (hmany : 2 ≤ frames.toInt)
    (h : ¬ offset < Sample.ofInt (1 - frames.toInt)) :
    ¬ Weighs (neighbours (historyIndex frames frame (-1) offset) frames) frame.toInt := by
  obtain ⟨happroximates, -, -⟩ := outputIndex_bounds hframe hlt hframes hoffset
  have hnext := Sample.finite_ofInt (n := frame.toInt + 1) (by omega)
  have hlow := Sample.finite_ofInt (n := 1 - frames.toInt) (by omega)
  rw [Sample.lt_iff_quanta_lt hoffset hlow.isNaN_eq_false, Sample.quanta_ofInt (by omega)] at h
  rw [weighs_current_iff hframe hlt hframes hoffset,
    Sample.lt_iff_quanta_lt happroximates.finite.isNaN_eq_false hnext.isNaN_eq_false,
    Sample.quanta_ofInt (by omega)]
  have hindex := (happroximates.near _ (Sample.representable_whole
    (by omega : (frame.toInt + 1).natAbs ≤ 2 ^ 24))).1 (by omega)
  omega

end Buffer

/-! ### Reads of outputs -/

/-- What a read of an output gives: the samples of its two cells by their weights. -/
def Access.outputValue (ctx : Context) (m : Machine) (k : Nat) (offset : Sample) : Sample :=
  Buffer.sample (m.output k) (outputCells ctx offset).2.1 * (outputCells ctx offset).2.2 +
    Buffer.sample (m.output k) (outputCells ctx offset).1 * (1 - (outputCells ctx offset).2.2)

/-- Reads of outputs give what their cells weigh, unless something else is linked to reads. -/
def Code.ReadsCells (ctx : Context) : Prop :=
  ∀ k (offset : Code) m, (outputAt k offset).run ctx m =
    ctx.call .arrayRead [Buffer.historyIndex ctx.frames ctx.frame (-1) (offset.run ctx m).1]
      (offset.run ctx m).2
      (Access.outputValue ctx (offset.run ctx m).2 k (offset.run ctx m).1, (offset.run ctx m).2)

theorem Code.readsCells {ctx : Context} (hframes : 0 < ctx.frames.toInt) : ReadsCells ctx := by
  intro k offset m
  rw [run, Buffer.readOutput, Buffer.interpolate_eq _ _ hframes]
  rfl

/-- A read of an output gives weight to a sample that its frame has stored before. -/
def Access.ReadsStored (ctx : Context) (before : List Access) (k : Nat) (offset : Sample) : Prop :=
  ∃ position, .store k position ∈ before ∧ Buffer.Weighs (outputCells ctx offset) position

theorem SymbolRef.uses_true (t : SymbolRef) : t.Uses fun _ => True := by
  cases t <;> trivial

theorem Code.uses_true (c : Code) : c.Uses fun _ => True := by
  induction c with
  | _ => simp_all [Uses, SymbolRef.uses_true]

theorem Code.position_of_store {ctx : Context} {statements : List Code} {m : Machine} {k : Nat}
    {position : Int} (h : .store k position ∈ frameAccesses ctx statements m) :
    position = ctx.frame.toInt := by
  rcases mem_statementAccesses h with ⟨c, -, m', hmem⟩ | ⟨j, heq, -⟩
  · exact (c.uses_true.accesses m' _ hmem).elim
  · cases heq
    rfl

namespace Compiled

section Reads

variable {f : Compiled} {slots : Array Slot} {outs : List (Array Sample)} {frames i k : Nat}
  {memory : Memory} {before after : List Access} {offset : Sample}

theorem readsStored_iff (hframes : frames ≤ maxFrames) (hi : i < frames)
    (hlog : f.accessesAt slots outs frames memory i = before ++ .outputAt k offset :: after) :
    Access.ReadsStored (f.context slots frames i) before k offset ↔ .store k i ∈ before ∧
      Buffer.Weighs (Access.outputCells (f.context slots frames i) offset) i := by
  constructor
  · rintro ⟨position, hmem, hweighs⟩
    have hposition : position = i := by
      rw [← (toInt_context f slots hframes hi).2]
      apply Code.position_of_store
      show _ ∈ f.accessesAt slots outs frames memory i
      rw [hlog]
      exact List.mem_append_left _ hmem
    subst hposition
    exact ⟨hmem, hweighs⟩
  · rintro ⟨hmem, hweighs⟩
    exact ⟨i, hmem, hweighs⟩

/-- A read of an output gives weight to a sample of its own frame only if the frame has stored one
already. In a call of up to `2 ^ 23` frames it then does so exactly if its index, rounded, is below
the next frame, or for an offset that is not a number in the first two frames. This is so for
offsets a whole block back and for a single frame, and for no other offset that is whole. Reads give
what their cells weigh, the log tells all that the frames depend on, and the buffers hold their
results. -/
theorem output_reads_stored {args : List Argument} {r : List (Array Sample) × Memory}
    (hcall : f.process outs args frames memory = .ok r) :
    ∃ slots, f.pack frames args = .ok slots ∧
      (∀ i < frames, ∀ before k offset after,
        f.accessesAt slots outs frames memory i = before ++ .outputAt k offset :: after →
        (Access.ReadsStored (f.context slots frames i) before k offset → .store k i ∈ before) ∧
        (frames ≤ 2 ^ 23 → .store k i ∈ before →
          (Access.ReadsStored (f.context slots frames i) before k offset ↔
            if offset.isNaN then i ≤ 1
            else Buffer.historyIndex (f.context slots frames i).frames
              (f.context slots frames i).frame (-1) offset < Sample.ofInt (i + 1)) ∧
          (offset.isNaN = false → frames = 1 ∨ ¬ Sample.ofInt (-frames) < offset →
            Access.ReadsStored (f.context slots frames i) before k offset) ∧
          (offset.isNaN = false → 2 ≤ frames → ¬ offset < Sample.ofInt (1 - frames) →
            ¬ Access.ReadsStored (f.context slots frames i) before k offset))) ∧
      (∀ i < frames, Code.ReadsCells (f.context slots frames i) ∧
        Code.LogsAll (f.context slots frames i) f.statements
          (f.machineAt slots outs frames memory i)) ∧
      f.HoldsResults slots outs frames memory r.1 := by
  obtain ⟨⟨-, hmax, -⟩, -⟩ := process_eq_ok_iff.mp hcall
  obtain ⟨slots, hpack, hsamples⟩ := getElem?_process hcall
  refine ⟨slots, hpack, fun i hi before k offset after hlog => ?_, fun i hi =>
    ⟨Code.readsCells ?_, Code.logsAll _ _ _⟩, hsamples⟩
  · obtain ⟨hcount, hframe⟩ := toInt_context f slots hmax hi
    rw [readsStored_iff hmax hi hlog, ← hframe]
    refine ⟨And.left, fun hframes hmem => ?_⟩
    rw [and_iff_right hmem]
    have hnonneg : 0 ≤ (f.context slots frames i).frame.toInt := by omega
    have hlt : (f.context slots frames i).frame.toInt <
        (f.context slots frames i).frames.toInt := by
      omega
    have hsmall : (f.context slots frames i).frames.toInt ≤ 2 ^ 23 := by omega
    refine ⟨?_, fun hnumber hback => ?_, fun hnumber hmany hoffset => ?_⟩
    · split
      next hnan => exact (Buffer.weighs_current_of_isNaN hnonneg hlt hnan).trans (by omega)
      next hnumber => exact Buffer.weighs_current_iff hnonneg hlt hsmall (by simpa using hnumber)
    · refine Buffer.weighs_current_of_le hnonneg hlt hsmall hnumber ?_
      rw [hcount]
      exact_mod_cast hback
    · refine Buffer.not_weighs_current_of_ge hnonneg hlt hsmall hnumber (by omega) ?_
      rwa [hcount]
  · rw [(toInt_context f slots hmax hi).1]
    omega

end Reads

theorem results_of_feedback {f : Compiled} {c : Code} (offset : Sample) {x y : Sample}
    {r : List (Array Sample) × Memory} (hstatements : f.statements = [.number 0, .outputAt 0 c])
    (hlink : f.links.get? Routine.arrayRead.link = some (.routine .arrayRead))
    (hpack : f.pack 2 [.number 7] = .ok #[.number 7])
    (hcall : f.process [#[5, 6], #[0, 0]] [.number 7] 2 .initial = .ok r)
    (hc : ∀ ctx m, c.run ctx m = (offset, m)) (hx : Buffer.readOutput #[7, 6] 2 0 offset = x)
    (hy : Buffer.readOutput #[7, 7] 2 1 offset = y) : r.1 = [#[7, 7], #[x, y]] := by
  have hfirst : f.machineAt #[.number 7] [#[5, 6], #[0, 0]] 2 .initial 1 =
      ⟨.initial, #[#[7, 6], #[x, 0]]⟩ := by
    rw [machineAt_succ, Code.runFrame, hstatements]
    simp only [Code.runStatements, Code.run, hc, Context.call_of_routine (f.context _ 2 0) hlink]
    exact congrArg (fun x => (⟨.initial, #[#[7, 6], #[x, 0]]⟩ : Machine)) hx
  have hsecond : f.machineAt #[.number 7] [#[5, 6], #[0, 0]] 2 .initial 2 =
      ⟨.initial, #[#[7, 7], #[x, y]]⟩ := by
    rw [machineAt_succ, Code.runFrame, hstatements, hfirst]
    simp only [Code.runStatements, Code.run, hc, Context.call_of_routine (f.context _ 2 1) hlink]
    exact congrArg (fun y => (⟨.initial, #[#[7, 7], #[x, y]]⟩ : Machine)) hy
  obtain ⟨-, slots, hslots, rfl⟩ := process_eq_ok_iff.mp hcall
  obtain rfl := Except.ok.inj (hpack.symm.trans hslots)
  exact congrArg (·.outputs.toList) hsecond

/-- Of two frames, the second reads what the first has stored. -/
theorem output_reads_stored_bare :
    ∃ p f e' r, Program.parse "$f1, $y1" = .ok p ∧
      (Engine.new {}).compile p .sample = .ok (f, e') ∧
      f.accessesAt #[.number 7] [#[5, 6], #[0, 0]] 2 .initial 1 =
        [.number 0, .store 0 1] ++ .outputAt 0 (-1) :: [.store 1 1] ∧
      ¬ Access.ReadsStored (f.context #[.number 7] 2 1) [.number 0, .store 0 1] 0 (-1) ∧
      f.process [#[5, 6], #[0, 0]] [.number 7] 2 .initial = .ok r ∧ r.1 = [#[7, 7], #[6, 7]] := by
  have hparse : ((Program.parse "$f1, $y1").map fun p => (p.trees, p.inputs)).toOption =
      some ([.var ⟨.float, 0⟩, .var ⟨.output, 0⟩], [⟨.float, 0⟩]) := by
    cbv
  have hslots : packFrom 2 0 [⟨.float, 0⟩] [.number 7] = .ok [.number 7] := rfl
  have hlowered : [Expr.var ⟨.float, 0⟩, .var ⟨.output, 0⟩].mapM (Lower.expr .sample) =
      .ok [.number 0, .outputAt 0 (.const (-1))] := rfl
  obtain ⟨p, f, e', r, hp, hcompile, hstatements, hpack, hcall⟩ :=
    exists_process_of_trees .sample (by decide) hparse (by decide) hlowered rfl hslots (by decide)
      [#[5, 6], #[0, 0]] rfl (by decide) .initial
  have hlog : f.accessesAt #[.number 7] [#[5, 6], #[0, 0]] 2 .initial 1 =
      [.number 0, .store 0 1] ++ .outputAt 0 (-1) :: [.store 1 1] := by
    rw [accessesAt, hstatements]
    rfl
  have hlink : f.links.get? Routine.arrayRead.link = some (.routine .arrayRead) :=
    (Engine.get?_links_of_new hcompile hstatements (by decide)).trans rfl
  obtain ⟨slots, hslots, hreads, -⟩ := output_reads_stored hcall
  obtain rfl := Except.ok.inj (hpack.symm.trans hslots)
  refine ⟨p, f, e', r, hp, hcompile, hlog, ?_, hcall, ?_⟩
  · exact ((hreads 1 (by decide) _ 0 (-1) _ hlog).2 (by decide) (by simp)).2.2
      (by decide +kernel) (by decide) (by decide +kernel)
  · exact results_of_feedback (-1) hstatements hlink hpack hcall (fun _ _ => rfl)
      (by decide +kernel) (by decide +kernel)

/-- An offset a whole block back reads what an earlier statement has stored in the same frame. -/
theorem output_reads_stored_block_back :
    ∃ p f e' r, Program.parse "$f1, $y1[-2]" = .ok p ∧
      (Engine.new {}).compile p .sample = .ok (f, e') ∧
      f.pack 2 [.number 7] = .ok #[.number 7] ∧
      f.accessesAt #[.number 7] [#[5, 6], #[0, 0]] 2 .initial 0 =
        [.number 0, .store 0 0] ++ .outputAt 0 (-2) :: [.store 1 0] ∧
      Access.ReadsStored (f.context #[.number 7] 2 0) [.number 0, .store 0 0] 0 (-2) ∧
      f.process [#[5, 6], #[0, 0]] [.number 7] 2 .initial = .ok r ∧ r.1 = [#[7, 7], #[7, 7]] := by
  have hparse : ((Program.parse "$f1, $y1[-2]").map fun p => (p.trees, p.inputs)).toOption =
      some ([.var ⟨.float, 0⟩, .history ⟨.output, 0⟩ (.unary .negate (.int 2))], [⟨.float, 0⟩]) := by
    cbv
  have hslots : packFrom 2 0 [⟨.float, 0⟩] [.number 7] = .ok [.number 7] := rfl
  have hlowered : [Expr.var ⟨.float, 0⟩, .history ⟨.output, 0⟩ (.unary .negate (.int 2))].mapM
      (Lower.expr .sample) =
        .ok [.number 0, .outputAt 0 (.unary .negate (.const (Sample.ofInt 2)))] := rfl
  obtain ⟨p, f, e', r, hp, hcompile, hstatements, hpack, hcall⟩ :=
    exists_process_of_trees .sample (by decide) hparse (by decide) hlowered rfl hslots (by decide)
      [#[5, 6], #[0, 0]] rfl (by decide) .initial
  have hlink : f.links.get? Routine.arrayRead.link = some (.routine .arrayRead) :=
    (Engine.get?_links_of_new hcompile hstatements (by decide)).trans rfl
  refine ⟨p, f, e', r, hp, hcompile, hpack, ?_, ⟨0, by simp, ?_⟩, hcall, ?_⟩
  · rw [accessesAt, hstatements]
    rfl
  · show Buffer.Weighs (Buffer.neighbours (Buffer.historyIndex 2 0 (-1) (-2)) 2) (0 : Int32).toInt
    exact Buffer.weighs_current_of_le (by decide) (by decide) (by decide) (by decide +kernel)
      (.inr (by decide +kernel))
  · exact results_of_feedback (-2) hstatements hlink hpack hcall (fun _ _ => rfl)
      (by decide +kernel) (by decide +kernel)

end Compiled

end SignalExpr
