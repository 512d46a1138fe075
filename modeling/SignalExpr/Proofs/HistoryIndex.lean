import SignalExpr.Buffer
import SignalExpr.Proofs.Truncation

/-!
Where reads fall in a buffer. A position is inside of its block or ring whatever number it is
computed from. In histories of up to `2 ^ 23` frames the index of an offset is the exact one,
rounded faithfully, and the weight between its two neighbours is exact.
-/

namespace SignalExpr

open Binary32 (Representable)
open Float.Model.UnpackedFloat (Sign)

namespace Sample

/-- Zero of either sign. -/
def isZero (x : Sample) : Bool :=
  x.magnitudeBits == 0

theorem representable_quanta {x : Sample} (hx : x.Finite) : Representable x.quanta.natAbs := by
  have hwell := wellFormed_unpack hx.isNaN_eq_false
  rw [quanta]
  rw [finite_iff_unpack] at hx
  generalize x.unpack = u at hwell hx
  cases u with
  | notANumber => exact hwell.elim
  | infinity s => cases hx
  | zero s => exact ⟨0, 0, by decide, rfl⟩
  | finite s m e hm =>
      change Representable (s.apply (Binary32.quantaOf m e)).natAbs
      rw [natAbs_apply]
      exact ⟨m, _, Binary32.Canonical.mantissa_lt hwell, rfl⟩

/-- The sample is a whole number. -/
def IsWhole (x : Sample) (n : Int) : Prop :=
  x.Finite ∧ x.quanta = n * 2 ^ 149

theorem IsWhole.representable {x : Sample} {n : Int} (h : x.IsWhole n) :
    Representable (n * 2 ^ 149).natAbs := by
  rw [← h.2]
  exact representable_quanta h.1

theorem representable_mod {n : Nat} (h : Representable n) : Representable (n % 2 ^ 149) := by
  obtain ⟨m, k, hm, rfl⟩ := h
  rcases Nat.lt_or_ge k 149 with hk | hk
  · have hpow : 2 ^ 149 = 2 ^ (149 - k) * 2 ^ k := by
      rw [← Nat.pow_add]
      congr 1
      omega
    rw [hpow, Nat.mul_mod_mul_right]
    exact ⟨_, k, (Nat.mod_le _ _).trans_lt hm, rfl⟩
  · have hdvd : 2 ^ 149 ∣ m * 2 ^ k := (Nat.pow_dvd_pow 2 hk).mul_left m
    rw [Nat.mod_eq_zero_of_dvd hdvd]
    exact ⟨0, 0, by decide, rfl⟩

theorem fraction_exact {x : Sample} (hx : x.Finite) (hpos : 0 ≤ x.quanta) :
    (x - x.floor).Finite ∧ (x - x.floor).quanta = x.quanta % 2 ^ 149 := by
  obtain ⟨hfloor, hquanta⟩ := floor_exact hx
  have hdifference : x.quanta - x.floor.quanta = x.quanta % 2 ^ 149 := by
    rw [hquanta, Int.emod_def, Int.mul_comm]
  have happroximates := approximates_sub hx hfloor (by omega)
  rw [hdifference] at happroximates
  refine ⟨happroximates.finite, happroximates.quanta_eq ?_⟩
  have habs : (x.quanta % 2 ^ 149).natAbs = x.quanta.natAbs % 2 ^ 149 := by omega
  rw [habs]
  exact representable_mod (representable_quanta hx)

theorem isZero_iff {x : Sample} (hx : x.Finite) : x.isZero = true ↔ x.quanta = 0 := by
  have hbits : x.isZero = true ↔ x.bits.toNat % 2 ^ 31 = 0 := by
    rw [isZero, beq_iff_eq, ← UInt32.toNat_inj, magnitudeBits, UInt32.toNat_mod]
    rfl
  have hfinite (s : Sign) {m : Nat} (hm : 0 < m) (e : Int) :
      s.apply (Binary32.quantaOf m e) ≠ 0 := by
    have hpos := Binary32.quantaOf_pos hm e
    rw [← Int.natAbs_ne_zero, natAbs_apply]
    exact hpos.ne'
  rw [hbits, quanta]
  rw [finite_iff_unpack] at hx
  rw [unpack, Binary32.unpack_eq] at hx ⊢
  split at hx
  next => split at hx <;> cases hx
  next hexponent =>
    rw [if_neg hexponent]
    split
    next hzero =>
      split
      next hmantissa => exact iff_of_true (by omega) rfl
      next hmantissa => exact iff_of_false (by omega) (hfinite _ (Nat.pos_of_ne_zero hmantissa) _)
    next => exact iff_of_false (by omega) (hfinite _ (by omega) _)

theorem quanta_zero : (0 : Sample).quanta = 0 :=
  quanta_ofInt (n := 0) (by decide)

theorem quanta_one : (1 : Sample).quanta = 2 ^ 149 :=
  quanta_ofInt (n := 1) (by decide)

theorem finite_one : (1 : Sample).Finite :=
  finite_ofInt (n := 1) (by decide)

theorem neg_ofInt_exact {n : Int} (h : n.natAbs ≤ 2 ^ 24) :
    (-ofInt n).isNaN = false ∧ (-ofInt n).quanta = -n * 2 ^ 149 := by
  constructor
  · rw [isNaN_neg]
    exact (finite_ofInt h).isNaN_eq_false
  · rw [quanta_neg, quanta_ofInt h, Int.neg_mul]

theorem isZero_one_sub {x : Sample} (hx : x.Finite) (hpos : 0 ≤ x.quanta)
    (hlt : x.quanta < 2 ^ 149) : (1 - x).isZero = false := by
  have happroximates := approximates_sub finite_one hx (by rw [quanta_one]; omega)
  rw [quanta_one] at happroximates
  have hone := (happroximates.near 1 ⟨1, 0, by decide, rfl⟩).1 (by omega)
  rw [← Bool.not_eq_true, isZero_iff happroximates.finite]
  omega

theorem quanta_strictGreater {x y : Sample} (hx : x.isNaN = false) (hy : y.isNaN = false) :
    (x.strictGreater y).isNaN = false ∧ (x.strictGreater y).quanta = max x.quanta y.quanta := by
  rw [strictGreater, if_neg (by simp [hx]), if_neg (by simp [hy])]
  split
  next h =>
    rw [lt_iff_quanta_lt hy hx] at h
    exact ⟨hx, by omega⟩
  next h =>
    rw [lt_iff_quanta_lt hy hx] at h
    exact ⟨hy, by omega⟩

theorem quanta_strictLesser {x y : Sample} (hx : x.isNaN = false) (hy : y.isNaN = false) :
    (x.strictLesser y).isNaN = false ∧ (x.strictLesser y).quanta = min x.quanta y.quanta := by
  rw [strictLesser, if_neg (by simp [hx]), if_neg (by simp [hy])]
  split
  next h =>
    rw [lt_iff_quanta_lt hx hy] at h
    exact ⟨hx, by omega⟩
  next h =>
    rw [lt_iff_quanta_lt hx hy] at h
    exact ⟨hy, by omega⟩

end Sample

namespace Buffer

variable {frames frame : Int32}

/-! ### Positions -/

theorem toInt_max (a b : Int32) : (max a b).toInt = max a.toInt b.toInt := by
  change (if a ≤ b then b else a).toInt = _
  simp only [Int32.le_iff_toInt_le]
  split <;> omega

theorem toInt_min (a b : Int32) : (min a b).toInt = min a.toInt b.toInt := by
  change (if a ≤ b then a else b).toInt = _
  simp only [Int32.le_iff_toInt_le]
  split <;> omega

/-- 32 bits are enough for an index into a block: what they cannot hold goes to an end of the block
anyway. -/
theorem toInt_clampPosition (h : 0 < frames.toInt) (index : Sample) :
    (clampPosition frames index).toInt = min (max index.wholePart 0) (frames.toInt - 1) := by
  have hlt := frames.toInt_lt
  have hlast : (frames - 1).toInt = frames.toInt - 1 := by
    rw [Int32.toInt_sub]
    exact Int.bmod_eq_of_le (by simp; omega) (by simp; omega)
  rw [clampPosition, toInt_min, toInt_max, hlast, Sample.toInt_toInt32_eq, Int32.toInt_zero]
  omega

theorem clampPosition_bounds (h : 0 < frames.toInt) (index : Sample) :
    0 ≤ (clampPosition frames index).toInt ∧
      (clampPosition frames index).toInt < frames.toInt := by
  rw [toInt_clampPosition h]
  omega

theorem toInt_inputPosition (hframe : 0 ≤ frame.toInt) (hlt : frame.toInt < frames.toInt)
    (h : 2 * frames.toInt < 2 ^ 31) :
    (inputPosition frames frame).toInt = frames.toInt + frame.toInt := by
  rw [inputPosition, Int32.toInt_add]
  exact Int.bmod_eq_of_le (by simp; omega) (by simp; omega)

theorem inputLength_eq (frames : Int32) : inputLength frames = frames + frames := by
  rw [inputLength, ← Int32.toBitVec_inj, Int32.toBitVec_shiftLeft, Int32.toBitVec_add]
  change frames.toBitVec <<< 1 = _
  bv_omega

theorem toInt_inputLength (hpos : 0 ≤ frames.toInt) (h : 2 * frames.toInt < 2 ^ 31) :
    (inputLength frames).toInt = 2 * frames.toInt := by
  rw [inputLength_eq, Int32.toInt_add, Int.bmod_eq_of_le (by simp; omega) (by simp; omega)]
  omega

theorem neighbours_bounds {length : Int32} (h : 0 < length.toInt) (index : Sample) :
    (0 ≤ (neighbours index length).1 ∧ (neighbours index length).1 < length.toInt) ∧
      0 ≤ (neighbours index length).2.1 ∧ (neighbours index length).2.1 < length.toInt := by
  have hcell (i : Int64) : 0 ≤ ringCell length i ∧ ringCell length i < length.toInt :=
    ⟨Int.emod_nonneg _ h.ne', Int.emod_lt_of_pos _ h⟩
  exact ⟨hcell _, hcell _⟩

theorem interpolate_eq (buffer : Array Sample) (index : Sample) {length : Int32}
    (h : 0 < length.toInt) :
    interpolate buffer index length =
      sample buffer (neighbours index length).2.1 * (neighbours index length).2.2 +
        sample buffer (neighbours index length).1 * (1 - (neighbours index length).2.2) := by
  have hpos : ¬ length ≤ 0 := by
    rw [Int32.le_iff_toInt_le, Int32.toInt_zero]
    omega
  rw [interpolate, if_neg hpos]

/-! ### Indexes -/

theorem neighbours_exact {index : Sample} (hfinite : index.Finite) (hpos : 0 ≤ index.quanta)
    (hlt : index.quanta < 2 ^ 62 * 2 ^ 149) (length : Int32) :
    (neighbours index length).1 = index.quanta / 2 ^ 149 % length.toInt ∧
      (neighbours index length).2.1 = (index.quanta / 2 ^ 149 + 1) % length.toInt ∧
      (neighbours index length).2.2.Finite ∧
      (neighbours index length).2.2.quanta = index.quanta % 2 ^ 149 := by
  obtain ⟨hfloor, hquanta⟩ := Sample.floor_exact hfinite
  have hcell : index.floor.toInt64.toInt = index.quanta / 2 ^ 149 := by
    rw [Sample.toInt_toInt64 hfloor (by omega), hquanta,
      Int.mul_tdiv_cancel _ (by decide)]
  have hnext : (index.floor.toInt64 + 1).toInt = index.quanta / 2 ^ 149 + 1 := by
    rw [Int64.toInt_add, hcell]
    exact Int.bmod_eq_of_le (by simp; omega) (by simp; omega)
  refine ⟨?_, ?_, Sample.fraction_exact hfinite hpos⟩
  · exact congrArg (· % length.toInt) hcell
  · exact congrArg (· % length.toInt) hnext

theorem approximates_historyIndex {latest offset : Sample} (hframe : 0 ≤ frame.toInt)
    (hlt : frame.toInt < frames.toInt) (hframes : frames.toInt ≤ 2 ^ 23)
    (hlatest : latest.isNaN = false) (hlow : -frames.toInt * 2 ^ 149 ≤ latest.quanta)
    (hhigh : latest.quanta ≤ 0) (hoffset : offset.isNaN = false) :
    (historyIndex frames frame latest offset).Approximates
      ((frames.toInt + frame.toInt) * 2 ^ 149 +
        min (max offset.quanta (-frames.toInt * 2 ^ 149)) latest.quanta) := by
  have hn := Sample.quanta_ofInt (n := frames.toInt) (by omega)
  have hnfinite := Sample.finite_ofInt (n := frames.toInt) (by omega)
  have hi := Sample.quanta_ofInt (n := frame.toInt) (by omega)
  have hifinite := Sample.finite_ofInt (n := frame.toInt) (by omega)
  obtain ⟨hnegnan, hneg⟩ := Sample.neg_ofInt_exact (n := frames.toInt) (by omega)
  obtain ⟨hgreaternan, hgreater⟩ := Sample.quanta_strictGreater hoffset hnegnan
  obtain ⟨hclampnan, hclamp⟩ := Sample.quanta_strictLesser hgreaternan hlatest
  rw [hgreater, hneg] at hclamp
  have hclampfinite := (Sample.finite_iff hclampnan).mpr (by omega)
  have hsum := Sample.approximates_add hnfinite hifinite (by omega)
  have hsumquanta : (Sample.ofInt frames.toInt + Sample.ofInt frame.toInt).quanta =
      (frames.toInt + frame.toInt) * 2 ^ 149 := by
    rw [hn, hi, ← Int.add_mul] at hsum
    exact hsum.quanta_eq (Sample.representable_whole (by omega))
  have hindex := Sample.approximates_add hsum.finite hclampfinite (by omega)
  rw [hsumquanta, hclamp] at hindex
  exact hindex

end Buffer

end SignalExpr
