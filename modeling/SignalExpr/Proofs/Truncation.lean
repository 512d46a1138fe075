import SignalExpr.Proofs.Quanta

/-!
Whole parts of samples. The whole number toward zero can be too large for an integer of a fixed
width; the conversion then gives the nearer end of the range, so it is a clamp of the whole part.
-/

namespace SignalExpr.Sample

open Float.Model (UnpackedFloat)

/-- The whole number toward zero. It is beyond all 64-bit numbers for an infinite sample, and zero
for what is not a number. -/
def wholePart (x : Sample) : Int :=
  if x.isNaN then 0 else x.quanta.tdiv (2 ^ 149)

/-- The whole number toward zero, or the nearest one that 64 bits can hold. What is not a number
counts as zero. -/
def truncation (x : Sample) : Int :=
  if x.isNaN then 0 else max (-2 ^ 63) (min (x.quanta.tdiv (2 ^ 149)) (2 ^ 63 - 1))

theorem truncation_eq_clamp (x : Sample) :
    x.truncation = max (-2 ^ 63) (min x.wholePart (2 ^ 63 - 1)) := by
  rw [truncation, wholePart]
  split
  next => decide
  next => rfl

theorem truncation_bounds (x : Sample) : -2 ^ 63 ≤ x.truncation ∧ x.truncation ≤ 2 ^ 63 - 1 := by
  rw [truncation_eq_clamp]
  omega

/-! ### Conversions -/

theorem clamp_toInt_unpack (x : Sample) {low high : Int} (hlow : -2 ^ 128 ≤ low) (hneg : low ≤ 0)
    (hpos : 0 ≤ high) (hhigh : high ≤ 2 ^ 128) :
    max low (min (x.unpack.toInt low high) high) = max low (min x.wholePart high) := by
  rw [wholePart]
  split
  next hnan =>
    rw [unpack_of_isNaN hnan]
    rfl
  next hnan =>
    by_cases hx : x.Finite
    · rw [toInt_unpack hx]
    · obtain ⟨s, hs⟩ := exists_infinity (Bool.eq_false_iff.mpr hnan) hx
      rw [quanta, hs]
      cases s with
      | positive =>
          have hwhole : (Binary32.quanta (.infinity .positive)).tdiv (2 ^ 149) = 2 ^ 128 := by
            decide
          rw [hwhole, UnpackedFloat.toInt]
          omega
      | negative =>
          have hwhole : (Binary32.quanta (.infinity .negative)).tdiv (2 ^ 149) = -2 ^ 128 := by
            decide
          rw [hwhole, UnpackedFloat.toInt]
          omega

theorem toInt_ofIntClamp_eq (i : Int) :
    (Int64.ofIntClamp i).toInt = max (-2 ^ 63) (min i (2 ^ 63 - 1)) := by
  have hmin := Int64.toInt_minValue
  have hmax := Int64.toInt_maxValue
  rw [Int64.ofIntClamp]
  split
  next hlow =>
    split
    next hhigh =>
      rw [Int64.toInt_ofIntLE]
      omega
    next => omega
  next => omega

theorem toInt_toInt64_eq (x : Sample) : x.toInt64.toInt = x.truncation := by
  rw [toInt64, UnpackedFloat.toInt64, toInt_ofIntClamp_eq, Int64.toInt_minValue,
    Int64.toInt_maxValue, truncation_eq_clamp]
  exact x.clamp_toInt_unpack (by decide) (by decide) (by decide) (by decide)

theorem toInt_ofIntClamp32_eq (i : Int) :
    (Int32.ofIntClamp i).toInt = max (-2 ^ 31) (min i (2 ^ 31 - 1)) := by
  have hmin := Int32.toInt_minValue
  have hmax := Int32.toInt_maxValue
  rw [Int32.ofIntClamp]
  split
  next hlow =>
    split
    next hhigh =>
      rw [Int32.toInt_ofIntLE]
      omega
    next => omega
  next => omega

theorem toInt_toInt32_eq (x : Sample) :
    x.toInt32.toInt = max (-2 ^ 31) (min x.wholePart (2 ^ 31 - 1)) := by
  rw [toInt32, UnpackedFloat.toInt32, toInt_ofIntClamp32_eq, Int32.toInt_minValue,
    Int32.toInt_maxValue]
  exact x.clamp_toInt_unpack (by decide) (by decide) (by decide) (by decide)

/-! ### Floors -/

theorem floor_of_isNaN {x : Sample} (h : x.isNaN = true) : x.floor = x := by
  rw [floor, round, unpack_of_isNaN h]

theorem wholePart_floor {x : Sample} (h : x.isNaN = false) :
    x.floor.wholePart = x.quanta / 2 ^ 149 := by
  by_cases hx : x.Finite
  · obtain ⟨hfinite, hquanta⟩ := floor_exact hx
    rw [wholePart, hfinite.isNaN_eq_false, hquanta]
    exact Int.mul_tdiv_cancel _ (by decide)
  · obtain ⟨s, hs⟩ := exists_infinity h hx
    have hfloor : x.floor = x := by rw [floor, round, hs]
    rw [hfloor, wholePart, h, quanta, hs]
    cases s <;> decide

end SignalExpr.Sample
