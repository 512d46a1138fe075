import SignalExpr.Proofs.Rounding
import SignalExpr.Sample.Decimal

/-!
The shortest decimal of a positive sample. It lies in the interval of the reals that round to the
sample, because nine digits are always enough, and the intervals of two samples have no real in
common. So no two samples have the same shortest decimal.
-/

namespace SignalExpr.Sample

open Binary32 (Canonical)

namespace Decimal

/-- The number that is meant. -/
def value (d : Decimal) : ℚ :=
  d.coefficient * 10 ^ d.exponent

theorem value_mul_ten_pow (c k : Nat) (e : Int) : value ⟨c * 10 ^ k, e⟩ = value ⟨c, e + k⟩ := by
  simp only [value]
  rw [zpow_add₀ (by decide), zpow_natCast]
  push_cast
  ring

theorem value_dropZeros (fuel : Nat) (d : Decimal) : (dropZeros fuel d).value = d.value := by
  induction fuel generalizing d with
  | zero => rfl
  | succ fuel ih =>
      rw [dropZeros]
      split
      next h =>
        have hten : d.coefficient = d.coefficient / 10 * 10 ^ 1 := by omega
        calc (dropZeros fuel ⟨d.coefficient / 10, d.exponent + 1⟩).value
            = value ⟨d.coefficient / 10 * 10 ^ 1, d.exponent⟩ := by
              rw [ih, value_mul_ten_pow, Nat.cast_one]
          _ = d.value := by rw [← hten]
      next => rfl

end Decimal

namespace Interval

/-- The number belongs to the interval. -/
def Holds (i : Interval) (x : ℚ) : Prop :=
  if i.closed then i.low * 2 ^ i.exponent ≤ x ∧ x ≤ i.high * 2 ^ i.exponent
  else i.low * 2 ^ i.exponent < x ∧ x < i.high * 2 ^ i.exponent

variable {i : Interval} {place : Int}

theorem pow_toNat {b : ℚ} (hb : b ≠ 0) (n : Int) : b ^ n.toNat = b ^ n * b ^ (-n).toNat := by
  rw [← zpow_natCast, ← zpow_natCast, ← zpow_add₀ hb]
  congr 1
  omega

theorem grid_pos (i : Interval) (place : Int) : 0 < i.grid place :=
  Nat.mul_pos (Nat.pow_pos (by decide)) (Nat.pow_pos (by decide))

/-- The common denominator of quarters and of multiples of `10 ^ place`. -/
def denominator (i : Interval) (place : Int) : ℚ :=
  i.grid place / 10 ^ place

theorem denominator_pos (i : Interval) (place : Int) : 0 < i.denominator place :=
  div_pos (Nat.cast_pos.mpr (i.grid_pos place)) (by positivity)

theorem cast_scaled (i : Interval) (place : Int) (quarters : Nat) :
    (i.scaled place quarters : ℚ) = quarters * 2 ^ i.exponent * i.denominator place := by
  have hten : (10 : ℚ) ^ place ≠ 0 := by positivity
  rw [denominator, ← mul_div_assoc, eq_div_iff hten, scaled, grid]
  push_cast [Nat.pow_eq]
  rw [pow_toNat two_ne_zero i.exponent, pow_toNat (by decide : (10 : ℚ) ≠ 0) place]
  ring

theorem cast_mul_grid (i : Interval) (place : Int) (d : Nat) :
    ((d * i.grid place : Nat) : ℚ) = d * 10 ^ place * i.denominator place := by
  have hten : (10 : ℚ) ^ place ≠ 0 := by positivity
  rw [denominator, mul_assoc, mul_div_cancel₀ _ hten, Nat.cast_mul]

theorem scaled_le_iff {quarters d : Nat} : i.scaled place quarters ≤ d * i.grid place ↔
    (quarters * 2 ^ i.exponent : ℚ) ≤ d * 10 ^ place := by
  rw [← @Nat.cast_le ℚ, cast_scaled, cast_mul_grid,
    mul_le_mul_iff_of_pos_right (i.denominator_pos place)]

theorem le_scaled_iff {quarters d : Nat} : d * i.grid place ≤ i.scaled place quarters ↔
    (d * 10 ^ place : ℚ) ≤ quarters * 2 ^ i.exponent := by
  rw [← @Nat.cast_le ℚ, cast_scaled, cast_mul_grid,
    mul_le_mul_iff_of_pos_right (i.denominator_pos place)]

theorem contains_iff {d : Nat} : i.contains place d = true ↔ i.Holds (d * 10 ^ place) := by
  rw [contains, Holds]
  cases i.closed with
  | true => simp only [if_true, decide_eq_true_eq, scaled_le_iff, le_scaled_iff]
  | false =>
      simp only [Bool.false_eq_true, if_false, decide_eq_true_eq, ← not_le, scaled_le_iff,
        le_scaled_iff]

theorem contains_of_onGrid? {d : Nat} (h : i.onGrid? place = some d) :
    i.contains place d = true := by
  rw [onGrid?] at h
  split at h
  next hbelow habove =>
    split at h <;> cases h <;> assumption
  next hbelow _ =>
    cases h
    exact hbelow
  next _ habove =>
    cases h
    exact habove
  next => cases h

theorem onGrid?_ne_none
    (h : i.contains place (i.scaled place i.value / i.grid place + 1) = true) :
    i.onGrid? place ≠ none := by
  simp only [onGrid?, h]
  split
  next => split <;> simp
  next => simp
  next => simp
  next hfalse => cases hfalse

theorem contains_succ_of_fine (hlow : i.low ≤ i.value) (hhigh : i.value < i.high)
    (hfine : (10 : ℚ) ^ place < 2 ^ i.exponent) :
    i.contains place (i.scaled place i.value / i.grid place + 1) = true := by
  have hbelow := le_scaled_iff.mp (Nat.div_mul_le_self (i.scaled place i.value) (i.grid place))
  have hnext := (Nat.div_lt_iff_lt_mul (i.grid_pos place)).mp
    (Nat.lt_succ_self (i.scaled place i.value / i.grid place))
  generalize i.scaled place i.value / i.grid place = below at hbelow hnext ⊢
  have habove := not_le.mp (le_scaled_iff.not.mp (Nat.not_le.mpr hnext))
  have hlow' : (i.low * 2 ^ i.exponent : ℚ) ≤ i.value * 2 ^ i.exponent := by gcongr
  have hhigh' : ((i.value + 1 : ℚ) * 2 ^ i.exponent) ≤ i.high * 2 ^ i.exponent := by
    gcongr
    exact_mod_cast hhigh
  have hstrict : (i.low * 2 ^ i.exponent : ℚ) < (below + 1 : Nat) * 10 ^ place ∧
      ((below + 1 : Nat) * 10 ^ place : ℚ) < i.high * 2 ^ i.exponent := by
    refine ⟨hlow'.trans_lt habove, lt_of_lt_of_le ?_ hhigh'⟩
    push_cast
    rw [add_mul, add_mul, one_mul, one_mul]
    exact add_lt_add_of_le_of_lt hbelow hfine
  rw [contains_iff, Holds]
  split
  next => exact ⟨hstrict.1.le, hstrict.2.le⟩
  next => exact hstrict

theorem ten_pow_leadingPlace_le (h : (10 : ℚ) ^ (-46 : Int) ≤ i.value * 2 ^ i.exponent) :
    (10 : ℚ) ^ i.leadingPlace ≤ i.value * 2 ^ i.exponent := by
  have hsearch (n : Nat) (hn : ∀ k < n, ¬ i.scaled ((k : Int) - 46 + 1) i.value
      < i.grid ((k : Int) - 46 + 1)) : (10 : ℚ) ^ ((n : Int) - 46) ≤ i.value * 2 ^ i.exponent := by
    cases n with
    | zero => exact h
    | succ k =>
        have hk := Nat.not_lt.mp (hn k (Nat.lt_succ_self k))
        rw [← Nat.one_mul (i.grid _), le_scaled_iff] at hk
        push_cast at hk ⊢
        rw [one_mul] at hk
        convert hk using 2
        ring
  rw [leadingPlace]
  dsimp only
  cases hfind : (List.range 85).find? _ with
  | none =>
      apply hsearch
      intro k hk
      simpa using List.find?_range_eq_none.mp hfind k hk
  | some n =>
      apply hsearch
      intro k hk
      simpa using (List.find?_range_eq_some.mp hfind).2.2 k hk

/-- The shortest decimal rounds to the sample: a candidate is only taken if it does, and eight
places behind the leading digit there is one. -/
theorem holds_shortest (hlow : i.low ≤ i.value) (hhigh : i.value < i.high)
    (hvalue : i.value < 10 ^ 8) (hsmall : (10 : ℚ) ^ (-46 : Int) ≤ i.value * 2 ^ i.exponent) :
    i.Holds i.shortest.value := by
  -- Fewer than `10 ^ 8` quarters, so eight places behind the leading digit lie below a quarter.
  have hfine : (10 : ℚ) ^ (i.leadingPlace - (8 : Nat)) < 2 ^ i.exponent := by
    rw [zpow_sub₀ (by decide), div_lt_iff₀ (by positivity)]
    calc (10 : ℚ) ^ i.leadingPlace ≤ i.value * 2 ^ i.exponent := ten_pow_leadingPlace_le hsmall
      _ < 10 ^ 8 * 2 ^ i.exponent := by
        gcongr
        exact_mod_cast hvalue
      _ = 2 ^ i.exponent * 10 ^ ((8 : Nat) : Int) := by
        rw [zpow_natCast]
        ring
  have hlast := onGrid?_ne_none (contains_succ_of_fine hlow hhigh hfine)
  rw [shortest, Decimal.value_dropZeros]
  cases hfind : (List.range 9).findSome? _ with
  | none =>
      have hnone := List.findSome?_eq_none_iff.mp hfind 8 (by decide)
      exact absurd (Option.map_eq_none_iff.mp hnone) hlast
  | some d =>
      obtain ⟨n, -, hn⟩ := List.exists_of_findSome?_eq_some hfind
      obtain ⟨c, hc, rfl⟩ := Option.map_eq_some_iff.mp hn
      exact contains_iff.mp (contains_of_onGrid? hc)

end Interval

/-! ### The intervals of samples -/

section Intervals

variable {m m' : Nat} {e e' : Int} {x : ℚ}

theorem holds_interval_shortest (h : Canonical m e) (hm : 0 < m) :
    (interval m e).Holds (interval m e).shortest.value := by
  obtain ⟨hmantissa, hexponent, -, -⟩ := h
  refine Interval.holds_shortest (Nat.sub_le _ _) (Nat.lt_add_of_pos_right (by decide)) ?_ ?_
  · change 4 * m < 10 ^ 8
    omega
  · change _ ≤ ((4 * m : Nat) : ℚ) * 2 ^ (e - 2)
    have hone : (1 : ℚ) ≤ m := by exact_mod_cast hm
    calc (10 : ℚ) ^ (-46 : Int) ≤ 2 ^ (-149 : Int) := by norm_num
      _ ≤ 2 ^ e := zpow_le_zpow_right₀ one_le_two hexponent
      _ ≤ m * 2 ^ e := le_mul_of_one_le_left (by positivity) hone
      _ = ((4 * m : Nat) : ℚ) * 2 ^ (e - 2) := by
        rw [zpow_sub₀ two_ne_zero]
        push_cast
        ring

theorem Interval.Holds.bounds (h : (interval m e).Holds x) :
    ((interval m e).low : ℚ) * 2 ^ (e - 2) ≤ x ∧ x ≤ (4 * m + 2 : Nat) * 2 ^ (e - 2) := by
  rw [Holds] at h
  split at h
  next => exact h
  next => exact ⟨h.1.le, h.2.le⟩

theorem Interval.Holds.strict (h : (interval m e).Holds x) (hm : m % 2 = 1) :
    ((interval m e).low : ℚ) * 2 ^ (e - 2) < x ∧ x < (4 * m + 2 : Nat) * 2 ^ (e - 2) := by
  have hopen : (interval m e).closed = false := by simp [interval, hm]
  rw [Holds, hopen] at h
  exact h

theorem Interval.Holds.pos (h : (interval m e).Holds x) (hm : 0 < m) : 0 < x := by
  have hlow : 0 < (interval m e).low := by
    simp only [interval]
    split <;> omega
  have hunit : (0 : ℚ) < 2 ^ (e - 2) := by positivity
  exact lt_of_lt_of_le (mul_pos (Nat.cast_pos.mpr hlow) hunit) h.bounds.1

/-- Mantissas with one exponent: where two intervals touch, one of the mantissas is odd. -/
theorem mantissa_le_of_holds (h : (interval m e).Holds x) (h' : (interval m' e).Holds x) :
    m' ≤ m := by
  by_contra hlt
  -- Neighbours share an end, which belongs to the one of them that has an even mantissa.
  have hunit : (0 : ℚ) < 2 ^ (e - 2) := by positivity
  have hlow : 4 * m' - 2 ≤ (interval m' e).low := by
    simp only [interval]
    split <;> omega
  have hle : ((4 * m + 2 : Nat) : ℚ) * 2 ^ (e - 2) ≤ (interval m' e).low * 2 ^ (e - 2) := by
    gcongr
    omega
  by_cases hodd : m % 2 = 1
  · exact absurd ((h.strict hodd).2.trans_le hle) (not_lt.mpr h'.bounds.1)
  by_cases hodd' : m' % 2 = 1
  · exact absurd (h.bounds.2.trans hle) (not_le.mpr (h'.strict hodd').1)
  · have hlt' : ((4 * m + 2 : Nat) : ℚ) * 2 ^ (e - 2) < (interval m' e).low * 2 ^ (e - 2) := by
      gcongr
      omega
    exact absurd (h.bounds.2.trans_lt hlt') (not_lt.mpr h'.bounds.1)

theorem exponent_le_of_holds (hc : Canonical m e) (hc' : Canonical m' e')
    (h : (interval m e).Holds x) (h' : (interval m' e').Holds x) : e' ≤ e := by
  by_contra hlt
  have hunit : (0 : ℚ) < 2 ^ (e - 2) := by positivity
  have hmantissa := hc.mantissa_lt
  have hexponent := hc.exponent_ge
  have hmantissa' : 2 ^ 23 ≤ m' := by
    rcases hc'.normal with hnormal | hleast
    · exact hnormal
    · omega
  have hlow : 2 ^ 25 - 1 ≤ (interval m' e').low := by
    simp only [interval]
    split <;> omega
  -- The greatest mantissa is odd, so the end of its interval belongs to the next exponent.
  have hnext : ((2 ^ 26 - 2 : Nat) : ℚ) * 2 ^ (e - 2) ≤ (interval m' e').low * 2 ^ (e' - 2) :=
    calc ((2 ^ 26 - 2 : Nat) : ℚ) * 2 ^ (e - 2) = (2 ^ 25 - 1 : Nat) * 2 ^ (e - 2 + 1) := by
          rw [zpow_add_one₀ two_ne_zero]
          push_cast
          ring
      _ ≤ (interval m' e').low * 2 ^ (e' - 2) := by
          gcongr
          · exact one_le_two
          · omega
  by_cases hodd : m % 2 = 1
  · have hle : ((4 * m + 2 : Nat) : ℚ) * 2 ^ (e - 2) ≤ (2 ^ 26 - 2 : Nat) * 2 ^ (e - 2) := by
      gcongr
      omega
    exact absurd ((h.strict hodd).2.trans_le (hle.trans hnext)) (not_lt.mpr h'.bounds.1)
  · have hlt' : ((4 * m + 2 : Nat) : ℚ) * 2 ^ (e - 2) < (2 ^ 26 - 2 : Nat) * 2 ^ (e - 2) := by
      gcongr
      omega
    exact absurd (h.bounds.2.trans_lt (hlt'.trans_le hnext)) (not_lt.mpr h'.bounds.1)

theorem eq_of_holds (hc : Canonical m e) (hc' : Canonical m' e') (h : (interval m e).Holds x)
    (h' : (interval m' e').Holds x) : m = m' ∧ e = e' := by
  obtain rfl := le_antisymm (exponent_le_of_holds hc' hc h' h) (exponent_le_of_holds hc hc' h h')
  exact ⟨le_antisymm (mantissa_le_of_holds h' h) (mantissa_le_of_holds h h'), rfl⟩

end Intervals

end SignalExpr.Sample
