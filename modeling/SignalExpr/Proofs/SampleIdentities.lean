import SignalExpr.Proofs.DecimalTexts
import SignalExpr.Proofs.HistoryIndex

/-!
Identities of samples that hold to the bit: products with one and with zero, sums with a zero of
either sign, differences of equal samples, and floors of whole samples.
-/

namespace SignalExpr

open Float.Model (Format UnpackedFloat totalExponent)
open Float.Model.UnpackedFloat (Sign)

namespace Binary32

theorem unpack_pack {u : UnpackedFloat} (h : WellFormed u) :
    .unpack Format.binary32 (UnpackedFloat.pack Format.binary32 u) = u := by
  cases u with
  | notANumber => exact h.elim
  | infinity s => cases s <;> rfl
  | zero s => exact unpack_pack_zero s
  | finite s m e hm => exact unpack_pack_finite s hm h

theorem Canonical.eq_of_quantaOf_eq {m n : Nat} {e f : Int} (hm : Canonical m e)
    (hn : Canonical n f) (h : quantaOf m e = quantaOf n f) : m = n ∧ e = f := by
  have hcompare := hm.compare_eq hn
  rw [h, compare_eq_iff_eq.mpr rfl, Ordering.then_eq_eq, compare_eq_iff_eq, compare_eq_iff_eq]
    at hcompare
  exact hcompare.symm

theorem sign_eq_of_apply_eq {s t : Sign} {n : Nat} (hn : 0 < n) (h : s.apply n = t.apply n) :
    s = t := by
  cases s with
  | negative =>
      cases t with
      | negative => rfl
      | positive =>
          simp only [Sign.apply] at h
          omega
  | positive =>
      cases t with
      | negative =>
          simp only [Sign.apply] at h
          omega
      | positive => rfl

theorem mul_one_finite (s : Sign) {m : Nat} {e : Int} (hm : 0 < m) (h : Canonical m e) :
    UnpackedFloat.mul Format.binary32 (.finite s m e hm)
      (.finite .positive (2 ^ 23) (-23) (by decide)) = .finite s m e hm := by
  obtain ⟨hmantissa, hlow, -, hnormal⟩ := h
  have hlog : (m * 2 ^ 23).log2 = m.log2 + 23 := by
    simpa [quantaOf] using log2_quantaOf hm.ne' (-126)
  have hlt : m.log2 < 24 := (Nat.log2_lt hm.ne').mpr hmantissa
  have htarget : Format.binary32.targetExponent (totalExponent (m * 2 ^ 23) (e + -23)) = e := by
    rw [targetExponent_binary32, totalExponent, hlog]
    rcases hnormal with hnormal | rfl
    · have := (Nat.le_log2 hm.ne').mpr hnormal
      omega
    · omega
  have hplaces : (e - (e + -23)).toNat = 0 + 23 := by omega
  have hshortened : shortened (m * 2 ^ 23) (e - (e + -23)).toNat = m := by
    rw [hplaces, shortened_mul_two_pow]
    rfl
  have hsign : s * .positive = s := by cases s <;> rfl
  refine (roundWithAccuracy_eq (s * .positive) htarget (by omega) hlow (by omega)).trans ?_
  rw [hshortened, hsign, settled, dif_neg hm.ne', if_neg (by omega)]

theorem add_neg_self {u : UnpackedFloat} (h : u.isFinite = true) :
    UnpackedFloat.add Format.binary32 u u.neg = .zero .positive := by
  cases u with
  | notANumber => cases h
  | infinity s => cases h
  | zero s => cases s <;> rfl
  | finite s m e hm =>
      have hcancel (n : Nat) : s.apply n + (-s).apply n = 0 := by
        cases s with
        | negative => exact Int.add_left_neg n
        | positive => exact Int.add_right_neg n
      change UnpackedFloat.normalize Format.binary32 (s.apply _ + (-s).apply _) _ .positive = _
      rw [hcancel]
      rfl

end Binary32

namespace Sample

open Binary32

/-! ### Samples by what they unpack to -/

theorem eq_of_quanta_eq {x y : Sample} (hx : x.Finite) (hy : y.Finite) (h : x.quanta = y.quanta)
    (hne : x.quanta ≠ 0) : x = y := by
  have hxnan := hx.isNaN_eq_false
  have hynan := hy.isNaN_eq_false
  have hxwell := wellFormed_unpack hxnan
  have hywell := wellFormed_unpack hynan
  apply eq_of_unpack_eq hxnan hynan
  rw [finite_iff_unpack] at hx hy
  rw [quanta] at h hne
  rw [quanta] at h
  generalize x.unpack = u at *
  generalize y.unpack = v at *
  cases u with
  | notANumber => cases hx
  | infinity s => cases hx
  | zero s => exact absurd rfl hne
  | finite s m e hm =>
      cases v with
      | notANumber => cases hy
      | infinity t => cases hy
      | zero t => exact absurd h hne
      | finite t n f hn =>
          change s.apply (quantaOf m e) = t.apply (quantaOf n f) at h
          have habs : quantaOf m e = quantaOf n f := by
            rw [← natAbs_apply s (quantaOf m e), h, natAbs_apply]
          obtain ⟨rfl, rfl⟩ := hxwell.eq_of_quantaOf_eq hywell habs
          rw [sign_eq_of_apply_eq (quantaOf_pos hm e) h]

theorem isNegative_eq (x : Sample) : x.isNegative = (signOf x.bits == .negative) := by
  have hshift : (x.bits >>> 31).toNat = x.bits.toNat / 2 ^ 31 := by
    rw [UInt32.toNat_shiftRight]
    exact Nat.shiftRight_eq_div_pow _ _
  rw [isNegative, signOf_beq, beq_eq_decide, decide_eq_decide, ← UInt32.toNat_inj, hshift]
  rfl

theorem unpack_cases {x : Sample} (h : x.isNaN = false) :
    x.unpack = .infinity (signOf x.bits) ∨ x.unpack = .zero (signOf x.bits) ∨
      ∃ m e hm, x.unpack = .finite (signOf x.bits) m e hm := by
  rw [isNaN_eq_false_iff] at h
  rw [unpack, unpack_eq]
  split
  next =>
    rw [if_pos (by omega)]
    exact .inl rfl
  next =>
    split
    next =>
      split
      next => exact .inr (.inl rfl)
      next hmantissa => exact .inr (.inr ⟨_, _, Nat.pos_of_ne_zero hmantissa, rfl⟩)
    next => exact .inr (.inr ⟨_, _, by omega, rfl⟩)

theorem ofResult_eq {u : UnpackedFloat} {x : Sample} (hx : x.isNaN = false) (h : u = x.unpack) :
    ofResult (.ofModel (.pack u)) = x := by
  have hunpack := unpack_pack (wellFormed_unpack hx)
  have hnan : (Float32.ofModel (.pack u)).isNaN = false := by
    change (UnpackedFloat.unpack Format.binary32 (UnpackedFloat.pack Format.binary32 u)).isNaN = _
    rw [h, hunpack]
    rcases unpack_cases hx with hcase | hcase | ⟨m, e, hm, hcase⟩ <;> rw [hcase] <;> rfl
  rw [ofResult, if_neg (Bool.eq_false_iff.mp hnan)]
  have hresult : (ofValue (.ofModel (.pack u))).unpack = x.unpack := by
    rw [unpack_ofValue, h, hunpack]
  refine eq_of_unpack_eq ?_ hx hresult
  rw [Bool.eq_false_iff, ne_eq, isNaN_iff_unpack, hresult]
  exact unpack_ne_notANumber hx

theorem map₂_eq_of_unpack {f : Float32 → Float32 → Float32}
    {g : UnpackedFloat → UnpackedFloat → UnpackedFloat}
    (hf : ∀ v w : Float32, f v w = .ofModel (.pack (g v.toModel.unpack w.toModel.unpack)))
    {x y z : Sample} (hx : x.isNaN = false) (hy : y.isNaN = false) (hz : z.isNaN = false)
    (h : g x.unpack y.unpack = z.unpack) : map₂ f x y = z := by
  rw [map₂_eq hx hy, hf, unpack_toModel_value hx, unpack_toModel_value hy]
  exact ofResult_eq hz h

/-! ### Products, sums and differences -/

theorem unpack_one : (1 : Sample).unpack = .finite .positive (2 ^ 23) (-23) (by decide) :=
  rfl

theorem mul_one (x : Sample) : x * 1 = x := by
  cases hx : x.isNaN with
  | true => exact if_pos hx
  | false =>
      refine map₂_eq_of_unpack (g := UnpackedFloat.mul Format.binary32) (fun _ _ => rfl) hx rfl hx
        ?_
      have hwell := wellFormed_unpack hx
      rw [unpack_one]
      generalize x.unpack = u at hwell
      cases u with
      | notANumber => exact hwell.elim
      | infinity s => cases s <;> rfl
      | zero s => cases s <;> rfl
      | finite s m e hm => exact mul_one_finite s hm hwell

theorem sub_self {x : Sample} (hx : x.Finite) : x - x = 0 := by
  have hnan := hx.isNaN_eq_false
  refine map₂_eq_of_unpack (g := UnpackedFloat.sub Format.binary32) (fun _ _ => rfl) hnan hnan rfl
    ?_
  rw [sub_eq_add_neg, add_neg_self (finite_iff_unpack.mp hx)]
  rfl

theorem mul_zero {x : Sample} (hx : x.Finite) :
    x * 0 = if x.isNegative then negativeZero else 0 := by
  have hnan := hx.isNaN_eq_false
  have hproduct : UnpackedFloat.mul Format.binary32 x.unpack (.zero .positive) =
      .zero (signOf x.bits) := by
    rw [finite_iff_unpack] at hx
    have hsign : signOf x.bits * .positive = signOf x.bits := by cases signOf x.bits <;> rfl
    rcases unpack_cases hnan with h | h | ⟨m, e, hm, h⟩
    · rw [h] at hx
      cases hx
    · rw [h]
      exact congrArg UnpackedFloat.zero hsign
    · rw [h]
      exact congrArg UnpackedFloat.zero hsign
  have hmul {z : Sample} (hz : z.isNaN = false) (h : z.unpack = .zero (signOf x.bits)) :
      x * 0 = z :=
    map₂_eq_of_unpack (g := UnpackedFloat.mul Format.binary32) (fun _ _ => rfl) hnan rfl hz
      (hproduct.trans h.symm)
  rw [isNegative_eq]
  cases hs : signOf x.bits with
  | negative => exact hmul rfl (by rw [hs]; rfl)
  | positive => exact hmul rfl (by rw [hs]; rfl)

theorem isNaN_mul_zero {x : Sample} (hx : ¬ x.Finite) : (x * 0).isNaN = true := by
  change (map₂ (· * ·) x 0).isNaN = true
  cases hnan : x.isNaN with
  | true => rwa [map₂, if_pos hnan]
  | false =>
      obtain ⟨s, hs⟩ := exists_infinity hnan hx
      have hvalue : x.value * (0 : Sample).value = .ofModel (.pack .notANumber) := by
        change Float32.ofModel
          (.pack (UnpackedFloat.mul Format.binary32 x.value.toModel.unpack _)) = _
        rw [unpack_toModel_value hnan, hs]
        rfl
      rw [map₂_eq hnan rfl, hvalue]
      rfl

theorem zero_add_of_unpack {z x : Sample} (hz : z.isNaN = false)
    (h : UnpackedFloat.add Format.binary32 z.unpack x.unpack = x.unpack) : z + x = x := by
  change map₂ (· + ·) z x = x
  cases hx : x.isNaN with
  | true => rw [map₂, if_neg (by simp [hz]), if_pos hx]
  | false =>
      exact map₂_eq_of_unpack (g := UnpackedFloat.add Format.binary32) (fun _ _ => rfl) hz hx hx h

theorem zero_add (x : Sample) : 0 + x = if x = negativeZero then 0 else x := by
  split
  next h =>
    rw [h]
    decide +kernel
  next h =>
    apply zero_add_of_unpack rfl
    change UnpackedFloat.add Format.binary32 (.zero .positive) x.unpack = _
    generalize hu : x.unpack = u
    cases u with
    | notANumber => rfl
    | infinity s => rfl
    | finite s m e hm => rfl
    | zero s =>
        cases s with
        | positive => rfl
        | negative =>
            have hnan : x.isNaN = false := by
              rw [Bool.eq_false_iff, ne_eq, isNaN_iff_unpack, hu]
              simp
            have hzero : negativeZero.unpack = .zero .negative := rfl
            exact absurd (eq_of_unpack_eq hnan rfl (hu.trans hzero.symm)) h

theorem negativeZero_add (x : Sample) : negativeZero + x = x := by
  apply zero_add_of_unpack rfl
  change UnpackedFloat.add Format.binary32 (.zero .negative) x.unpack = _
  cases x.unpack with
  | notANumber => rfl
  | infinity s => rfl
  | zero s => cases s <;> rfl
  | finite s m e hm => rfl

/-! ### Whole samples -/

theorem floor_of_isWhole {x : Sample} {n : Int} (h : x.IsWhole n) : x.floor = x := by
  obtain ⟨hfinite, hquanta⟩ := h
  by_cases hzero : x.quanta = 0
  · -- The quanta do not tell the sign of a zero, but it is not rounded at all.
    rw [quanta] at hzero
    rw [floor, round]
    generalize x.unpack = u at hzero
    cases u with
    | notANumber | infinity | zero => rfl
    | finite s m e hm =>
        have hpos := quantaOf_pos hm e
        have habs := natAbs_apply s (quantaOf m e)
        change s.apply (quantaOf m e) = 0 at hzero
        omega
  · obtain ⟨hfloor, hfloorquanta⟩ := floor_exact hfinite
    rw [hquanta, Int.mul_ediv_cancel _ (by decide), ← hquanta] at hfloorquanta
    exact (eq_of_quanta_eq hfinite hfloor hfloorquanta.symm hzero).symm

end Sample

end SignalExpr
