import SignalExpr.Proofs.Rounding
import SignalExpr.Sample.Arithmetic

/-!
Samples are measured in quanta, the least positive sample being one quantum. Sums and differences
of finite samples are rounded faithfully: no sample lies between the exact value and the result.
Whole numbers up to `2 ^ 24`, floors and truncations are exact.
-/

namespace SignalExpr

open Float.Model (Format UnpackedFloat totalExponent)
open Float.Model.UnpackedFloat (Sign)

namespace Binary32

/-- A number in quanta. Infinity counts as the power of two beyond the greatest number. -/
def quanta : UnpackedFloat → Int
  | .finite s m e _ => s.apply (quantaOf m e)
  | .infinity s => s.apply (2 ^ 24 * 2 ^ 253)
  | _ => 0

theorem Canonical.quantaOf_lt {m : Nat} {e : Int} (h : Canonical m e) :
    quantaOf m e < 2 ^ 24 * 2 ^ 253 := by
  have hpow : 2 ^ (e + 149).toNat ≤ 2 ^ 253 := Nat.pow_le_pow_right (by decide) (by
    have := h.exponent_le
    omega)
  calc quantaOf m e < 2 ^ 24 * 2 ^ (e + 149).toNat :=
        Nat.mul_lt_mul_of_pos_right h.mantissa_lt (Nat.two_pow_pos _)
    _ ≤ 2 ^ 24 * 2 ^ 253 := Nat.mul_le_mul_left _ hpow

theorem Canonical.quantaOf_lt_of_lt {m n : Nat} {e f : Int} (hm : Canonical m e)
    (hn : Canonical n f) (h : e < f) : quantaOf m e < quantaOf n f := by
  have hlow := hm.exponent_ge
  have hnormal : 2 ^ 23 ≤ n := hn.normal.resolve_right (by omega)
  have hpow : 2 ^ (f + 149).toNat = 2 * 2 ^ (e + 149).toNat * 2 ^ (f - e - 1).toNat := by
    rw [← Nat.pow_succ', ← Nat.pow_add]
    congr 1
    omega
  calc quantaOf m e < 2 ^ 24 * 2 ^ (e + 149).toNat :=
        Nat.mul_lt_mul_of_pos_right hm.mantissa_lt (Nat.two_pow_pos _)
    _ = 2 ^ 23 * (2 * 2 ^ (e + 149).toNat) := by ring
    _ ≤ 2 ^ 23 * 2 ^ (f + 149).toNat := by
        rw [hpow]
        exact Nat.mul_le_mul_left _ (Nat.le_mul_of_pos_right _ (Nat.two_pow_pos _))
    _ ≤ quantaOf n f := Nat.mul_le_mul_right _ hnormal

/-- Numbers are compared by their exponents first, which is as good as comparing them. -/
theorem Canonical.compare_eq {m n : Nat} {e f : Int} (hm : Canonical m e) (hn : Canonical n f) :
    (compare e f).then (compare m n) = compare (quantaOf m e) (quantaOf n f) := by
  rcases Int.lt_trichotomy e f with h | rfl | h
  · rw [Int.compare_eq_lt.mpr h, Nat.compare_eq_lt.mpr (hm.quantaOf_lt_of_lt hn h)]
    rfl
  · have hpow := Nat.two_pow_pos (e + 149).toNat
    rw [compare_eq_iff_eq.mpr rfl]
    change compare m n = _
    rw [quantaOf, quantaOf]
    rcases Nat.lt_trichotomy m n with h | rfl | h
    · rw [Nat.compare_eq_lt.mpr h, Nat.compare_eq_lt.mpr (Nat.mul_lt_mul_of_pos_right h hpow)]
    · rw [compare_eq_iff_eq.mpr rfl, compare_eq_iff_eq.mpr rfl]
    · rw [Nat.compare_eq_gt.mpr h, Nat.compare_eq_gt.mpr (Nat.mul_lt_mul_of_pos_right h hpow)]
  · rw [Int.compare_eq_gt.mpr h, Nat.compare_eq_gt.mpr (hn.quantaOf_lt_of_lt hm h)]
    rfl

theorem apply_quantaOf (s : Sign) (m : Nat) (e : Int) :
    s.apply (quantaOf m e) = s.apply m * 2 ^ (e + 149).toNat := by
  cases s <;> simp [Sign.apply, quantaOf]

theorem quantaOf_pos {m : Nat} (hm : 0 < m) (e : Int) : 0 < quantaOf m e :=
  Nat.mul_pos hm (Nat.two_pow_pos _)

/-- What the bits of a sample unpack to: infinity, zero, or a number in canonical form. -/
def WellFormed : UnpackedFloat → Prop
  | .finite _ m e _ => Canonical m e
  | .notANumber => False
  | _ => True

theorem lt_iff_quanta {u v : UnpackedFloat} (hu : WellFormed u) (hv : WellFormed v) :
    u.lt v = true ↔ quanta u < quanta v := by
  rw [UnpackedFloat.lt, beq_iff_eq]
  cases u with
  | notANumber => exact hu.elim
  | infinity s =>
      cases v with
      | notANumber => exact hv.elim
      | infinity t => cases s <;> cases t <;> decide
      | zero t =>
          cases s <;> simp [UnpackedFloat.compare, quanta, Sign.apply]
      | finite t n f hn =>
          have := Canonical.quantaOf_lt hv
          cases s <;> cases t <;> simp [UnpackedFloat.compare, quanta, Sign.apply] <;> omega
  | zero s =>
      cases v with
      | notANumber => exact hv.elim
      | infinity t => cases t <;> simp [UnpackedFloat.compare, quanta, Sign.apply]
      | zero t => simp [UnpackedFloat.compare, quanta]
      | finite t n f hn =>
          have hnpos := quantaOf_pos hn f
          cases t with
          | negative => simp [UnpackedFloat.compare, quanta, Sign.apply]
          | positive => simpa [UnpackedFloat.compare, quanta, Sign.apply] using hnpos
  | finite s m e hm =>
      have hmlt := Canonical.quantaOf_lt hu
      have hmpos := quantaOf_pos hm e
      cases v with
      | notANumber => exact hv.elim
      | infinity t =>
          cases s <;> cases t <;> simp [UnpackedFloat.compare, quanta, Sign.apply] <;> omega
      | zero t =>
          cases s with
          | negative => simpa [UnpackedFloat.compare, quanta, Sign.apply] using hmpos
          | positive => simp [UnpackedFloat.compare, quanta, Sign.apply]
      | finite t n f hn =>
          have hnpos := quantaOf_pos hn f
          have hcompare := Canonical.compare_eq hu hv
          cases s <;> cases t <;> simp only [UnpackedFloat.compare, hcompare, quanta, Sign.apply,
            Option.some.injEq, Ordering.swap_eq_lt, Nat.compare_eq_gt, Nat.compare_eq_lt,
            reduceCtorEq, true_iff, false_iff] <;> omega

/-- The second number of quanta is what the first one is rounded to: no representable number lies
between them. -/
def Near (q r : Int) : Prop :=
  ∀ g : Int, Representable g.natAbs → (g ≤ q → g ≤ r) ∧ (q ≤ g → r ≤ g)

theorem near_apply (s : Sign) {n r : Nat} (h : RoundsTo n r) : Near (s.apply n) (s.apply r) := by
  intro g hg
  have hzero := h 0 ⟨0, 0, by decide, rfl⟩
  obtain ⟨hlow, hhigh⟩ := h _ hg
  cases s with
  | negative =>
      simp only [Sign.apply]
      omega
  | positive =>
      simp only [Sign.apply]
      omega

/-- The number can be packed as it is, and it is what some number of quanta is rounded to. -/
structure Settles (u : UnpackedFloat) (q : Int) : Prop where
  unpack_pack : .unpack Format.binary32 (UnpackedFloat.pack Format.binary32 u) = u
  isFinite : u.isFinite = true
  near : Near q (quanta u)

theorem quanta_settled (s : Sign) (m k : Nat) :
    quanta (settled s m (k - 149)) = s.apply (m * 2 ^ k : Nat) := by
  rw [settled]
  split
  next hzero =>
    subst hzero
    cases s <;> simp [quanta, Sign.apply]
  next =>
    split
    next hcarry =>
      have hexponent : ((k : Int) - 149 + 1 + 149).toNat = k + 1 := by omega
      subst hcarry
      simp only [quanta, quantaOf, hexponent]
      congr 2
      ring
    next =>
      have hexponent : ((k : Int) - 149 + 149).toNat = k := by omega
      simp only [quanta, quantaOf, hexponent]

theorem settled_cases (s : Sign) {m : Nat} {e : Int} (hm : m ≤ 2 ^ 24) (hlow : -149 ≤ e)
    (hhigh : e ≤ 103) (hnormal : 2 ^ 23 ≤ m ∨ e = -149) :
    settled s m e = .zero s ∨
      ∃ m' e' hm', settled s m e = .finite s m' e' hm' ∧ Canonical m' e' := by
  rw [settled]
  split
  next => exact .inl rfl
  next hne =>
    right
    split
    next => exact ⟨2 ^ 23, e + 1, by decide, rfl, by decide, by omega, by omega, .inl le_rfl⟩
    next => exact ⟨m, e, Nat.pos_of_ne_zero hne, rfl, by omega, hlow, by omega, hnormal⟩

theorem settles_round (s : Sign) (m : Nat) {e : Int} (he : -149 ≤ e)
    (h : quantaOf m e < 2 ^ 24 * 2 ^ 252) :
    Settles (.round Format.binary32 s m e) (s.apply (quantaOf m e)) := by
  rw [round_eq s m he]
  generalize quantaOf m e = n at h
  have hplace : lastPlace n ≤ 252 := by
    rcases Nat.eq_zero_or_pos n with rfl | hpos
    · decide
    · have hpow := Nat.pow_add 2 24 252
      have : n.log2 < 24 + 252 := (Nat.log2_lt hpos.ne').mpr (hpow ▸ h)
      rw [lastPlace]
      omega
  have hnear := near_apply s (roundsTo_rounded n)
  rw [rounded, ← quanta_settled] at hnear
  have hnormal : 2 ^ 23 ≤ shortened n (lastPlace n) ∨ (lastPlace n : Int) - 149 = -149 := by
    rcases Nat.eq_zero_or_pos (lastPlace n) with hzero | hpos
    · exact .inr (by omega)
    · exact .inl (le_shortened_lastPlace hpos.ne')
  rcases settled_cases s (shortened_lastPlace_le n) (by omega) (by omega) hnormal with
    hzero | ⟨m', e', hm', hfinite, hcanonical⟩
  · rw [hzero] at hnear ⊢
    exact ⟨unpack_pack_zero s, rfl, hnear⟩
  · rw [hfinite] at hnear ⊢
    exact ⟨unpack_pack_finite s hm' hcanonical, rfl, hnear⟩

theorem near_refl (q : Int) : Near q q :=
  fun _ _ => ⟨id, id⟩

theorem settles_zero (s : Sign) : Settles (.zero s) 0 :=
  ⟨unpack_pack_zero s, rfl, near_refl 0⟩

theorem settles_normalize (m : Int) {e : Int} (he : -149 ≤ e) (z : Sign)
    (h : (m * 2 ^ (e + 149).toNat).natAbs < 2 ^ 24 * 2 ^ 252) :
    Settles (.normalize Format.binary32 m e z) (m * 2 ^ (e + 149).toNat) := by
  have hquanta : quantaOf m.natAbs e = (m * 2 ^ (e + 149).toNat).natAbs := by
    rw [Int.natAbs_mul, Int.natAbs_pow]
    rfl
  have hround (s : Sign) (hs : s.apply m.natAbs = m) :
      Settles (.round Format.binary32 s m.natAbs e) (m * 2 ^ (e + 149).toNat) := by
    have hsettles := settles_round s m.natAbs he (hquanta ▸ h)
    rwa [apply_quantaOf, hs] at hsettles
  rw [UnpackedFloat.normalize]
  rcases Int.lt_trichotomy m 0 with hm | rfl | hm
  · have habs : (-m).toNat = m.natAbs := by omega
    rw [Int.compare_eq_lt.mpr hm]
    simpa only [habs] using hround .negative (by rw [Sign.apply]; omega)
  · rw [Int.zero_mul]
    exact settles_zero z
  · have habs : m.toNat = m.natAbs := by omega
    rw [Int.compare_eq_gt.mpr hm]
    simpa only [habs] using hround .positive (by rw [Sign.apply]; omega)

/-! ### Sums and differences -/

theorem sub_eq_add_neg (u v : UnpackedFloat) :
    UnpackedFloat.sub Format.binary32 u v = UnpackedFloat.add Format.binary32 u v.neg := by
  cases u with
  | notANumber => rfl
  | infinity s => cases v <;> rfl
  | zero s => cases v <;> rfl
  | finite s m e hm =>
      cases v with
      | finite t n f hn =>
          cases t with
          | negative =>
              simp only [UnpackedFloat.sub, UnpackedFloat.add, UnpackedFloat.neg, Sign.apply,
                Int.sub_neg]
          | positive => rfl
      | _ => rfl

theorem settles_of_wellFormed {u : UnpackedFloat} (h : WellFormed u) (hf : u.isFinite = true) :
    Settles u (quanta u) := by
  cases u with
  | notANumber => exact h.elim
  | infinity s => cases hf
  | zero s => exact settles_zero s
  | finite s m e hm => exact ⟨unpack_pack_finite s hm h, rfl, near_refl _⟩

theorem apply_decreaseExponent (s : Sign) (m : Nat) {e f : Int} (hf : -149 ≤ f) (h : f ≤ e) :
    s.apply (UnpackedFloat.decreaseExponent m e f).1 * 2 ^ (f + 149).toNat =
      s.apply (quantaOf m e) := by
  have hpow : 2 ^ (e + 149).toNat = 2 ^ (e - f).toNat * 2 ^ (f + 149).toNat := by
    rw [← Nat.pow_add]
    congr 1
    omega
  rw [UnpackedFloat.decreaseExponent, Nat.shiftLeft_eq, quantaOf, hpow, ← Nat.mul_assoc]
  cases s <;> simp [Sign.apply]

theorem settles_add {u v : UnpackedFloat} (hu : WellFormed u) (hv : WellFormed v)
    (huf : u.isFinite = true) (hvf : v.isFinite = true)
    (h : (quanta u + quanta v).natAbs < 2 ^ 24 * 2 ^ 252) :
    Settles (UnpackedFloat.add Format.binary32 u v) (quanta u + quanta v) := by
  cases u with
  | notANumber => exact hu.elim
  | infinity s => cases huf
  | zero s =>
      have hzero : quanta (.zero s) + quanta v = quanta v := Int.zero_add _
      rw [hzero]
      cases v with
      | notANumber => exact hv.elim
      | infinity t => cases hvf
      | zero t => cases s <;> cases t <;> exact settles_zero _
      | finite t n f hn => exact settles_of_wellFormed hv rfl
  | finite s m e hm =>
      cases v with
      | notANumber => exact hv.elim
      | infinity t => cases hvf
      | zero t =>
          have hzero : quanta (.finite s m e hm) + quanta (.zero t) = quanta (.finite s m e hm) :=
            Int.add_zero _
          rw [hzero]
          exact settles_of_wellFormed hu rfl
      | finite t n f hn =>
          have hlow : -149 ≤ min e f := le_min hu.exponent_ge hv.exponent_ge
          have hsum : quanta (.finite s m e hm) + quanta (.finite t n f hn) =
              (s.apply (UnpackedFloat.decreaseExponent m e (min e f)).1 +
                t.apply (UnpackedFloat.decreaseExponent n f (min e f)).1)
                * 2 ^ (min e f + 149).toNat := by
            rw [Int.add_mul, apply_decreaseExponent s m hlow (min_le_left e f),
              apply_decreaseExponent t n hlow (min_le_right e f)]
            rfl
          rw [hsum] at h ⊢
          exact settles_normalize _ hlow .positive h

end Binary32

namespace Sample

open Binary32

/-- The number of quanta in a sample. -/
def quanta (x : Sample) : Int :=
  Binary32.quanta x.unpack

/-- The sample is a number, and not an infinite one. -/
def Finite (x : Sample) : Prop :=
  x.isFinite = true

theorem finite_iff_unpack {x : Sample} : x.Finite ↔ x.unpack.isFinite = true := by
  have hbits : x.Finite ↔ x.bits.toNat % 2 ^ 31 < 255 * 2 ^ 23 := by
    rw [Finite, isFinite, decide_eq_true_iff, UInt32.lt_iff_toNat_lt, magnitudeBits,
      UInt32.toNat_mod]
    rfl
  rw [hbits, unpack, unpack_eq]
  split
  next =>
    refine iff_of_false (by omega) ?_
    split <;> simp [UnpackedFloat.isFinite]
  next =>
    refine iff_of_true (by omega) ?_
    split
    next => split <;> rfl
    next => rfl

theorem unpack_ne_notANumber {x : Sample} (h : x.isNaN = false) : x.unpack ≠ .notANumber := by
  rw [isNaN_eq_false_iff] at h
  rw [unpack, unpack_eq]
  split
  next =>
    rw [if_pos (by omega)]
    simp
  next =>
    split
    next => split <;> simp
    next => simp

theorem wellFormed_unpack {x : Sample} (h : x.isNaN = false) : WellFormed x.unpack := by
  have hne := unpack_ne_notANumber h
  generalize hu : x.unpack = u at hne
  cases u with
  | notANumber => exact hne rfl
  | infinity s => trivial
  | zero s => trivial
  | finite s m e hm => exact canonical_of_unpack hu

theorem unpack_of_isNaN {x : Sample} (h : x.isNaN = true) : x.unpack = .notANumber := by
  have hmagnitude := isNaN_eq_false_iff.not.mp (by simpa using h)
  have hbits := x.bits.toNat_lt
  rw [unpack, unpack_eq, if_pos (by omega), if_neg (by omega)]

theorem exists_infinity {x : Sample} (hnan : x.isNaN = false) (hx : ¬ x.Finite) :
    ∃ s, x.unpack = .infinity s := by
  have hwell := wellFormed_unpack hnan
  rw [finite_iff_unpack] at hx
  generalize x.unpack = u at hwell hx
  cases u with
  | notANumber => exact hwell.elim
  | infinity s => exact ⟨s, rfl⟩
  | zero s => exact absurd rfl hx
  | finite s m e hm => exact absurd rfl hx

theorem Finite.isNaN_eq_false {x : Sample} (h : x.Finite) : x.isNaN = false := by
  by_contra hne
  rw [finite_iff_unpack, unpack_of_isNaN (by simpa using hne)] at h
  cases h

theorem lt_iff_quanta_lt {x y : Sample} (hx : x.isNaN = false) (hy : y.isNaN = false) :
    x < y ↔ x.quanta < y.quanta := by
  rw [quanta, quanta, ← lt_iff_quanta (wellFormed_unpack hx) (wellFormed_unpack hy),
    ← unpack_toModel_value hx, ← unpack_toModel_value hy]
  exact decide_eq_true_iff

theorem finite_iff {x : Sample} (h : x.isNaN = false) :
    x.Finite ↔ x.quanta.natAbs < 2 ^ 24 * 2 ^ 253 := by
  have hwell := wellFormed_unpack h
  rw [finite_iff_unpack, quanta]
  generalize x.unpack = u at hwell
  cases u with
  | notANumber => exact hwell.elim
  | infinity s => cases s <;> decide
  | zero s => exact iff_of_true rfl (Nat.mul_pos (Nat.two_pow_pos _) (Nat.two_pow_pos _))
  | finite s m e hm =>
      have hlt := Canonical.quantaOf_lt hwell
      refine iff_of_true rfl ?_
      cases s <;> simpa [Binary32.quanta, Sign.apply] using hlt

/-- The sample is what a number of quanta is rounded to. -/
structure Approximates (x : Sample) (q : Int) : Prop where
  finite : x.Finite
  near : Near q x.quanta

theorem Approximates.quanta_eq {x : Sample} {q : Int} (h : x.Approximates q)
    (hq : Representable q.natAbs) : x.quanta = q := by
  obtain ⟨hlow, hhigh⟩ := h.near q hq
  exact le_antisymm (hhigh le_rfl) (hlow le_rfl)

theorem unpack_ofValue (u : UnpackedFloat) :
    (ofValue (.ofModel (.pack u))).unpack =
      .unpack Format.binary32 (UnpackedFloat.pack Format.binary32 u) := rfl

theorem approximates_ofValue {u : UnpackedFloat} {q : Int} (h : Settles u q) :
    (ofValue (.ofModel (.pack u))).Approximates q := by
  have hunpack := (unpack_ofValue u).trans h.unpack_pack
  refine ⟨?_, ?_⟩
  · rw [finite_iff_unpack, hunpack]
    exact h.isFinite
  · rw [quanta, hunpack]
    exact h.near

theorem approximates_ofResult {u : UnpackedFloat} {q : Int} (h : Settles u q) :
    (ofResult (.ofModel (.pack u))).Approximates q := by
  have hresult := approximates_ofValue h
  have hnan : (Float32.ofModel (.pack u)).isNaN = false := by
    have hfinite := h.isFinite
    change (UnpackedFloat.unpack Format.binary32 (UnpackedFloat.pack Format.binary32 u)).isNaN = _
    rw [h.unpack_pack]
    cases u with
    | notANumber => cases hfinite
    | _ => rfl
  rw [ofResult, if_neg (Bool.eq_false_iff.mp hnan)]
  exact hresult

theorem approximates_ofInt {n : Int} (h : (n * 2 ^ 149).natAbs < 2 ^ 24 * 2 ^ 252) :
    (ofInt n).Approximates (n * 2 ^ 149) :=
  approximates_ofValue (settles_normalize n (by decide) .positive h)

theorem approximates_ofParts (s : Sign) {m : Nat} {e : Int} (he : -149 ≤ e)
    (h : quantaOf m e < 2 ^ 24 * 2 ^ 252) :
    (ofParts s m e).Approximates (s.apply (quantaOf m e)) :=
  approximates_ofValue (settles_round s m he h)

theorem map₂_eq {f : Float32 → Float32 → Float32} {x y : Sample} (hx : x.isNaN = false)
    (hy : y.isNaN = false) : map₂ f x y = ofResult (f x.value y.value) := by
  rw [map₂, if_neg (by simp [hx]), if_neg (by simp [hy])]

theorem approximates_add {x y : Sample} (hx : x.Finite) (hy : y.Finite)
    (h : (x.quanta + y.quanta).natAbs < 2 ^ 24 * 2 ^ 252) :
    (x + y).Approximates (x.quanta + y.quanta) := by
  have hx' := hx.isNaN_eq_false
  have hy' := hy.isNaN_eq_false
  have hvalue : x.value + y.value =
      .ofModel (.pack (UnpackedFloat.add Format.binary32 x.unpack y.unpack)) := by
    rw [← unpack_toModel_value hx', ← unpack_toModel_value hy']
    rfl
  change (map₂ (· + ·) x y).Approximates _
  rw [map₂_eq hx' hy', hvalue]
  exact approximates_ofResult
    (settles_add (wellFormed_unpack hx') (wellFormed_unpack hy') (finite_iff_unpack.mp hx)
      (finite_iff_unpack.mp hy) h)

theorem quanta_neg_unpacked (u : UnpackedFloat) : Binary32.quanta u.neg = -Binary32.quanta u := by
  cases u with
  | notANumber => rfl
  | infinity s => cases s <;> rfl
  | zero s => rfl
  | finite s m e hm =>
      cases s with
      | negative => exact (Int.neg_neg _).symm
      | positive => rfl

theorem approximates_sub {x y : Sample} (hx : x.Finite) (hy : y.Finite)
    (h : (x.quanta - y.quanta).natAbs < 2 ^ 24 * 2 ^ 252) :
    (x - y).Approximates (x.quanta - y.quanta) := by
  have hx' := hx.isNaN_eq_false
  have hy' := hy.isNaN_eq_false
  have hvalue : x.value - y.value =
      .ofModel (.pack (UnpackedFloat.add Format.binary32 x.unpack y.unpack.neg)) := by
    rw [← sub_eq_add_neg, ← unpack_toModel_value hx', ← unpack_toModel_value hy']
    rfl
  have hneg : WellFormed y.unpack.neg ∧ y.unpack.neg.isFinite = true := by
    have hwell := wellFormed_unpack hy'
    rw [finite_iff_unpack] at hy
    generalize y.unpack = v at hwell hy
    cases v with
    | notANumber => exact hwell.elim
    | infinity s => cases hy
    | zero s => exact ⟨trivial, rfl⟩
    | finite s m e hm => exact ⟨hwell, rfl⟩
  have hdifference : x.quanta - y.quanta = x.quanta + Binary32.quanta y.unpack.neg := by
    rw [quanta_neg_unpacked]
    rfl
  change (map₂ (· - ·) x y).Approximates _
  rw [map₂_eq hx' hy', hvalue]
  rw [hdifference] at h ⊢
  exact approximates_ofResult
    (settles_add (wellFormed_unpack hx') hneg.1 (finite_iff_unpack.mp hx) hneg.2 h)

theorem toNat_bits_neg_mod (x : Sample) : (-x).bits.toNat % 2 ^ 31 = x.bits.toNat % 2 ^ 31 := by
  change (x.bits ^^^ 0x80000000).toNat % 2 ^ 31 = _
  rw [UInt32.toNat_xor, Nat.xor_mod_two_pow]
  exact Nat.xor_zero _

theorem signOf_neg (x : Sample) : signOf (-x).bits = -signOf x.bits := by
  change Sign.ofBitVec ((x.bits.toBitVec ^^^ 0x80000000).extractLsb' 31 1) =
    -Sign.ofBitVec (x.bits.toBitVec.extractLsb' 31 1)
  rw [BitVec.extractLsb'_xor]
  rcases BitVec.eq_zero_or_eq_one (x.bits.toBitVec.extractLsb' 31 1) with h | h <;> rw [h] <;> rfl

theorem unpack_neg (x : Sample) : (-x).unpack = x.unpack.neg := by
  have hbits := toNat_bits_neg_mod x
  have hexponent : (-x).bits.toNat / 2 ^ 23 % 2 ^ 8 = x.bits.toNat / 2 ^ 23 % 2 ^ 8 := by omega
  have hmantissa : (-x).bits.toNat % 2 ^ 23 = x.bits.toNat % 2 ^ 23 := by omega
  rw [unpack, unpack, unpack_eq, unpack_eq, signOf_neg]
  simp only [hexponent, hmantissa]
  split
  next => split <;> rfl
  next =>
    split
    next => split <;> rfl
    next => rfl

theorem isNaN_neg (x : Sample) : (-x).isNaN = x.isNaN := by
  have hbits := toNat_bits_neg_mod x
  rw [Bool.eq_iff_iff, ← not_iff_not, Bool.not_eq_true, Bool.not_eq_true, isNaN_eq_false_iff,
    isNaN_eq_false_iff]
  omega

theorem quanta_neg (x : Sample) : (-x).quanta = -x.quanta := by
  rw [quanta, unpack_neg, quanta_neg_unpacked]
  rfl

/-! ### Whole numbers -/

theorem representable_mul {n : Nat} (h : n ≤ 2 ^ 24) (k : Nat) : Representable (n * 2 ^ k) := by
  rcases Nat.lt_or_eq_of_le h with hlt | rfl
  · exact ⟨n, k, hlt, rfl⟩
  · refine ⟨2 ^ 23, k + 1, by decide, ?_⟩
    ring

theorem representable_whole {n : Int} (h : n.natAbs ≤ 2 ^ 24) :
    Representable (n * 2 ^ 149).natAbs := by
  rw [Int.natAbs_mul]
  exact representable_mul h 149

theorem quanta_ofInt {n : Int} (h : n.natAbs ≤ 2 ^ 24) : (ofInt n).quanta = n * 2 ^ 149 := by
  apply Approximates.quanta_eq (approximates_ofInt _) (representable_whole h)
  omega

theorem finite_ofInt {n : Int} (h : n.natAbs ≤ 2 ^ 24) : (ofInt n).Finite := by
  apply (approximates_ofInt _).finite
  omega

theorem magnitude_down (s : Sign) (m k : Nat) :
    s.apply (Rounding.down.magnitude s m k) = s.apply m / 2 ^ k := by
  cases s with
  | positive => simp [Rounding.magnitude, Sign.apply]
  | negative =>
      have hpos : (0 : Int) < 2 ^ k := by positivity
      have hdiv : ((2 ^ k : Nat) : Int) = 2 ^ k := Nat.cast_pow 2 k
      have hsplit : (m % 2 ^ k : Nat) + (2 ^ k : Int) * (m / 2 ^ k : Nat) = m := by
        rw [← hdiv]
        exact_mod_cast Nat.mod_add_div m (2 ^ k)
      have hlt : ((m % 2 ^ k : Nat) : Int) < 2 ^ k := by
        rw [← hdiv]
        exact_mod_cast Nat.mod_lt m (Nat.two_pow_pos k)
      simp only [Rounding.magnitude, Nat.pow_eq, Sign.apply]
      by_cases hpart : m % 2 ^ k = 0
      · rw [if_neg (by simp [hpart])]
        refine ((Int.ediv_emod_unique (r := 0) hpos).mpr ⟨?_, le_rfl, hpos⟩).1.symm
        rw [hpart] at hsplit
        push_cast at hsplit ⊢
        linarith
      · rw [if_pos (by simp [hpart])]
        refine ((Int.ediv_emod_unique (r := 2 ^ k - (m % 2 ^ k : Nat)) hpos).mpr
          ⟨?_, by omega, by omega⟩).1.symm
        push_cast at hsplit ⊢
        linarith

theorem magnitude_down_le (s : Sign) (m k : Nat) : Rounding.down.magnitude s m k ≤ m + 1 := by
  have hdiv := Nat.div_le_self m (2 ^ k)
  cases s <;> simp only [Rounding.magnitude, Nat.pow_eq] <;> split <;> omega

theorem natAbs_apply (s : Sign) (n : Nat) : (s.apply n).natAbs = n := by
  cases s <;> simp [Sign.apply]

theorem floor_exact {x : Sample} (hx : x.Finite) :
    x.floor.Finite ∧ x.floor.quanta = x.quanta / 2 ^ 149 * 2 ^ 149 := by
  have hwell := wellFormed_unpack hx.isNaN_eq_false
  rw [floor, round]
  generalize hu : x.unpack = u at hwell
  have hquanta : x.quanta = Binary32.quanta u := congrArg Binary32.quanta hu
  cases u with
  | notANumber => exact hwell.elim
  | infinity s =>
      rw [finite_iff_unpack, hu] at hx
      cases hx
  | zero s =>
      refine ⟨hx, ?_⟩
      rw [hquanta]
      rfl
  | finite s m e hm =>
      change x.quanta = s.apply (quantaOf m e) at hquanta
      rw [apply_quantaOf] at hquanta
      obtain ⟨hmantissa, hlow, -⟩ : Canonical m e := hwell
      change (if 0 ≤ e then x else _).Finite ∧ (if 0 ≤ e then x else _).quanta = _
      rcases lt_or_ge e 0 with hneg | hnonneg
      · obtain ⟨k, hk, rfl⟩ : ∃ k : Nat, k ≤ 149 ∧ e = -k := ⟨(-e).toNat, by omega, by omega⟩
        have hdiv : x.quanta / 2 ^ 149 = s.apply m / 2 ^ k := by
          have hpow : (2 : Int) ^ 149 = 2 ^ k * 2 ^ (-(k : Int) + 149).toNat := by
            rw [← pow_add]
            congr 1
            omega
          rw [hquanta, hpow, Int.mul_ediv_mul_of_pos_left _ _ (by positivity)]
        have happroximates := approximates_ofParts s (m := Rounding.down.magnitude s m k) (e := 0)
          (by decide) (by
            have := magnitude_down_le s m k
            change _ * 2 ^ 149 < _
            omega)
        rw [apply_quantaOf, magnitude_down, ← hdiv] at happroximates
        rw [if_neg (by omega), Int.neg_neg, Int.toNat_natCast]
        refine ⟨happroximates.finite, happroximates.quanta_eq (representable_whole ?_)⟩
        rw [hdiv, ← magnitude_down, natAbs_apply]
        exact (magnitude_down_le s m k).trans (by omega)
      · rw [if_pos hnonneg]
        refine ⟨hx, ?_⟩
        have hpow : (2 : Int) ^ (e + 149).toNat = 2 ^ e.toNat * 2 ^ 149 := by
          rw [← pow_add]
          congr 1
          omega
        rw [hquanta, hpow, ← mul_assoc, Int.mul_ediv_cancel _ (by positivity)]

theorem roundToInt_eq (s : Sign) (m : Nat) {e : Int} (he : -149 ≤ e) :
    UnpackedFloat.roundToInt s m e = s.apply (quantaOf m e / 2 ^ 149 : Nat) := by
  have hshift : (0 - (e - (e - 0).toNat : Int)).toNat = (-e).toNat := by omega
  have hround : UnpackedFloat.roundToInt s m e =
      s.apply (m * 2 ^ (e - 0).toNat / 2 ^ (-e).toNat : Nat) := by
    simp only [UnpackedFloat.roundToInt, UnpackedFloat.decreaseExponent,
      UnpackedFloat.shiftToExponent, mantissa_shiftRight, hshift, Nat.shiftLeft_eq]
    rfl
  rw [hround, quantaOf]
  congr 2
  rcases lt_or_ge e 0 with hneg | hnonneg
  · have hpow : 2 ^ 149 = 2 ^ (-e).toNat * 2 ^ (e + 149).toNat := by
      rw [← Nat.pow_add]
      congr 1
      omega
    have hzero : (e - 0).toNat = 0 := by omega
    rw [hpow, Nat.mul_div_mul_right _ _ (Nat.two_pow_pos _), hzero, Nat.pow_zero, Nat.mul_one]
  · have hpow : 2 ^ (e + 149).toNat = 2 ^ (e - 0).toNat * 2 ^ 149 := by
      rw [← Nat.pow_add]
      congr 1
      omega
    have hzero : (-e).toNat = 0 := by omega
    rw [hpow, ← Nat.mul_assoc, Nat.mul_div_cancel _ (Nat.two_pow_pos _), hzero, Nat.pow_zero,
      Nat.div_one]

theorem toInt_unpack {x : Sample} (hx : x.Finite) (low high : Int) :
    x.unpack.toInt low high = x.quanta.tdiv (2 ^ 149) := by
  have hwell := wellFormed_unpack hx.isNaN_eq_false
  rw [quanta]
  rw [finite_iff_unpack] at hx
  generalize x.unpack = u at hwell hx
  cases u with
  | notANumber => exact hwell.elim
  | infinity s => cases hx
  | zero s => rfl
  | finite s m e hm =>
      refine (roundToInt_eq s m (Canonical.exponent_ge hwell)).trans ?_
      cases s with
      | positive => rfl
      | negative => exact (Int.neg_tdiv (quantaOf m e) (2 ^ 149)).symm

theorem toInt_toInt64 {x : Sample} (hx : x.Finite) (h : x.quanta.natAbs < 2 ^ 63 * 2 ^ 149) :
    x.toInt64.toInt = x.quanta.tdiv (2 ^ 149) := by
  have hlt : (x.quanta.tdiv (2 ^ 149)).natAbs < 2 ^ 63 := by
    rw [Int.natAbs_tdiv]
    exact Nat.div_lt_of_lt_mul (by rwa [Nat.mul_comm])
  rw [toInt64, UnpackedFloat.toInt64, toInt_unpack hx]
  apply Int64.toInt_ofIntClamp
  · rw [Int64.toInt_minValue]
    omega
  · rw [Int64.toInt_maxValue]
    omega

end Sample

end SignalExpr
