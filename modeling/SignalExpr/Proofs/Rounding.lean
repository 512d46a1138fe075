import Mathlib
import SignalExpr.Sample

/-!
Rounding to the format binary32. A rounded number is the number of its quanta, the units of the
last place of the least exponent, and what it is rounded to is the packed form of a canonical
mantissa and exponent.
-/

namespace SignalExpr.Binary32

open Float.Model (Format UnpackedFloat totalExponent)
open Float.Model.UnpackedFloat

theorem targetExponent_binary32 (total : Int) :
    Format.binary32.targetExponent total = max (total - 24) (-149) := rfl

theorem mantissa_shiftRight (em : ExtendedMantissa) (n : Nat) :
    (em >>> n).mantissa = em.mantissa / 2 ^ n := by
  induction n with
  | zero => exact (Nat.div_one _).symm
  | succ n ih =>
      change (em >>> n).mantissa / 2 = _
      rw [ih, Nat.div_div_eq_div_mul, Nat.pow_succ]

theorem exact_shiftRight (m n : Nat) :
    ExtendedMantissa.mk (m * 2 ^ n) false false >>> n = ⟨m, false, false⟩ := by
  induction n generalizing m with
  | zero => simp [HShiftRight.hShiftRight, Nat.repeat]
  | succ n ih =>
      have hdouble : m * 2 ^ (n + 1) = m * 2 * 2 ^ n := by ring
      change (ExtendedMantissa.mk (m * 2 ^ (n + 1)) false false >>> n).shiftRightOne = _
      rw [hdouble, ih]
      simp [ExtendedMantissa.shiftRightOne]

theorem roundedMantissa_bounds (em : ExtendedMantissa) :
    em.mantissa ≤ em.roundedMantissa ∧ em.roundedMantissa ≤ em.mantissa + 1 := by
  obtain ⟨m, round, sticky⟩ := em
  cases round <;> cases sticky <;>
    simp only [ExtendedMantissa.roundedMantissa, ExtendedMantissa.accuracy,
      Accuracy.roundToNearestEven] <;> omega

/-- What is left of a mantissa when its last `n` bits are rounded away. -/
def shortened (m n : Nat) : Nat :=
  (ExtendedMantissa.mk m false false >>> n).roundedMantissa

theorem le_shortened {m n g : Nat} (h : g * 2 ^ n ≤ m) : g ≤ shortened m n := by
  have hfloor : g ≤ m / 2 ^ n := (Nat.le_div_iff_mul_le (Nat.two_pow_pos n)).mpr h
  have hbounds := (roundedMantissa_bounds (ExtendedMantissa.mk m false false >>> n)).1
  rw [mantissa_shiftRight] at hbounds
  exact hfloor.trans hbounds

theorem shortened_le {m n g : Nat} (h : m ≤ g * 2 ^ n) : shortened m n ≤ g := by
  rcases Nat.lt_or_eq_of_le h with hlt | rfl
  · have hfloor : m / 2 ^ n < g := (Nat.div_lt_iff_lt_mul (Nat.two_pow_pos n)).mpr hlt
    have hbounds := (roundedMantissa_bounds (ExtendedMantissa.mk m false false >>> n)).2
    rw [mantissa_shiftRight] at hbounds
    exact hbounds.trans hfloor
  · rw [shortened, exact_shiftRight]
    rfl

/-- The number with a rounded mantissa. A mantissa that was rounded up to a power of two is one
bit too long. -/
def settled (s : Sign) (m : Nat) (e : Int) : UnpackedFloat :=
  if h : m = 0 then .zero s
  else if m = 2 ^ 24 then .finite s (2 ^ 23) (e + 1) (by decide)
  else .finite s m e (Nat.pos_of_ne_zero h)

theorem shiftToExponent_eq (m : Nat) {e t : Int} (h : e ≤ t) :
    shiftToExponent m e .exact t = (ExtendedMantissa.mk m false false >>> (t - e).toNat, t) := by
  simp only [shiftToExponent, ExtendedMantissa.ofMantissaAndAccuracy, Prod.mk.injEq, true_and]
  omega

theorem shiftToTargetExponent_of_lt {m : Nat} {e : Int} (hm : m < 2 ^ 24) (he : -149 ≤ e) :
    shiftToTargetExponent Format.binary32 m e .exact = (⟨m, false, false⟩, e) := by
  have hlog : m.log2 < 24 := by
    rcases Nat.eq_zero_or_pos m with rfl | hpos
    · decide
    · exact (Nat.log2_lt hpos.ne').mpr hm
  have hshift : (Format.binary32.targetExponent (totalExponent m e) - e).toNat = 0 := by
    rw [targetExponent_binary32, totalExponent]
    omega
  simp only [shiftToTargetExponent, shiftToExponent, hshift]
  exact congrArg (Prod.mk _) (add_zero e)

theorem shiftToTargetExponent_carry {e : Int} (he : -149 ≤ e) :
    shiftToTargetExponent Format.binary32 (2 ^ 24) e .exact =
      (⟨2 ^ 23, false, false⟩, e + 1) := by
  have htarget : Format.binary32.targetExponent (totalExponent (2 ^ 24) e) = e + 1 := by
    rw [targetExponent_binary32, totalExponent, Nat.log2_two_pow]
    omega
  rw [shiftToTargetExponent, htarget, shiftToExponent_eq _ (by omega)]
  have hone : (e + 1 - e).toNat = 1 := by omega
  rw [hone]
  rfl

theorem settle {s : Sign} {r : Nat} {t : Int} (hr : r ≤ 2 ^ 24) (ht : -149 ≤ t) :
    (let (em, e) := shiftToTargetExponent Format.binary32 r t .exact
      if h : em.mantissa = 0 then UnpackedFloat.zero s
      else .finite s em.mantissa e (Nat.pos_of_ne_zero h)) = settled s r t := by
  rcases Nat.lt_or_eq_of_le hr with hlt | rfl
  · simp only [shiftToTargetExponent_of_lt hlt ht, settled, hlt.ne, if_false]
  · rw [shiftToTargetExponent_carry ht]
    rfl

theorem roundWithAccuracy_eq (s : Sign) {m : Nat} {e t : Int}
    (ht : Format.binary32.targetExponent (totalExponent m e) = t) (het : e ≤ t)
    (hlow : -149 ≤ t) (hm : shortened m (t - e).toNat ≤ 2 ^ 24) :
    roundWithAccuracy Format.binary32 s m e .exact = settled s (shortened m (t - e).toNat) t := by
  rw [roundWithAccuracy, shiftToTargetExponent, ht, shiftToExponent_eq _ het]
  exact settle hm hlow

/-- A whole number whose leading 24 bits are all there is. -/
def Representable (g : Nat) : Prop :=
  ∃ m k, m < 2 ^ 24 ∧ g = m * 2 ^ k

/-- The second number is what the first one is rounded to: no representable number lies between
them. -/
def RoundsTo (n r : Nat) : Prop :=
  ∀ g, Representable g → (g ≤ n → g ≤ r) ∧ (n ≤ g → r ≤ g)

theorem shortened_mul_two_pow (m n j : Nat) : shortened (m * 2 ^ j) (n + j) = shortened m n := by
  have hadd (em : ExtendedMantissa) : em >>> (n + j) = (em >>> j) >>> n := by
    induction n with
    | zero =>
        rw [Nat.zero_add]
        rfl
    | succ n ih =>
        rw [Nat.succ_add]
        exact congrArg ExtendedMantissa.shiftRightOne ih
  rw [shortened, hadd, exact_shiftRight, shortened]

/-- The exponent of the last place, above the least one, of a number in quanta. -/
def lastPlace (n : Nat) : Nat :=
  n.log2 - 23

theorem lt_two_pow_lastPlace (n : Nat) : n < 2 ^ 24 * 2 ^ lastPlace n := by
  refine (Nat.lt_log2_self (n := n)).trans_le ?_
  rw [← Nat.pow_add]
  apply Nat.pow_le_pow_right (by decide)
  rw [lastPlace]
  omega

theorem two_pow_lastPlace_le {n : Nat} (h : lastPlace n ≠ 0) : 2 ^ 23 * 2 ^ lastPlace n ≤ n := by
  have hn : n ≠ 0 := by
    rintro rfl
    exact h rfl
  refine le_trans ?_ (Nat.log2_self_le hn)
  rw [← Nat.pow_add]
  apply Nat.pow_le_pow_right (by decide)
  rw [lastPlace] at h ⊢
  omega

/-- A natural number with all bits but the leading 24 rounded away. -/
def rounded (n : Nat) : Nat :=
  shortened n (lastPlace n) * 2 ^ lastPlace n

theorem shortened_lastPlace_le (n : Nat) : shortened n (lastPlace n) ≤ 2 ^ 24 :=
  shortened_le (lt_two_pow_lastPlace n).le

theorem le_shortened_lastPlace {n : Nat} (h : lastPlace n ≠ 0) :
    2 ^ 23 ≤ shortened n (lastPlace n) :=
  le_shortened (two_pow_lastPlace_le h)

theorem Representable.dvd_or_lt {g : Nat} (h : Representable g) (k : Nat) :
    (∃ q, g = q * 2 ^ k) ∨ (k ≠ 0 ∧ g < 2 ^ 23 * 2 ^ k) := by
  obtain ⟨m, j, hm, rfl⟩ := h
  rcases Nat.lt_or_ge j k with hlt | hge
  · right
    refine ⟨by omega, ?_⟩
    have hpow : 2 ^ 23 * 2 ^ k = 2 ^ 24 * 2 ^ j * 2 ^ (k - j - 1) := by
      rw [← Nat.pow_add, ← Nat.pow_add, ← Nat.pow_add]
      congr 1
      omega
    rw [hpow]
    calc m * 2 ^ j < 2 ^ 24 * 2 ^ j := Nat.mul_lt_mul_of_pos_right hm (Nat.two_pow_pos j)
      _ ≤ 2 ^ 24 * 2 ^ j * 2 ^ (k - j - 1) := Nat.le_mul_of_pos_right _ (Nat.two_pow_pos _)
  · left
    refine ⟨m * 2 ^ (j - k), ?_⟩
    rw [Nat.mul_assoc, ← Nat.pow_add, Nat.sub_add_cancel hge]

theorem roundsTo_rounded (n : Nat) : RoundsTo n (rounded n) := by
  intro g hg
  rcases hg.dvd_or_lt (lastPlace n) with ⟨q, rfl⟩ | ⟨hplace, hlt⟩
  · exact ⟨fun h => Nat.mul_le_mul_right _ (le_shortened h),
      fun h => Nat.mul_le_mul_right _ (shortened_le h)⟩
  · have hn := two_pow_lastPlace_le hplace
    constructor
    · intro _
      exact hlt.le.trans (Nat.mul_le_mul_right _ (le_shortened_lastPlace hplace))
    · intro h
      omega

/-- The number of quanta in `m * 2 ^ e`. A quantum is the least positive number, `2 ^ -149`. -/
def quantaOf (m : Nat) (e : Int) : Nat :=
  m * 2 ^ (e + 149).toNat

theorem roundWithAccuracy_zero (s : Sign) {e : Int} (he : -149 ≤ e) :
    roundWithAccuracy Format.binary32 s 0 e .exact = .zero s := by
  rw [roundWithAccuracy, shiftToTargetExponent_of_lt (by decide) he]
  exact settle (Nat.zero_le _) he

theorem log2_quantaOf {m : Nat} (hm : m ≠ 0) (e : Int) :
    (quantaOf m e).log2 = m.log2 + (e + 149).toNat := by
  have hlow := Nat.log2_self_le hm
  have hhigh := Nat.lt_log2_self (n := m)
  refine (Nat.log2_eq_iff (Nat.mul_ne_zero hm (Nat.two_pow_pos _).ne')).mpr ⟨?_, ?_⟩
  · rw [Nat.pow_add]
    exact Nat.mul_le_mul_right _ hlow
  · rw [Nat.add_right_comm, Nat.pow_add]
    exact Nat.mul_lt_mul_of_pos_right hhigh (Nat.two_pow_pos _)

/-- Rounding is a matter of the number alone, not of the mantissa and the exponent that it is
given by. -/
theorem round_eq (s : Sign) (m : Nat) {e : Int} (he : -149 ≤ e) :
    UnpackedFloat.round Format.binary32 s m e =
      settled s (shortened (quantaOf m e) (lastPlace (quantaOf m e)))
        (lastPlace (quantaOf m e) - 149) := by
  rcases Nat.eq_zero_or_pos m with rfl | hpos
  · have hlow : -149 ≤ e - ((e - Format.binary32.targetExponent (totalExponent 0 e)).toNat : Int) := by
      rw [targetExponent_binary32, totalExponent]
      omega
    simp only [UnpackedFloat.round, decreaseExponent, Nat.zero_shiftLeft,
      roundWithAccuracy_zero s hlow]
    rw [quantaOf, Nat.zero_mul]
    rfl
  · have hlog := log2_quantaOf hpos.ne' e
    generalize ht : Format.binary32.targetExponent (totalExponent m e) = t
    have htarget : t = lastPlace (quantaOf m e) - 149 := by
      rw [← ht, targetExponent_binary32, totalExponent, lastPlace, hlog]
      omega
    generalize hi : (e - t).toNat = i
    have hdecreased : decreaseExponent m e t = (m * 2 ^ i, e - i) := by
      rw [decreaseExponent, hi, Nat.shiftLeft_eq]
    have hsame : quantaOf m e = m * 2 ^ i * 2 ^ (e - i + 149).toNat := by
      rw [quantaOf, Nat.mul_assoc, ← Nat.pow_add]
      congr 2
      omega
    have hlogs : (m * 2 ^ i).log2 = m.log2 + i := by
      have hquanta := log2_quantaOf hpos.ne' (i - 149)
      have hexponent : ((i : Int) - 149 + 149).toNat = i := by omega
      rwa [quantaOf, hexponent] at hquanta
    have hagain : Format.binary32.targetExponent (totalExponent (m * 2 ^ i) (e - i)) = t := by
      rw [← ht, totalExponent, totalExponent, hlogs]
      congr 1
      omega
    have hshortened : shortened (m * 2 ^ i) (t - (e - i)).toNat =
        shortened (quantaOf m e) (lastPlace (quantaOf m e)) := by
      have hplace : lastPlace (quantaOf m e) = (t - (e - i)).toNat + (e - i + 149).toNat := by
        omega
      rw [hplace, hsame, shortened_mul_two_pow]
    have hbound := shortened_lastPlace_le (quantaOf m e)
    rw [← hshortened] at hbound
    rw [UnpackedFloat.round, ht, hdecreased]
    refine (roundWithAccuracy_eq s hagain (by omega) (by omega) hbound).trans ?_
    rw [hshortened, htarget]

/-! ### Packed numbers -/

theorem unpackSign_packComponents (s : Sign) (e : BitVec 8) (m : BitVec 23) :
    @unpackSign Format.binary32 (packComponents Format.binary32 s e m) = s.toBitVec := by
  change (s.toBitVec ++ e ++ m).extractLsb' 31 1 = s.toBitVec
  rw [BitVec.extractLsb'_append_eq_of_le (by decide), BitVec.extractLsb'_append_eq_of_le (by decide)]
  cases s <;> rfl

theorem ofBitVec_toBitVec (s : Sign) : Sign.ofBitVec s.toBitVec = s := by
  cases s <;> rfl

theorem toNat_implicit (m : BitVec 23) : (BitVec.ofNat 1 1 ++ m).toNat = 2 ^ 23 + m.toNat := by
  rw [BitVec.toNat_append, ← Nat.shiftLeft_add_eq_or_of_lt m.isLt]
  rfl

theorem unpack_packComponents (s : Sign) (e : BitVec 8) (m : BitVec 23) :
    unpack Format.binary32 (packComponents Format.binary32 s e m) =
      if e = -BitVec.ofNat 8 1 then
        if m = BitVec.ofNat 23 0 then .infinity s else .notANumber
      else if e = BitVec.ofNat 8 0 then
        if h : m = BitVec.ofNat 23 0 then .zero s
        else .finite s m.toNat (e.toNat - (127 + 23) + 1)
          (by simpa [BitVec.toNat_pos, BitVec.pos_iff_ne_zero])
      else .finite s (2 ^ 23 + m.toNat) (e.toNat - (127 + 23)) (by omega) := by
  simp only [unpack, unpackMantissa_packComponents, unpackExponent_packComponents,
    unpackSign_packComponents, ofBitVec_toBitVec, toNat_implicit]
  rfl

/-- A mantissa and an exponent that a packed number can have. -/
structure Canonical (m : Nat) (e : Int) : Prop where
  mantissa_lt : m < 2 ^ 24
  exponent_ge : -149 ≤ e
  exponent_le : e ≤ 104
  normal : 2 ^ 23 ≤ m ∨ e = -149

theorem unpack_pack_zero (s : Sign) :
    unpack Format.binary32 (pack Format.binary32 (.zero s)) = .zero s := by
  cases s <;> rfl

theorem unpack_pack_finite (s : Sign) {m : Nat} {e : Int} (hm : 0 < m) (h : Canonical m e) :
    unpack Format.binary32 (pack Format.binary32 (.finite s m e hm)) = .finite s m e hm := by
  obtain ⟨hmantissa, hlow, hhigh, hnormal⟩ := h
  obtain ⟨b, hb⟩ : ∃ b : Nat, e + 127 + 23 = b := ⟨(e + 150).toNat, by omega⟩
  have hpack : pack Format.binary32 (.finite s m e hm) =
      if m.log2 + 1 = 24 then
        packComponents Format.binary32 s (BitVec.ofNat 8 b) (BitVec.ofNat 23 m)
      else packComponents Format.binary32 s (BitVec.ofNat 8 0) (BitVec.ofNat 23 m) := by
    have hbiased : (e + 127 + 23).toNat = b := by omega
    have hfits : ¬ 2 ^ 8 ≤ (e + 127 + 23).toNat + 1 := by omega
    exact (if_neg hfits).trans (by rw [← hbiased]; rfl)
  rw [hpack]
  rcases Nat.lt_or_ge m (2 ^ 23) with hsub | hnorm
  · have hlog : ¬ m.log2 + 1 = 24 := by
      have := (Nat.log2_lt hm.ne').mpr hsub
      omega
    have hnat : (BitVec.ofNat 23 m).toNat = m := Nat.mod_eq_of_lt hsub
    have hne : BitVec.ofNat 23 m ≠ BitVec.ofNat 23 0 := by
      intro h0
      have := congrArg BitVec.toNat h0
      rw [hnat] at this
      exact hm.ne' this
    rw [if_neg hlog, unpack_packComponents, if_neg (by decide), if_pos rfl, dif_neg hne]
    simp only [hnat]
    congr 1
    rw [BitVec.toNat_ofNat]
    omega
  · have hlog : m.log2 + 1 = 24 := by
      have := (Nat.log2_eq_iff hm.ne').mpr ⟨hnorm, hmantissa⟩
      omega
    have hexp : (BitVec.ofNat 8 b).toNat = b := Nat.mod_eq_of_lt (by omega)
    have hones : BitVec.ofNat 8 b ≠ -BitVec.ofNat 8 1 := by
      intro h1
      have := congrArg BitVec.toNat h1
      rw [hexp] at this
      change b = 255 at this
      omega
    have hzero : BitVec.ofNat 8 b ≠ BitVec.ofNat 8 0 := by
      intro h0
      have := congrArg BitVec.toNat h0
      rw [hexp] at this
      change b = 0 at this
      omega
    rw [if_pos hlog, unpack_packComponents, if_neg hones, if_neg hzero]
    have hnat : 2 ^ 23 + (BitVec.ofNat 23 m).toNat = m := by
      rw [BitVec.toNat_ofNat]
      omega
    simp only [hnat, hexp]
    congr 1
    omega

def signOf (b : UInt32) : Sign :=
  Sign.ofBitVec (@unpackSign Format.binary32 b.toBitVec)

theorem unpack_eq (b : UInt32) :
    unpack Format.binary32 b.toBitVec =
      if b.toNat / 2 ^ 23 % 2 ^ 8 = 255 then
        if b.toNat % 2 ^ 23 = 0 then .infinity (signOf b) else .notANumber
      else if b.toNat / 2 ^ 23 % 2 ^ 8 = 0 then
        if h : b.toNat % 2 ^ 23 = 0 then .zero (signOf b)
        else .finite (signOf b) (b.toNat % 2 ^ 23) (-149) (Nat.pos_of_ne_zero h)
      else .finite (signOf b) (2 ^ 23 + b.toNat % 2 ^ 23) ((b.toNat / 2 ^ 23 % 2 ^ 8 : Nat) - 150 : Int)
        (by omega) := by
  have hexponent : (@unpackExponent Format.binary32 b.toBitVec).toNat = b.toNat / 2 ^ 23 % 2 ^ 8 :=
    Sample.toNat_unpackExponent b
  have hmantissa : (@unpackMantissa Format.binary32 b.toBitVec).toNat = b.toNat % 2 ^ 23 :=
    Sample.toNat_unpackMantissa b
  have hones : @unpackExponent Format.binary32 b.toBitVec = -BitVec.ofNat 8 1 ↔
      b.toNat / 2 ^ 23 % 2 ^ 8 = 255 := by
    rw [← hexponent, ← BitVec.toNat_inj]
    rfl
  have hnone : @unpackExponent Format.binary32 b.toBitVec = BitVec.ofNat 8 0 ↔
      b.toNat / 2 ^ 23 % 2 ^ 8 = 0 := by
    rw [← hexponent, ← BitVec.toNat_inj]
    rfl
  have hempty : @unpackMantissa Format.binary32 b.toBitVec = BitVec.ofNat 23 0 ↔
      b.toNat % 2 ^ 23 = 0 := by
    rw [← hmantissa, ← BitVec.toNat_inj]
    rfl
  have himplicit := toNat_implicit (@unpackMantissa Format.binary32 b.toBitVec)
  simp only [unpack, hones, hnone, hempty, himplicit, hexponent, hmantissa]
  rw [signOf]
  split
  next => rfl
  next =>
    split
    next hzero =>
      rw [hzero]
      rfl
    next => rfl

theorem canonical_of_unpack {b : UInt32} {s : Sign} {m : Nat} {e : Int} {hm : 0 < m}
    (h : unpack Format.binary32 b.toBitVec = .finite s m e hm) : Canonical m e := by
  rw [unpack_eq] at h
  split at h
  next => split at h <;> cases h
  next =>
    split at h
    next =>
      split at h
      next => cases h
      next =>
        obtain ⟨-, rfl, rfl⟩ := UnpackedFloat.finite.inj h
        exact ⟨by omega, by omega, by omega, .inr rfl⟩
    next =>
      obtain ⟨-, rfl, rfl⟩ := UnpackedFloat.finite.inj h
      exact ⟨by omega, by omega, by omega, .inl (by omega)⟩

end SignalExpr.Binary32
