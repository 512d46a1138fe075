/-!
Samples: numbers in the format binary32 of IEEE 754, by their bits. What is not a number has a
sign as well, which an operation passes on from its operands, so a sample is its bits and not the
number that they stand for.
-/

namespace SignalExpr

open Float.Model (UnpackedFloat Format)
open Float.Model.UnpackedFloat (Sign)

/-- A number in the format binary32, by its bits. -/
structure Sample where
  bits : UInt32
deriving DecidableEq, Repr, Inhabited

namespace Sample

/-- The bits without the sign bit. -/
def magnitudeBits (x : Sample) : UInt32 :=
  x.bits % 0x80000000

/-- Whether the exponent is the greatest one and the mantissa is not zero. -/
def isNaN (x : Sample) : Bool :=
  decide (0x7f800000 < x.magnitudeBits)

def isInf (x : Sample) : Bool :=
  x.magnitudeBits == 0x7f800000

def isFinite (x : Sample) : Bool :=
  decide (x.magnitudeBits < 0x7f800000)

theorem isNaN_eq_false_iff {x : Sample} :
    x.isNaN = false ↔ x.bits.toNat % 0x80000000 ≤ 0x7f800000 := by
  rw [isNaN, decide_eq_false_iff_not, UInt32.not_lt, UInt32.le_iff_toNat_le, magnitudeBits,
    UInt32.toNat_mod]
  rfl

theorem toNat_unpackExponent (b : UInt32) :
    (@UnpackedFloat.unpackExponent Format.binary32 b.toBitVec).toNat
      = b.toNat / 0x800000 % 0x100 := by
  simp only [UnpackedFloat.unpackExponent, BitVec.toNat_cast, BitVec.extractLsb_toNat,
    Nat.shiftRight_eq_div_pow]
  rfl

theorem toNat_unpackMantissa (b : UInt32) :
    (@UnpackedFloat.unpackMantissa Format.binary32 b.toBitVec).toNat = b.toNat % 0x800000 := by
  simp only [UnpackedFloat.unpackMantissa, BitVec.toNat_cast, BitVec.extractLsb_toNat,
    Nat.shiftRight_zero]
  rfl

theorem valid_of_isNaN_eq_false {x : Sample} (h : x.isNaN = false) :
    Format.binary32.Valid x.bits.toBitVec := by
  refine ⟨fun he hm => absurd (isNaN_eq_false_iff.1 h) ?_⟩
  have he := congrArg BitVec.toNat he
  rw [toNat_unpackExponent] at he
  have hm : x.bits.toNat % 0x800000 ≠ 0 := by
    rw [← toNat_unpackMantissa]
    exact fun h0 => hm (BitVec.eq_of_toNat_eq h0)
  have : (-BitVec.ofNat Format.binary32.exponentBits 1).toNat = 255 := rfl
  omega

/-- The number that the bits stand for. It is one and the same for all samples that are not
numbers. -/
def value (x : Sample) : Float32 :=
  if h : x.isNaN = false then .ofModel ⟨x.bits, valid_of_isNaN_eq_false h⟩
  else .ofModel (.pack .notANumber)

/-- The sample of a number. -/
def ofValue (v : Float32) : Sample :=
  ⟨v.toBits⟩

theorem value_ofValue (v : Float32) : (ofValue v).value = v := by
  obtain ⟨⟨b, valid⟩⟩ := v
  by_cases h : (Sample.mk b).isNaN = false
  · exact dif_pos h
  · refine (dif_neg h).trans ?_
    have h : ¬ b.toNat % 0x80000000 ≤ 0x7f800000 := fun hb => h (isNaN_eq_false_iff.2 hb)
    have he : @UnpackedFloat.unpackExponent Format.binary32 b.toBitVec = -BitVec.ofNat _ 1 := by
      refine BitVec.eq_of_toNat_eq ((toNat_unpackExponent b).trans ?_)
      show b.toNat / 0x800000 % 0x100 = 255
      omega
    have hm : @UnpackedFloat.unpackMantissa Format.binary32 b.toBitVec ≠ BitVec.ofNat _ 0 := by
      intro h0
      have h0 : b.toNat % 0x800000 = 0 :=
        (toNat_unpackMantissa b).symm.trans (congrArg BitVec.toNat h0)
      omega
    have hb : b = ⟨UnpackedFloat.packedNaN Format.binary32⟩ :=
      UInt32.toBitVec_inj.1 (valid.eq_packedNaN he hm)
    subst hb
    rfl

/-- Sign, mantissa and exponent. -/
def unpack (x : Sample) : UnpackedFloat :=
  .unpack Format.binary32 x.bits.toBitVec

theorem unpack_toModel_value {x : Sample} (h : x.isNaN = false) :
    x.value.toModel.unpack = x.unpack := by
  rw [value, dif_pos h]
  rfl

/-- Whether the sign bit is set. -/
def isNegative (x : Sample) : Bool :=
  x.bits >>> 31 == 1

/-- Not a number, with the sign bit clear. -/
def nan : Sample := ⟨0x7fc00000⟩

/-- Not a number, with the sign bit set: the result of an operation on numbers that has none,
such as `0 / 0`. -/
def undefined : Sample := ⟨0xffc00000⟩

/-- The infinite sample of positive sign. -/
def infinity : Sample := ⟨0x7f800000⟩

/-- Zero with the sign bit set. -/
def negativeZero : Sample := ⟨0x80000000⟩

/-- The result of an operation on numbers. -/
def ofResult (v : Float32) : Sample :=
  if v.isNaN then undefined else ofValue v

/-- Applies a function to a number. What is not a number stays as it is. -/
def map (f : Float32 → Float32) (x : Sample) : Sample :=
  if x.isNaN then x else ofResult (f x.value)

/-- Applies a function to two numbers. The first operand that is not a number is the result. -/
def map₂ (f : Float32 → Float32 → Float32) (x y : Sample) : Sample :=
  if x.isNaN then x else if y.isNaN then y else ofResult (f x.value y.value)

instance : Add Sample := ⟨map₂ (· + ·)⟩
instance : Sub Sample := ⟨map₂ (· - ·)⟩
instance : Mul Sample := ⟨map₂ (· * ·)⟩
instance : Div Sample := ⟨map₂ (· / ·)⟩

/-- The other sign, also for what is not a number. -/
instance : Neg Sample := ⟨fun x => ⟨x.bits ^^^ 0x80000000⟩⟩

instance : LT Sample := ⟨fun x y => x.value < y.value⟩

instance (x y : Sample) : Decidable (x < y) :=
  inferInstanceAs (Decidable (x.value < y.value))

/-- The same sample with the sign bit clear. -/
def abs (x : Sample) : Sample :=
  ⟨x.bits &&& 0x7fffffff⟩

/-- The magnitude of `x` with the sign of `y`. -/
def copySign (x y : Sample) : Sample :=
  ⟨x.bits &&& 0x7fffffff ||| y.bits &&& 0x80000000⟩

/-- The sample nearest to `± mantissa * 2 ^ exponent`, an even mantissa winning a tie. -/
def ofParts (sign : Sign) (mantissa : Nat) (exponent : Int) : Sample :=
  ofValue (.ofModel (.pack (UnpackedFloat.round Format.binary32 sign mantissa exponent)))

/-- The sample nearest to an integer, an even mantissa winning a tie. -/
def ofInt (n : Int) : Sample :=
  ofValue (.ofModel (.ofInt n))

/-- The sample nearest to a natural number, an even mantissa winning a tie. -/
def ofNat (n : Nat) : Sample :=
  ofInt n

instance (n : Nat) : OfNat Sample n := ⟨ofNat n⟩

/-- One for a condition that holds and zero for one that does not. -/
def ofBool (b : Bool) : Sample :=
  if b then 1 else 0

end Sample

end SignalExpr
