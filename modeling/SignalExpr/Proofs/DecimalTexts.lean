import SignalExpr.Proofs.Lexemes
import SignalExpr.Proofs.Quanta
import SignalExpr.Proofs.ShortestDecimals

/-!
Written numbers. What is written of a decimal is read back as a decimal of the same value, wherever
a layout puts the point. Since no two samples have the same shortest decimal, a sample is known
from its text.
-/

namespace SignalExpr

namespace Text

theorem digitsValue_append_zeros (cs : List Char) (k : Nat) :
    digitsValue (cs ++ List.replicate k '0') = digitsValue cs * 10 ^ k := by
  change Nat.ofDigitChars 10 (cs ++ List.replicate k '0') 0 = Nat.ofDigitChars 10 cs 0 * 10 ^ k
  rw [Nat.ofDigitChars_append, Nat.ofDigitChars_replicate_zero, Nat.mul_comm]

theorem toList_toString_int (n : Int) : (toString n).toList =
    if 0 ≤ n then digits n.natAbs else '-' :: digits n.natAbs := by
  have hnat (h : 0 ≤ n) : n.toNat = n.natAbs := by omega
  have hneg (h : ¬ 0 ≤ n) : (-n).toNat = n.natAbs := by omega
  rw [Int.toString_eq_repr, Int.repr_eq_if]
  split
  next h => rw [Nat.toList_repr, hnat h, digits]
  next h => simp [Nat.toList_repr, hneg h, digits]

end Text

namespace Sample

open Text
open Float.Model (UnpackedFloat)
open Float.Model.UnpackedFloat (Sign)

theorem readExponent?_digits {mark : Char} (hmark : mark = 'e' ∨ mark = 'E') {ds : List Char}
    (hne : ds ≠ []) (hds : ∀ d ∈ ds, d.isDigit = true) :
    readExponent? (mark :: ds) = some (digitsValue ds : Int) ∧
      readExponent? (mark :: '+' :: ds) = some (digitsValue ds : Int) ∧
      readExponent? (mark :: '-' :: ds) = some (-(digitsValue ds : Int)) := by
  have hdigits : ds ≠ [] ∧ ds.all Char.isDigit = true := ⟨hne, List.all_eq_true.mpr hds⟩
  obtain ⟨c, cs, rfl⟩ := List.exists_cons_of_ne_nil hne
  obtain ⟨hc, -⟩ := List.forall_mem_cons.mp hds
  have hminus : c ≠ '-' := by
    rintro rfl
    cases hc
  have hplus : c ≠ '+' := by
    rintro rfl
    cases hc
  refine ⟨?_, ?_, ?_⟩
  · simp [readExponent?, hmark, hminus, hplus, hdigits]
  · simp [readExponent?, hmark, hdigits]
  · simp [readExponent?, hmark, hdigits]

theorem readExponent?_toString (n : Int) : readExponent? ('e' :: (toString n).toList) = some n := by
  obtain ⟨hplain, -, hminus⟩ := readExponent?_digits (.inl rfl) (digits_ne_nil n.natAbs)
    fun _ => isDigit_of_mem_digits
  rw [digitsValue_digits] at hplain hminus
  rw [toList_toString_int]
  split
  next h => rw [hplain, Int.natAbs_of_nonneg h]
  next h => rw [hminus, Int.ofNat_natAbs_of_nonpos (by omega), Int.neg_neg]

theorem toString_int_injective : Function.Injective (toString : Int → String) := by
  intro m n h
  have hread := readExponent?_toString m
  rw [h, readExponent?_toString] at hread
  exact (Option.some.inj hread).symm

/-! ### Decimals are read back -/

/-- The decimal that is read from digits with at most one point and at most one exponent. -/
def Decimal.ofChars? (cs : List Char) : Option Decimal :=
  let whole := cs.takeWhile Char.isDigit
  let (fraction, rest) :=
    match cs.dropWhile Char.isDigit with
    | '.' :: ds => (ds.takeWhile Char.isDigit, ds.dropWhile Char.isDigit)
    | ds => ([], ds)
  if whole = [] ∧ fraction = [] then none
  else (readExponent? rest).map fun exponent =>
    ⟨digitsValue (whole ++ fraction), exponent - fraction.length⟩

theorem readUnsigned?_eq (cs : List Char) :
    readUnsigned? cs = (Decimal.ofChars? cs).map ofDecimal := by
  simp only [readUnsigned?, Decimal.ofChars?, apply_ite (Option.map ofDecimal), Option.map_map]
  rfl

theorem ofText?_eq_readUnsigned? {c : Char} (hc : c.isDigit = true ∨ c = '.') (cs : List Char) :
    ofText? (c :: cs) = readUnsigned? (c :: cs) := by
  have hne (d : Char) (hd : d.isDigit = false ∧ d ≠ '.') : c ≠ d := by
    rintro rfl
    rcases hc with hc | hc
    · rw [hd.1] at hc
      cases hc
    · exact hd.2 hc
  have hupper : c.isUpper = false := by
    rcases hc with hc | rfl
    · simp [Char.isUpper, Char.isDigit, UInt32.le_iff_toNat_le] at hc ⊢
      omega
    · rfl
  have hlower : c.toLower = c := dif_neg (of_decide_eq_false hupper)
  simp [ofText?, hlower, hne '-' (by decide), hne '+' (by decide), hne 'i' (by decide),
    hne 'n' (by decide)]

namespace Decimal

variable {whole fraction rest : List Char}

theorem ofChars?_point (hne : whole ++ fraction ≠ []) (hwhole : ∀ c ∈ whole, c.isDigit = true)
    (hfraction : ∀ c ∈ fraction, c.isDigit = true) (hrest : ∀ c ∈ rest.head?, c.isDigit = false) :
    ofChars? (whole ++ '.' :: (fraction ++ rest)) = (readExponent? rest).map fun exponent =>
      ⟨digitsValue (whole ++ fraction), exponent - fraction.length⟩ := by
  obtain ⟨htake, hdrop⟩ := Lexer.run_append hwhole
    (by rintro d ⟨⟩; rfl : ∀ d ∈ ('.' :: (fraction ++ rest)).head?, d.isDigit = false)
  obtain ⟨htake', hdrop'⟩ := Lexer.run_append hfraction hrest
  have hnot : ¬ (whole = [] ∧ fraction = []) := by
    rwa [← List.append_eq_nil_iff]
  simp only [ofChars?, htake, hdrop, htake', hdrop', if_neg hnot]

theorem ofChars?_whole (hne : whole ≠ []) (hwhole : ∀ c ∈ whole, c.isDigit = true)
    (hrest : ∀ c ∈ rest.head?, c.isDigit = false ∧ c ≠ '.') :
    ofChars? (whole ++ rest) = (readExponent? rest).map fun exponent =>
      ⟨digitsValue whole, exponent⟩ := by
  obtain ⟨htake, hdrop⟩ := Lexer.run_append hwhole fun c hc => (hrest c hc).1
  simp only [ofChars?, htake, hdrop]
  split
  next => exact absurd rfl (hrest '.' rfl).2
  next => simp [hne]

theorem ofChars?_minus (cs : List Char) : ofChars? ('-' :: cs) = none := by
  simp [ofChars?]

end Decimal

namespace Layout

open Decimal (ofChars? ofChars?_point ofChars?_whole)

variable {layout : Layout} {d : Decimal}

theorem isDigit_digits (d : Decimal) : ∀ c ∈ d.digits, c.isDigit = true :=
  fun _ => isDigit_of_mem_digits

theorem isDigit_zeros (n : Nat) : ∀ c ∈ List.replicate n '0', c.isDigit = true := by
  intro c hc
  rw [List.eq_of_mem_replicate hc]
  rfl

theorem ofChars?_of_point {whole fraction : List Char} (hne : whole ≠ [])
    (hdigits : ∀ c ∈ whole ++ fraction, c.isDigit = true)
    (hvalue : digitsValue (whole ++ fraction) = d.coefficient)
    (hexponent : d.exponent = -(fraction.length : Int)) :
    ofChars? (whole ++ '.' :: fraction) = some d := by
  rw [List.forall_mem_append] at hdigits
  have hread := @ofChars?_point whole fraction [] (List.append_ne_nil_of_left_ne_nil hne _)
    hdigits.1 hdigits.2 (by simp)
  rw [List.append_nil] at hread
  rw [hread, hvalue]
  simp [readExponent?, ← hexponent]

theorem exists_ofChars?_of_zeros {zeros : Nat} (h : d.exponent = zeros) (keepsFraction : Bool) :
    ∃ d', ofChars? (d.digits ++ List.replicate zeros '0'
      ++ if keepsFraction then ".0".toList else []) = some d' ∧ d'.value = d.value := by
  have hne : d.digits ++ List.replicate zeros '0' ≠ [] :=
    List.append_ne_nil_of_left_ne_nil (digits_ne_nil _) _
  have hdigits : ∀ c ∈ d.digits ++ List.replicate zeros '0', c.isDigit = true := by
    rw [List.forall_mem_append]
    exact ⟨isDigit_digits d, isDigit_zeros zeros⟩
  have hvalue (n : Nat) :
      digitsValue (d.digits ++ List.replicate n '0') = d.coefficient * 10 ^ n := by
    rw [digitsValue_append_zeros, Decimal.digits, digitsValue_digits]
  have hten : d.value = Decimal.value ⟨d.coefficient, zeros⟩ := by rw [← h]
  cases keepsFraction with
  | true =>
      refine ⟨⟨d.coefficient * 10 ^ (zeros + 1), -1⟩,
        @ofChars?_of_point _ _ ['0'] hne ?_ ?_ rfl, ?_⟩
      · rw [List.forall_mem_append]
        exact ⟨hdigits, by simp⟩
      · rw [List.append_assoc, ← List.replicate_succ', hvalue]
      · rw [Decimal.value_mul_ten_pow, hten]
        push_cast
        rw [neg_add_cancel_comm_assoc]
  | false =>
      refine ⟨⟨d.coefficient * 10 ^ zeros, 0⟩, ?_, ?_⟩
      · rw [ofChars?_whole hne hdigits (by simp), hvalue]
        rfl
      · rw [Decimal.value_mul_ten_pow, hten, zero_add]

theorem exists_ofChars?_writePositional (layout : Layout) (d : Decimal) :
    ∃ d', ofChars? (layout.writePositional d) = some d' ∧ d'.value = d.value := by
  have hdigits := isDigit_digits d
  have hpoint : d.point = d.digits.length + d.exponent := rfl
  rw [writePositional]
  split
  next hbefore =>
    refine ⟨d, @ofChars?_of_point d ['0'] (List.replicate (-d.point).toNat '0' ++ d.digits)
      (by simp) ?_ ?_ ?_, rfl⟩
    · simp only [List.forall_mem_append]
      exact ⟨by simp, isDigit_zeros _, hdigits⟩
    · rw [← List.append_assoc]
      apply digitsValue_append_digits
      rw [digitsValue_append_zeros]
      exact Nat.zero_mul _
    · simp only [List.length_append, List.length_replicate]
      omega
  next hbefore =>
    split
    next hbehind => exact exists_ofChars?_of_zeros (by omega) layout.keepsFraction
    next hamong =>
      have hne : d.digits ≠ [] := digits_ne_nil _
      refine ⟨d, ofChars?_of_point ?_ ?_ ?_ ?_, rfl⟩
      · simp [List.take_eq_nil_iff, hne]
        omega
      · rwa [List.take_append_drop]
      · rw [List.take_append_drop, Decimal.digits, digitsValue_digits]
      · rw [List.length_drop]
        omega

theorem ofChars?_writeScientific (d : Decimal) : ofChars? (writeScientific d) = some d := by
  have hdigits := isDigit_digits d
  have hvalue : digitsValue d.digits = d.coefficient := digitsValue_digits _
  have hread := readExponent?_toString (d.point - 1)
  have hpoint : d.point = d.digits.length + d.exponent := rfl
  simp only [writeScientific]
  generalize (toString (d.point - 1)).toList = exponent at hread
  split
  next hnil => exact absurd hnil (digits_ne_nil _)
  next c hone =>
    rw [hone] at hdigits hvalue hpoint
    have hexponent : d.point - 1 = d.exponent := by
      rw [List.length_singleton] at hpoint
      omega
    have hwhole := @ofChars?_whole [c] ('e' :: exponent) (by simp) hdigits (by simp)
    rw [hread, hvalue, hexponent] at hwhole
    exact hwhole
  next c rest _ hmore =>
    rw [hmore] at hdigits hvalue hpoint
    obtain ⟨hc, hrest⟩ := List.forall_mem_cons.mp hdigits
    have hexponent : d.point - 1 - rest.length = d.exponent := by
      rw [List.length_cons] at hpoint
      omega
    have hwhole := @ofChars?_point [c] rest ('e' :: exponent) (by simp) (by simpa using hc) hrest
      (by simp)
    simp only [hread, List.singleton_append, hvalue, Option.map_some, hexponent] at hwhole
    exact hwhole

theorem exists_ofChars?_writeDecimal (layout : Layout) (d : Decimal) :
    ∃ d', ofChars? (layout.writeDecimal d) = some d' ∧ d'.value = d.value := by
  rw [writeDecimal]
  split
  next => exact exists_ofChars?_writePositional layout d
  next => exact ⟨d, ofChars?_writeScientific d, rfl⟩

/-! ### Samples -/

/-- The text of a sample without its sign. -/
def magnitude (layout : Layout) : UnpackedFloat → List Char
  | .notANumber => "NaN".toList
  | .infinity _ => "inf".toList
  | .zero _ => '0' :: if layout.keepsFraction then ".0".toList else []
  | .finite _ mantissa exponent _ => layout.writeDecimal (interval mantissa exponent).shortest

/-- Whether a text begins with a minus. -/
def isMarked : UnpackedFloat → Bool
  | .notANumber => false
  | .infinity sign | .zero sign | .finite sign _ _ _ => sign == .negative

theorem toList_write (layout : Layout) (x : Sample) : (layout.write x).toList =
    if isMarked x.unpack then '-' :: layout.magnitude x.unpack else layout.magnitude x.unpack := by
  rw [write, String.toList_ofList]
  cases x.unpack with
  | notANumber => rfl
  | infinity sign | zero sign | finite sign => cases sign <;> rfl

theorem map_value_ofChars?_magnitude (layout : Layout) (u : UnpackedFloat) :
    (ofChars? (layout.magnitude u)).map Decimal.value = match u with
      | .notANumber | .infinity _ => none
      | .zero _ => some 0
      | .finite _ mantissa exponent _ => some (interval mantissa exponent).shortest.value := by
  cases u with
  | notANumber | infinity sign => rfl
  | zero sign =>
      obtain ⟨e, hread⟩ : ∃ e, ofChars? (layout.magnitude (.zero sign)) = some ⟨0, e⟩ := by
        rw [magnitude]
        split
        next => exact ⟨-1, rfl⟩
        next => exact ⟨0, rfl⟩
      simp [hread, Decimal.value]
  | finite sign mantissa exponent =>
      obtain ⟨d, hread, hvalue⟩ :=
        exists_ofChars?_writeDecimal layout (interval mantissa exponent).shortest
      simp [magnitude, hread, hvalue]

theorem magnitude_ne_minus (layout : Layout) (u : UnpackedFloat) (cs : List Char) :
    layout.magnitude u ≠ '-' :: cs := by
  intro h
  have hvalue := layout.map_value_ofChars?_magnitude u
  rw [h, Decimal.ofChars?_minus] at hvalue
  cases u with
  | notANumber | infinity sign => simp [magnitude] at h
  | zero sign | finite sign => cases hvalue

section Injectivity

variable {x y : Sample}

theorem magnitude_eq_of_write_eq (h : layout.write x = layout.write y) :
    isMarked x.unpack = isMarked y.unpack ∧
      layout.magnitude x.unpack = layout.magnitude y.unpack := by
  have htext := congrArg String.toList h
  rw [toList_write, toList_write] at htext
  cases hx : isMarked x.unpack <;> cases hy : isMarked y.unpack <;>
    simp only [hx, hy, if_true, Bool.false_eq_true, if_false] at htext
  · exact ⟨rfl, htext⟩
  · exact absurd htext (layout.magnitude_ne_minus _ _)
  · exact absurd htext.symm (layout.magnitude_ne_minus _ _)
  · exact ⟨rfl, (List.cons.inj htext).2⟩

theorem sign_eq_of_beq {s t : Sign} (h : (s == .negative) = (t == .negative)) : s = t := by
  cases s <;> cases t <;> first | rfl | cases h

theorem unpack_eq_of_write_eq (h : layout.write x = layout.write y) : x.unpack = y.unpack := by
  obtain ⟨hmark, hmagnitude⟩ := magnitude_eq_of_write_eq h
  -- What is read back tells zero, the positive numbers and all else apart.
  have hvalue := layout.map_value_ofChars?_magnitude x.unpack
  rw [hmagnitude, map_value_ofChars?_magnitude] at hvalue
  have hpos {z : Sample} {s m e hm} (hz : z.unpack = .finite s m e hm) :
      (interval m e).shortest.value ≠ 0 :=
    ((holds_interval_shortest (Binary32.canonical_of_unpack hz) hm).pos hm).ne'
  cases hx : x.unpack with
  | notANumber =>
      cases hy : y.unpack with
      | notANumber => rfl
      | infinity t => simp [hx, hy, magnitude] at hmagnitude
      | zero t | finite t => simp [hx, hy] at hvalue
  | infinity s =>
      cases hy : y.unpack with
      | notANumber => simp [hx, hy, magnitude] at hmagnitude
      | infinity t =>
          rw [hx, hy] at hmark
          rw [sign_eq_of_beq hmark]
      | zero t | finite t => simp [hx, hy] at hvalue
  | zero s =>
      cases hy : y.unpack with
      | notANumber | infinity t => simp [hx, hy] at hvalue
      | zero t =>
          rw [hx, hy] at hmark
          rw [sign_eq_of_beq hmark]
      | finite t m e hm =>
          rw [hx, hy] at hvalue
          exact absurd (Option.some.inj hvalue) (hpos hy)
  | finite s m e hm =>
      cases hy : y.unpack with
      | notANumber | infinity t => simp [hx, hy] at hvalue
      | zero t =>
          rw [hx, hy] at hvalue
          exact absurd (Option.some.inj hvalue).symm (hpos hx)
      | finite t m' e' hm' =>
          rw [hx, hy] at hmark hvalue
          have hc := Binary32.canonical_of_unpack hx
          have hc' := Binary32.canonical_of_unpack hy
          have hholds := holds_interval_shortest hc' hm'
          rw [Option.some.inj hvalue] at hholds
          obtain ⟨rfl, rfl⟩ := eq_of_holds hc hc' (holds_interval_shortest hc hm) hholds
          rw [sign_eq_of_beq hmark]

end Injectivity

end Layout

/-! ### Samples of numbers -/

/-- The bits of a number without its sign. -/
def fieldsOf : UnpackedFloat → Nat
  | .notANumber => 0
  | .infinity _ => 255 * 2 ^ 23
  | .zero _ => 0
  | .finite _ m e _ => if m < 2 ^ 23 then m else (e + 150).toNat * 2 ^ 23 + (m - 2 ^ 23)

theorem toNat_bits_mod_eq {x : Sample} (h : x.isNaN = false) :
    x.bits.toNat % 2 ^ 31 = fieldsOf x.unpack := by
  rw [isNaN_eq_false_iff] at h
  rw [unpack, Binary32.unpack_eq]
  split
  next =>
    rw [if_pos (by omega), fieldsOf]
    omega
  next =>
    split
    next =>
      split
      next =>
        rw [fieldsOf]
        omega
      next =>
        rw [fieldsOf, if_pos (by omega)]
        omega
    next =>
      rw [fieldsOf, if_neg (by omega)]
      omega

theorem isMarked_unpack {x : Sample} (h : x.isNaN = false) :
    Layout.isMarked x.unpack = (Binary32.signOf x.bits == .negative) := by
  rw [isNaN_eq_false_iff] at h
  rw [unpack, Binary32.unpack_eq]
  split
  next =>
    rw [if_pos (by omega)]
    rfl
  next =>
    split
    next => split <;> rfl
    next => rfl

theorem signOf_beq (b : UInt32) :
    (Binary32.signOf b == .negative) = decide (b.toNat / 2 ^ 31 = 1) := by
  have hbits := b.toNat_lt
  have hsign : (@UnpackedFloat.unpackSign .binary32 b.toBitVec).toNat = b.toNat / 2 ^ 31 := by
    change (b.toBitVec.extractLsb' 31 1).toNat = _
    rw [BitVec.extractLsb'_toNat, Nat.shiftRight_eq_div_pow]
    change b.toNat / 2 ^ 31 % 2 ^ 1 = _
    omega
  rcases BitVec.eq_zero_or_eq_one (@UnpackedFloat.unpackSign .binary32 b.toBitVec) with h | h
  all_goals
    rw [h] at hsign
    rw [Binary32.signOf, h, ← hsign]
    rfl

theorem eq_of_unpack_eq {x y : Sample} (hx : x.isNaN = false) (hy : y.isNaN = false)
    (h : x.unpack = y.unpack) : x = y := by
  have hfields : x.bits.toNat % 2 ^ 31 = y.bits.toNat % 2 ^ 31 := by
    rw [toNat_bits_mod_eq hx, toNat_bits_mod_eq hy, h]
  have hsign : decide (x.bits.toNat / 2 ^ 31 = 1) = decide (y.bits.toNat / 2 ^ 31 = 1) := by
    rw [← signOf_beq, ← signOf_beq, ← isMarked_unpack hx, ← isMarked_unpack hy, h]
  have hxbits := x.bits.toNat_lt
  have hybits := y.bits.toNat_lt
  rw [decide_eq_decide] at hsign
  have hbits : x.bits = y.bits := UInt32.toNat_inj.mp (by omega)
  exact congrArg Sample.mk hbits

theorem isNaN_iff_unpack {x : Sample} : x.isNaN = true ↔ x.unpack = .notANumber := by
  refine ⟨unpack_of_isNaN, fun h => ?_⟩
  by_contra hne
  exact unpack_ne_notANumber (by simpa using hne) h

theorem Layout.write_ofValue_injective (layout : Layout) :
    Function.Injective fun v => layout.write (ofValue v) := by
  intro u v h
  have hunpack := unpack_eq_of_write_eq h
  have hnan : (ofValue u).isNaN = (ofValue v).isNaN := by
    rw [Bool.eq_iff_iff, isNaN_iff_unpack, isNaN_iff_unpack, hunpack]
  rw [← value_ofValue u, ← value_ofValue v]
  cases hv : (ofValue v).isNaN with
  | true =>
      rw [hv] at hnan
      rw [value, value, dif_neg (by simp [hnan]), dif_neg (by simp [hv])]
  | false =>
      rw [hv] at hnan
      rw [eq_of_unpack_eq hnan hv hunpack]

/-! ### The characters of written numbers -/

/-- Letters, digits, the point and the minus. -/
def isNumberChar (c : Char) : Bool :=
  c.isAlphanum || c == '.' || c == '-'

theorem isNumberChar_of_isDigit {c : Char} (h : c.isDigit = true) : isNumberChar c = true := by
  simp [isNumberChar, Char.isAlphanum, h]

theorem isNumberChar_digits (n : Nat) : ∀ c ∈ digits n, isNumberChar c = true :=
  fun _ hc => isNumberChar_of_isDigit (isDigit_of_mem_digits hc)

theorem isNumberChar_toString_int (n : Int) :
    ∀ c ∈ (toString n).toList, isNumberChar c = true := by
  rw [toList_toString_int]
  split
  next => exact isNumberChar_digits _
  next => exact List.forall_mem_cons.mpr ⟨rfl, isNumberChar_digits _⟩

theorem toString_int_ne_nil (n : Int) : (toString n).toList ≠ [] := by
  rw [toList_toString_int]
  split
  next => exact digits_ne_nil _
  next => simp

namespace Layout

theorem isNumberChar_writePositional (layout : Layout) (d : Decimal) :
    ∀ c ∈ layout.writePositional d, isNumberChar c = true := by
  have hdigits : ∀ c ∈ d.digits, isNumberChar c = true := isNumberChar_digits _
  have hzeros (n : Nat) : ∀ c ∈ List.replicate n '0', isNumberChar c = true :=
    fun c hc => isNumberChar_of_isDigit (isDigit_zeros n c hc)
  rw [writePositional]
  split
  next =>
    rw [List.forall_mem_append, List.forall_mem_append]
    exact ⟨⟨by simp [isNumberChar], hzeros _⟩, hdigits⟩
  next =>
    split
    next =>
      rw [List.forall_mem_append, List.forall_mem_append]
      refine ⟨⟨hdigits, hzeros _⟩, ?_⟩
      split <;> simp [isNumberChar]
    next =>
      rw [List.forall_mem_append, List.forall_mem_cons]
      exact ⟨fun c hc => hdigits c (List.mem_of_mem_take hc), rfl,
        fun c hc => hdigits c (List.mem_of_mem_drop hc)⟩

theorem isNumberChar_writeScientific (d : Decimal) :
    ∀ c ∈ writeScientific d, isNumberChar c = true := by
  have hdigits : ∀ c ∈ d.digits, isNumberChar c = true := isNumberChar_digits _
  have hexponent : ∀ c ∈ 'e' :: (toString (d.point - 1)).toList, isNumberChar c = true :=
    List.forall_mem_cons.mpr ⟨rfl, isNumberChar_toString_int _⟩
  simp only [writeScientific]
  split
  next => exact hexponent
  next c hone =>
    rw [hone] at hdigits
    exact List.forall_mem_cons.mpr ⟨hdigits c List.mem_cons_self, hexponent⟩
  next c rest _ hmore =>
    rw [hmore] at hdigits
    obtain ⟨hc, hrest⟩ := List.forall_mem_cons.mp hdigits
    rw [List.cons_append, List.cons_append, List.forall_mem_cons, List.forall_mem_cons,
      List.forall_mem_append]
    exact ⟨hc, rfl, hrest, hexponent⟩

theorem isNumberChar_magnitude (layout : Layout) (u : UnpackedFloat) :
    ∀ c ∈ layout.magnitude u, isNumberChar c = true := by
  cases u with
  | notANumber | infinity sign => simp [magnitude, isNumberChar]
  | zero sign =>
      rw [magnitude]
      split <;> simp [isNumberChar]
  | finite sign mantissa exponent =>
      rw [magnitude, writeDecimal]
      split
      next => exact isNumberChar_writePositional layout _
      next => exact isNumberChar_writeScientific _

theorem isNumberChar_write (layout : Layout) (x : Sample) :
    ∀ c ∈ (layout.write x).toList, isNumberChar c = true := by
  rw [toList_write]
  split
  next => exact List.forall_mem_cons.mpr ⟨rfl, layout.isNumberChar_magnitude _⟩
  next => exact layout.isNumberChar_magnitude _

theorem write_ne_nil (layout : Layout) (x : Sample) : (layout.write x).toList ≠ [] := by
  rw [toList_write]
  split
  next => simp
  next =>
    intro hnil
    have hvalue := layout.map_value_ofChars?_magnitude x.unpack
    rw [hnil] at hvalue
    generalize x.unpack = u at hnil hvalue
    cases u with
    | notANumber | infinity sign => simp [magnitude] at hnil
    | zero sign | finite sign => cases hvalue

end Layout

end Sample

end SignalExpr
