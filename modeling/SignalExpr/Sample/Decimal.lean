import SignalExpr.Sample.Arithmetic
import SignalExpr.Text.Digits

/-!
Decimal texts of samples. Writing takes the fewest digits that read back as the same sample and,
of those, the nearest to it; reading rounds the decimal to the nearest sample. Where the digits
are placed is the decision of a `Layout`.
-/

namespace SignalExpr.Sample

open Float.Model.UnpackedFloat (Sign)
open SignalExpr.Text (digitsValue)

/-- The number `coefficient * 10 ^ exponent`. -/
structure Decimal where
  coefficient : Nat
  exponent : Int
deriving DecidableEq, Repr

namespace Decimal

/-- Moves the zeros at the end of the coefficient into the exponent, at most `fuel` of them. -/
def dropZeros : Nat → Decimal → Decimal
  | 0, d => d
  | fuel + 1, d =>
      if d.coefficient ≠ 0 ∧ d.coefficient % 10 = 0 then
        dropZeros fuel ⟨d.coefficient / 10, d.exponent + 1⟩
      else d

/-- The digits of the coefficient, the leading one first. -/
def digits (d : Decimal) : List Char :=
  Text.digits d.coefficient

/-- How many digits stand before the point, negative if zeros follow the point first. -/
def point (d : Decimal) : Int :=
  d.digits.length + d.exponent

end Decimal

/-- The reals that round to one positive sample, in quarters of the unit `2 ^ (exponent + 2)` of
its last place. The ends belong to them if the mantissa is even. -/
structure Interval where
  low : Nat
  value : Nat
  high : Nat
  exponent : Int
  closed : Bool

/-- The reals that round to `mantissa * 2 ^ exponent`. Below a power of two the samples are twice
as dense, so the lower half of the interval is shorter there. -/
def interval (mantissa : Nat) (exponent : Int) : Interval where
  low := 4 * mantissa - (if mantissa = 0x800000 ∧ -149 < exponent then 1 else 2)
  value := 4 * mantissa
  high := 4 * mantissa + 2
  exponent := exponent - 2
  closed := mantissa % 2 == 0

namespace Interval

/-- A number of quarters, as a multiple of `10 ^ place` over the denominator of `grid`. -/
def scaled (i : Interval) (place : Int) (quarters : Nat) : Nat :=
  quarters * Nat.pow 2 i.exponent.toNat * Nat.pow 10 (-place).toNat

/-- The common denominator: `scaled quarters = d * grid` says that the quarters are `d * 10 ^ place`. -/
def grid (i : Interval) (place : Int) : Nat :=
  Nat.pow 2 (-i.exponent).toNat * Nat.pow 10 place.toNat

/-- Whether `d * 10 ^ place` rounds to the sample. -/
def contains (i : Interval) (place : Int) (d : Nat) : Bool :=
  let x := d * i.grid place
  if i.closed then
    decide (i.scaled place i.low ≤ x ∧ x ≤ i.scaled place i.high)
  else
    decide (i.scaled place i.low < x ∧ x < i.scaled place i.high)

/-- The place of the leading digit of the sample. -/
def leadingPlace (i : Interval) : Int :=
  let place (n : Nat) : Int := (n : Int) - 46
  let above := (List.range 85).find? fun n =>
    decide (i.scaled (place n + 1) i.value < i.grid (place n + 1))
  place (above.getD 85)

/-- The multiple of `10 ^ place` that rounds to the sample, if one of the two around it does. Of
two that do the nearer is taken, and the greater one if neither is nearer. -/
def onGrid? (i : Interval) (place : Int) : Option Nat :=
  let value := i.scaled place i.value
  let below := value / i.grid place
  match i.contains place below, i.contains place (below + 1) with
  | true, true =>
      if (2 * below + 1) * i.grid place ≤ 2 * value then some (below + 1) else some below
  | true, false => some below
  | false, true => some (below + 1)
  | false, false => none

/-- The fewest digits that round to the sample; nine always do. -/
def shortest (i : Interval) : Decimal :=
  let attempt (n : Nat) : Option Decimal :=
    let place := i.leadingPlace - n
    (i.onGrid? place).map (⟨·, place⟩)
  Decimal.dropZeros 10 (((List.range 9).findSome? attempt).getD ⟨i.value, i.exponent⟩)

end Interval

/-- How a decimal is written. -/
structure Layout where
  /-- Decimal exponents of the leading digit that are written without an exponent mark. -/
  positional : Int → Bool
  /-- A whole number gets `.0`. -/
  keepsFraction : Bool

namespace Layout

/-- Constants in trees and messages: positional from `1e-4` below `1e16`, with a fraction. -/
def constant : Layout := ⟨fun e => decide (-4 ≤ e ∧ e < 16), true⟩

/-- Results: always positional, whole numbers without a fraction. -/
def result : Layout := ⟨fun _ => true, false⟩

/-- The point and the digits in their places. -/
def writePositional (layout : Layout) (d : Decimal) : List Char :=
  let digits := d.digits
  let point := d.point
  if point ≤ 0 then
    "0.".toList ++ List.replicate (-point).toNat '0' ++ digits
  else if (digits.length : Int) ≤ point then
    digits ++ List.replicate (point.toNat - digits.length) '0'
      ++ (if layout.keepsFraction then ".0".toList else [])
  else
    digits.take point.toNat ++ '.' :: digits.drop point.toNat

/-- One digit, the rest behind the point, and the exponent of ten. -/
def writeScientific (d : Decimal) : List Char :=
  let exponent := (toString (d.point - 1)).toList
  match d.digits with
  | [] => 'e' :: exponent
  | [c] => c :: 'e' :: exponent
  | c :: rest => c :: '.' :: rest ++ 'e' :: exponent

def writeDecimal (layout : Layout) (d : Decimal) : List Char :=
  if layout.positional (d.point - 1) then layout.writePositional d else writeScientific d

/-- The text of a sample. -/
def write (layout : Layout) (x : Sample) : String :=
  let signed (sign : Sign) (text : List Char) : List Char :=
    match sign with
    | .negative => '-' :: text
    | .positive => text
  String.ofList <|
    match x.unpack with
    | .notANumber => "NaN".toList
    | .infinity sign => signed sign "inf".toList
    | .zero sign => signed sign ('0' :: if layout.keepsFraction then ".0".toList else [])
    | .finite sign mantissa exponent _ =>
        signed sign (layout.writeDecimal (interval mantissa exponent).shortest)

end Layout

/-- The sample nearest to `coefficient * 10 ^ exponent`. -/
def ofDecimal (d : Decimal) : Sample :=
  ofValue (.ofScientific d.coefficient (decide (d.exponent < 0)) d.exponent.natAbs)

/-- Reads the exponent of a decimal, from its mark on. No text is exponent zero. -/
def readExponent? : List Char → Option Int
  | [] => some 0
  | mark :: rest =>
      if mark = 'e' ∨ mark = 'E' then
        let (negative, digits) :=
          match rest with
          | '-' :: ds => (true, ds)
          | '+' :: ds => (false, ds)
          | ds => (false, ds)
        if digits ≠ [] ∧ digits.all Char.isDigit then
          some (if negative then -(digitsValue digits : Int) else digitsValue digits)
        else none
      else none

/-- Reads digits with at most one point and at most one exponent. There has to be a digit before
the exponent. -/
def readUnsigned? (cs : List Char) : Option Sample :=
  let whole := cs.takeWhile Char.isDigit
  let (fraction, rest) :=
    match cs.dropWhile Char.isDigit with
    | '.' :: ds => (ds.takeWhile Char.isDigit, ds.dropWhile Char.isDigit)
    | ds => ([], ds)
  if whole = [] ∧ fraction = [] then none
  else (readExponent? rest).map fun exponent =>
    ofDecimal ⟨digitsValue (whole ++ fraction), exponent - fraction.length⟩

/-- Reads a sample: a decimal, an infinity or `nan`, each with an optional sign. -/
def ofText? (cs : List Char) : Option Sample :=
  let magnitude? (ds : List Char) : Option Sample :=
    let lower := ds.map Char.toLower
    if lower = "inf".toList ∨ lower = "infinity".toList then some infinity
    else if lower = "nan".toList then some nan
    else readUnsigned? ds
  match cs with
  | '-' :: ds => (magnitude? ds).map (- ·)
  | '+' :: ds => magnitude? ds
  | ds => magnitude? ds

end SignalExpr.Sample
