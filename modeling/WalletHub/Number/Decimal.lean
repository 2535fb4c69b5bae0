import WalletHub.Text.Digits
import WalletHub.Number.Shortest

/-!
# Decimal amounts

An amount of money is an integer below two to the 96 with a number of places after the point, at
most twenty-eight, and a sign. The places are kept: `1.5` and `1.50` are written differently and
compare equal. Zero is never negative.

## The model

* `Decimal`: the fields, with the bounds among them, so that there is no amount out of range and no negative
  zero.
* `Decimal.of?`, `Decimal.ofInt?`: the amount of such parts, if they are in range.
* `Decimal.value`, and the instance of `BEq`: amounts are compared by what they are worth.
* `Decimal.toText`: all places are written.
* `Decimal.toDouble`: the conversion to a binary number, in several roundings, so that an amount with places does
  not always become the nearest one.
-/

namespace WalletHub

/-- A decimal amount. -/
structure Decimal where
  /-- The amount is below zero. -/
  negative : Bool
  /-- All digits read as one integer. -/
  coefficient : Nat
  /-- How many of the digits stand after the point. -/
  scale : Nat
  /-- The coefficient has at most 96 bits. -/
  coefficient_lt : coefficient < 79228162514264337593543950336
  /-- There are at most twenty-eight places. -/
  scale_le : scale ≤ 28
  /-- Zero has no sign. -/
  zero_positive : coefficient = 0 → negative = false
  deriving DecidableEq, Repr

namespace Decimal

/-- The bound on coefficients, two to the 96. -/
def bound : Nat := 79228162514264337593543950336

/-- The greatest number of places. -/
def maxScale : Nat := 28

/-- Zero without places. -/
def zero : Decimal := ⟨false, 0, 0, by decide, by decide, fun _ => rfl⟩

instance : Inhabited Decimal := ⟨zero⟩

/-- The decimal with the given parts, if they are within the bounds. -/
def of? (negative : Bool) (coefficient scale : Nat) : Option Decimal :=
  if h : coefficient < 79228162514264337593543950336 ∧ scale ≤ 28 then
    some ⟨negative && coefficient != 0, coefficient, scale, h.1, h.2, by simp_all⟩
  else none

/-- The integer `n` as a decimal without places. -/
def ofInt? (n : Int) : Option Decimal := of? (n < 0) n.natAbs 0

/-- The exact value. -/
def value (d : Decimal) : Rat :=
  let size : Rat := d.coefficient / tenTo d.scale
  if d.negative then -size else size

/-- Decimals are equal when their values are, whatever their places. -/
instance : BEq Decimal where
  beq a b := a.negative == b.negative &&
    a.coefficient * tenTo b.scale == b.coefficient * tenTo a.scale

/-- The text of a decimal: all its places, and at least one digit before the point. -/
def toText (d : Decimal) : String :=
  let ds := Digit.toChars (Digit.ofNat d.coefficient)
  let ds := List.replicate (d.scale + 1 - ds.length) '0' ++ ds
  let whole := ds.take (ds.length - d.scale)
  let places := ds.drop (ds.length - d.scale)
  let body := if d.scale = 0 then whole else whole ++ '.' :: places
  String.ofList (if d.negative then '-' :: body else body)

/-! ### Conversion to a binary number -/

/-- The nearest number of 64 bits to an amount without places; for an amount with places, its
whole part and its fraction are converted apart, added, and rounded to the amount's places. -/
def toDouble (d : Decimal) : Double :=
  let size : Double :=
    if d.scale = 0 then Binary.ofNat _ d.coefficient
    else
      let unit := tenTo d.scale
      let whole : Double := Binary.ofNat _ (d.coefficient / unit)
      let fraction := (Binary.ofNat _ (d.coefficient % unit)).div (Binary.ofNat _ unit)
      if fraction.isZero then whole
      else
        let factor := (Binary.ofNat _ 10).power d.scale
        ((whole.add fraction).mul factor).nearestInteger.div factor
  if d.negative then size.neg else size

example : (of? true 150 2).map toText = some "-1.50" := by decide +kernel
example : (of? false 5 3).map toText = some "0.005" := by decide +kernel
example : (of? true 0 2).map toText = some "0.00" := by decide +kernel
example : (of? false 123456789 3).bind (toDouble · |>.plain?) = some "123456.789" := by
  decide +kernel

end Decimal

end WalletHub
