import WalletHub.Json.Value
import WalletHub.Number.Shortest

/-!
# The meaning of JSON numbers

A number without point and exponent is an integer if it fits into 64 bits. Every other number is a
binary number of 64 bits: the leading digits that fit into 64 bits, taken as an integer, are
multiplied or divided by a power of ten, each step rounded. A number too large for the format has no
meaning. In the other direction a binary number is written with its shortest digits, in positional
notation for a range of magnitudes that depends on the format.

## The model

* `Numeral.meaning?`: what a number means, or that it means nothing. `takeWhole` and `takeFraction` take the
  leading digits, and `timesPower` moves the point.
* `Numeral.ofScientific`, `Numeral.ofBinary?`: how shortest digits are written, between the two powers of ten
  from which on an exponent is used (`Positional`).
* `double`, `single`: the tree of a binary number of either format; infinities, and what is no number, have none
  and are written as `null`.

The rounding in two steps is why a written amount need not come back as it was, though its digits are enough to
tell it.
-/

namespace WalletHub.Json

/-- What a number stands for. -/
inductive Numeric where
  /-- An integer from 0 to two to the 64, exclusive. -/
  | natural (n : Nat)
  /-- The integer `-n`, down to minus two to the 63. -/
  | negated (n : Nat)
  /-- Any other number. -/
  | real (x : Double)
  deriving DecidableEq, Repr

namespace Numeral

/-- The bound on the integers of 64 bits, two to the 64. -/
def wordBound : Nat := 18446744073709551616

/-- The integer of the leading digits that fit into 64 bits, and how many digits do not. -/
def takeWhole (n : Nat) : Nat → List Digit → Nat × Nat
  | left, [] => (n, left)
  | 0, d :: ds =>
    if n * 10 + d.val < wordBound then takeWhole (n * 10 + d.val) 0 ds else takeWhole n 1 ds
  | left + 1, _ :: ds => takeWhole n (left + 2) ds

/-- The integer continued by the digits after the point that fit, and how many do. -/
def takeFraction (n : Nat) : List Digit → Nat × Nat
  | [] => (n, 0)
  | d :: ds =>
    if n * 10 + d.val < wordBound then
      let (n, count) := takeFraction (n * 10 + d.val) ds
      (n, count + 1)
    else (n, 0)

/-- The number of 64 bits nearest to ten to the power `n`. -/
def powerOfTen (n : Nat) : Double := Binary.ofNat _ (tenTo n)

/-- A number times a power of ten. Powers beyond the 308th are applied in steps; a number that grows
beyond the format has no meaning. -/
def timesPower : Nat → Double → Int → Option Double
  | 0, x, _ => some x
  | fuel + 1, x, e =>
    if 308 < e then (if x.isZero then some x else none)
    else if 0 ≤ e then
      match x.mul (powerOfTen e.toNat) with
      | .infinite _ => none
      | y => some y
    else if -308 ≤ e then some (x.div (powerOfTen (-e).toNat))
    else if x.isZero then some x
    else timesPower fuel (x.div (powerOfTen 308)) (e + 308)

/-- The greatest exponent that is read; a greater one makes a number zero or too large. -/
def maxExponent : Int := 2147483647

/-- The binary number of 64 bits that a number without its sign stands for. -/
def size? (n : Numeral) : Option Double :=
  let (integer, left) := takeWhole 0 0 (Digit.ofNat n.whole)
  let (integer, count) := takeFraction integer n.fraction
  let e := n.exponent.getD 0
  if maxExponent < e then (if integer = 0 then some .zero else none)
  else if e < -maxExponent then some .zero
  else timesPower 8 (Binary.ofNat _ integer) ((left : Int) - count + e)

/-- What a number stands for, if anything. -/
def meaning? (n : Numeral) : Option Numeric :=
  let real := n.size?.map fun x => Numeric.real (if n.negative then x.neg else x)
  if n.fraction = [] ∧ n.exponent = none ∧ n.whole < wordBound then
    if !n.negative then some (.natural n.whole)
    else if 0 < n.whole ∧ 2 * n.whole ≤ wordBound then some (.negated n.whole)
    else real
  else real

/-! ### Writing binary numbers -/

/-- The powers of ten of a first digit for which a number is written without exponent. -/
structure Positional where
  /-- The least such power. -/
  least : Int
  /-- The greatest such power. -/
  greatest : Int

/-- Numbers of 64 bits are written without exponent from 0.00001 to sixteen places. -/
def Positional.double : Positional := ⟨-5, 15⟩

/-- Numbers of 32 bits are written without exponent from 0.000001 to thirteen places. -/
def Positional.single : Positional := ⟨-6, 12⟩

/-- The number that writes a sign and digits: with at least one digit on each side of the point, or
else one digit before it and an exponent. -/
def ofScientific (range : Positional) (negative : Bool) (s : Scientific) : Numeral :=
  let ds := Digit.ofNat s.digits
  if range.least ≤ s.leading ∧ s.leading ≤ range.greatest then
    if 0 ≤ s.exponent then ⟨negative, s.digits * tenTo s.exponent.toNat, [0], none⟩
    else
      let places := (-s.exponent).toNat
      let filled := List.replicate (places - ds.length) 0 ++ ds
      ⟨negative, s.digits / tenTo places, filled.drop (filled.length - places), none⟩
  else ⟨negative, s.digits / tenTo (ds.length - 1), ds.drop 1, some s.leading⟩

/-- The number that writes a binary number, which has to be finite. -/
def ofBinary? {f : Binary.Format} (range : Positional) : Binary f → Option Numeral
  | .finite negative m e =>
    if m = 0 then some ⟨negative, 0, [0], none⟩
    else some (ofScientific range negative (Scientific.shortest f m e))
  | _ => none

end Numeral

/-- A number of 64 bits; `null` unless it is finite. -/
def double (x : Double) : Json := ((Numeral.ofBinary? .double x).map Json.number).getD .null

/-- A number of 32 bits; `null` unless it is finite. -/
def single (x : Single) : Json := ((Numeral.ofBinary? .single x).map Json.number).getD .null

example : Numeral.meaning? ⟨true, 0, [], none⟩ = some (.real (.finite true 0 (-1074))) := by
  decide +kernel
example : Numeral.meaning? ⟨false, 1, [], some 400⟩ = none := by decide +kernel
example : Numeral.meaning? ⟨false, 0, [5], none⟩ = some (.real (Binary.round _ (1 / 2))) := by
  decide +kernel

end WalletHub.Json
