import WalletHub.Text.Digits
import WalletHub.Number.Binary

/-!
# Shortest decimal digits

The fewest decimal digits that read back as a given binary number. The rationals that round to
a number form an interval, closed when its mantissa is even. Among the decimal grids with one
digit, two digits and so on, the first that has a point in the interval is taken, and on it the
point nearest to the number.

## The model

* `Scientific`: digits and a power of ten.
* `Interval.of`, `Interval.holds`, `Interval.point?`: the interval of a number, and the point of a grid in it.
* `search`, `shortest`: the first grid that has one, and its point, without zeros at the end (`stripped`).
* `plain`, `Binary.plain?`: the plain notation of these digits, from which amounts are read.

The search is bounded: no number of 64 bits needs more than seventeen digits.
-/

namespace WalletHub

/-- A positive decimal number: an integer times a power of ten. -/
structure Scientific where
  /-- The integer, whose last digit is not zero. -/
  digits : Nat
  /-- The power of ten. -/
  exponent : Int
  deriving DecidableEq, Repr

namespace Scientific

/-- The number of digits of an integer. -/
def digitCount (n : Nat) : Nat := (Digit.ofNat n).length

/-- The power of ten of the first digit. -/
def leading (s : Scientific) : Int := s.exponent + digitCount s.digits - 1

/-- The exact value. -/
def value (s : Scientific) : Rat := s.digits * ratPower 10 s.exponent

/-- The same value without zeros at the end of the integer. -/
def stripped : Nat → Nat → Int → Scientific
  | 0, n, e => ⟨n, e⟩
  | fuel + 1, n, e => if n % 10 = 0 then stripped fuel (n / 10) (e + 1) else ⟨n, e⟩

/-- The greatest `k` with ten to the `k` at most `q`, for a positive `q`. -/
def magnitude (q : Rat) : Int :=
  let k := (digitCount q.num.natAbs : Int) - digitCount q.den
  if ratPower 10 k ≤ q then k else k - 1

/-- The rationals that round to one binary number. -/
structure Interval where
  /-- The number itself. -/
  centre : Rat
  /-- The lower end. -/
  low : Rat
  /-- The upper end. -/
  high : Rat
  /-- The ends belong to the interval. -/
  closed : Bool

/-- The interval of a positive number of a format. Below a power of two the numbers lie twice as
close, so there the lower half of the interval is half as long. -/
def Interval.of (f : Binary.Format) (mantissa : Nat) (exponent : Int) : Interval :=
  let centre := Binary.size mantissa exponent
  let half := ratPower 2 (exponent - 1)
  let below := if mantissa = f.fieldWeight ∧ f.lowest < exponent then half / 2 else half
  ⟨centre, centre - below, centre + half, mantissa % 2 == 0⟩

/-- The interval holds a rational. -/
def Interval.holds (i : Interval) (q : Rat) : Bool :=
  if i.closed then i.low ≤ q && q ≤ i.high else i.low < q && q < i.high

/-- The nearest point of the interval on the grid with the given unit, if there is one; of two at
the same distance the even one. -/
def Interval.point? (i : Interval) (unit : Rat) : Option Nat :=
  let below := (i.centre / unit).floor.toNat
  let above := below + 1
  match i.holds (below * unit) && below != 0, i.holds (above * unit) with
  | false, false => none
  | true, false => some below
  | false, true => some above
  | true, true =>
    let down := i.centre - below * unit
    let up := above * unit - i.centre
    if down < up || (down == up && below % 2 == 0) then some below else some above

/-- The digits of the first grid that has a point in the interval, from `count` digits on. -/
def search (i : Interval) (leading : Int) : Nat → Nat → Scientific
  | 0, _ => ⟨0, 0⟩
  | fuel + 1, count =>
    let exponent := leading - (count - 1 : Nat)
    match i.point? (ratPower 10 exponent) with
    | some n => stripped (digitCount n) n exponent
    | none => search i leading fuel (count + 1)

/-- The fewest digits that read back as the positive number with this mantissa and exponent:
no binary number of 64 bits needs more than seventeen. -/
def shortest (f : Binary.Format) (mantissa : Nat) (exponent : Int) : Scientific :=
  let i := Interval.of f mantissa exponent
  search i (magnitude i.centre) 18 1

/-! ### Plain notation -/

/-- The characters of a number in plain notation, with as many places before and after the point
as its digits need, and no point when there are none after it. -/
def plain (s : Scientific) : List Char :=
  let ds := Digit.toChars (Digit.ofNat s.digits)
  if 0 ≤ s.exponent then ds ++ List.replicate s.exponent.toNat '0'
  else
    let places := (-s.exponent).toNat
    if places < ds.length then ds.take (ds.length - places) ++ '.' :: ds.drop (ds.length - places)
    else '0' :: '.' :: (List.replicate (places - ds.length) '0' ++ ds)

end Scientific

/-- The shortest plain notation of a finite number. -/
def Binary.plain? {f : Binary.Format} : Binary f → Option String
  | .finite negative m e =>
    let body := if m = 0 then ['0'] else (Scientific.shortest f m e).plain
    some (String.ofList (if negative then '-' :: body else body))
  | _ => none

example : Scientific.shortest .double 1 (-1074) = ⟨5, -324⟩ := by decide +kernel
example : Scientific.shortest .single 1 (-149) = ⟨1, -45⟩ := by decide +kernel
example : (Binary.round .double (1 / 10)).plain? = some "0.1" := by decide +kernel
example : (Binary.round .double (3 * ratPower 10 21)).plain? = some "3000000000000000000000" := by
  decide +kernel

end WalletHub
