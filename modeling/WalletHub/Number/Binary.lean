/-!
# Binary floating point

A number of a binary format is an integer times a power of two, an infinity, or no number
at all. The exact value of a finite number is a rational, so every operation is the exact
operation followed by one rounding, `Binary.round`: to the nearest number of the format,
a value half way between two of them going to the one with the even mantissa.

## The model

* `Binary.Format`: the bits of the mantissa, and the lowest and the highest exponent. `Double` and `Single` are
  the numbers of 64 and of 32 bits.
* `Binary.round`, `Binary.roundAbs`: rounding. The exponent of the result is found by `Binary.magnitude`, and the
  mantissa by `Binary.roundQuotient`; what is too large becomes infinite.
* `Binary.value?`: what a number stands for.
* `Binary.add`, `Binary.mul`, `Binary.div`, `Binary.scale`, `Binary.power`, `Binary.nearestInteger`: the
  operations.
* `Binary.lt`, `Binary.same`, `Binary.clamp`: comparisons. Where no number is compared they are false, so that
  `clamp` leaves such a value as it is.
* `Binary.bits?`, `Binary.ofBits`: the bit patterns of numbers.

Numbers have signs, zero as well. There is one value that is no number where the hardware has many, so the bits
of such a value are not told.
-/

namespace WalletHub

/-- Two to the power `n`. -/
def twoTo (n : Nat) : Nat := Nat.pow 2 n

/-- Ten to the power `n`. -/
def tenTo (n : Nat) : Nat := Nat.pow 10 n

/-- The rational `base` to an integer power. -/
def ratPower (base : Nat) (e : Int) : Rat :=
  if 0 ≤ e then (Nat.pow base e.toNat : Nat) else 1 / (Nat.pow base (-e).toNat : Nat)

namespace Binary

/-- A binary format, by its precision and the range of its exponents. -/
structure Format where
  /-- The number of bits of a mantissa. -/
  precision : Nat
  /-- The exponent of the unit in which the least numbers are written. -/
  lowest : Int
  /-- The exponent of the unit in which the greatest numbers are written. -/
  highest : Int
  deriving DecidableEq, Repr

/-- The format of 64 bits. -/
def Format.double : Format := ⟨53, -1074, 971⟩

/-- The format of 32 bits. -/
def Format.single : Format := ⟨24, -149, 104⟩

end Binary

/-- A number of a binary format. -/
inductive Binary (f : Binary.Format) where
  /-- The mantissa times two to the exponent, with a sign that zero has as well. -/
  | finite (negative : Bool) (mantissa : Nat) (exponent : Int)
  /-- Beyond the greatest number of the format. -/
  | infinite (negative : Bool)
  /-- No number. -/
  | nan
  deriving DecidableEq, Repr

/-- A number of 64 bits. -/
abbrev Double := Binary .double

/-- A number of 32 bits. -/
abbrev Single := Binary .single

namespace Binary

variable {f : Format}

/-! ### Rounding -/

/-- The integer nearest to the quotient, a half going to the even one. -/
def roundQuotient (num den : Nat) : Nat :=
  let q := num / den
  let twice := 2 * (num % den)
  if twice < den || (twice == den && q % 2 == 0) then q else q + 1

/-- The greatest `k` with two to the `k` at most `q`, for a positive `q`. -/
def magnitude (q : Rat) : Int :=
  let k := (q.num.natAbs.log2 : Int) - q.den.log2
  if ratPower 2 k ≤ q then k else k - 1

/-- The exponent of the unit in which the format writes numbers near a positive `q`. -/
def unitExponent (f : Format) (q : Rat) : Int :=
  max (magnitude q - (f.precision - 1)) f.lowest

/-- The number of the format nearest to `q`, which is not negative, under the given sign. -/
def roundAbs (f : Format) (negative : Bool) (q : Rat) : Binary f :=
  if q = 0 then .finite negative 0 f.lowest
  else
    let e := unitExponent f q
    let scaled := q / ratPower 2 e
    let m := roundQuotient scaled.num.natAbs scaled.den
    let (m, e) := if m = twoTo f.precision then (twoTo (f.precision - 1), e + 1) else (m, e)
    if f.highest < e then .infinite negative else .finite negative m e

/-- The number of the format nearest to `q`. -/
def round (f : Format) (q : Rat) : Binary f :=
  if q < 0 then roundAbs f true (-q) else roundAbs f false q

/-- The number of the format nearest to a natural number. -/
def ofNat (f : Format) (n : Nat) : Binary f := roundAbs f false n

/-! ### Values and operations -/

/-- Zero, with the positive sign. -/
def zero : Binary f := .finite false 0 f.lowest

/-- One. -/
def one : Binary f := round f 1

/-- The exact size of a finite number, without its sign. -/
def size (mantissa : Nat) (exponent : Int) : Rat := mantissa * ratPower 2 exponent

/-- The exact value of a finite number. -/
def value? : Binary f → Option Rat
  | .finite negative m e => some (if negative then -size m e else size m e)
  | .infinite _ => none
  | .nan => none

/-- The number with the other sign. -/
def neg : Binary f → Binary f
  | .finite negative m e => .finite (!negative) m e
  | .infinite negative => .infinite (!negative)
  | .nan => .nan

/-- The number is zero, under either sign. -/
def isZero : Binary f → Bool
  | .finite _ m _ => m == 0
  | _ => false

/-- The product with a positive rational, rounded. -/
def scale (x : Binary f) (factor : Rat) : Binary f :=
  match x with
  | .finite negative m e => roundAbs f negative (size m e * factor)
  | .infinite negative => .infinite negative
  | .nan => .nan

/-- An operation on two finite numbers, done exactly and then rounded. With any other operand it
gives no number. -/
def combine (op : Rat → Rat → Rat) (x y : Binary f) : Binary f :=
  match x.value?, y.value? with
  | some a, some b => round f (op a b)
  | _, _ => .nan

/-- The sum of two finite numbers, rounded. -/
def add (x y : Binary f) : Binary f := combine (fun a b => a + b) x y

/-- The product of two finite numbers, rounded. -/
def mul (x y : Binary f) : Binary f := combine (fun a b => a * b) x y

/-- The quotient of two finite numbers, rounded. -/
def div (x y : Binary f) : Binary f := combine (fun a b => a / b) x y

/-- The product of two finite numbers repeated by squaring: at each step the base is squared and
the exponent halved, and the base joins the product where the exponent is odd. -/
def powerFrom : Nat → Binary f → Binary f → Nat → Binary f
  | 0, product, _, _ => product
  | fuel + 1, product, base, n =>
    let product := if n % 2 == 1 then product.mul base else product
    if n / 2 = 0 then product else powerFrom fuel product (base.mul base) (n / 2)

/-- A power of a finite number, each multiplication rounded. -/
def power (base : Binary f) (n : Nat) : Binary f := powerFrom (n + 1) one base n

/-- The integer nearest to a finite number, a half going away from zero. -/
def nearestInteger : Binary f → Binary f
  | .finite negative m e => roundAbs f negative ((size m e + 1 / 2).floor.toNat : Nat)
  | x => x

/-- The first number is below the second; a comparison with no number is false. -/
def lt : Binary f → Binary f → Bool
  | .nan, _ => false
  | _, .nan => false
  | .infinite negative, .infinite negative' => negative && !negative'
  | .infinite negative, .finite .. => negative
  | .finite .., .infinite negative => !negative
  | .finite s m e, .finite s' m' e' =>
    decide ((if s then -size m e else size m e) < (if s' then -size m' e' else size m' e'))

/-- The numbers compare equal: zeros do under either sign, and no number equals itself. -/
def same : Binary f → Binary f → Bool
  | .finite s m e, .finite s' m' e' =>
    (m == 0 && m' == 0) || (s == s' && m == m' && e == e')
  | .infinite s, .infinite s' => s == s'
  | _, _ => false

/-- The number moved into the range from `low` to `high`; no number stays no number. -/
def clamp (x low high : Binary f) : Binary f :=
  let x := if x.lt low then low else x
  if high.lt x then high else x

/-- The number of another format nearest to this one. -/
def convert (g : Format) : Binary f → Binary g
  | .finite negative m e => roundAbs g negative (size m e)
  | .infinite negative => .infinite negative
  | .nan => .nan

/-! ### Bit patterns -/

/-- The exponent field of infinities, whose bits are all set. -/
def Format.topField (f : Format) : Nat := (f.highest - f.lowest + 2).toNat

/-- The weight of the exponent field in a bit pattern. -/
def Format.fieldWeight (f : Format) : Nat := twoTo (f.precision - 1)

/-- The weight of the sign in a bit pattern. -/
def Format.signWeight (f : Format) : Nat := (f.topField + 1) * f.fieldWeight

/-- The bit pattern of a number; no number has none that is kept apart from the others. -/
def bits? : Binary f → Option Nat
  | .finite negative m e =>
    let sign := if negative then f.signWeight else 0
    if m < f.fieldWeight then some (sign + m)
    else some (sign + ((e - f.lowest).toNat + 1) * f.fieldWeight + (m - f.fieldWeight))
  | .infinite negative => some ((if negative then f.signWeight else 0) + f.topField * f.fieldWeight)
  | .nan => none

/-- The number with a bit pattern, of which only the bits of the format count. -/
def ofBits (f : Format) (bits : Nat) : Binary f :=
  let negative := bits / f.signWeight % 2 == 1
  let field := bits % f.signWeight / f.fieldWeight
  let fraction := bits % f.fieldWeight
  if field = 0 then .finite negative fraction f.lowest
  else if field = f.topField then (if fraction = 0 then .infinite negative else .nan)
  else .finite negative (f.fieldWeight + fraction) (f.lowest + (field - 1 : Nat))

example : (round .single (1 / 10)).bits? = some 1036831949 := by decide +kernel
example : ofBits .single 1036831949 = round .single (1 / 10) := by decide +kernel
example : bits? (.infinite true : Single) = some 4286578688 := by decide
example : (ofBits .single 8388608).scale (1 / 100) = ofBits .single 83886 := by decide +kernel

end Binary

end WalletHub
