import WalletHub.Number.Decimal

/-!
# Reading decimal amounts

The plain notation is an optional sign, then digits with at most one point; a low line may stand
anywhere after a first digit. An amount with more digits than fit is rounded at the first digit
that does not, half upwards, and the digits after that one are not looked at; digits before the
point must all fit. The scientific notation is a plain amount, the letter `e` or `E`, and an
integer by which the point is moved.

## The model

* `Partial`, `readDigits`, `Partial.roundAt`, `Partial.finish`: the reader of the plain notation and its states.
  Texts of fewer bytes than `shortLength` are read without rounding, and the others until all places are taken or
  the digits no longer fit.
* `ofPlain?`, `ofScientific?`, `ofText?`: the notations, the plain one first.
* `moveLeft`, `moveRight`: the point is moved, with as many places as an amount can have.
* `ofDouble?`: the amount of a binary number is read from its shortest digits.
-/

namespace WalletHub.Decimal

/-- What has been read of an amount. -/
structure Partial where
  /-- A minus sign stood in front. -/
  negative : Bool
  /-- The digits so far, as one integer. -/
  coefficient : Nat
  /-- How many of them stand after the point. -/
  scale : Nat
  /-- The point has been read. -/
  point : Bool
  /-- A digit has been read. -/
  started : Bool

/-- The amount read, if a digit was. -/
def Partial.finish (p : Partial) : Option Decimal :=
  if p.started then of? p.negative p.coefficient p.scale else none

/-- The amount rounded at a first character that no longer fits: up when it is a digit from five
on. A coefficient that rounding makes too large loses its last place. -/
def Partial.roundAt (p : Partial) (c : Char) : Option Decimal :=
  match Digit.ofChar? c with
  | none => if c = '_' || (c = '.' && p.point) then p.finish else none
  | some d =>
    if d.val < 5 then p.finish
    else
      let n := p.coefficient + 1
      if n < bound then Partial.finish { p with coefficient := n }
      else if p.scale = 0 then none
      else Partial.finish { p with coefficient := (n + 4) / 10, scale := p.scale - 1 }

/-- Coefficients from here on are wide: with all places taken, a low line that follows a wide
coefficient is passed over before the rounding, and ends any other amount. -/
def wideFrom : Nat := 1844674407370955161 - 255

/-- Texts of fewer bytes are read without rounding. -/
def shortLength : Nat := 18

/-- Reads the characters of an amount after its sign. `wide` says that the coefficient has passed
`wideFrom`, and `long` that the text has at least `shortLength` bytes. -/
def readDigits (long : Bool) (wide : Bool) (p : Partial) : List Char → Option Decimal
  | [] => p.finish
  | c :: rest =>
    if long && p.point && maxScale ≤ p.scale && !(wide && c == '_') then p.roundAt c
    else match Digit.ofChar? c with
      | some d =>
        let n := p.coefficient * 10 + d.val
        if wide && bound ≤ n then (if p.point then p.roundAt c else none)
        else
          let scale := if p.point then p.scale + 1 else p.scale
          readDigits long (wide || (long && wideFrom ≤ n))
            { p with coefficient := n, scale := scale, started := true } rest
      | none =>
        if c = '.' && !p.point then readDigits long wide { p with point := true } rest
        else if c = '_' && p.started then readDigits long wide p rest
        else none

/-- Reads the plain notation. -/
def ofPlain? (s : String) : Option Decimal :=
  let cs := s.toList
  let long := decide (shortLength ≤ s.utf8ByteSize)
  let start : Partial := ⟨false, 0, 0, false, false⟩
  match cs with
  | '+' :: rest => readDigits long false start rest
  | '-' :: rest => readDigits long false { start with negative := true } rest
  | _ => readDigits long false start cs

/-- Reads an exponent: an optional plus sign and digits, for a value below two to the 32. -/
def exponent? (cs : List Char) : Option Nat :=
  let ds := match cs with
    | '+' :: rest => rest
    | _ => cs
  match ds.mapM Digit.ofChar? with
  | none | some [] => none
  | some ds => if Digit.toNat ds < 4294967296 then some (Digit.toNat ds) else none

/-- The amount with its point moved by `n` places to the left. -/
def moveLeft (d : Decimal) (n : Nat) : Option Decimal :=
  of? d.negative d.coefficient (d.scale + n)

/-- The amount with its point moved by `n` places to the right. -/
def moveRight (d : Decimal) (n : Nat) : Option Decimal :=
  if n ≤ d.scale then of? d.negative d.coefficient (d.scale - n)
  else if maxScale < n then none
  else of? d.negative (d.coefficient * tenTo (n - d.scale)) 0

/-- Reads the scientific notation. -/
def ofScientific? (s : String) : Option Decimal :=
  let cs := s.toList
  let base := cs.takeWhile fun c => c != 'e' && c != 'E'
  match cs.drop base.length with
  | [] => none
  | _ :: power =>
    (ofPlain? (String.ofList base)).bind fun d => match power with
      | '-' :: rest => (exponent? rest).bind d.moveLeft
      | _ => (exponent? power).bind d.moveRight

/-- Reads either notation. -/
def ofText? (s : String) : Option Decimal := (ofPlain? s).or (ofScientific? s)

/-- The amount that the shortest plain notation of a binary number writes. -/
def ofDouble? (x : Double) : Option Decimal := x.plain?.bind ofPlain?

example : (ofText? "1_000.5").map toText = some "1000.5" := by decide +kernel
example : (ofText? "1e3").map toText = some "1000" := by decide +kernel
example : (ofText? "-.5").map toText = some "-0.5" := by decide +kernel
example : ofText? "1.2.3" = none := by decide +kernel
example : ofText? "79228162514264337593543950336" = none := by decide +kernel

end WalletHub.Decimal
