import WalletHub.Text.Digits
import WalletHub.Time.Calendar

/-!
# Instants

A point in time of the universal time scale, to the nanosecond, and its text in the notation of
the internet: date, the letter `T`, time of day, and `Z`. The fraction of a second is written with
0, 3, 6 or 9 digits, the fewest that lose nothing.

## The model

* `Instant`: seconds since the first of January 1970, and nanoseconds. A leap second is kept as more than a
  second's worth of nanoseconds.
* `Instant.millis`, `Instant.later`: the instant in milliseconds, and one some nanoseconds later, for the clock
  of a run.
* `Instant.toText`: the text, with a sign and more digits where the year needs them.
-/

namespace WalletHub

/-- A point in time. During a leap second the nanoseconds run on past a whole second. -/
structure Instant where
  /-- Whole seconds from the start of 1970. -/
  seconds : Int
  /-- Nanoseconds since that second began, below two thousand million. -/
  nanos : Nat
  deriving DecidableEq, Repr

namespace Instant

/-- Milliseconds from the start of 1970, rounded towards the past. -/
def millis (t : Instant) : Int := t.seconds * 1000 + (t.nanos / 1000000 : Nat)

/-- The instant `n` nanoseconds later, for an instant outside leap seconds. -/
def later (t : Instant) (n : Nat) : Instant :=
  ⟨t.seconds + ((t.nanos + n) / 1000000000 : Nat), (t.nanos + n) % 1000000000⟩

/-- The digits of `n`, filled up with zeros in front to `width` digits. -/
def padded (width n : Nat) : List Char :=
  let ds := Digit.toChars (Digit.ofNat n)
  List.replicate (width - ds.length) '0' ++ ds

/-- A year: four digits from 0 to 9999, otherwise with a sign in front. -/
def yearText (year : Int) : List Char :=
  if 0 ≤ year ∧ year ≤ 9999 then padded 4 year.toNat
  else (if year < 0 then '-' else '+') :: padded 4 year.natAbs

/-- The fraction of a second with the fewest of 0, 3, 6 or 9 digits that lose nothing. -/
def fractionText (nanos : Nat) : List Char :=
  if nanos = 0 then []
  else if nanos % 1000000 = 0 then '.' :: padded 3 (nanos / 1000000)
  else if nanos % 1000 = 0 then '.' :: padded 6 (nanos / 1000)
  else '.' :: padded 9 nanos

/-- The text of an instant. -/
def toText (t : Instant) : String :=
  let date := Date.ofDays (Int.fdiv t.seconds 86400)
  let second := (Int.fmod t.seconds 86400).toNat
  String.ofList <|
    yearText date.year ++ '-' :: padded 2 date.month ++ '-' :: padded 2 date.day
      ++ 'T' :: padded 2 (second / 3600) ++ ':' :: padded 2 (second / 60 % 60)
      ++ ':' :: padded 2 (second % 60 + t.nanos / 1000000000)
      ++ fractionText (t.nanos % 1000000000) ++ ['Z']

example : toText ⟨1600000000, 0⟩ = "2020-09-13T12:26:40Z" := by decide +kernel
example : toText ⟨-1, 999000000⟩ = "1969-12-31T23:59:59.999Z" := by decide +kernel

end Instant

end WalletHub
