import WalletHub.Text.Blank
import WalletHub.Time.Instant

/-!
# Reading instants

The notation of the internet, read with some freedom: white space may stand before each part,
parts may have fewer digits, the letter `T` may be small or a space, and the offset from universal
time may be `Z`, `UTC` or a signed time. A second numbered 60 is a leap second.

## The model

* `number?`, `year?`, `mark?`, `fraction?`, `pair?`, `offset?`: readers of the parts, each of which takes its
  part off the text and leaves the rest. Digits of a fraction beyond the ninth are passed over.
* `ofParts?`: the instant of the parts, if the date is one of the calendar and the time one of the day, with the
  offset taken off.
* `ofText?`: the readers in a row, with nothing left at the end.
-/

namespace WalletHub.Instant

/-- Reads one to `width` digits after white space. -/
def number? (width : Nat) (cs : List Char) : Option (Nat × List Char) :=
  let cs := Text.trimFront cs
  let ds := (Digit.span (cs.take width)).1
  if ds = [] then none else some (Digit.toNat ds, cs.drop ds.length)

/-- Reads a year: at most four digits, or a sign and any number of them. -/
def year? (cs : List Char) : Option (Int × List Char) :=
  match Text.trimFront cs with
  | '-' :: rest => match Digit.span rest with
    | ([], _) => none
    | (ds, rest) => some (-(Digit.toNat ds : Int), rest)
  | '+' :: rest => match Digit.span rest with
    | ([], _) => none
    | (ds, rest) => some ((Digit.toNat ds : Int), rest)
  | cs => (number? 4 cs).map fun (n, rest) => ((n : Int), rest)

/-- Reads one character after white space. -/
def mark? (c : Char) (cs : List Char) : Option (List Char) :=
  match Text.trimFront cs with
  | c' :: rest => if c' = c then some rest else none
  | [] => none

/-- Reads a fraction of a second, if a point stands here: nine digits count. -/
def fraction? : List Char → Option (Nat × List Char)
  | '.' :: rest => match Digit.span rest with
    | ([], _) => none
    | (ds, rest) =>
      let nine := ds.take 9
      some (Digit.toNat (nine ++ List.replicate (9 - nine.length) Digit.zero), rest)
  | cs => some (0, cs)

/-- Reads the two digits of an offset's hours or minutes. -/
def pair? : List Char → Option (Nat × List Char)
  | a :: b :: rest => match Digit.ofChar? a, Digit.ofChar? b with
    | some a, some b => some (a.val * 10 + b.val, rest)
    | _, _ => none
  | _ => none

/-- Reads the offset from universal time, in seconds. -/
def offset? (cs : List Char) : Option (Int × List Char) :=
  let signed (sign : Int) (cs : List Char) : Option (Int × List Char) := do
    let (hours, cs) ← pair? cs
    let (minutes, cs) ← pair? (cs.dropWhile fun c => c == ':' || Text.isBlank c)
    if minutes < 60 then some (sign * (hours * 3600 + minutes * 60), cs) else none
  match cs with
  | 'Z' :: rest | 'z' :: rest => some (0, rest)
  | '+' :: rest => signed 1 rest
  | '-' :: rest | '\u2212' :: rest => signed (-1) rest
  | a :: b :: c :: rest =>
    if [a, b, c].map Char.toLower = ['u', 't', 'c'] then some (0, rest) else none
  | _ => none

/-- The instant of a local date and time of day under an offset, if all parts are in range. -/
def ofParts? (date : Date) (hour minute second nanos : Nat) (offset : Int) : Option Instant :=
  if date.isValid && hour < 24 && minute < 60 && second ≤ 60
      && -86400 < offset && offset < 86400 then
    let clock := hour * 3600 + minute * 60 + min second 59
    let seconds := date.toDays * 86400 + clock - offset
    let year := (Date.ofDays (Int.fdiv seconds 86400)).year
    if Date.firstYear ≤ year && year ≤ Date.lastYear then
      some ⟨seconds, nanos + (if second = 60 then 1000000000 else 0)⟩
    else none
  else none

/-- Reads an instant that fills the whole text. -/
def ofText? (s : String) : Option Instant := do
  let (year, cs) ← year? s.toList
  let (month, cs) ← number? 2 (← mark? '-' cs)
  let (day, cs) ← number? 2 (← mark? '-' cs)
  let cs ← match cs with
    | 'T' :: rest | 't' :: rest | ' ' :: rest => some rest
    | _ => none
  let (hour, cs) ← number? 2 cs
  let (minute, cs) ← number? 2 (← mark? ':' cs)
  let (second, cs) ← number? 2 (← mark? ':' cs)
  let (nanos, cs) ← fraction? cs
  let (offset, cs) ← offset? (Text.trimFront cs)
  if Text.trimFront cs = [] then ofParts? ⟨year, month, day⟩ hour minute second nanos offset
  else none

example : ofText? "1900-01-01T00:00:00.5-11:30" = some ⟨-2208947400, 500000000⟩ := by
  decide +kernel
example : ofText? "2021-06-01T12:00:00.Z" = none := by decide +kernel
example : (ofText? "2016-12-31 23:59:60 utc").map toText = some "2016-12-31T23:59:60Z" := by
  decide +kernel
example : ofText? "2019-02-29T00:00:00Z" = none := by decide +kernel

end WalletHub.Instant
