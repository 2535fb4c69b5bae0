import WalletHub.Json.Value

/-!
# Reading JSON

The notation of the standard, with nothing added: no trailing comma, no number with a zero in front,
no control character inside a string, nothing but blanks after the value. A text that ends where it
could go on is told apart from one that breaks the rules.

## The model

* `readString`: strings are read into pieces first (`Piece`), and these are put together after that (`assemble`),
  because half of a surrogate pair makes no text but is no fault of the notation.
* `readNumeral`: sign, whole part, places and exponent, each kept as it is written.
* `readValue`, `readItems`, `readMembers`: values, by recursion on a fuel that bounds the depth of the calls. The
  length of the text is always enough, as is proved with `parse_render` in `WalletHub.Proofs.Json.RoundTrip`.
* `parse`: a text that is one value and nothing more.
-/

namespace WalletHub.Json

/-- Drops the blanks in front. -/
def skipBlanks : List Char → List Char
  | c :: cs => if c = ' ' ∨ c = '\t' ∨ c = '\n' ∨ c = '\r' then skipBlanks cs else c :: cs
  | [] => []

/-- Reads the rest of a literal. -/
def expect : List Char → List Char → Except Fault (List Char)
  | [], cs => .ok cs
  | _ :: _, [] => .error .cutShort
  | e :: es, c :: cs => if e = c then expect es cs else .error .malformed

/-! ### Strings -/

/-- The value of a digit to the base sixteen. -/
def hexValue? (c : Char) : Option Nat :=
  let n := c.toNat
  if 48 ≤ n ∧ n ≤ 57 then some (n - 48)
  else if 97 ≤ n ∧ n ≤ 102 then some (n - 87)
  else if 65 ≤ n ∧ n ≤ 70 then some (n - 55)
  else none

/-- A piece of a string: a character, or half of a surrogate pair. -/
inductive Piece where
  /-- A character, written as it is or escaped. -/
  | char (c : Char)
  /-- A half of a pair, from 0xD800 to 0xDFFF. -/
  | half (unit : Nat)
  deriving DecidableEq, Repr

/-- The piece that an escaped number of sixteen bits stands for. -/
def Piece.ofUnit (unit : Nat) : Piece :=
  if 0xD800 ≤ unit ∧ unit < 0xE000 then .half unit else .char (Char.ofNat unit)

/-- The characters of the pieces; none if a half is not followed or preceded by its other half. -/
def assemble : List Piece → Option (List Char)
  | [] => some []
  | .char c :: ps => (assemble ps).map (c :: ·)
  | .half high :: .half low :: ps =>
    if high < 0xDC00 ∧ 0xDC00 ≤ low then
      (assemble ps).map (Char.ofNat (0x10000 + (high - 0xD800) * 0x400 + (low - 0xDC00)) :: ·)
    else none
  | .half _ :: _ => none

/-- The character that a letter after a backslash stands for. -/
def escaped? (c : Char) : Option Char :=
  match c with
  | '"' => some '"'
  | '\\' => some '\\'
  | '/' => some '/'
  | 'b' => some '\x08'
  | 'f' => some '\x0c'
  | 'n' => some '\n'
  | 'r' => some '\r'
  | 't' => some '\t'
  | _ => none

/-- Puts a piece before the pieces that follow it. -/
def prepend (p : Piece) :
    Except Fault (List Piece × List Char) → Except Fault (List Piece × List Char)
  | .ok (ps, rest) => .ok (p :: ps, rest)
  | .error e => .error e

/-- Reads the pieces of a string up to its closing mark. -/
def readPieces : List Char → Except Fault (List Piece × List Char)
  | [] => .error .cutShort
  | '"' :: rest => .ok ([], rest)
  | '\\' :: 'u' :: a :: b :: c :: d :: rest =>
    match hexValue? a, hexValue? b, hexValue? c, hexValue? d with
    | some a, some b, some c, some d =>
      prepend (Piece.ofUnit (((a * 16 + b) * 16 + c) * 16 + d)) (readPieces rest)
    | _, _, _, _ => .error .malformed
  | '\\' :: 'u' :: rest =>
    if (rest.map Char.utf8Size).foldl (· + ·) 0 < 4 then .error .cutShort else .error .malformed
  | ['\\'] => .error .cutShort
  | '\\' :: c :: rest => match escaped? c with
    | some c => prepend (.char c) (readPieces rest)
    | none => .error .malformed
  | c :: rest => if c.toNat < 32 then .error .malformed else prepend (.char c) (readPieces rest)

/-- Reads a string after its opening mark. -/
def readString (cs : List Char) : Except Fault (Option String × List Char) :=
  match readPieces cs with
  | .ok (ps, rest) => .ok ((assemble ps).map String.ofList, rest)
  | .error e => .error e

/-! ### Numbers -/

/-- Reads at least one digit. -/
def readDigits (cs : List Char) : Except Fault (List Digit × List Char) :=
  match Digit.span cs with
  | ([], []) => .error .cutShort
  | ([], _ :: _) => .error .malformed
  | (ds, rest) => .ok (ds, rest)

/-- Reads the part of a number before the point. -/
def readWhole (cs : List Char) : Except Fault (Nat × List Char) :=
  match readDigits cs with
  | .ok (d :: ds, rest) =>
    if d.val = 0 ∧ ds ≠ [] then .error .malformed else .ok (Digit.toNat (d :: ds), rest)
  | .ok ([], _) => .error .malformed
  | .error e => .error e

/-- Reads the part of a number after the point, if there is one. -/
def readFraction : List Char → Except Fault (List Digit × List Char)
  | '.' :: rest => readDigits rest
  | cs => .ok ([], cs)

/-- Reads the exponent of a number, if there is one. -/
def readExponent : List Char → Except Fault (Option Int × List Char)
  | c :: rest =>
    if c = 'e' ∨ c = 'E' then
      let (negative, rest) := match rest with
        | '-' :: rest => (true, rest)
        | '+' :: rest => (false, rest)
        | rest => (false, rest)
      match readDigits rest with
      | .ok (ds, rest) =>
        .ok (some (if negative then -(Digit.toNat ds : Int) else Digit.toNat ds), rest)
      | .error e => .error e
    else .ok (none, c :: rest)
  | [] => .ok (none, [])

/-- Reads a number after its sign. -/
def readNumeral (negative : Bool) (cs : List Char) : Except Fault (Json × List Char) := do
  let (whole, cs) ← readWhole cs
  let (fraction, cs) ← readFraction cs
  let (exponent, cs) ← readExponent cs
  .ok (.number ⟨negative, whole, fraction, exponent⟩, cs)

/-! ### Trees -/

mutual

/-- Reads a value. Each level of nesting and each item takes one unit of fuel. -/
def readValue : Nat → List Char → Except Fault (Json × List Char)
  | 0, _ => .error .cutShort
  | fuel + 1, cs => match skipBlanks cs with
    | [] => .error .cutShort
    | c :: rest =>
      if c = 'n' then (expect ['u', 'l', 'l'] rest).map fun rest => (.null, rest)
      else if c = 't' then (expect ['r', 'u', 'e'] rest).map fun rest => (.bool true, rest)
      else if c = 'f' then (expect ['a', 'l', 's', 'e'] rest).map fun rest => (.bool false, rest)
      else if c = '"' then (readString rest).map fun (s, rest) => (.string s, rest)
      else if c = '-' then readNumeral true rest
      else if (Digit.ofChar? c).isSome then readNumeral false (c :: rest)
      else if c = '[' then match skipBlanks rest with
        | ']' :: rest => .ok (.array [], rest)
        | rest => (readItems fuel rest).map fun (items, rest) => (.array items, rest)
      else if c = '\x7b' then match skipBlanks rest with
        | '\x7d' :: rest => .ok (.object [], rest)
        | rest => (readMembers fuel rest).map fun (members, rest) => (.object members, rest)
      else .error .malformed

/-- Reads the items of an array and its closing bracket. -/
def readItems : Nat → List Char → Except Fault (List Json × List Char)
  | 0, _ => .error .cutShort
  | fuel + 1, cs => do
    let (item, cs) ← readValue fuel cs
    match skipBlanks cs with
    | [] => .error .cutShort
    | ']' :: rest => .ok ([item], rest)
    | ',' :: rest =>
      let (items, rest) ← readItems fuel rest
      .ok (item :: items, rest)
    | _ :: _ => .error .malformed

/-- Reads the members of an object and its closing brace. -/
def readMembers : Nat → List Char → Except Fault ((List (Option String × Json)) × List Char)
  | 0, _ => .error .cutShort
  | fuel + 1, cs => match skipBlanks cs with
    | [] => .error .cutShort
    | '"' :: rest => do
      let (name, rest) ← readString rest
      match skipBlanks rest with
      | [] => .error .cutShort
      | ':' :: rest =>
        let (value, rest) ← readValue fuel rest
        match skipBlanks rest with
        | [] => .error .cutShort
        | '\x7d' :: rest => .ok ([(name, value)], rest)
        | ',' :: rest =>
          let (members, rest) ← readMembers fuel rest
          .ok ((name, value) :: members, rest)
        | _ :: _ => .error .malformed
      | _ :: _ => .error .malformed
    | _ :: _ => .error .malformed

end

/-- Reads a text that holds one value. -/
def parse (s : String) : Except Fault Json :=
  let cs := s.toList
  match readValue (2 * cs.length + 2) cs with
  | .ok (j, rest) => if skipBlanks rest = [] then .ok j else .error .malformed
  | .error e => .error e

end WalletHub.Json
