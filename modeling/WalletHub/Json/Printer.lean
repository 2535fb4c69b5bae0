import WalletHub.Json.Value

/-!
# Writing JSON

A tree is written either on one line without blanks, or with each item and each member on a line of
its own, indented by two blanks for each level. Characters are escaped only where the notation
demands it.

## The model

* `Layout`: the two layouts, which differ in their line breaks and in the blank after a colon.
* `escape`, `writeString`: two characters are escaped by a stroke, control characters by letters or by their
  codes in small hexadecimal digits, and no others.
* `writeNumeral`: a number is written as it was kept.
* `write`, `writeItems`, `writeMembers`, `render`: trees, by recursion on the tree, with the depth of the
  indentation.
-/

namespace WalletHub.Json

/-- The two ways to set out a text. -/
inductive Layout where
  /-- On one line. -/
  | compact
  /-- One item or member to a line. -/
  | pretty
  deriving DecidableEq, Repr

/-- What stands before an item at a nesting depth. -/
def Layout.lineBreak : Layout → Nat → List Char
  | .compact, _ => []
  | .pretty, depth => '\n' :: List.replicate (2 * depth) ' '

/-- What stands between a name and its value. -/
def Layout.colon : Layout → List Char
  | .compact => [':']
  | .pretty => [':', ' ']

/-- A digit to the base sixteen. -/
def hexDigit (n : Nat) : Char := if n < 10 then Char.ofNat (48 + n) else Char.ofNat (87 + n)

/-- A character inside a string. -/
def escape (c : Char) : List Char :=
  if c = '"' then ['\\', '"']
  else if c = '\\' then ['\\', '\\']
  else if c = '\n' then ['\\', 'n']
  else if c = '\r' then ['\\', 'r']
  else if c = '\t' then ['\\', 't']
  else if c.toNat = 8 then ['\\', 'b']
  else if c.toNat = 12 then ['\\', 'f']
  else if c.toNat < 32 then ['\\', 'u', '0', '0', hexDigit (c.toNat / 16), hexDigit (c.toNat % 16)]
  else [c]

/-- A string with its quotation marks. -/
def writeString : Option String → List Char
  | some s => '"' :: (s.toList.flatMap escape ++ ['"'])
  | none => ['"', '\\', 'u', 'd', '8', '0', '0', '"']

/-- An exponent, always with a sign. -/
def writeExponent : Option Int → List Char
  | none => []
  | some e => 'e' :: (if e < 0 then '-' else '+') :: Digit.toChars (Digit.ofNat e.natAbs)

/-- A number. -/
def writeNumeral (n : Numeral) : List Char :=
  (if n.negative then ['-'] else []) ++ Digit.toChars (Digit.ofNat n.whole)
    ++ (if n.fraction = [] then [] else '.' :: Digit.toChars n.fraction)
    ++ writeExponent n.exponent

mutual

/-- A tree at a nesting depth. -/
def write (l : Layout) (depth : Nat) : Json → List Char
  | .null => ['n', 'u', 'l', 'l']
  | .bool true => ['t', 'r', 'u', 'e']
  | .bool false => ['f', 'a', 'l', 's', 'e']
  | .number n => writeNumeral n
  | .string s => writeString s
  | .array [] => ['[', ']']
  | .array (item :: items) =>
    '[' :: (l.lineBreak (depth + 1) ++ write l (depth + 1) item
      ++ writeItems l (depth + 1) items ++ l.lineBreak depth ++ [']'])
  | .object [] => ['\x7b', '\x7d']
  | .object ((name, value) :: members) =>
    '\x7b' :: (l.lineBreak (depth + 1) ++ writeString name ++ l.colon ++ write l (depth + 1) value
      ++ writeMembers l (depth + 1) members ++ l.lineBreak depth ++ ['\x7d'])

/-- The items after the first. -/
def writeItems (l : Layout) (depth : Nat) : List Json → List Char
  | [] => []
  | item :: items => ',' :: (l.lineBreak depth ++ write l depth item ++ writeItems l depth items)

/-- The members after the first. -/
def writeMembers (l : Layout) (depth : Nat) : List (Option String × Json) → List Char
  | [] => []
  | (name, value) :: members =>
    ',' :: (l.lineBreak depth ++ writeString name ++ l.colon ++ write l depth value
      ++ writeMembers l depth members)

end

/-- The text of a tree. -/
def render (l : Layout) (j : Json) : String := String.ofList (write l 0 j)

example : render .compact (record [("a", .array [.null, .bool true]), ("b", .int (-3))])
    = "\x7b\"a\":[null,true],\"b\":-3\x7d" := by decide +kernel

example : render .pretty (record [("a", .array []), ("b", .array [.nat 1])])
    = "\x7b\n  \"a\": [],\n  \"b\": [\n    1\n  ]\n\x7d" := by decide +kernel

end WalletHub.Json
