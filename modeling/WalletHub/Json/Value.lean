import WalletHub.Text.Digits

/-!
# JSON trees

A JSON text as a tree. A number is kept as it is written, so that nothing is lost before it is
known how the number is used, and the members of an object keep their order and may repeat a name.
A string or name written with half of a surrogate pair has no text.

## The model

* `Json.Numeral`: sign, whole part, places, and exponent if there is one.
* `Json`: trees. A text or a name that is none is kept as missing.
* `Json.text`, `Json.nat`, `Json.int`, `Json.record`: the trees that writers make.
* `Json.Fault`: what can be wrong with a text or with a tree that is read for a value. Where in the text it
  stands, and in what words it is told, is left out.
-/

namespace WalletHub

/-- A number as it is written, up to zeros in front of the exponent and the letter's case. -/
structure Json.Numeral where
  /-- A minus sign stands in front. -/
  negative : Bool
  /-- The part before the point. -/
  whole : Nat
  /-- The digits after the point; without any there is no point. -/
  fraction : List Digit
  /-- The exponent, if there is one. -/
  exponent : Option Int
  deriving DecidableEq, Repr

/-- A JSON tree. -/
inductive Json where
  /-- The literal `null`. -/
  | null
  /-- The literals `true` and `false`. -/
  | bool (b : Bool)
  /-- A number. -/
  | number (n : Json.Numeral)
  /-- A string; none stands for one that is not made of characters. -/
  | string (s : Option String)
  /-- An array. -/
  | array (items : List Json)
  /-- An object, member by member. -/
  | object (members : List (Option String × Json))
  deriving Repr

namespace Json

instance : Inhabited Json := ⟨.null⟩

/-- A string that has a text. -/
def text (s : String) : Json := .string (some s)

/-- A natural number. -/
def nat (n : Nat) : Json := .number ⟨false, n, [], none⟩

/-- An integer. -/
def int (n : Int) : Json := .number ⟨n < 0, n.natAbs, [], none⟩

/-- An object given by names that have a text. -/
def record (members : List (String × Json)) : Json :=
  .object (members.map fun (name, value) => (some name, value))

/-- What is wrong with a text that was to be read. -/
inductive Fault where
  /-- The text ends too early. -/
  | cutShort
  /-- The text is not JSON, or a number or string in it stands for nothing. -/
  | malformed
  /-- The tree has not the form of the value that was to be read. -/
  | unfit
  deriving DecidableEq, Repr

end Json

end WalletHub
