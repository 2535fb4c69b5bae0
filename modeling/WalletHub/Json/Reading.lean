import WalletHub.Json.Numeral

/-!
# Reading values out of JSON trees

How a tree is taken for a value of a given form. A record is an object, whose unknown members are
passed over and whose known members may not repeat, or else an array of all its fields in order.
A choice between forms is an object with a member that names the form, anywhere among the others,
or else an array that starts with the name.

To find that member the whole tree is held first. What is held has to be sound everywhere, also in
members that are not looked at, and is nested less than 128 deep; a member that is passed over
without being held need not be.

## The model

* `Source`: where a tree comes from. From a text some levels of nesting may still be entered; a tree that is held
  has no such bound any more.
* `asText`, `asBool`, `asNat`, `asInt`, `asSingle`, `asOption`, `asList`: plain values, with a fault where the
  tree is of another kind or out of range (`misfit`).
* `fields`, `Fields.get`, `Fields.getD`: the members of a record, by name.
* `hold`, `Source.hold`: whether a tree can be held.
* `choice`, `formName`, `asName`: which of several forms a tree has, and its other members.
-/

namespace WalletHub.Json

/-- Where a tree is read from. -/
inductive Source where
  /-- From the text, which may be nested to fewer than `room` further levels. -/
  | text (room : Nat)
  /-- From a tree that is held. -/
  | held
  deriving DecidableEq, Repr

/-- A whole text, with the bound on its nesting. -/
def Source.start : Source := .text 128

/-- Where the parts of an array or object are read from. -/
def Source.inner : Source → Source
  | .text room => .text (room - 1)
  | .held => .held

/-- One level of nesting may be entered. -/
def Source.enter : Source → Except Fault Unit
  | .text room => if room ≤ 1 then .error .malformed else .ok ()
  | .held => .ok ()

/-- The fault of a tree that has the wrong form: it is seen only if the tree itself is sound. -/
def misfit : Json → Fault
  | .number n => if n.meaning?.isSome then .unfit else .malformed
  | .string none => .malformed
  | _ => .unfit

/-! ### Plain values -/

/-- A string. -/
def asText : Json → Except Fault String
  | .string (some s) => .ok s
  | j => .error j.misfit

/-- A truth value. -/
def asBool : Json → Except Fault Bool
  | .bool b => .ok b
  | j => .error j.misfit

/-- A natural number below a bound. -/
def asNat (bound : Nat) : Json → Except Fault Nat
  | .number n => match n.meaning? with
    | some (.natural k) => if k < bound then .ok k else .error .unfit
    | some _ => .error .unfit
    | none => .error .malformed
  | j => .error j.misfit

/-- An integer of 64 bits with sign. -/
def asInt : Json → Except Fault Int
  | .number n => match n.meaning? with
    | some (.natural k) => if 2 * k < Numeral.wordBound then .ok k else .error .unfit
    | some (.negated k) => .ok (-k)
    | some (.real _) => .error .unfit
    | none => .error .malformed
  | j => .error j.misfit

/-- A number rounded to 32 bits. -/
def asSingle : Json → Except Fault Single
  | .number n => match n.meaning? with
    | some (.natural k) => .ok (Binary.ofNat _ k)
    | some (.negated k) => .ok (Binary.ofNat _ k).neg
    | some (.real x) => .ok (x.convert _)
    | none => .error .malformed
  | j => .error j.misfit

/-- A value that may be absent, which `null` says. -/
def asOption {α : Type} (read : Json → Except Fault α) : Json → Except Fault (Option α)
  | .null => .ok none
  | j => (read j).map some

/-- A list. -/
def asList {α : Type} (source : Source) (read : Source → Json → Except Fault α) :
    Json → Except Fault (List α)
  | .array items => do
    source.enter
    items.mapM (read source.inner)
  | j => .error j.misfit

/-! ### Records -/

/-- The fields that were found, by name. -/
abbrev Fields := List (String × Json)

/-- The known members of an object: each at most once, unknown ones passed over. -/
def knownMembers (names : List String) :
    List (Option String × Json) → Except Fault Fields
  | [] => .ok []
  | (none, _) :: _ => .error .malformed
  | (some name, value) :: rest => do
    let fields ← knownMembers names rest
    if names.contains name then
      if fields.any fun (other, _) => other == name then .error .unfit
      else .ok ((name, value) :: fields)
    else .ok fields

/-- The fields of a record. -/
def fields (source : Source) (names : List String) : Json → Except Fault Fields
  | .object members => do
    source.enter
    knownMembers names members
  | .array items => do
    source.enter
    if items.length < names.length then .error .unfit
    else if names.length < items.length then
      .error (match source with | .text _ => .malformed | .held => .unfit)
    else .ok (names.zip items)
  | j => .error j.misfit

/-- The field with a name; a record without it is unfit. -/
def Fields.get (fs : Fields) (name : String) : Except Fault Json :=
  match fs.lookup name with
  | some j => .ok j
  | none => .error .unfit

/-- The field with a name, `null` when it is absent. -/
def Fields.getD (fs : Fields) (name : String) : Json := (fs.lookup name).getD .null

/-! ### Choices -/

mutual

/-- A tree that is held is sound and not nested too deep. -/
def hold (room : Nat) : Json → Except Fault Unit
  | .null | .bool _ => .ok ()
  | .number n => if n.meaning?.isSome then .ok () else .error .malformed
  | .string s => if s.isSome then .ok () else .error .malformed
  | .array items => if room ≤ 1 then .error .malformed else holdItems (room - 1) items
  | .object members => if room ≤ 1 then .error .malformed else holdMembers (room - 1) members

/-- All items are sound. -/
def holdItems (room : Nat) : List Json → Except Fault Unit
  | [] => .ok ()
  | item :: items => match hold room item with
    | .ok () => holdItems room items
    | .error e => .error e

/-- All members are sound. -/
def holdMembers (room : Nat) : List (Option String × Json) → Except Fault Unit
  | [] => .ok ()
  | (name, value) :: members =>
    if name.isNone then .error .malformed
    else match hold room value with
      | .ok () => holdMembers room members
      | .error e => .error e

end

/-- Holds a tree, unless it is held already. -/
def Source.hold (source : Source) (j : Json) : Except Fault Unit :=
  match source with
  | .text room => Json.hold room j
  | .held => .ok ()

/-- The name of a form: one of the names given, or, in a tree that is held, its number. -/
def formName (source : Source) (names : List String) (j : Json) : Except Fault String :=
  match source, j with
  | _, .string (some name) => if names.contains name then .ok name else .error .unfit
  | .held, .number n => match n.meaning? with
    | some (.natural k) => match names[k]? with
      | some name => .ok name
      | none => .error .unfit
    | _ => .error .unfit
  | _, j => .error j.misfit

/-- The members with the given name, and the others. -/
def splitMembers (name : String) (members : List (Option String × Json)) :
    List Json × List (Option String × Json) :=
  let (named, others) := members.partition fun (other, _) => other == some name
  (named.map fun (_, value) => value, others)

/-- The name of the form of a choice, and what remains of the tree without it. -/
def choice (source : Source) (tag : String) (names : List String) :
    Json → Except Fault (String × Json)
  | .object members => do
    source.enter
    let (named, others) := splitMembers tag members
    source.hold (.object others)
    match named with
    | [j] => return (← formName source names j, .object others)
    | _ => .error .unfit
  | .array (j :: items) => do
    source.enter
    source.hold (.array items)
    return (← formName source names j, .array items)
  | .array [] => .error .unfit
  | j => .error j.misfit

/-- What remains of a choice whose form has no fields: members are passed over, items are not
allowed. -/
def noFields : Json → Except Fault Unit
  | .array (_ :: _) => .error .unfit
  | _ => .ok ()

/-- A choice between names alone: the name, or an object whose one member has that name and no
value. -/
def asName (source : Source) (names : List String) : Json → Except Fault String
  | .string (some name) => if names.contains name then .ok name else .error .unfit
  | .string none => .error .malformed
  | .object [(some name, value)] => do
    source.enter
    if !names.contains name then .error .unfit
    match source, value with
    | _, .null => .ok name
    | .held, .object [] => .ok name
    | _, value => .error value.misfit
  | .object _ => .error (match source with | .text _ => .malformed | .held => .unfit)
  | j => match source with
    | .text _ => .error .malformed
    | .held => .error j.misfit

end WalletHub.Json
