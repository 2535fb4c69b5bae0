/-!
# Watched cells

A watched cell holds one value and counts how often it was written, so that a reader who remembers
the count can tell whether it was written since; every write counts, also one of an equal value. A
channel is a watched cell that starts empty. A stream is asked for its next item by polling:
`Poll` is the answer.

## The model

* `Poll`: an item, nothing now, or the end. `Poll.rest` is what is answered where there is no item, by whether
  the sender is still there; `Poll.map` and `Poll.pick` are the stages of streams.
* `Watch`, `Watch.publish`, `Watch.read`: a cell, and how it is written and read. A reader who comes for the
  first time is told the value.
* `Watch.read_publish`, `Watch.read_read`: what was written is read once.
* `Channel`, `Channel.offer`, `Channel.latest`: a cell that starts without a value. Of two values that are
  written before it is read the first one is gone.
-/

namespace WalletHub

/-- The answer of a stream that was asked for its next item. -/
inductive Poll (α : Type) where
  | item (a : α)
  /-- There is none now. -/
  | pending
  /-- There will be none. -/
  | ended
  deriving DecidableEq, Repr

namespace Poll

variable {α β : Type}

/-- The answer of a stream with nothing to give: as long as its source lives, something may come. -/
def rest (alive : Bool) : Poll α := if alive then .pending else .ended

/-- The answer with its item changed. -/
def map (f : α → β) : Poll α → Poll β
  | .item a => .item (f a)
  | .pending => .pending
  | .ended => .ended

/-- The item of an answer. -/
def item? : Poll α → Option α
  | .item a => some a
  | .pending | .ended => none

/-- The answer with its item changed or dropped. Where an item is dropped the stream has nothing
else to give at that instant. -/
def pick (alive : Bool) (f : α → Option β) : Poll α → Poll β
  | .item a => match f a with
    | some b => .item b
    | none => rest alive
  | .pending => .pending
  | .ended => .ended

end Poll

/-- A value that others watch. -/
structure Watch (α : Type) where
  value : α
  /-- How often it was written. -/
  version : Nat
  deriving Repr

namespace Watch

variable {α : Type}

/-- A cell that was never written. -/
def start (a : α) : Watch α := ⟨a, 0⟩

/-- Writes a value. -/
def publish (a : α) (w : Watch α) : Watch α := ⟨a, w.version + 1⟩

/-- Reads for someone who has seen a version or none yet: the value, if it is new to them, and the
version seen afterwards. -/
def read (w : Watch α) (seen : Option Nat) : Option α × Option Nat :=
  if seen = some w.version then (none, seen) else (some w.value, some w.version)

/-- What was just written is new to everyone who had read the cell before. -/
theorem read_publish (w : Watch α) (a : α) (seen : Option Nat)
    (h : ∀ v, seen = some v → v ≤ w.version) :
    ((w.publish a).read seen).1 = some a := by
  have : seen ≠ some (w.version + 1) := fun e => absurd (h _ e) (by omega)
  simp [read, publish, this]

/-- What has been read is not read again. -/
theorem read_read (w : Watch α) (seen : Option Nat) : (w.read (w.read seen).2).1 = none := by
  by_cases h : seen = some w.version <;> simp [read, h]

end Watch

/-- A watched cell that holds nothing until it is written for the first time. -/
abbrev Channel (α : Type) := Watch (Option α)

namespace Channel

variable {α : Type}

/-- A channel on which nothing was published. -/
def empty : Channel α := .start none

/-- Publishes a value. -/
def offer (a : α) (c : Channel α) : Channel α := c.publish (some a)

/-- The newest published value. -/
def latest (c : Channel α) : Option α := c.value

theorem latest_offer (c : Channel α) (a : α) : (c.offer a).latest = some a := rfl

theorem version_offer (c : Channel α) (a : α) : (c.offer a).version = c.version + 1 := rfl

end Channel

end WalletHub
