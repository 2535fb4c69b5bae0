import WalletHub.Stream.Watch

/-!
# Throttled channels

A throttle gives the values published on a channel, but leaves at least a period between two of
them: the first comes at once, and of those published during a period only the newest comes, when
the period is over. A feed is a stream of a hub: it begins with a seed, the best value known when
it is first polled, and goes on with a throttle. The seed does not begin a period.

`Throttle.poll_after_item` says that nothing is left right after an item, and `Throttle.poll_due`
that what was published before a pause is not lost.

## The model

* `Throttle`, `Throttle.Phase`: what a throttle remembers: the version that it has seen, when it gave its last
  value, and whether it sleeps until a time.
* `Throttle.poll`: one poll. Asked too early, a throttle marks the newest version as seen and goes to sleep; when
  it is asked after that time it gives the newest value there is then.
* `Feed`, `Feed.poll`: a feed subscribes when it is first polled, and begins with the seed of that moment.

How a throttle answers over its whole life is told in `WalletHub.Proofs.Stream.Pacing`, without its sleep.
-/

namespace WalletHub

/-- Whether a throttle is holding something back. -/
inductive Throttle.Phase where
  | idle
  /-- Something was published too early and is held back until `wake`. -/
  | sleeping (wake : Nat)
  deriving DecidableEq, Repr

/-- A reader of a channel that gives at most one value per period. Times are in milliseconds. -/
structure Throttle where
  phase : Throttle.Phase
  /-- The version that was seen last. -/
  seen : Nat
  /-- When the last value was given. -/
  last : Option Nat
  deriving DecidableEq, Repr

namespace Throttle

variable {α : Type}

/-- A throttle that gives only what is published from now on. -/
def subscribe (c : Channel α) : Throttle := ⟨.idle, c.version, none⟩

/-- Gives what the channel holds. -/
def emit (now : Nat) (c : Channel α) : Poll α × Throttle :=
  match c.latest with
  | some a => (.item a, ⟨.idle, c.version, some now⟩)
  | none => (.pending, ⟨.idle, c.version, some now⟩)

/-- Asks for the next value at the time `now`; `alive` says whether more can still be published. -/
def poll (period now : Nat) (alive : Bool) (c : Channel α) (t : Throttle) : Poll α × Throttle :=
  match t.phase with
  | .sleeping wake => if wake ≤ now then emit now c else (.pending, t)
  | .idle =>
    if t.seen = c.version then (.rest alive, t)
    else match t.last with
      | none => emit now c
      | some last =>
        if last + period ≤ now then emit now c
        else (.pending, ⟨.sleeping (last + period), c.version, t.last⟩)

/-! ### Laws -/

/-- A poll gives what the channel holds, or it gives nothing. -/
theorem poll_eq_emit_or (period now : Nat) (alive : Bool) (c : Channel α) (t : Throttle) :
    t.poll period now alive c = emit now c ∨ (t.poll period now alive c).1.item? = none := by
  unfold poll
  cases t.phase with
  | sleeping wake => by_cases h : wake ≤ now <;> simp [h, Poll.item?]
  | idle =>
    by_cases hs : t.seen = c.version
    · cases alive <;> simp [hs, Poll.rest, Poll.item?]
    · cases t.last with
      | none => simp [hs]
      | some last => by_cases h : last + period ≤ now <;> simp [hs, h, Poll.item?]

/-- Right after an item there is nothing. -/
theorem poll_after_item (period now : Nat) (alive : Bool) (c : Channel α) (t : Throttle) (a : α)
    (h : (t.poll period now alive c).1 = .item a) :
    ((t.poll period now alive c).2.poll period now alive c).1 = .rest alive := by
  rcases poll_eq_emit_or period now alive c t with he | he
  · rw [he]
    cases hc : c.latest <;> simp [emit, hc, poll]
  · simp [h, Poll.item?] at he

/-- A value that was not seen or is held back comes at a poll that is late enough. -/
theorem poll_due (period now : Nat) (alive : Bool) (c : Channel α) (t : Throttle) (a : α)
    (hc : c.latest = some a) (hidle : t.phase = .idle → t.seen ≠ c.version)
    (hwake : ∀ wake, t.phase = .sleeping wake → wake ≤ now)
    (hlast : ∀ last, t.last = some last → last + period ≤ now) :
    t.poll period now alive c = (.item a, ⟨.idle, c.version, some now⟩) := by
  unfold poll
  cases hp : t.phase with
  | sleeping wake => simp [hwake wake hp, emit, hc]
  | idle => cases hl : t.last with
    | none => simp [hidle hp, emit, hc]
    | some last => simp [hidle hp, hlast last hl, emit, hc]

end Throttle

/-- A stream of a hub: a period, and the throttle since the first poll. -/
structure Feed where
  period : Nat
  throttle : Option Throttle
  deriving DecidableEq, Repr

namespace Feed

variable {α : Type}

/-- A feed that was not polled yet. -/
def fresh (period : Nat) : Feed := ⟨period, none⟩

/-- Asks for the next item. At the first poll the feed begins to read the channel, and gives the
seed, if there is one. -/
def poll (now : Nat) (alive : Bool) (c : Channel α) (seed : Option α) (f : Feed) : Poll α × Feed :=
  match f.throttle with
  | some t =>
    let (answer, t) := t.poll f.period now alive c
    (answer, { f with throttle := some t })
  | none => match seed with
    | some a => (.item a, { f with throttle := some (.subscribe c) })
    | none => (.rest alive, { f with throttle := some (.subscribe c) })

end Feed

end WalletHub
