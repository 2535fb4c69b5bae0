import WalletHub.Event
import WalletHub.Stream.Watch
import WalletHub.Text.Fold

/-!
# Managed wallets

The tracker learns from callbacks for which currencies the wallet system has a manager. It keeps
their ids folded and in increasing order, and tells whoever watches of every change. A wallet is
tracked when it is both enabled and managed: `tracked` says so for two lists.

## The model

* `Tracker`: one cell that can be watched, with the ids.
* `Tracker.add`, `Tracker.remove`: nobody is told where nothing changes.
* `Tracker.learn`: what is learned of a callback. Callbacks about managers and about the managers of the system
  count; all others say nothing of them.
* `Tracker.tracked`: the managed ids that are enabled, in the order of the managed ones.

The tracker hears of callbacks whether or not the hub is open. `WalletHub.Proofs.Tracker.Exact` says when its ids
are those of the wallets.
-/

namespace WalletHub

/-- The folded ids of the currencies that have a manager. -/
structure Tracker where
  managed : Watch (List String)
  deriving Repr

namespace Tracker

/-- A tracker that has seen no callback. -/
def start : Tracker := ⟨.start []⟩

/-- The folded ids of the currencies that have a manager. -/
def ids (t : Tracker) : List String := t.managed.value

/-- Enters an id into a list in increasing order. -/
def enter (id : String) : List String → List String
  | [] => [id]
  | x :: xs => if id < x then id :: x :: xs else if id = x then x :: xs else x :: enter id xs

/-- A currency has a manager. -/
def add (currencyId : String) (t : Tracker) : Tracker :=
  let id := Text.fold currencyId
  if t.ids.contains id then t else ⟨t.managed.publish (enter id t.ids)⟩

/-- A currency has no manager any more. -/
def remove (currencyId : String) (t : Tracker) : Tracker :=
  let id := Text.fold currencyId
  if t.ids.contains id then ⟨t.managed.publish (t.ids.filter fun x => x != id)⟩ else t

/-- Learns from a callback. Managers that the system had from the start are first heard of by
something that happens to them. -/
def learn : Callback → Tracker → Tracker
  | .system (.managerAdded manager), t => t.add manager.currency.id
  | .manager manager .deleted, t => t.remove manager.currency.id
  | .manager manager _, t => t.add manager.currency.id
  | .system _, t | .network .., t | .wallet .., t | .transfer .., t => t

/-- The managed ids that are enabled. -/
def tracked (managed enabled : List String) : List String :=
  managed.filter fun id => (enabled.map Text.fold).contains id

/-! ### The order of the ids -/

theorem mem_enter (id x : String) (ids : List String) : x ∈ enter id ids ↔ x = id ∨ x ∈ ids := by
  induction ids with
  | nil => simp [enter]
  | cons y ys ih =>
    by_cases h : id < y
    · simp [enter, h]
    · by_cases he : id = y
      · simp [enter, he]
      · simp only [enter, h, he, if_false, List.mem_cons, ih]
        exact or_left_comm

/-- An id is tracked exactly when it is managed and enabled in some spelling. -/
theorem mem_tracked (id : String) (managed enabled : List String) :
    id ∈ tracked managed enabled ↔ id ∈ managed ∧ id ∈ enabled.map Text.fold := by
  simp [tracked, List.mem_filter]

end Tracker

end WalletHub
