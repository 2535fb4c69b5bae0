import WalletHub.Provider
import WalletHub.Tracker

/-!
# Following the tracked wallets

A monitor is a stream of the tracked ids. It reads the enabled and the managed ids, each list when
it is new, and gives the tracked ids whenever they have changed. When both lists are new it turns to
them alternately, and the turn also passes when neither is.

## The model

* `Monitor`: whose turn it is, which version of each list was read and what it had, and the ids given last.
* `Monitor.look`: one look at a list that is new, the one whose turn it is first.
* `Monitor.change`: the ids that follow from what was read, if they are others than those given last.
* `Monitor.poll`: as many looks as can find something new. `Monitor.pollFor` counts them, and
  `WalletHub.Proofs.Tracker.Monitor` proves that there are enough.

A subscription to the tracked ids is a monitor, and the task of an open hub has one of its own.
-/

namespace WalletHub

/-- A stream of the tracked ids. -/
structure Monitor where
  /-- The next look is at the enabled ids first. -/
  enabledFirst : Bool
  /-- The version of the enabled ids that was read. -/
  enabledSeen : Option Nat
  /-- The version of the managed ids that was read. -/
  managedSeen : Option Nat
  enabled : Option (List String)
  managed : Option (List String)
  /-- The tracked ids that were given last. -/
  last : Option (List String)
  deriving DecidableEq, Repr

namespace Monitor

/-- A monitor that was not polled yet. -/
def start : Monitor := ⟨true, none, none, none, none, none⟩

/-- Reads the enabled ids, if they are new. -/
def readEnabled (p : Provider) (m : Monitor) : Option Monitor :=
  match p.enabled.read m.enabledSeen with
  | (some ids, seen) => some { m with enabled := some ids, enabledSeen := seen }
  | (none, _) => none

/-- Reads the managed ids, if they are new. -/
def readManaged (t : Tracker) (m : Monitor) : Option Monitor :=
  match t.managed.read m.managedSeen with
  | (some ids, seen) => some { m with managed := some ids, managedSeen := seen }
  | (none, _) => none

/-- Reads one list that is new, the one whose turn it is before the other. The turn passes. -/
def look (p : Provider) (t : Tracker) (m : Monitor) : Option Monitor × Monitor :=
  let turned := { m with enabledFirst := !m.enabledFirst }
  let found :=
    if m.enabledFirst then (turned.readEnabled p).or (turned.readManaged t)
    else (turned.readManaged t).or (turned.readEnabled p)
  (found, turned)

/-- The tracked ids, once both lists have been read. -/
def tracked (m : Monitor) : Option (List String) :=
  match m.enabled, m.managed with
  | some enabled, some managed => some (Tracker.tracked managed enabled)
  | _, _ => none

/-- Gives the tracked ids if they differ from those given last. -/
def change (m : Monitor) : Option (List String × Monitor) :=
  match m.tracked with
  | some ids => if m.last = some ids then none else some (ids, { m with last := some ids })
  | none => none

/-- Looks again and again, at most `looks` times, until the tracked ids have changed or no list is
new. -/
def pollFor (p : Provider) (t : Tracker) : Nat → Monitor → Poll (List String) × Monitor
  | 0, m => (.pending, m)
  | looks + 1, m => match m.look p t with
    | (none, turned) => (.pending, turned)
    | (some read, _) => match read.change with
      | some (ids, given) => (.item ids, given)
      | none => pollFor p t looks read

/-- Asks for the next item. Each of the two lists can be new once, so three looks are enough. -/
def poll (p : Provider) (t : Tracker) (m : Monitor) : Poll (List String) × Monitor :=
  pollFor p t 3 m

end Monitor

end WalletHub
