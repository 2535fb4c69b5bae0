import WalletHub.Stream.Watch
import WalletHub.Text.Fold

/-!
# Enabled wallets

The user enables wallets by their currency ids. The list has no id twice, up to letter case, and
keeps the order and the spelling in which the ids were first given. Whoever watches the list is told
of every list that is set as a whole, and of an id that is enabled or disabled only when the list
changes by it.

## The model

* `Provider`: one cell that can be watched (`Watch`), with the list.
* `Provider.set`, `Provider.enable`, `Provider.disable`: the three things that the user does to it.
* `Provider.lists`: whether an id is on a list, in any spelling.
* `Provider.keepFirst`: the ids of a list without those that repeat one before.

Every subscriber to the enabled ids and every monitor reads the cell for himself. `WalletHub.Proofs.Provider`
proves what the list comes to after any changes, and `WalletHub.Proofs.Subscription.Enabled` what subscribers are
told of it.
-/

namespace WalletHub

/-- The ids that the user has enabled. -/
structure Provider where
  enabled : Watch (List String)
  deriving Repr

namespace Provider

/-- The id is on the list, in any spelling. -/
def lists (ids : List String) (id : String) : Bool := ids.any fun other => Text.sameLetters other id

/-- Adds the ids of a list to `kept`, each at the end, unless it is there already. -/
def keepFirstFrom (kept : List String) : List String → List String
  | [] => kept
  | id :: ids => keepFirstFrom (if lists kept id then kept else kept ++ [id]) ids

/-- The list with only the first of all spellings of an id. -/
def keepFirst (ids : List String) : List String := keepFirstFrom [] ids

/-- A provider that starts with a list. -/
def start (ids : List String) : Provider := ⟨.start (keepFirst ids)⟩

/-- The enabled ids. -/
def ids (p : Provider) : List String := p.enabled.value

/-- Replaces the list. -/
def set (ids : List String) (p : Provider) : Provider := ⟨p.enabled.publish (keepFirst ids)⟩

/-- Adds an id at the end, unless it is enabled. -/
def enable (id : String) (p : Provider) : Provider :=
  if lists p.ids id then p else ⟨p.enabled.publish (p.ids ++ [id])⟩

/-- Takes an id off the list, if it is enabled. -/
def disable (id : String) (p : Provider) : Provider :=
  if lists p.ids id then
    ⟨p.enabled.publish (p.ids.filter fun other => !Text.sameLetters other id)⟩
  else p

/-- An id is on a list exactly when its folded form is among those of the list. -/
theorem lists_iff (ids : List String) (id : String) :
    lists ids id = true ↔ Text.fold id ∈ ids.map Text.fold := by
  simp [lists, Text.sameLetters_iff_fold_eq]

end Provider

end WalletHub
