import WalletHub.Wallet

/-!
# Wallets in the user's order

The user keeps a list of currency ids. Wallets can be kept to those on the list, or put into its
order: an id that is listed twice counts at its last place, and wallets that are not listed follow
in the order in which they stand.

`Wallet.keepListed` leaves wallets out, and `Wallet.inListedOrder` sorts them by the library's `List.mergeSort`,
with `Wallet.notAfter` for the order: by the last place of the id (`Wallet.lastPlace`), and all wallets without a
place last. The sort is stable, which `WalletHub.Proofs.Wallet.Order` makes part of what the order means.
-/

namespace WalletHub.Wallet

/-- The wallets whose currency id is on the list. -/
def keepListed (wallets : List Wallet) (ids : List String) : List Wallet :=
  wallets.filter fun w => ids.any fun id => w.currency.hasId id

/-- The last place of an id on the list, counted from `index`. -/
def lastPlace (id : String) (index : Nat) : List String → Option Nat
  | [] => none
  | other :: others =>
    (lastPlace id (index + 1) others).or (if Text.fold other = Text.fold id then some index else none)

/-- A wallet stands before another: it is listed, and the other is not or has a later place. -/
def notAfter (ids : List String) (a b : Wallet) : Bool :=
  match lastPlace a.id 0 ids, lastPlace b.id 0 ids with
  | some i, some j => i ≤ j
  | some _, none => true
  | none, some _ => false
  | none, none => true

/-- The wallets in the order of the list, those that are not listed last. -/
def inListedOrder (wallets : List Wallet) (ids : List String) : List Wallet :=
  wallets.mergeSort (notAfter ids)

end WalletHub.Wallet
