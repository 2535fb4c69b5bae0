import WalletHub.Currency
import WalletHub.Transfer

/-!
# Wallets and their managers

A wallet holds the balance and the transfers of one currency; its manager keeps the connection to
the network. The list of transfers keeps the order in which their hashes were first entered.

## The model

* `ManagerState`, `Manager`: the states of a manager, one of which is catching up (`ManagerState.isSyncing`).
* `Wallet`, `Wallet.create`: a wallet, with the state of its manager beside it.
* `Wallet.find?`: the first wallet of a code.
* `Wallet.transfer?`: the transfer of a hash if there is exactly one, while `Wallet.enter` and `Wallet.remove`
  take the first of several. Where no two transfers have a hash this makes no difference
  (`WalletHub.Proofs.Wallet.Transfers`).
-/

namespace WalletHub

/-- What the manager of a wallet is doing. -/
inductive ManagerState where
  | created
  | disconnected (reason : String)
  | connected
  | syncing
  | deleted
  deriving DecidableEq, Repr

/-- The manager is catching up with the chain. -/
def ManagerState.isSyncing : ManagerState → Bool
  | .syncing => true
  | _ => false

/-- The manager of one currency's wallet. -/
structure Manager where
  currency : Currency
  /-- The name of the network. -/
  network : String
  state : ManagerState
  deriving DecidableEq, Repr

/-- A wallet, as it is at one time. -/
structure Wallet where
  currency : Currency
  balance : Decimal
  managerState : ManagerState
  transfers : List Transfer
  deriving Repr

namespace Wallet

/-- A new wallet without balance and transfers. -/
def create (currency : Currency) : Wallet := ⟨currency, .zero, .created, []⟩

/-- The code of the wallet's currency. -/
def code (w : Wallet) : String := w.currency.code

/-- The identifier of the wallet's currency. -/
def id (w : Wallet) : String := w.currency.id

/-- The wallet's manager is catching up with the chain. -/
def isSyncing (w : Wallet) : Bool := w.managerState.isSyncing

/-- The wallet of a currency code, the first if there are several. -/
def find? (wallets : List Wallet) (code : String) : Option Wallet :=
  wallets.find? fun w => w.currency.hasCode code

/-! ### Transfers by hash -/

/-- The transfer with a hash, if exactly one has it. -/
def transfer? (w : Wallet) (hash : String) : Option Transfer :=
  match w.transfers.filter fun t => t.hash == hash with
  | [t] => some t
  | _ => none

/-- The list with the first transfer of the same hash replaced, or with the transfer at its end. -/
def enter (t : Transfer) : List Transfer → List Transfer
  | [] => [t]
  | u :: us => if u.hash = t.hash then t :: us else u :: enter t us

/-- Enters a transfer: in the place of the first with the same hash, or else at the end. -/
def upsert (w : Wallet) (t : Transfer) : Wallet := { w with transfers := enter t w.transfers }

/-- Adds a transfer at the end, whatever its hash. -/
def push (w : Wallet) (t : Transfer) : Wallet := { w with transfers := w.transfers ++ [t] }

/-- The first transfer with a hash, and the wallet without it. -/
def remove (w : Wallet) (hash : String) : Option Transfer × Wallet :=
  (w.transfers.find? fun t => t.hash == hash,
    { w with transfers := w.transfers.eraseP fun t => t.hash == hash })

end Wallet

end WalletHub
