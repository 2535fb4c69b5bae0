import WalletHub.Account
import WalletHub.Event
import WalletHub.Stream.Channels
import WalletHub.SyncState

/-!
# The channels of a hub

A hub publishes on one channel each for its system, its account and the list of wallets, and for
every currency on one for the progress of synchronisation, one for the list of transfers and one
for the transfer that was updated last. `Board.reconcile` is what an opening publishes, and
`Board.receive` what a callback does.

## The model

* `Board`: six kinds of channel, the last three of them by currency, in any letter case (`Channels`). A channel
  remembers its newest value and how often it was written, and nothing else (`Channel`).
* `Board.refresh`: what an opening does for one wallet. The transfers are published always, the progress only where
  what was published contradicts the wallet (`Board.staleSync`), and the last update only where the wallet has this
  transfer in another form (`Board.staleUpdate`).
* `Board.reconcile`: the whole opening, one wallet after the other, and the list of wallets last.
* `Board.receive`: what a callback publishes. A change of a manager can publish two states of progress
  (`Board.syncOf`), since a manager that begins to catch up anew has ended before.

The channels are a part of the hub that no wallet system knows of. That openings bring all of them up to date is
proved in `WalletHub.Proofs.Hub.Reconciling`, and which of them a callback concerns in
`WalletHub.Proofs.Hub.Callbacks`.
-/

namespace WalletHub

/-- A wallet system, as consumers hold it. -/
structure Handle where
  /-- The account that the system belongs to. -/
  account : Account
  deriving DecidableEq, Repr

/-- The channels of a hub. -/
structure Board where
  system : Channel Handle
  account : Channel Account
  wallets : Channel (List Wallet)
  sync : Channels SyncState
  transfers : Channels (List Transfer)
  updates : Channels Transfer
  deriving Repr

namespace Board

/-- Nothing was published yet. -/
def empty : Board := ⟨.empty, .empty, .empty, .empty, .empty, .empty⟩

/-! ### Single publications -/

/-- Publishes the list of wallets. -/
def offerWallets (wallets : List Wallet) (b : Board) : Board :=
  { b with wallets := b.wallets.offer wallets }

/-- Publishes the progress of a currency. -/
def offerSync (s : SyncState) (b : Board) : Board := { b with sync := b.sync.offer s.code s }

/-- Publishes a transfer, together with the transfers of its wallet. -/
def offerTransfer (w : Wallet) (t : Transfer) (b : Board) : Board :=
  { b with transfers := b.transfers.offer w.code w.transfers, updates := b.updates.offer w.code t }

/-! ### Opening -/

/-- The progress to publish at an opening: published progress that does not agree with the wallet on
whether it is catching up is replaced. -/
def staleSync (b : Board) (w : Wallet) : Option SyncState :=
  match (b.sync.get w.code).latest with
  | some published =>
    if published.syncing = w.isSyncing then none else some (.initial w.code w.isSyncing)
  | none => none

/-- The update to publish at an opening: the transfer that was updated last, if the wallet has it in
another form. -/
def staleUpdate (b : Board) (w : Wallet) : Option Transfer :=
  match (b.updates.get w.code).latest with
  | some published => match w.transfer? published.hash with
    | some current => if current == published then none else some current
    | none => none
  | none => none

/-- Brings the channels of a wallet's currency up to date. -/
def refresh (b : Board) (w : Wallet) : Board :=
  let sync := match b.staleSync w with
    | some s => b.sync.offer w.code s
    | none => b.sync
  let updates := match b.staleUpdate w with
    | some t => b.updates.offer w.code t
    | none => b.updates
  { b with transfers := b.transfers.offer w.code w.transfers, sync := sync, updates := updates }

/-- Brings the channels up to date with a system that has this account and these wallets. -/
def reconcile (account : Account) (wallets : List Wallet) (b : Board) : Board :=
  let b := { b with system := b.system.offer ⟨account⟩, account := b.account.offer account }
  (wallets.foldl refresh b).offerWallets wallets

/-! ### Callbacks -/

/-- What an event of a manager says about progress: a report of progress, the end of catching up, or
its beginning. A manager that begins anew has ended before. -/
def syncOf (code : String) : ManagerEvent → List SyncState
  | .syncProgress time percent => [.progress code percent time]
  | .changed oldState newState =>
    (if oldState.isSyncing then [.completed code] else []) ++
      (if newState.isSyncing then [.started code] else [])
  | .created | .deleted | .walletAdded _ | .walletChanged _ | .walletDeleted _ | .syncStarted
  | .syncStopped _ | .syncRecommended | .blockUpdated _ => []

/-- Publishes what a callback says, where `wallets` are those of the system when it is delivered. -/
def receive (wallets : List Wallet) (b : Board) : Callback → Board
  | .system _ | .network .. => b
  | .manager manager event =>
    (syncOf manager.currency.code event).foldl (fun b s => b.offerSync s) (b.offerWallets wallets)
  | .wallet _ wallet event => match event.transfer? with
    | some t => (b.offerWallets wallets).offerTransfer wallet t
    | none => b.offerWallets wallets
  | .transfer _ wallet t _ => b.offerTransfer wallet t

end Board

end WalletHub
