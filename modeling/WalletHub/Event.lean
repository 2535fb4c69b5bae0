import WalletHub.Wallet

/-!
# Events of the wallet system

The wallet system reports on five kinds of things: itself, networks, managers, wallets and single
transfers. A callback is one such report, together with snapshots of the things concerned.

## The model

* `SystemEvent`, `NetworkEvent`, `ManagerEvent`, `WalletEvent`, `TransferEvent`: the events, one type for each
  kind of thing. Events that the hub does nothing with are there too, since listeners are told of all.
* `SystemEvent.name` and its like: the names in texts.
* `Callback`: an event with snapshots of the manager, the wallet and the transfer that it is about, as they were
  when the event was lined up. What is true when the callback is delivered may be something else.
* `Callback.label`, `Callback.family`: the callback in short, and the kind of thing that it reports on.
-/

namespace WalletHub

/-- What happened to the system as a whole. -/
inductive SystemEvent where
  | created
  | deleted
  | networkAdded (network : Network)
  | managerAdded (manager : Manager)
  | discoveredNetworks (networks : List Network)
  deriving DecidableEq, Repr

/-- What happened to a network. -/
inductive NetworkEvent where
  | created
  | feesUpdated
  deriving DecidableEq, Repr

/-- What happened to a manager. -/
inductive ManagerEvent where
  | created
  | deleted
  | changed (oldState newState : ManagerState)
  | walletAdded (currency : Currency)
  | walletChanged (currency : Currency)
  | walletDeleted (currency : Currency)
  | syncStarted
  /-- So many percent are done, up to a block of this time. -/
  | syncProgress (timestamp : Option Instant) (percent : Single)
  | syncStopped (reason : String)
  | syncRecommended
  | blockUpdated (height : UInt64)
  deriving DecidableEq, Repr

/-- What happened to a wallet. -/
inductive WalletEvent where
  | created
  | deleted
  | balanceUpdated (amount : Decimal)
  | feeBasisUpdated
  | transferAdded (transfer : Transfer)
  | transferChanged (transfer : Transfer)
  | transferSubmitted (transfer : Transfer)
  | transferDeleted (transfer : Transfer)
  deriving Repr

/-- What happened to a transfer. -/
inductive TransferEvent where
  | created
  | changed (oldState newState : TransferState)
  | deleted
  deriving DecidableEq, Repr

/-! ### Names -/

/-- The name of the event. -/
def SystemEvent.name : SystemEvent → String
  | .created => "created"
  | .deleted => "deleted"
  | .networkAdded _ => "network_added"
  | .managerAdded _ => "manager_added"
  | .discoveredNetworks _ => "discovered_networks"

@[inherit_doc SystemEvent.name]
def NetworkEvent.name : NetworkEvent → String
  | .created => "created"
  | .feesUpdated => "fees_updated"

@[inherit_doc SystemEvent.name]
def ManagerEvent.name : ManagerEvent → String
  | .created => "created"
  | .deleted => "deleted"
  | .changed .. => "changed"
  | .walletAdded _ => "wallet_added"
  | .walletChanged _ => "wallet_changed"
  | .walletDeleted _ => "wallet_deleted"
  | .syncStarted => "sync_started"
  | .syncProgress .. => "sync_progress"
  | .syncStopped _ => "sync_stopped"
  | .syncRecommended => "sync_recommended"
  | .blockUpdated _ => "block_updated"

@[inherit_doc SystemEvent.name]
def WalletEvent.name : WalletEvent → String
  | .created => "created"
  | .deleted => "deleted"
  | .balanceUpdated _ => "balance_updated"
  | .feeBasisUpdated => "fee_basis_updated"
  | .transferAdded _ => "transfer_added"
  | .transferChanged _ => "transfer_changed"
  | .transferSubmitted _ => "transfer_submitted"
  | .transferDeleted _ => "transfer_deleted"

@[inherit_doc SystemEvent.name]
def TransferEvent.name : TransferEvent → String
  | .created => "created"
  | .changed .. => "changed"
  | .deleted => "deleted"

/-- The transfer that a wallet event carries. -/
def WalletEvent.transfer? : WalletEvent → Option Transfer
  | .transferAdded t | .transferChanged t | .transferSubmitted t | .transferDeleted t => some t
  | .created | .deleted | .balanceUpdated _ | .feeBasisUpdated => none

/-! ### Callbacks -/

/-- The kinds of things that callbacks report on. -/
inductive Family where
  | system
  | network
  | manager
  | wallet
  | transfer
  deriving DecidableEq, Repr

/-- The name of a family. -/
def Family.name : Family → String
  | .system => "system"
  | .network => "network"
  | .manager => "manager"
  | .wallet => "wallet"
  | .transfer => "transfer"

/-- One report of the wallet system. -/
inductive Callback where
  | system (event : SystemEvent)
  | network (network : Network) (event : NetworkEvent)
  | manager (manager : Manager) (event : ManagerEvent)
  | wallet (manager : Manager) (wallet : Wallet) (event : WalletEvent)
  | transfer (manager : Manager) (wallet : Wallet) (transfer : Transfer) (event : TransferEvent)
  deriving Repr

/-- The callback in short: what it reports on, which one of them, and the event. -/
def Callback.label : Callback → String
  | .system event => "system:" ++ event.name
  | .network n event => "network:" ++ n.name ++ ":" ++ event.name
  | .manager m event => "manager:" ++ m.currency.code ++ ":" ++ event.name
  | .wallet _ w event => "wallet:" ++ w.code ++ ":" ++ event.name
  | .transfer _ _ t event => "transfer:" ++ t.hash ++ ":" ++ event.name

/-- What the callback reports on. -/
def Callback.family : Callback → Family
  | .system _ => .system
  | .network .. => .network
  | .manager .. => .manager
  | .wallet .. => .wallet
  | .transfer .. => .transfer

end WalletHub
