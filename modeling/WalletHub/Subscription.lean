import WalletHub.Board
import WalletHub.Stream.Throttle
import WalletHub.Tracker.Monitor
import WalletHub.Wallet.Order

/-!
# Subscriptions

A subscription is a stream of one topic. It does nothing until it is polled. Most begin with a seed:
what was published last on the channel of the topic, or else what the hub's system says. Some pass
on only what concerns them, and some only what differs from the item before.

When the hub is gone a stream ends as soon as its channel is closed and everything published on it
has been seen. A channel is closed when nobody holds it: not the hub, and no subscription that was
not polled yet.

## The model

* `Topic`, `Item`: what one can subscribe to, and what is given.
* `View`: what a subscription can see when it is polled: the time, the channels, the system of the hub, the
  provider and the tracker; and which channels are held by others, by which it finds the end.
* `Feed.pollWallets` and its like: the streams of the channels, each with its seed and what it passes over.
* `SyncFeed`: the stream of progress, which first waits for its wallet where nothing was published for the code.
* `Subscription`, `Subscription.create`, `Subscription.poll`: all kinds together. The state of each is what its
  stream remembers, so that a subscription depends on nothing else than this and the view.
* `Subscription.drain`: polls until there is no item, or a number of times.
* `Subscription.holds`: the channels that a subscription holds, until its first poll.
-/

namespace WalletHub

/-- What a consumer can subscribe to. -/
inductive Topic where
  | system
  | account
  /-- The wallets, whenever their codes change; only the enabled ones, if asked for. -/
  | wallets (enabledOnly : Bool)
  | wallet (code : String)
  /-- The codes of the wallets, whenever they change. -/
  | codes
  /-- The progress of synchronisation. -/
  | sync (code : String)
  | transfers (code : String)
  | transfer (code hash : String)
  /-- All updates of transfers. -/
  | updates (code : String)
  /-- The enabled ids. -/
  | enabled
  /-- The tracked ids. -/
  | tracked
  deriving DecidableEq, Repr

/-- The topic belongs to a hub. -/
def Topic.needsHub : Topic → Bool
  | .enabled | .tracked => false
  | _ => true

/-- An item of a subscription. -/
inductive Item where
  | system (uid : String)
  | account (a : Account)
  | wallets (ws : List Wallet)
  | wallet (w : Wallet)
  | codes (codes : List String)
  | sync (s : SyncState)
  | transfers (ts : List Transfer)
  | transfer (t : Transfer)
  | ids (ids : List String)
  deriving Repr

/-- The name of a channel of a hub, codes folded. -/
inductive ChannelName where
  | system
  | account
  | wallets
  | sync (key : String)
  | transfers (key : String)
  | updates (key : String)
  deriving DecidableEq, Repr

/-- What can be seen at a poll. -/
structure View where
  /-- The time in milliseconds. -/
  now : Nat
  /-- The hub is there, and may publish more. -/
  hubAlive : Bool
  /-- The channels that other subscriptions hold, whether or not the hub is there. -/
  held : List ChannelName
  board : Board
  /-- The account and the wallets of the hub's system. -/
  live : Option (Account × List Wallet)
  provider : Provider
  tracker : Tracker
  deriving Repr

namespace View

/-- A channel stays open as long as its hub is there or someone holds it. -/
def alive (v : View) (c : ChannelName) : Bool := v.hubAlive || v.held.contains c

/-- The wallet of a code in the hub's system. -/
def wallet? (v : View) (code : String) : Option Wallet :=
  v.live.bind fun (_, wallets) => Wallet.find? wallets code

end View

/-! ### Distinct items -/

/-- Drops an item whose key is the same as the key `last` of the item before. -/
def Poll.distinct {α κ : Type} (alive : Bool) (same : κ → κ → Bool) (key : α → κ) (last : Option κ) :
    Poll α → Poll α × Option κ
  | .item a =>
    if last.any fun k => same k (key a) then (.rest alive, last) else (.item a, some (key a))
  | .pending => (.pending, last)
  | .ended => (.ended, last)

/-! ### The streams of a hub -/

namespace Feed

/-- The channels, if the feed was not polled yet. -/
def ifFresh (f : Feed) (channels : List ChannelName) : List ChannelName :=
  if f.throttle.isNone then channels else []

/-- Polls the list of wallets. -/
def pollWallets (v : View) (f : Feed) : Poll (List Wallet) × Feed :=
  f.poll v.now (v.alive .wallets) v.board.wallets (v.board.wallets.latest.or (v.live.map Prod.snd))

/-- Polls the wallet of a code. Lists without such a wallet are passed over. -/
def pollWallet (code : String) (v : View) (f : Feed) : Poll Wallet × Feed :=
  let (answer, f) := f.pollWallets v
  (answer.pick (v.alive .wallets) fun wallets => Wallet.find? wallets code, f)

/-- Polls the transfers of a wallet. -/
def pollTransfers (code : String) (v : View) (f : Feed) : Poll (List Transfer) × Feed :=
  let channel := v.board.transfers.get code
  let alive := v.alive (.transfers (Currency.key code))
  f.poll v.now alive channel (channel.latest.or ((v.wallet? code).map Wallet.transfers))

/-- Polls one transfer. The seed is the transfer that the wallet has; only when it has none of the
hash, or several, what was published last is taken. -/
def pollTransfer (code hash : String) (v : View) (f : Feed) : Poll Transfer × Feed :=
  let channel := v.board.updates.get code
  let keep (t : Transfer) : Option Transfer := if t.hash = hash then some t else none
  let live := (v.wallet? code).bind fun w => w.transfer? hash
  let alive := v.alive (.updates (Currency.key code))
  let (answer, f) := f.poll v.now alive channel (live.or (channel.latest.bind keep))
  (answer.pick alive keep, f)

/-- Polls the updates of all transfers of a wallet. -/
def pollUpdates (code : String) (v : View) (f : Feed) : Poll Transfer × Feed :=
  let channel := v.board.updates.get code
  f.poll v.now (v.alive (.updates (Currency.key code))) channel channel.latest

end Feed

/-- A stream of progress. Where nothing was published at the first poll it waits for the wallet, and
its seed is then what the wallet's state says; what is published in the meantime comes later. -/
structure SyncFeed where
  feed : Feed
  /-- The wallet that is waited for. -/
  waiting : Option Feed
  deriving DecidableEq, Repr

namespace SyncFeed

/-- A stream of progress that was not polled yet. -/
def fresh (period : Nat) : SyncFeed := ⟨.fresh period, some (.fresh period)⟩

/-- Goes on with the channel. -/
def pollChannel (code : String) (v : View) (f : Feed) : Poll SyncState × SyncFeed :=
  let alive := v.alive (.sync (Currency.key code))
  let (answer, f) := f.poll v.now alive (v.board.sync.get code) none
  (answer, ⟨f, none⟩)

/-- Asks for the next item of a stream that reads the channel already. -/
def pollOn (code : String) (v : View) (s : SyncFeed) : Poll SyncState × SyncFeed :=
  match s.waiting with
  | none => pollChannel code v s.feed
  | some wallet => match wallet.pollWallet code v with
    | (.item w, _) => (.item (.initial code w.isSyncing), ⟨s.feed, none⟩)
    | (.pending, wallet) => (.pending, ⟨s.feed, some wallet⟩)
    | (.ended, _) => pollChannel code v s.feed

/-- Asks for the next item. -/
def poll (code : String) (v : View) (s : SyncFeed) : Poll SyncState × SyncFeed :=
  match s.feed.throttle with
  | some _ => s.pollOn code v
  | none =>
    let channel := v.board.sync.get code
    let feed := { s.feed with throttle := some (.subscribe channel) }
    match channel.latest with
    | some published => (.item published, ⟨feed, none⟩)
    | none => SyncFeed.pollOn code v ⟨feed, s.waiting⟩

end SyncFeed

/-! ### Subscriptions -/

/-- A stream of a topic, and how far it has come. -/
inductive Subscription where
  | system (feed : Feed)
  | account (feed : Feed)
  | wallets (enabledOnly : Bool) (feed : Feed) (last : Option (List String))
  | wallet (code : String) (feed : Feed)
  | codes (feed : Feed) (last : Option (List String))
  | sync (code : String) (feed : SyncFeed) (last : Option SyncState)
  | transfers (code : String) (feed : Feed)
  | transfer (code hash : String) (feed : Feed)
  | updates (code : String) (feed : Feed)
  | enabled (seen : Option Nat)
  | tracked (monitor : Monitor)
  deriving Repr

namespace Subscription

/-- A new subscription, with the two periods of the hub. -/
def create (period transferPeriod : Nat) : Topic → Subscription
  | .system => .system (.fresh period)
  | .account => .account (.fresh period)
  | .wallets enabledOnly => .wallets enabledOnly (.fresh period) none
  | .wallet code => .wallet code (.fresh period)
  | .codes => .codes (.fresh period) none
  | .sync code => .sync code (.fresh period) none
  | .transfers code => .transfers code (.fresh transferPeriod)
  | .transfer code hash => .transfer code hash (.fresh transferPeriod)
  | .updates code => .updates code (.fresh transferPeriod)
  | .enabled => .enabled none
  | .tracked => .tracked .start

/-- The channels that a subscription holds until it is polled for the first time. -/
def holds : Subscription → List ChannelName
  | .system feed => feed.ifFresh [.system]
  | .account feed => feed.ifFresh [.account]
  | .wallets _ feed _ | .wallet _ feed | .codes feed _ => feed.ifFresh [.wallets]
  | .sync code s _ => s.feed.ifFresh [.sync (Currency.key code), .wallets]
  | .transfers code feed => feed.ifFresh [.transfers (Currency.key code)]
  | .transfer code _ feed | .updates code feed => feed.ifFresh [.updates (Currency.key code)]
  | .enabled _ | .tracked _ => []

/-- Asks for the next item. -/
def poll (v : View) : Subscription → Poll Item × Subscription
  | .system feed =>
    let seed := v.board.system.latest.or (v.live.map fun (a, _) => ⟨a⟩)
    let (answer, feed) := feed.poll v.now (v.alive .system) v.board.system seed
    (answer.map fun h => .system h.account.uid, .system feed)
  | .account feed =>
    let seed := v.board.account.latest.or (v.live.map Prod.fst)
    let (answer, feed) := feed.poll v.now (v.alive .account) v.board.account seed
    (answer.map .account, .account feed)
  | .wallets enabledOnly feed last =>
    let (answer, feed) := feed.pollWallets v
    let kept (wallets : List Wallet) : List Wallet :=
      if enabledOnly then Wallet.keepListed wallets v.provider.ids else wallets
    let codes (wallets : List Wallet) : List String := wallets.map Wallet.code
    let (answer, last) :=
      (answer.map kept).distinct (v.alive .wallets) (fun a b => a == b) codes last
    (answer.map .wallets, .wallets enabledOnly feed last)
  | .wallet code feed =>
    let (answer, feed) := feed.pollWallet code v
    (answer.map .wallet, .wallet code feed)
  | .codes feed last =>
    let (answer, feed) := feed.pollWallets v
    let codes := answer.map fun wallets => wallets.map Wallet.code
    let (answer, last) := codes.distinct (v.alive .wallets) (fun a b => a == b) id last
    (answer.map .codes, .codes feed last)
  | .sync code feed last =>
    let (answer, feed) := feed.poll code v
    let alive := v.alive (.sync (Currency.key code))
    let (answer, last) := answer.distinct alive SyncState.same id last
    (answer.map .sync, .sync code feed last)
  | .transfers code feed =>
    let (answer, feed) := feed.pollTransfers code v
    (answer.map .transfers, .transfers code feed)
  | .transfer code hash feed =>
    let (answer, feed) := feed.pollTransfer code hash v
    (answer.map .transfer, .transfer code hash feed)
  | .updates code feed =>
    let (answer, feed) := feed.pollUpdates code v
    (answer.map .transfer, .updates code feed)
  | .enabled seen => match v.provider.enabled.read seen with
    | (some ids, seen) => (.item (.ids ids), .enabled seen)
    | (none, seen) => (.pending, .enabled seen)
  | .tracked monitor =>
    let (answer, monitor) := monitor.poll v.provider v.tracker
    (answer.map .ids, .tracked monitor)

/-- Asks for items until there is none, at most `count` times. The answer of the last poll that gave
no item is none if there was no such poll. -/
def drain (v : View) : Nat → Subscription → List Item × Option (Poll Item) × Subscription
  | 0, s => ([], none, s)
  | count + 1, s => match s.poll v with
    | (.item i, s) =>
      let (items, stop, s) := drain v count s
      (i :: items, stop, s)
    | (stop, s) => ([], some stop, s)

end Subscription

end WalletHub
