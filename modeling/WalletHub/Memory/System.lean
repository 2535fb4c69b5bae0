import WalletHub.Memory.Store

/-!
# A wallet system in memory

A wallet system without networks, whose wallets change by commands. Every command that changes
something lines up one job of callbacks with the snapshots of the moment, so that the callbacks
tell all that happened, in order. A command on a wallet or transfer that is not there fails and
changes nothing.

## The model

* `MemorySystem`, `MemorySystem.create`: a system, and a new one with the stored wallets and those of the seeds.
* `alter`, `changeWallet`: the change of one wallet. The wallet is handed to the change and taken back together
  with the result, also where the change fails, so that a failure could leave something behind; that it does not
  is proved (`WalletHub.Proofs.Memory.Incidents`).
* `addWallet`, `removeWallet`, and the other commands, gathered in `Command` and `carryOut`. `run` forgets the
  system of a command that fails.
* `connect`, `disconnect`, `store`: connecting moves all managers, and disconnecting stores the wallets after
  that.
* `MemoryFactory`: creates such systems, with wallets for its seeds, or fails once when it is told to.

The clock is a parameter of the commands, and jobs are delivered by the world around (`WalletHub.World`).
-/

namespace WalletHub

/-- A wallet system in memory. -/
structure MemorySystem where
  account : Account
  mainnet : Bool
  /-- The file of stored wallets. -/
  file : String
  wallets : List Wallet
  networks : List Network
  /-- The currencies of the last configuration. -/
  configured : List Currency
  connected : Bool
  configureCount : Nat
  connectCount : Nat
  disconnectCount : Nat
  /-- The jobs that wait for delivery. -/
  queue : List Job
  deriving Repr

namespace MemorySystem

/-- Adds a wallet for a currency, unless one has its code. -/
def seed (wallets : List Wallet) (currency : Currency) : List Wallet :=
  match Wallet.find? wallets currency.code with
  | some _ => wallets
  | none => wallets ++ [.create currency]

/-- A new system, with the stored wallets and then those of the seeds. -/
def create (params : SystemParams) (seeds : List Currency) (d : Disk) :
    Except RuntimeError (Created MemorySystem) :=
  let file := StoredWallets.file params.directory
  match StoredWallets.load file params.account.uid d with
  | .error e => .error e
  | .ok (stored, log) => .ok
    ⟨⟨params.account, params.mainnet, file, seeds.foldl seed stored, [], [], false, 0, 0, 0, []⟩,
      log⟩

/-! ### Callbacks -/

/-- The name of the network on which the managers are. -/
def networkName (s : MemorySystem) : String := if s.mainnet then "mainnet" else "testnet"

/-- The manager of a wallet. -/
def manager (s : MemorySystem) (w : Wallet) : Manager := ⟨w.currency, s.networkName, w.managerState⟩

/-- Lines up a job. -/
def notify (s : MemorySystem) (job : Job) : MemorySystem := { s with queue := s.queue ++ [job] }

/-! ### Changing one wallet -/

/-- Changes the first wallet of a code. The change leaves a wallet also where it fails. -/
def alter {α : Type} (code : String) (change : Wallet → Except RuntimeError α × Wallet) :
    List Wallet → Except RuntimeError α × List Wallet
  | [] => (.error (.unknownWallet code), [])
  | w :: ws =>
    if w.currency.hasCode code then
      let (result, w) := change w
      (result, w :: ws)
    else
      let (result, ws) := alter code change ws
      (result, w :: ws)

/-- Changes the first wallet of a code and lines up the job that tells of it. The job is made from
the wallet after the change, its manager, and what the change says about itself. -/
def changeWallet {α : Type} (code : String) (change : Wallet → Except RuntimeError α × Wallet)
    (job : Manager → Wallet → α → Job) (s : MemorySystem) : Except RuntimeError Unit × MemorySystem :=
  let tell (w : Wallet) : Except RuntimeError Job × Wallet :=
    match change w with
    | (.ok a, w) => (.ok (job (s.manager w) w a), w)
    | (.error e, w) => (.error e, w)
  match alter code tell s.wallets with
  | (.ok job, wallets) => (.ok (), { s with wallets := wallets }.notify job)
  | (.error e, wallets) => (.error e, { s with wallets := wallets })

/-- The job of a transfer that was created, changed or deleted. -/
def transferJob (m : Manager) (w : Wallet) : Transfer × TransferEvent × WalletEvent → Job
  | (t, transferEvent, walletEvent) => [.transfer m w t transferEvent, .wallet m w walletEvent]

/-! ### Commands -/

/-- Adds a wallet for a currency, unless one has its code. -/
def addWallet (currency : Currency) (s : MemorySystem) : MemorySystem :=
  match Wallet.find? s.wallets currency.code with
  | some _ => s
  | none =>
    let state := if s.connected then ManagerState.connected else .created
    let w := { Wallet.create currency with managerState := state }
    let m := s.manager w
    { s with wallets := s.wallets ++ [w] }.notify
      [.system (.managerAdded m), .manager m .created, .wallet m w .created,
        .manager m (.walletAdded currency)]

/-- Removes the first wallet of a code, and its manager. -/
def removeWallet (code : String) (s : MemorySystem) : Except RuntimeError Unit × MemorySystem :=
  match Wallet.find? s.wallets code with
  | none => (.error (.unknownWallet code), s)
  | some w =>
    let m := { s.manager w with state := .deleted }
    (.ok (), { s with wallets := s.wallets.eraseP fun w => w.currency.hasCode code }.notify
      [.wallet m w .deleted, .manager m (.walletDeleted w.currency), .manager m .deleted])

/-- Sets the balance of a wallet. -/
def updateBalance (code : String) (amount : Decimal) (s : MemorySystem) :
    Except RuntimeError Unit × MemorySystem :=
  s.changeWallet code (fun w => (.ok (), { w with balance := amount }))
    fun m w _ => [.wallet m w (.balanceUpdated amount)]

/-- Enters a transfer that the user has just sent off. -/
def submitTransfer (code : String) (t : Transfer) (s : MemorySystem) :
    Except RuntimeError Unit × MemorySystem :=
  let t := { t with state := .submitted }
  s.changeWallet code (fun w => (.ok (), w.upsert t)) fun m w _ => [.wallet m w (.transferSubmitted t)]

/-- Enters a transfer that was found on the chain. -/
def addTransfer (code : String) (t : Transfer) (s : MemorySystem) :
    Except RuntimeError Unit × MemorySystem :=
  s.changeWallet code (fun w => (.ok (t, .created, .transferAdded t), w.upsert t)) transferJob

/-- Moves a transfer to another state, at the instant `now`. -/
def changeTransfer (code hash : String) (state : TransferState) (now : Instant)
    (s : MemorySystem) : Except RuntimeError Unit × MemorySystem :=
  let change (w : Wallet) := match w.transfers.find? fun t => t.hash == hash with
    | none => (.error (.unknownTransfer code hash), w)
    | some old =>
      let t := old.moveTo state now
      (.ok (t, TransferEvent.changed old.state state, WalletEvent.transferChanged t), w.upsert t)
  s.changeWallet code change transferJob

/-- Deletes a transfer. -/
def deleteTransfer (code hash : String) (s : MemorySystem) : Except RuntimeError Unit × MemorySystem :=
  let change (w : Wallet) := match w.remove hash with
    | (none, w) => (.error (.unknownTransfer code hash), w)
    | (some t, w) =>
      let t := { t with state := .deleted }
      (.ok (t, TransferEvent.deleted, WalletEvent.transferDeleted t), w)
  s.changeWallet code change transferJob

/-- Moves the manager of a wallet to a state, the one it is in or another. -/
def setManagerState (code : String) (state : ManagerState) (s : MemorySystem) :
    Except RuntimeError Unit × MemorySystem :=
  s.changeWallet code (fun w => (.ok w.managerState, { w with managerState := state }))
    fun m _ old => [.manager m (.changed old state)]

/-- Reports how far a wallet has caught up. -/
def syncProgress (code : String) (percent : Single) (time : Option Instant) (s : MemorySystem) :
    Except RuntimeError Unit × MemorySystem :=
  s.changeWallet code (fun w => (.ok (), w)) fun m _ _ => [.manager m (.syncProgress time percent)]

/-- Announces a network. -/
def announceNetwork (network : Network) (s : MemorySystem) : MemorySystem :=
  { s with networks := s.networks ++ [network] }.notify
    [.network network .created, .system (.networkAdded network)]

/-- Tells the system which currencies are in use; those without a wallet get one. -/
def configure (currencies : List Currency) (s : MemorySystem) : MemorySystem :=
  currencies.foldl (fun s c => s.addWallet c)
    { s with configureCount := s.configureCount + 1, configured := currencies }

/-! ### Connecting -/

/-- Moves all managers to a state, with a job for each that was in another. -/
def moveAll (state : ManagerState) (s : MemorySystem) : MemorySystem :=
  let moved (w : Wallet) : Wallet := { w with managerState := state }
  let jobs := (s.wallets.filter fun w => w.managerState != state).map fun w =>
    [Callback.manager (s.manager (moved w)) (.changed w.managerState state)]
  { s with wallets := s.wallets.map moved, queue := s.queue ++ jobs }

/-- Connects all managers. -/
def connect (s : MemorySystem) : MemorySystem :=
  moveAll .connected { s with connectCount := s.connectCount + 1, connected := true }

/-- Disconnects all managers. -/
def disconnect (s : MemorySystem) : MemorySystem :=
  moveAll (.disconnected "disconnect requested")
    { s with disconnectCount := s.disconnectCount + 1, connected := false }

/-- Writes the wallets to the file; a failure is reported and changes nothing. -/
def store (d : Disk) (s : MemorySystem) : Disk × List LogEntry :=
  match StoredWallets.save s.file s.account.uid s.wallets d with
  | .ok written => (written, [])
  | .error e => (d, [.notStored e])

instance : WalletSystem MemorySystem where
  account := account
  wallets := wallets
  configure := configure
  connect := connect
  disconnect d s :=
    let s := s.disconnect
    let (d, log) := s.store d
    ⟨s, d, log⟩
  queue := queue
  withQueue jobs s := { s with queue := jobs }

/-- What a user of the system can tell it to do. -/
inductive Command where
  | addWallet (currency : Currency)
  | removeWallet (code : String)
  | updateBalance (code : String) (amount : Decimal)
  | submitTransfer (code : String) (transfer : Transfer)
  | addTransfer (code : String) (transfer : Transfer)
  | changeTransfer (code hash : String) (state : TransferState)
  | deleteTransfer (code hash : String)
  | setManagerState (code : String) (state : ManagerState)
  | syncProgress (code : String) (percent : Single) (time : Option Instant)
  | announceNetwork (network : Network)
  | configure (currencies : List Currency)
  | connect
  | disconnect
  deriving Repr

/-- Carries out a command at the instant `now`, and leaves a system also where it fails. -/
def carryOut (now : Instant) : Command → MemorySystem → Except RuntimeError Unit × MemorySystem
  | .addWallet currency, s => (.ok (), s.addWallet currency)
  | .removeWallet code, s => s.removeWallet code
  | .updateBalance code amount, s => s.updateBalance code amount
  | .submitTransfer code transfer, s => s.submitTransfer code transfer
  | .addTransfer code transfer, s => s.addTransfer code transfer
  | .changeTransfer code hash state, s => s.changeTransfer code hash state now
  | .deleteTransfer code hash, s => s.deleteTransfer code hash
  | .setManagerState code state, s => s.setManagerState code state
  | .syncProgress code percent time, s => s.syncProgress code percent time
  | .announceNetwork network, s => (.ok (), s.announceNetwork network)
  | .configure currencies, s => (.ok (), s.configure currencies)
  | .connect, s => (.ok (), s.connect)
  | .disconnect, s => (.ok (), s.disconnect)

/-- The system after a command that is done at the instant `now`, or the reason why it fails. -/
def run (now : Instant) (c : Command) (s : MemorySystem) : Except RuntimeError MemorySystem :=
  match s.carryOut now c with
  | (.ok (), s) => .ok s
  | (.error e, _) => .error e

end MemorySystem

/-- Creates wallet systems in memory. -/
structure MemoryFactory where
  /-- Currencies that every system has a wallet for. -/
  seeds : List Currency
  /-- How many systems were created. -/
  created : Nat
  /-- The next creation fails with this message. -/
  failure : Option String
  deriving DecidableEq, Repr

namespace MemoryFactory

/-- A factory that has created nothing. -/
def start (seeds : List Currency) : MemoryFactory := ⟨seeds, 0, none⟩

instance : SystemFactory MemoryFactory MemorySystem where
  create params d f :=
    match f.failure with
    | some message => (.error (.injected message), { f with failure := none })
    | none => match MemorySystem.create params f.seeds d with
      | .ok made => (.ok made, { f with created := f.created + 1 })
      | .error e => (.error e, f)

end MemoryFactory

end WalletHub
