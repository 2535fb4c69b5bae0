import WalletHub.Board
import WalletHub.Config
import WalletHub.Tracker.Monitor
import WalletHub.WalletSystem

/-!
# The hub

The hub opens a wallet system for an account, publishes what it learns from the system on its
channels, and closes it again. The system is created by the first opening and kept from then on; all
later openings must be for its account. While the hub is open a task follows the tracked wallets and
publishes the list of wallets whenever they change.

## The model

* `Hub`, `Surroundings`: the state of a hub, over systems of any type, and what is around it: the disk, the
  factory, the calls that systems have received, and the log.
* `Hub.openFor`, `Hub.close`: opening and closing, with the checks in their order and all ways to fail. Both are
  done under the lock of the hub, and so is what the hub does with a callback (`Hub.receive`).
* `Session`, `Errand`, `Errand.step`: the task of an open hub. It waits, or it is on an errand: it polls its
  monitor, is told of a change, reads the wallets, publishes what it has read, and polls again. Each of these is
  one step, because the task takes the lock only to find the system whose wallets it reads. The monitor may break
  off at any poll (`Fuse`).
* `Hub.cancelled`: what a closing does to the task. A task that waits is gone. A task on an errand goes on until
  it would wait, beside whatever the hub does next, and until then it is `leaving`.
* `Hub.stepTask`, `Hub.stepLeaving`: a step of the task, and of one of those that are leaving.
* `Hub.runSession`: the steps of a task from one waiting to the next, with nothing else in between. Runs that
  deliver callbacks and let the task run one after the other take it as a unit.

The hub over all its openings and closings is compared with a reference model in
`WalletHub.Proofs.Hub.Lifecycle`. `WalletHub.Proofs.Hub.Task` puts steps together into runs of the task, and
`WalletHub.Proofs.World.Threads` puts them beside everything else that happens.
-/

namespace WalletHub

/-- What makes the monitor of a task break off. -/
structure Fuse where
  /-- The polls that go well before. -/
  polls : Nat
  reason : String
  deriving DecidableEq, Repr

/-- Where a task stands as long as it does not wait. -/
inductive Stage where
  /-- It is about to poll its monitor. -/
  | asking
  /-- It was told that the tracked wallets have changed. -/
  | told
  /-- It has read the wallets and will publish them. -/
  | holding (wallets : List Wallet)
  deriving Repr

/-- A task that does not wait. -/
structure Errand where
  monitor : Monitor
  fuse : Option Fuse
  stage : Stage
  deriving Repr

/-- The task of an open hub. -/
inductive Session where
  /-- It waits for a change of the tracked wallets. Its monitor may break off later. -/
  | following (monitor : Monitor) (fuse : Option Fuse)
  /-- It is on an errand. -/
  | busy (errand : Errand)
  /-- Its monitor has broken off. -/
  | broken (monitor : Monitor)
  deriving Repr

/-- What becomes of a task by a poll of its monitor. -/
def Session.afterPoll (fuse : Option Fuse) : Poll (List String) × Monitor → Session
  | (.item _, m) => .busy ⟨m, fuse, .told⟩
  | (_, m) => .following m fuse

/-- One step on an errand: what becomes of the task, what it publishes, and what is reported of it.
`wallets` are those of the system at the moment, if there is one. -/
def Errand.step (p : Provider) (t : Tracker) (wallets : Option (List Wallet)) (k : Errand) :
    Session × Option (List Wallet) × List LogEntry :=
  match k.stage with
  | .asking => match k.fuse with
    | none => (.afterPoll none (k.monitor.poll p t), none, [])
    | some ⟨0, reason⟩ => (.broken k.monitor, none, [.taskBroke reason])
    | some ⟨polls + 1, reason⟩ => (.afterPoll (some ⟨polls, reason⟩) (k.monitor.poll p t), none, [])
  | .told => match wallets with
    | some ws => (.busy { k with stage := .holding ws }, none, [])
    | none => (.busy { k with stage := .asking }, none, [])
  | .holding ws => (.busy { k with stage := .asking }, some ws, [])

/-- A hub over systems of the type `σ`. -/
structure Hub (σ : Type) where
  config : Config
  isOpen : Bool
  /-- The system, once there is one. -/
  handle : Option σ
  /-- The task, while the hub is open. -/
  session : Option Session
  board : Board
  /-- Tasks that were cancelled on an errand. Each goes on until it would wait. -/
  leaving : List Errand

/-- What a hub works with. -/
structure Surroundings (φ : Type) where
  disk : Disk
  factory : φ
  /-- What systems were asked for, the oldest first. -/
  calls : List Call
  log : List LogEntry

namespace Surroundings

variable {φ : Type}

/-- Notes a call. -/
def called (call : Call) (e : Surroundings φ) : Surroundings φ :=
  { e with calls := e.calls ++ [call] }

/-- Adds records to the log. -/
def report (log : List LogEntry) (e : Surroundings φ) : Surroundings φ :=
  { e with log := e.log ++ log }

/-- Makes a directory unless something has its path. When that fails, directories above it may have
been made. -/
def ensureDirectory (path : String) (e : Surroundings φ) : Bool × Surroundings φ :=
  if e.disk.exists? path then (true, e)
  else match e.disk.makeDirectories path with
    | .ok disk => (true, { e with disk := disk })
    | .error disk => (false, { e with disk := disk })

end Surroundings

namespace Hub

variable {φ σ : Type} [WalletSystem σ] [SystemFactory φ σ]

/-- A closed hub that was never open. -/
def create (config : Config) : Hub σ := ⟨config, false, none, none, .empty, []⟩

/-! ### Opening and closing -/

/-- Creates a system with the hub's settings. -/
def createSystem (account : Account) (config : Config) (e : Surroundings φ) :
    Except RuntimeError σ × Surroundings φ :=
  match SystemFactory.create ⟨account, config.mainnet, config.storageDirectory⟩ e.disk e.factory with
  | (.error cause, factory) => (.error cause, { e with factory := factory })
  | (.ok made, factory) =>
    (.ok (WalletSystem.configure [] made.system),
      ((({ e with factory := factory }.report made.log).called
        (.create account.uid config.mainnet config.storageDirectory)).called (.configure 0)))

/-- The system that the hub has, or else a new one. -/
def obtain (account : Account) (h : Hub σ) (e : Surroundings φ) :
    Except RuntimeError σ × Surroundings φ :=
  match h.handle with
  | some s => (.ok s, e)
  | none => createSystem account h.config e

/-- Connects a system and publishes what it has. The hub is then open, with the task `session`. -/
def launch (session : Session) (s : σ) (h : Hub σ) : Hub σ :=
  let s := WalletSystem.connect s
  { h with
    isOpen := true
    handle := some s
    session := some session
    board := h.board.reconcile (WalletSystem.account s) (WalletSystem.wallets s) }

/-- Opens the hub for an account. `session` is the task that it will have. -/
def openFor (account : Account) (session : Session) (h : Hub σ) (e : Surroundings φ) :
    Except HubError Unit × Hub σ × Surroundings φ :=
  if h.isOpen then (.error .alreadyOpen, h, e)
  else if account.serialized.isEmpty then (.error .emptyAccount, h, e)
  else match e.ensureDirectory h.config.storageDirectory with
    | (false, e) => (.error (.storageDirectory h.config.storageDirectory Disk.faultMark), h, e)
    | (true, e) => match h.obtain account e with
      | (.error cause, e) => (.error cause.toHub, h, e)
      | (.ok s, e) =>
        if (WalletSystem.account s).isSame account then
          (.ok (), h.launch session s, e.called .connect)
        else (.error .accountMismatch, { h with handle := some s }, e)

/-- The errand that the task is on. -/
def errand? (h : Hub σ) : Option Errand :=
  match h.session with
  | some (.busy k) => some k
  | some (.following ..) | some (.broken _) | none => none

/-- The hub closed, and its task cancelled. A task that waits is gone at once, and one that is on an
errand goes on until it would wait. -/
def cancelled (h : Hub σ) : Hub σ :=
  { h with isOpen := false, session := none, leaving := h.leaving ++ h.errand?.toList }

/-- Closes the hub and disconnects its system, which is kept. -/
def close (h : Hub σ) (e : Surroundings φ) : Except HubError Unit × Hub σ × Surroundings φ :=
  if h.isOpen then
    match h.handle with
    | none => (.ok (), h.cancelled, e)
    | some s =>
      let done := WalletSystem.disconnect e.disk s
      (.ok (), { h.cancelled with handle := some done.system },
        ({ e with disk := done.disk }.report done.log).called .disconnect)
  else (.error .notOpen, h, e)

/-! ### Publishing -/

/-- The wallets of the hub's system. -/
def wallets (h : Hub σ) : List Wallet := (h.handle.map WalletSystem.wallets).getD []

/-- Receives a callback of the hub's system. A closed hub drops it. -/
def receive (callback : Callback) (h : Hub σ) : Hub σ :=
  if h.isOpen then { h with board := h.board.receive h.wallets callback } else h

/-! ### The task -/

/-- Publishes a list of wallets, if there is one. -/
def publish (wallets : Option (List Wallet)) (h : Hub σ) : Hub σ :=
  match wallets with
  | some ws => { h with board := h.board.offerWallets ws }
  | none => h

/-- The task takes a step. One that waits wakes up. -/
def stepTask (p : Provider) (t : Tracker) (h : Hub σ) : Hub σ × List LogEntry :=
  match h.session with
  | some (.following m fuse) => ({ h with session := some (.busy ⟨m, fuse, .asking⟩) }, [])
  | some (.busy k) =>
    let (session, published, log) := k.step p t (h.handle.map WalletSystem.wallets)
    ({ h with session := some session }.publish published, log)
  | some (.broken _) | none => (h, [])

/-- A cancelled task takes a step. It is gone where it would wait. -/
def stepLeaving (p : Provider) (t : Tracker) (i : Nat) (h : Hub σ) : Hub σ × List LogEntry :=
  match h.leaving[i]? with
  | some k =>
    let (session, published, log) := k.step p t (h.handle.map WalletSystem.wallets)
    let leaving := match session with
      | .busy k => h.leaving.set i k
      | .following .. | .broken _ => h.leaving.eraseIdx i
    ({ h with leaving := leaving }.publish published, log)
  | none => (h, [])

/-- The task takes steps until it is on no errand, at most so many. -/
def stepsTask (p : Provider) (t : Tracker) : Nat → Hub σ → Hub σ × List LogEntry
  | 0, h => (h, [])
  | steps + 1, h =>
    let (h, log) := h.stepTask p t
    if h.errand?.isSome then
      let (h, more) := stepsTask p t steps h
      (h, log ++ more)
    else (h, log)

/-- Runs the task, if it waits, until it waits again. Each of the two lists that it reads is new at
most once, so it is told of at most two changes, and eight steps are enough. -/
def runSession (p : Provider) (t : Tracker) (h : Hub σ) : Hub σ × List LogEntry :=
  match h.session with
  | some (.following ..) => h.stepsTask p t 8
  | some (.busy _) | some (.broken _) | none => (h, [])

end Hub

end WalletHub
