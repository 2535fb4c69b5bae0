import WalletHub.Memory.System
import WalletHub.Scripted
import WalletHub.World

/-!
# Actions on a run

All that can be done in a run, one `Action` at a time, and what is answered, a `Reply`. Besides what
a hub asks of its systems, a run steers the systems themselves: systems in memory by commands, and
systems by script by the wallets they show and the callbacks that are delivered for them. An action
for another kind of system finds no system. After every action the run settles.

## The model

* `Steering`: how systems of a type are steered, with instances for both kinds.
* `Action`, `Reply`: what can be done, and what can be answered. Errors are answered with all that they say.
* `World.act`: one action, and nothing else.
* `World.step`, `World.run`: one action and all that follows from it, and a list of them, with what is observed
  after each (`Outcome`).

Proofs about all runs do not speak of these: they let single moves follow each other in any order
(`WalletHub.Proofs.World.Moves`), of which the steps here are special cases (`WalletHub.Proofs.World.Steps`).
-/

namespace WalletHub

/-- How a run steers systems of the type `σ` and their factory. -/
class Steering (φ : Type) (σ : outParam Type) where
  /-- Lets the next creation fail. -/
  failNext : String → φ → φ
  /-- How many systems in memory were created. -/
  created : φ → Nat
  /-- The system, if it is one in memory. -/
  memory? : σ → Option MemorySystem
  /-- Changes the system to one in memory, if it is one. -/
  ofMemory : MemorySystem → σ → σ
  /-- The systems work by script. -/
  scripted : φ → Bool
  /-- The factory whose systems show these wallets. -/
  showNext : List Wallet → φ → φ
  /-- The system with these wallets shown, if it works by script. -/
  showNow : List Wallet → σ → σ

instance : Steering MemoryFactory MemorySystem where
  failNext message f := { f with failure := some message }
  created := MemoryFactory.created
  memory? := some
  ofMemory m _ := m
  scripted _ := false
  showNext _ f := f
  showNow _ s := s

instance : Steering ScriptedFactory ScriptedSystem where
  failNext message f := { f with failure := some message }
  created _ := 0
  memory? _ := none
  ofMemory _ s := s
  scripted _ := true
  showNext wallets f := { f with wallets := wallets }
  showNow wallets s := { s with wallets := wallets }

/-- Something done in a run. -/
inductive Action where
  | openHub (account : Account)
  | closeHub
  | askOpen
  | askSystem
  | askConfig
  | dropHub
  | restart (config : Option Config)
  | subscribe (name : String) (topic : Topic)
  | unsubscribe (name : String)
  | next (name : String)
  | drain (name : String)
  /-- Lets milliseconds pass. -/
  | advance (ms : Nat)
  | enable (id : String)
  | disable (id : String)
  | setEnabled (ids : List String)
  | askEnabled
  | askManaged
  | arm (trap : Trap)
  | failNext (message : String)
  | askCreated
  | putFile (path : String) (content : Content)
  | putDirectory (path : String)
  | removePath (path : String)
  | askKind (path : String)
  /-- Asks for the text of the file of stored wallets. -/
  | askFile
  /-- Creates a system without a hub. -/
  | create (account : Account) (recorded : Bool)
  | command (command : MemorySystem.Command)
  | askNetworks
  | askConfigured
  | askSnapshot
  | askCounts
  | askStorageFile
  | setWallets (wallets : List Wallet)
  /-- Asks for the calls since they were last asked for. -/
  | askCalls
  /-- Delivers a callback for the last system by script, or to the tracker alone. -/
  | deliver (callback : Callback) (trackerOnly : Bool)
  deriving Repr

/-- What is answered to an action. -/
inductive Reply where
  | nothing
  | ok
  | flag (b : Bool)
  | count (n : Nat)
  | text (s : String)
  | texts (ss : List String)
  | noHub
  | noSystem
  | noStream
  /-- The listener broke off. -/
  | broke
  | hubError (e : HubError)
  | runtimeError (e : RuntimeError)
  | settings (c : Config)
  | snapshot (account : Account) (wallets : List Wallet)
  | wallet (w : Wallet)
  | networks (ns : List Network)
  | currencies (cs : List Currency)
  | counts (connects disconnects configures : Nat) (connected mainnet : Bool)
  | polled (answer : Poll Item)
  /-- The items, and the answer after them, if it was asked for. -/
  | drained (items : List Item) (stop : Option (Poll Item))
  deriving Repr

/-- The most items that are drained at once. -/
def drainLimit : Nat := 20

namespace World

variable {φ σ : Type} [WalletSystem σ] [SystemFactory φ σ] [Steering φ σ]

/-! ### Parts of the run -/

/-- Changes the disk. -/
def onDisk (f : Disk → Disk) (w : World φ σ) : World φ σ :=
  { w with surroundings := { w.surroundings with disk := f w.surroundings.disk } }

/-- Changes the factory. -/
def onFactory (f : φ → φ) (w : World φ σ) : World φ σ :=
  { w with surroundings := { w.surroundings with factory := f w.surroundings.factory } }

/-- The last system, if it is one in memory. -/
def memorySystem? (w : World φ σ) : Option MemorySystem := w.lastSystem.bind (Steering.memory? φ)

/-- Replaces the last system, which is one in memory. -/
def setMemorySystem (m : MemorySystem) (w : World φ σ) : World φ σ :=
  match w.lastSystem with
  | some s => w.setSystem (Steering.ofMemory φ m s)
  | none => w

/-- The answer of an opening or closing. -/
def lifecycleReply : Option (Except HubError Unit) → Reply
  | none => .noHub
  | some (.ok ()) => .ok
  | some (.error e) => .hubError e

/-- Asks the hub. -/
def askHub (f : Hub σ → Reply) (w : World φ σ) : Reply :=
  match w.hub with
  | some h => f h
  | none => .noHub

/-- Asks the last system in memory. -/
def askMemory (f : MemorySystem → Reply) (w : World φ σ) : Reply :=
  match w.memorySystem? with
  | some m => f m
  | none => .noSystem

/-! ### Commands and deliveries -/

/-- Runs a command on the last system in memory. A system that is disconnected stores its
wallets. -/
def runCommand (c : MemorySystem.Command) (w : World φ σ) : Reply × World φ σ :=
  match w.memorySystem? with
  | none => (.noSystem, w)
  | some m => match c with
    | .disconnect =>
      let done := WalletSystem.disconnect w.surroundings.disk m
      (.ok, ((w.setMemorySystem done.system).onDisk fun _ => done.disk).report done.log)
    | .addWallet currency =>
      let m := m.addWallet currency
      (((Wallet.find? m.wallets currency.code).map Reply.wallet).getD .ok, w.setMemorySystem m)
    | c => match m.carryOut w.wall c with
      | (.ok (), m) => (.ok, { w with wall := w.wall.later 1 }.setMemorySystem m)
      | (.error e, m) => (.runtimeError e, w.setMemorySystem m)

/-- The answer to a delivery. -/
def deliveryReply : Except String Unit → Reply
  | .ok () => .ok
  | .error _ => .broke

/-- Delivers a callback from outside. -/
def deliverScripted (callback : Callback) (trackerOnly : Bool) (w : World φ σ) :
    Reply × World φ σ :=
  if trackerOnly then
    let (answer, w) := w.toTracker callback
    (deliveryReply answer, w)
  else if Steering.scripted w.surroundings.factory && w.lastSystem.isSome then
    let (answer, w) := w.deliver callback
    (deliveryReply answer, w)
  else (.noSystem, w)

/-- The calls since they were last asked for, in words. Only systems by script tell. -/
def takeCalls (w : World φ σ) : Reply × World φ σ :=
  let e := w.surroundings
  if Steering.scripted e.factory then
    (.texts (e.calls.map Call.text), { w with surroundings := { e with calls := [] } })
  else (.texts [], w)

/-- What has a path, in a word. -/
def kindOf (d : Disk) (path : String) : String :=
  if d.exists? path then (if d.namesDirectory (Path.pieces path) then "dir" else "file") else "none"

/-! ### Actions -/

/-- Does something, without settling. -/
def act (w : World φ σ) : Action → Reply × World φ σ
  | .openHub account =>
    let (answer, w) := w.openFor account
    (lifecycleReply answer, w)
  | .closeHub =>
    let (answer, w) := w.close
    (lifecycleReply answer, w)
  | .askOpen => (w.askHub fun h => .flag h.isOpen, w)
  | .askSystem =>
    let reply (h : Hub σ) : Reply := match h.handle with
      | some s => .snapshot (WalletSystem.account s) (WalletSystem.wallets s)
      | none => .nothing
    (w.askHub reply, w)
  | .askConfig => (w.askHub fun h => .settings h.config, w)
  | .dropHub => (.nothing, w.dropHub)
  | .restart config => (.nothing, w.restart config)
  | .subscribe name topic => match w.subscribe name topic with
    | some w => (.nothing, w)
    | none => (.noHub, w)
  | .unsubscribe name =>
    let (found, w) := w.unsubscribe name
    (.flag found, w)
  | .next name => match w.next name with
    | (some answer, w) => (.polled answer, w)
    | (none, w) => (.noStream, w)
  | .drain name => match w.drain name drainLimit with
    | (some (items, stop), w) => (.drained items stop, w)
    | (none, w) => (.noStream, w)
  | .advance ms => (.nothing, { w with now := w.now + ms })
  | .enable id =>
    let p := w.provider.enable id
    (.texts p.ids, { w with provider := p })
  | .disable id =>
    let p := w.provider.disable id
    (.texts p.ids, { w with provider := p })
  | .setEnabled ids =>
    let p := w.provider.set ids
    (.texts p.ids, { w with provider := p })
  | .askEnabled => (.texts w.provider.ids, w)
  | .askManaged => (.texts w.tracker.ids, w)
  | .arm trap => (.nothing, { w with trap := some trap })
  | .failNext message => (.nothing, w.onFactory (Steering.failNext message))
  | .askCreated => (.count (Steering.created w.surroundings.factory), w)
  | .putFile path content => (.nothing, w.onDisk fun d => d.installFile path content)
  | .putDirectory path => (.nothing, w.onDisk fun d => d.installDirectory path)
  | .removePath path => (.nothing, w.onDisk fun d => d.remove path)
  | .askKind path => (.text (kindOf w.surroundings.disk path), w)
  | .askFile =>
    let file := StoredWallets.file w.config.storageDirectory
    (((w.surroundings.disk.readText? file).map Reply.text).getD .nothing, w)
  | .create account recorded => match w.createLoose account recorded with
    | (.ok (), w) => (.ok, w)
    | (.error e, w) => (.hubError e.toHub, w)
  | .command c => w.runCommand c
  | .askNetworks => (w.askMemory fun m => .networks m.networks, w)
  | .askConfigured => (w.askMemory fun m => .currencies m.configured, w)
  | .askSnapshot => (w.askMemory fun m => .snapshot m.account m.wallets, w)
  | .askCounts =>
    let counts (m : MemorySystem) : Reply :=
      .counts m.connectCount m.disconnectCount m.configureCount m.connected m.mainnet
    (w.askMemory counts, w)
  | .askStorageFile => (w.askMemory fun m => .text m.file, w)
  | .setWallets wallets =>
    let w := w.onFactory (Steering.showNext wallets)
    match w.lastSystem with
    | some s => (.nothing, w.setSystem (Steering.showNow φ wallets s))
    | none => (.nothing, w)
  | .askCalls => w.takeCalls
  | .deliver callback trackerOnly => w.deliverScripted callback trackerOnly

/-- What one action has led to. -/
structure Outcome where
  reply : Reply
  /-- The callbacks that were noted. -/
  seen : List Callback
  log : List LogEntry
  deriving Repr

/-- Does something and lets the run settle. -/
def step (w : World φ σ) (a : Action) : Outcome × World φ σ :=
  let w := { w with seen := [], surroundings := { w.surroundings with log := [] } }
  let (reply, w) := w.act a
  let w := w.settle
  (⟨reply, w.seen, w.surroundings.log⟩, w)

/-- Does one thing after the other. -/
def run (w : World φ σ) : List Action → List Outcome × World φ σ
  | [] => ([], w)
  | a :: actions =>
    let (outcome, w) := w.step a
    let (outcomes, w) := run w actions
    (outcome :: outcomes, w)

end World

end WalletHub
