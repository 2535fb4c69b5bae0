import WalletHub.Hub
import WalletHub.Subscription

/-!
# A hub among its neighbours

Everything that works together in one run: the disk, the clocks, the provider of enabled wallets,
the tracker, the factory, the hub, and the subscriptions. Callbacks reach the tracker by way of a
probe, which notes them and can be made to break off at the next callback of a kind. `settle`
delivers all callbacks that wait and then lets the hub's task run.

## The model

* `Target`, `Payload`, `Trap`: where the probe will break off, and what is known of the reason then. A monitor
  can be made to break off at any of its polls.
* `World`, `World.start`: the state of a run, and its start with settings, a factory, a disk, a time of day and
  enabled ids.
* `World.deliver`, `World.deliverNext`, `World.settle`: how callbacks come from a system to the tracker and to
  the hub.
* `World.stepTask`, `World.stepLeaving`, `World.runSession`: the tasks of the hub, in single steps and in runs.
* `World.openFor`, `World.close`, `World.dropHub`, `World.restart`: the hub among its neighbours. A hub that is
  dropped leaves its channels to the subscriptions that were made with it (`Subscriber`).
* `World.view`, `World.subscribe`, `World.next`, `World.drain`: subscriptions, by name.

Time stands still unless it is told to pass. The time of day, which stamps transfers, moves on with every command.
-/

namespace WalletHub

/-! ### The probe -/

/-- Where the probe can be made to break off. -/
inductive Target where
  /-- At the next callback of a family. -/
  | callback (family : Family)
  /-- At the first poll of the next monitor that the hub takes. -/
  | monitor
  /-- At a poll of that monitor, after so many that go well. -/
  | laterPoll (polls : Nat)
  deriving DecidableEq, Repr

/-- What is known of the reason when the probe breaks off. -/
inductive Payload where
  /-- A text made for the occasion. -/
  | made
  /-- A text that is always the same. -/
  | fixed
  /-- No text. -/
  | none
  deriving DecidableEq, Repr

/-- A place where the probe will break off. -/
structure Trap where
  target : Target
  payload : Payload
  deriving DecidableEq, Repr

/-- The name of a target. -/
def Target.name : Target → String
  | .callback family => family.name
  | .monitor | .laterPoll _ => "monitor"

/-- How many polls of a monitor go well, if one is to break off. -/
def Target.polls? : Target → Option Nat
  | .callback _ => none
  | .monitor => some 0
  | .laterPoll polls => some polls

/-- The reason that is reported. -/
def Trap.reason (t : Trap) : String :=
  match t.payload with
  | .made => t.target.name ++ " blew up"
  | .fixed => "listener blew up"
  | .none => "unknown panic"

/-! ### The run -/

/-- A system that no hub holds. -/
structure Loose (σ : Type) where
  system : σ
  /-- Its callbacks are noted; otherwise nobody hears them. -/
  recorded : Bool

/-- A subscription in use. -/
structure Subscriber where
  subscription : Subscription
  /-- The number of the hub that it was made with. -/
  hub : Nat
  /-- The channels of that hub as they were when it was dropped. -/
  frozen : Option Board
  deriving Repr

/-- A run. -/
structure World (φ σ : Type) where
  surroundings : Surroundings φ
  /-- Milliseconds since the start of the run. -/
  now : Nat
  /-- The time of day, which moves on a little whenever it is read. -/
  wall : Instant
  provider : Provider
  tracker : Tracker
  /-- The settings of the run. -/
  config : Config
  hub : Option (Hub σ)
  /-- How many hubs were dropped, which is the number of the hub. -/
  dropped : Nat
  /-- The last system, if no hub holds one. -/
  loose : Option (Loose σ)
  subscribers : List (String × Subscriber)
  /-- Where the probe will break off. -/
  trap : Option Trap
  /-- The callbacks that were noted, the oldest first. -/
  seen : List Callback

namespace World

variable {φ σ : Type} [WalletSystem σ] [SystemFactory φ σ]

/-- A run in which nothing has happened yet, with a hub or without. -/
def start (config : Config) (factory : φ) (disk : Disk) (wall : Instant) (enabled : List String)
    (withHub : Bool) : World φ σ :=
  ⟨⟨disk, factory, [], []⟩, 0, wall, .start enabled, .start, config,
    if withHub then some (.create config) else none, 0, none, [], none, []⟩

/-- Adds records to the log. -/
def report (log : List LogEntry) (w : World φ σ) : World φ σ :=
  { w with surroundings := w.surroundings.report log }

/-! ### Systems -/

/-- The system that was created last, and is still of use. -/
def lastSystem (w : World φ σ) : Option σ :=
  match w.hub.bind Hub.handle with
  | some s => some s
  | none => w.loose.map Loose.system

/-- Replaces the system that was created last. -/
def setSystem (s : σ) (w : World φ σ) : World φ σ :=
  match w.hub with
  | some h => match h.handle with
    | some _ => { w with hub := some { h with handle := some s } }
    | none => { w with loose := w.loose.map fun l => { l with system := s } }
  | none => { w with loose := w.loose.map fun l => { l with system := s } }

/-! ### Delivering callbacks -/

/-- Notes a callback. If the probe is to break off here, the reason is given instead. -/
def note (callback : Callback) (w : World φ σ) : Except String Unit × World φ σ :=
  match w.trap with
  | some trap =>
    if trap.target = .callback callback.family then (.error trap.reason, { w with trap := none })
    else (.ok (), { w with seen := w.seen ++ [callback] })
  | none => (.ok (), { w with seen := w.seen ++ [callback] })

/-- Delivers a callback to the tracker, through the probe. -/
def toTracker (callback : Callback) (w : World φ σ) : Except String Unit × World φ σ :=
  match w.note callback with
  | (.ok (), w) => (.ok (), { w with tracker := w.tracker.learn callback })
  | (.error reason, w) => (.error reason, w)

/-- Delivers a callback of the last system: to the tracker and then the hub, if the hub has the
system, and otherwise to whoever listens. -/
def deliver (callback : Callback) (w : World φ σ) : Except String Unit × World φ σ :=
  match w.hub.bind Hub.handle with
  | some _ => match w.toTracker callback with
    | (.ok (), w) => (.ok (), { w with hub := w.hub.map (Hub.receive callback) })
    | (.error reason, w) => (.error reason, w)
  | none =>
    if w.loose.any Loose.recorded then w.note callback else (.ok (), w)

/-- Delivers the callbacks of a job. Where one breaks off the rest of the job is lost. -/
def deliverJob : Job → World φ σ → World φ σ
  | [], w => w
  | callback :: job, w => match w.deliver callback with
    | (.ok (), w) => deliverJob job w
    | (.error reason, w) => w.report [.callbackBroke reason]

/-- Delivers the oldest job that waits. -/
def deliverNext (w : World φ σ) : World φ σ :=
  match w.lastSystem with
  | some s => match WalletSystem.queue s with
    | [] => w
    | job :: jobs => deliverJob job (w.setSystem (WalletSystem.withQueue jobs s))
  | none => w

/-- Delivers jobs, at most so many. -/
def deliverCount : Nat → World φ σ → World φ σ
  | 0, w => w
  | n + 1, w => deliverCount n w.deliverNext

/-- The number of jobs that wait. -/
def waiting (w : World φ σ) : Nat :=
  match w.lastSystem with
  | some s => (WalletSystem.queue s).length
  | none => 0

/-- Lets the hub's task run. -/
def runSession (w : World φ σ) : World φ σ :=
  match w.hub with
  | some h =>
    let (h, log) := h.runSession w.provider w.tracker
    { w with hub := some h }.report log
  | none => w

/-- The hub's task takes a step. -/
def stepTask (w : World φ σ) : World φ σ :=
  match w.hub with
  | some h =>
    let (h, log) := h.stepTask w.provider w.tracker
    { w with hub := some h }.report log
  | none => w

/-- A cancelled task of the hub takes a step. -/
def stepLeaving (i : Nat) (w : World φ σ) : World φ σ :=
  match w.hub with
  | some h =>
    let (h, log) := h.stepLeaving w.provider w.tracker i
    { w with hub := some h }.report log
  | none => w

/-- Delivers all callbacks that wait, and then lets the hub's task run. -/
def settle (w : World φ σ) : World φ σ := (deliverCount w.waiting w).runSession

/-! ### The hub -/

/-- What will make the next monitor break off. -/
def nextFuse (w : World φ σ) : Option Fuse :=
  w.trap.bind fun trap => trap.target.polls?.map fun polls => ⟨polls, trap.reason⟩

/-- The task that an opening would start. -/
def nextSession (w : World φ σ) : Session := .following .start w.nextFuse

/-- The run after an opening has taken its monitor. -/
def monitorTaken (w : World φ σ) : World φ σ :=
  if w.nextFuse.isSome then { w with trap := none } else w

/-- Opens the hub for an account. Without a hub there is no answer. -/
def openFor (account : Account) (w : World φ σ) : Option (Except HubError Unit) × World φ σ :=
  match w.hub with
  | none => (none, w)
  | some h =>
    let (answer, h, e) := h.openFor account w.nextSession w.surroundings
    let w := { w with hub := some h, surroundings := e }
    match answer with
    | .ok () => (some (.ok ()), w.monitorTaken)
    | .error error => (some (.error error), w)

/-- Closes the hub. Without a hub there is no answer. -/
def close (w : World φ σ) : Option (Except HubError Unit) × World φ σ :=
  match w.hub with
  | none => (none, w)
  | some h =>
    let (answer, h, e) := h.close w.surroundings
    (some answer, { w with hub := some h, surroundings := e })

/-- Drops the hub. Its system stays, but nobody listens to it, and its subscriptions keep only what
was published. -/
def dropHub (w : World φ σ) : World φ σ :=
  match w.hub with
  | none => w
  | some h =>
    let freeze (s : Subscriber) : Subscriber := { s with frozen := s.frozen.or (some h.board) }
    { w with
      hub := none
      dropped := w.dropped + 1
      loose := (h.handle.map fun s => ⟨s, false⟩).or w.loose
      subscribers := w.subscribers.map fun (name, s) => (name, freeze s) }

/-- Drops the hub and makes another one, with other settings if some are given. -/
def restart (config : Option Config) (w : World φ σ) : World φ σ :=
  let config := config.getD w.config
  { w.dropHub with config := config, hub := some (.create config) }

/-- Creates a system without a hub. Its callbacks are noted, if `recorded` says so. -/
def createLoose (account : Account) (recorded : Bool) (w : World φ σ) :
    Except RuntimeError Unit × World φ σ :=
  let params : SystemParams := ⟨account, w.config.mainnet, w.config.storageDirectory⟩
  let e := w.surroundings
  match SystemFactory.create params e.disk e.factory with
  | (.error cause, factory) => (.error cause, { w with surroundings := { e with factory := factory } })
  | (.ok made, factory) =>
    (.ok (), { w with
      surroundings := { e with factory := factory }.report made.log
      loose := some ⟨made.system, recorded⟩ })

/-! ### Subscriptions -/

/-- The channels of a hub that are held by subscriptions of other names. -/
def heldBeside (name : String) (hub : Nat) (w : World φ σ) : List ChannelName :=
  let others := w.subscribers.filter fun (other, s) => other != name && s.hub == hub
  others.flatMap fun (_, s) => s.subscription.holds

/-- What a subscriber can see. -/
def view (name : String) (s : Subscriber) (w : World φ σ) : View :=
  let held := w.heldBeside name s.hub
  match s.frozen with
  | some board => ⟨w.now, false, held, board, none, w.provider, w.tracker⟩
  | none => match w.hub with
    | some h =>
      let live := h.handle.map fun s => (WalletSystem.account s, WalletSystem.wallets s)
      ⟨w.now, true, held, h.board, live, w.provider, w.tracker⟩
    | none => ⟨w.now, false, held, .empty, none, w.provider, w.tracker⟩

/-- Subscribes to a topic under a name, in the place of an earlier subscription of this name. It is
refused if the topic needs a hub and there is none. -/
def subscribe (name : String) (topic : Topic) (w : World φ σ) : Option (World φ σ) :=
  let enter (s : Subscription) : World φ σ :=
    { w with subscribers := Entries.put name ⟨s, w.dropped, none⟩ w.subscribers }
  match w.hub with
  | some h => some (enter (.create h.config.throttle h.config.transferThrottle topic))
  | none => if topic.needsHub then none else some (enter (.create 0 0 topic))

/-- Ends a subscription, if there is one of this name. -/
def unsubscribe (name : String) (w : World φ σ) : Bool × World φ σ :=
  ((w.subscribers.lookup name).isSome,
    { w with subscribers := Entries.drop name w.subscribers })

/-- Asks a subscription for its next item. -/
def next (name : String) (w : World φ σ) : Option (Poll Item) × World φ σ :=
  match w.subscribers.lookup name with
  | none => (none, w)
  | some s =>
    let (answer, subscription) := s.subscription.poll (w.view name s)
    (some answer, { w with
      subscribers := Entries.put name { s with subscription := subscription } w.subscribers })

/-- Asks a subscription for items until there is none, at most `count` times. -/
def drain (name : String) (count : Nat) (w : World φ σ) :
    Option (List Item × Option (Poll Item)) × World φ σ :=
  match w.subscribers.lookup name with
  | none => (none, w)
  | some s =>
    let (items, stop, subscription) := s.subscription.drain (w.view name s) count
    (some (items, stop), { w with
      subscribers := Entries.put name { s with subscription := subscription } w.subscribers })

end World

end WalletHub
