import WalletHub.Account
import WalletHub.Disk
import WalletHub.Event
import WalletHub.Log

/-!
# Wallet systems

A wallet system manages the wallets of one account. The hub creates it, connects and disconnects
it, and reads its wallets; the system answers with callbacks. It does not run them itself: it lines
them up in jobs, which are delivered later, one after the other. The hub knows no particular
system, only the two classes of this module.

## The model

* `WalletSystem`: what a hub asks of a system. Of the answers nothing is assumed: a system may show any account
  and any wallets, and line up any callbacks.
* `SystemFactory`: what creates systems. It may fail, and it may be another one after each creation.
* `Job`: the callbacks of one occasion. They are delivered one by one, and if one breaks off so does the job.
* `Created`, `Disconnected`: a system with what else has come of its creation, or of its being disconnected.
* `Call`, `Call.text`: a record of what systems were asked for, as whoever watches the calls sees it.

There are two instances, `WalletHub.Memory.System` and `WalletHub.Scripted`.
-/

namespace WalletHub

/-- Callbacks that are delivered together. -/
abbrev Job := List Callback

/-- What a wallet system is told when it is created. -/
structure SystemParams where
  account : Account
  mainnet : Bool
  /-- The directory of the system's data. -/
  directory : String
  deriving DecidableEq, Repr

/-- A system after it was told to disconnect, and what it has stored. -/
structure Disconnected (σ : Type) where
  system : σ
  disk : Disk
  log : List LogEntry

/-- What the hub asks of a wallet system. -/
class WalletSystem (σ : Type) where
  account : σ → Account
  /-- The wallets as they are now. -/
  wallets : σ → List Wallet
  /-- Tells the system which currencies are in use. -/
  configure : List Currency → σ → σ
  connect : σ → σ
  /-- Ends all connections. The system may store its wallets. -/
  disconnect : Disk → σ → Disconnected σ
  /-- The jobs that wait for delivery, the oldest first. -/
  queue : σ → List Job
  /-- The system with other jobs waiting. -/
  withQueue : List Job → σ → σ

/-- A system that was created, and what it has to report. -/
structure Created (σ : Type) where
  system : σ
  log : List LogEntry

/-- What creates wallet systems of the type `σ`. -/
class SystemFactory (φ : Type) (σ : outParam Type) where
  /-- Creates a system. The factory may be another one afterwards, also when it fails. -/
  create : SystemParams → Disk → φ → Except RuntimeError (Created σ) × φ

/-- The system of a factory is asked for something. -/
inductive Call where
  | create (uid : String) (mainnet : Bool) (directory : String)
  | configure (count : Nat)
  | connect
  | disconnect
  deriving DecidableEq, Repr

/-- A call in words. -/
def Call.text : Call → String
  | .create uid mainnet directory =>
    "create:" ++ uid ++ ":" ++ (if mainnet then "true" else "false") ++ ":" ++ directory
  | .configure count => "configure:" ++ String.ofList (Digit.toChars (Digit.ofNat count))
  | .connect => "connect"
  | .disconnect => "disconnect"

end WalletHub
