import WalletHub.Error

/-!
# Log records

What the program reports besides its answers: warnings about the file of stored wallets, and errors
where a listener or a background task broke off.

## The model

* `LogEntry`: the four records. Two of them are warnings, that a file was left aside and that wallets could not
  be stored; the others are errors, for a listener and for the task of the hub. Each carries what its text tells.
* `LogEntry.message`, `LogEntry.level`: the text and how grave it is.

The log belongs to the surroundings of a hub, which keep the oldest record first. Times and places of records are
left out.
-/

namespace WalletHub

/-- How grave a record is. -/
inductive Level where
  | warning
  | error
  deriving DecidableEq, Repr

/-- A log record. -/
inductive LogEntry where
  /-- The file of stored wallets belongs to another account. -/
  | foreignFile (path : String)
  /-- The wallets could not be stored. -/
  | notStored (cause : RuntimeError)
  /-- A listener broke off in a callback. -/
  | callbackBroke (reason : String)
  /-- The task that follows the tracked wallets broke off. -/
  | taskBroke (reason : String)
  deriving DecidableEq, Repr

namespace LogEntry

/-- How grave the record is. -/
def level : LogEntry → Level
  | .foreignFile _ | .notStored _ => .warning
  | .callbackBroke _ | .taskBroke _ => .error

/-- The record in words. -/
def message : LogEntry → String
  | .foreignFile path => "Ignoring " ++ path ++ " written for another account"
  | .notStored cause => "Failed to persist wallets: " ++ cause.message
  | .callbackBroke reason => "Callback on 'breadbox-callbacks' panicked: " ++ reason
  | .taskBroke reason =>
    "Task 'tracked-wallets' in group 'breadbox-session' panicked: " ++ reason

end LogEntry

/-- The name of a level. -/
def Level.name : Level → String
  | .warning => "WARN"
  | .error => "ERROR"

end WalletHub
