import WalletHub.Json.Value

/-!
# Errors

Why an operation of the hub or of the wallet system failed. What the platform would add about a
file, and what a reader of JSON would add about a text, is not reproduced: fixed marks stand for
both.

## The model

* `RuntimeError`: what can go wrong in a wallet system in memory, with the path, code or hash that it is about.
* `HubError`: what can go wrong in an opening or a closing of a hub. Four of the cases are the caller's fault
  (`HubError.isPrecondition`); the other two come from the disk or from the system.
* `RuntimeError.message`, `HubError.message`: the texts, which name what the error is about.
* `RuntimeError.toHub`: how the hub passes on an error of the system that it wanted to create.
-/

namespace WalletHub

/-- Why an operation of the wallet system in memory failed. -/
inductive RuntimeError where
  /-- A file could not be read or written. -/
  | io (path cause : String)
  /-- The file of stored wallets does not hold wallets. -/
  | json (fault : Json.Fault)
  /-- The callbacks have nothing to run on. -/
  | thread (cause : String)
  /-- No wallet has the code. -/
  | unknownWallet (code : String)
  /-- The wallet has no transfer with the hash. -/
  | unknownTransfer (code hash : String)
  /-- Creation was told to fail. -/
  | injected (message : String)
  deriving DecidableEq, Repr

/-- The mark for what stopped an operation on the disk. -/
def Disk.faultMark : String := "<io>"

/-- The mark for what is wrong with a text. -/
def Json.Fault.mark : String := "<json>"

/-- The message of an error. -/
def RuntimeError.message : RuntimeError → String
  | .io path cause => "Storage error at " ++ path ++ ": " ++ cause
  | .json _ => "JSON error: " ++ Json.Fault.mark
  | .thread cause => "Failed to start callback thread: " ++ cause
  | .unknownWallet code => "No wallet for currency '" ++ code ++ "'"
  | .unknownTransfer code hash => "No transfer '" ++ hash ++ "' in wallet '" ++ code ++ "'"
  | .injected message => message

/-- Why an operation of the hub failed. -/
inductive HubError where
  /-- The hub is open already. -/
  | alreadyOpen
  /-- The hub is not open. -/
  | notOpen
  /-- The account has no bytes. -/
  | emptyAccount
  /-- The account is not the one of the system that the hub has. -/
  | accountMismatch
  /-- The storage directory could not be made. -/
  | storageDirectory (path cause : String)
  /-- The system could not be created. -/
  | systemCreation (cause : RuntimeError)
  deriving DecidableEq, Repr

@[inherit_doc RuntimeError.message]
def HubError.message : HubError → String
  | .alreadyOpen => "open() called while BreadBox was open"
  | .notOpen => "BreadBox must be opened before calling close()"
  | .emptyAccount => "Account serialization contains 0 bytes"
  | .accountMismatch => "Provided account does not match the existing system account, " ++
      "BreadBox does not support swapping accounts at runtime"
  | .storageDirectory path cause => "Failed to create storage directory " ++ path ++ ": " ++ cause
  | .systemCreation cause => "Failed to create wallet system: " ++ cause.message

/-- The caller has broken the order of opening and closing. -/
def HubError.isPrecondition : HubError → Bool
  | .alreadyOpen | .notOpen | .emptyAccount | .accountMismatch => true
  | .storageDirectory .. | .systemCreation _ => false

/-- An error of the wallet system, as the hub reports it. -/
def RuntimeError.toHub (e : RuntimeError) : HubError := .systemCreation e

end WalletHub
