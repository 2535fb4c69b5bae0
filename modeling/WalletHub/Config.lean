import WalletHub.Text.Blank
import WalletHub.Text.Digits
import WalletHub.Path

/-!
# Configuration

Where the wallet system stores its data, which networks it uses, and how often streams may give
items. Each setting can be given by a variable; a setting whose variable is missing or has no
meaning keeps its default, and for a flag or a number without meaning there is a warning.

## The model

* `Config`: the settings. `Config.same` compares the directories as paths, so that different texts can be the
  same.
* `Config.flag?`, `Config.readNumber`: what a text means for a flag, and for a number of 64 bits. The reader of
  numbers goes from left to right and stops at the first fault.
* `Config.flag`, `Config.millis`, `Config.directory`: a setting of each kind, from its variable or by default.
* `Config.ofLookup`: all settings, with the warnings in a fixed order. The variables are given by a function,
  which stands for the environment of the process.

`WalletHub.Proofs.Config` gives the grammars of the texts and proves that they decide everything.
-/

namespace WalletHub

/-- The settings of one hub. -/
structure Config where
  /-- The directory of the wallet system's data. -/
  storageDirectory : String
  /-- Use networks that carry real value. -/
  mainnet : Bool
  /-- Milliseconds between two items of most streams. -/
  throttle : Nat
  /-- Milliseconds between two items of streams of transfers. -/
  transferThrottle : Nat
  deriving DecidableEq, Repr

/-- What is wrong with the text of a number. -/
inductive Config.NumberFault where
  | empty
  | invalidDigit
  | tooLarge
  deriving DecidableEq, Repr

/-- A variable was given and not used. -/
inductive Config.Warning where
  /-- The value is none of the words for a flag. -/
  | invalidFlag (name value : String)
  /-- The value is not a number of 64 bits. -/
  | invalidNumber (name value : String) (fault : Config.NumberFault)
  deriving DecidableEq, Repr

namespace Config

/-- The settings without any variable. -/
def default : Config := ⟨"./data/breadbox", false, 100, 300⟩

/-- The default settings with another storage directory. -/
def ofDirectory (directory : String) : Config := { default with storageDirectory := directory }

/-- Settings are the same when their parts are, the directories as paths. -/
def same (a b : Config) : Bool :=
  Path.same a.storageDirectory b.storageDirectory && a.mainnet == b.mainnet &&
    a.throttle == b.throttle && a.transferThrottle == b.transferThrottle

/-! ### Variables -/

/-- The name of a variable. -/
def directoryName : String := "BREADBOX_STORAGE_DIR"

@[inherit_doc directoryName]
def mainnetName : String := "BREADBOX_MAINNET"

@[inherit_doc directoryName]
def throttleName : String := "BREADBOX_THROTTLE_MS"

@[inherit_doc directoryName]
def transferThrottleName : String := "BREADBOX_TRANSFER_THROTTLE_MS"

/-- The fault of a number, in words. -/
def NumberFault.message : NumberFault → String
  | .empty => "cannot parse integer from empty string"
  | .invalidDigit => "invalid digit found in string"
  | .tooLarge => "number too large to fit in target type"

/-- The warning in words. -/
def Warning.message : Warning → String
  | .invalidFlag name value => "Ignoring invalid " ++ name ++ "=" ++ value
  | .invalidNumber name value fault =>
    "Ignoring invalid " ++ name ++ "=" ++ value ++ ": " ++ fault.message

/-- The flag that a text stands for, up to white space around it and the case of its letters. -/
def flag? (value : String) : Option Bool :=
  let word := String.ofList ((Text.trim value).toList.map Char.toLower)
  if ["1", "true", "yes", "on"].contains word then some true
  else if ["0", "false", "no", "off"].contains word then some false
  else none

/-- Reads digits after a number; the first character that is no digit, or that makes the number too
large, is the fault. -/
def readDigits (n : Nat) : List Char → Except NumberFault Nat
  | [] => .ok n
  | c :: cs => match Digit.ofChar? c with
    | none => .error .invalidDigit
    | some d =>
      if n * 10 + d.val < 18446744073709551616 then readDigits (n * 10 + d.val) cs
      else .error .tooLarge

/-- Reads a number of 64 bits: digits, with a plus sign in front or not. -/
def readNumber (cs : List Char) : Except NumberFault Nat :=
  match cs with
  | [] => .error .empty
  | ['+'] => .error .invalidDigit
  | '+' :: ds => readDigits 0 ds
  | ds => readDigits 0 ds

/-- A flag, from its variable or by default. -/
def flag (lookup : String → Option String) (name : String) (default : Bool) :
    Bool × List Warning :=
  match lookup name with
  | none => (default, [])
  | some value => match flag? value with
    | some b => (b, [])
    | none => (default, [.invalidFlag name value])

/-- A number of milliseconds, from its variable or by default. -/
def millis (lookup : String → Option String) (name : String) (default : Nat) :
    Nat × List Warning :=
  match lookup name with
  | none => (default, [])
  | some value => match readNumber (Text.trim value).toList with
    | .ok n => (n, [])
    | .error fault => (default, [.invalidNumber name value fault])

/-- The storage directory, from its variable or by default. -/
def directory (lookup : String → Option String) (name : String) (default : String) : String :=
  match (lookup name).map Text.trim with
  | none => default
  | some path => if path = "" then default else path

/-- The settings that the variables give, and the warnings about them. -/
def ofLookup (lookup : String → Option String) : Config × List Warning :=
  let (mainnet, flagWarnings) := flag lookup mainnetName default.mainnet
  let (throttle, throttleWarnings) := millis lookup throttleName default.throttle
  let (transferThrottle, transferWarnings) :=
    millis lookup transferThrottleName default.transferThrottle
  (⟨directory lookup directoryName default.storageDirectory, mainnet, throttle, transferThrottle⟩,
    flagWarnings ++ throttleWarnings ++ transferWarnings)

end Config

end WalletHub
