import WalletHub.Number.Decimal
import WalletHub.Time.Instant

/-!
# Transfers

A transfer is one movement of value in or out of a wallet, known by its hash.

## The model

* `Direction`, `TransferState`: where a transfer goes, and how far it has come.
* `Transfer.create`: a transfer with its hash, amount and direction, and nothing else known.
* `Transfer.moveTo`: another state. A transfer that becomes part of the chain for the first time is stamped with
  the time.
* The instance of `BEq`: transfers are equal part by part, their amounts by value.
-/

namespace WalletHub

/-- The direction of a transfer, seen from the wallet that holds it. -/
inductive Direction where
  | sent
  | received
  /-- Sent to an address of the same wallet. -/
  | recovered
  deriving DecidableEq, Repr

/-- How far a transfer has come. -/
inductive TransferState where
  | created
  | signed
  | submitted
  /-- Part of the chain, in the block at this height. -/
  | included (height : UInt64)
  | failed (reason : String)
  | deleted
  deriving DecidableEq, Repr

/-- A movement of value. -/
structure Transfer where
  hash : String
  amount : Decimal
  fee : Decimal
  direction : Direction
  state : TransferState
  /-- When it was seen to be part of the chain. -/
  confirmedAt : Option Instant
  deriving Repr

namespace Transfer

/-- A transfer just created, without a fee. -/
def create (hash : String) (amount : Decimal) (direction : Direction) : Transfer :=
  ⟨hash, amount, .zero, direction, .created, none⟩

/-- The transfer is part of the chain. -/
def isConfirmed (t : Transfer) : Bool :=
  match t.state with
  | .included _ => true
  | _ => false

/-- Transfers are equal when all their parts are, amounts by their values. -/
instance : BEq Transfer where
  beq a b := a.hash == b.hash && a.amount == b.amount && a.fee == b.fee &&
    a.direction == b.direction && a.state == b.state && a.confirmedAt == b.confirmedAt

/-- The transfer in a new state, as seen at the instant `now`: a transfer that becomes part of the
chain and has no time of confirmation gets this one. -/
def moveTo (t : Transfer) (state : TransferState) (now : Instant) : Transfer :=
  let moved := { t with state := state }
  if moved.isConfirmed && moved.confirmedAt.isNone then { moved with confirmedAt := some now }
  else moved

end Transfer

end WalletHub
