import WalletHub.Wallet

/-!
# Progress of synchronisation

What a consumer sees of a wallet that catches up with the chain: the part that is done, as a
fraction from 0 to 1, and the time of the last block. The wallet system reports percentages, of any
size.

## The model

* `SyncState`: the code as it was spelt where the state was made, whether the wallet is catching up, the part
  that is done, and the time.
* `SyncState.initial`, `SyncState.started`, `SyncState.completed`: the first state of a wallet that is catching
  up or is not.
* `SyncState.progress`: the state that a report makes: the percentage is divided by a hundred and moved into the
  range from zero to one, in numbers of 32 bits. What is no number stays none.
* `SyncState.same`: the comparison by which a stream passes over repetitions. A state with no number in it is not
  the same as itself.
-/

namespace WalletHub

/-- How far one currency's wallet has come. -/
structure SyncState where
  /-- The currency code. -/
  code : String
  /-- The part that is done. -/
  fraction : Single
  /-- Milliseconds from the start of 1970 to the last block, 0 when it is not known. -/
  timestamp : Int
  syncing : Bool
  deriving DecidableEq, Repr

namespace SyncState

/-- The state of a wallet that has reported no progress: nothing is done while it is catching up,
and everything when it is not. -/
def initial (code : String) (syncing : Bool) : SyncState :=
  ⟨code, if syncing then .zero else .one, 0, syncing⟩

/-- The manager has begun to catch up. -/
def started (code : String) : SyncState := initial code true

/-- The manager has stopped catching up. -/
def completed (code : String) : SyncState := initial code false

/-- The wallet system reports a percentage, and maybe the time of the last block. -/
def progress (code : String) (percent : Single) (lastBlock : Option Instant) : SyncState :=
  ⟨code, (percent.scale (1 / 100)).clamp .zero .one, (lastBlock.map Instant.millis).getD 0, true⟩

/-- All is done. -/
def isComplete (s : SyncState) : Bool := !s.syncing && !s.fraction.lt .one && s.fraction != .nan

/-- States are the same when their parts are, fractions as numbers. -/
def same (a b : SyncState) : Bool :=
  a.code == b.code && a.fraction.same b.fraction && a.timestamp == b.timestamp &&
    a.syncing == b.syncing

end SyncState

end WalletHub
