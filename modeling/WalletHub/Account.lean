import WalletHub.Time.Instant

/-!
# Accounts

The wallet system hands out accounts as bytes that only it can read. Two accounts are the same
account exactly when these bytes are equal.

The name and the time of creation are handed on and never compared here. The file of stored wallets goes by the
name (`WalletHub.Memory.Store`), so that two accounts can be the same and have different files, or share a file
and not be the same; `WalletHub.Proofs.Memory.Sharing` says what follows.
-/

namespace WalletHub

/-- An account of the wallet system. -/
structure Account where
  /-- A name for messages and for the file of stored wallets. -/
  uid : String
  createdAt : Instant
  /-- What the wallet system makes of the account. -/
  serialized : List UInt8
  deriving DecidableEq, Repr

/-- The two are the same account. -/
def Account.isSame (a b : Account) : Bool := a.serialized == b.serialized

end WalletHub
