import WalletHub.Encoding.Wallet
import WalletHub.WalletSystem

/-!
# Stored wallets

A wallet system in memory keeps its wallets over a restart in the file `wallets.json` of its
directory, together with the identifier of the account to which they belong. A file of another
account is left aside with a warning.

## The model

* `StoredWallets`: what the file holds, with its form in the notation.
* `StoredWallets.file`: where it is.
* `StoredWallets.load`: no file is no wallets, a file that cannot be read or has no such form is an error, and a
  file of another account is a warning and no wallets. Accounts are told apart by their identifiers here.
* `StoredWallets.save`: writes the file, over what was there.

Which wallets come back is proved in `WalletHub.Proofs.Memory.Storage`, and what becomes of the file when several
accounts use the directory in `WalletHub.Proofs.Memory.Sharing`.
-/

namespace WalletHub

/-- What the file of stored wallets holds. -/
structure StoredWallets where
  accountUid : String
  wallets : List Wallet
  deriving Repr

open Json (Source Fault) in
instance : Encoded StoredWallets where
  toJson s := .record
    [("accountUid", .text s.accountUid), ("wallets", .array (s.wallets.map Encoded.toJson))]
  ofJson source j := do
    let fs ← j.fields source ["accountUid", "wallets"]
    let accountUid ← (← fs.get "accountUid").asText
    let wallets ← Json.asList source.inner Encoded.ofJson (← fs.get "wallets")
    return ⟨accountUid, wallets⟩

namespace StoredWallets

/-- The file in a system's directory. -/
def file (directory : String) : String := Path.join directory "wallets.json"

/-- The wallets of an account that a file holds, and a warning if it belongs to another account.
Without a file there are none. -/
def load (file uid : String) (d : Disk) : Except RuntimeError (List Wallet × List LogEntry) :=
  if d.exists? file then
    match d.readText? file with
    | none => .error (.io file Disk.faultMark)
    | some text => match Encoded.decode (α := StoredWallets) text with
      | .error fault => .error (.json fault)
      | .ok stored =>
        if stored.accountUid = uid then .ok (stored.wallets, [])
        else .ok ([], [.foreignFile file])
  else .ok ([], [])

/-- Writes the wallets of an account to a file. -/
def save (file uid : String) (wallets : List Wallet) (d : Disk) : Except RuntimeError Disk :=
  match d.write? file (.text (Encoded.encode .pretty (StoredWallets.mk uid wallets))) with
  | some written => .ok written
  | none => .error (.io file Disk.faultMark)

end StoredWallets

end WalletHub
