import WalletHub.Json.Parser
import WalletHub.Json.Printer
import WalletHub.Json.Reading
import WalletHub.Number.DecimalText
import WalletHub.Time.InstantText
import WalletHub.Currency
import WalletHub.Account
import WalletHub.SyncState

/-!
# JSON forms

Every domain type has one JSON form, in which it is written, and several in which it is read. The
members of a record are written in the order of the fields. This module has the forms of decimals
and times, and of currencies, networks, accounts and progress.

## The model

* `Encoded`: the class of types with a form. `Encoded.encode` writes the text of a value in one of two layouts,
  and `Encoded.decode` reads a text and tells what is wrong with it.
* `Decimal.toJson`, `Decimal.ofJson`: an amount is written as a binary number of 64 bits and read from one, so
  that not every amount comes back. `WalletHub.Proofs.Memory.Storage` says which do.
* `Instant.toJson`, `Instant.ofJson`: an instant is its text.
* The instances: records, whose members may stand in any order when they are read.

That reading undoes writing is proved in `WalletHub.Proofs.Encoding.Domain` for all types at once.
-/

namespace WalletHub

/-- A type with a JSON form. -/
class Encoded (α : Type) where
  /-- The tree in which a value is written. -/
  toJson : α → Json
  /-- The value that a tree stands for. -/
  ofJson : Json.Source → Json → Except Json.Fault α

namespace Encoded

/-- The text of a value. -/
def encode {α : Type} [Encoded α] (layout : Json.Layout) (a : α) : String :=
  (toJson a).render layout

/-- The value of a text. -/
def decode {α : Type} [Encoded α] (s : String) : Except Json.Fault α :=
  match Json.parse s with
  | .ok j => ofJson .start j
  | .error e => .error e

end Encoded

open Json (Source Fault)

/-! ### Decimals and times -/

/-- An amount is written as a number of 64 bits. -/
def Decimal.toJson (d : Decimal) : Json := .double d.toDouble

/-- An amount is read from an integer, from a binary number by way of its shortest plain notation,
or from a string. -/
def Decimal.ofJson : Json → Except Fault Decimal
  | .number n => match n.meaning? with
    | some (.natural k) => (Decimal.of? false k 0).elim (.error .unfit) .ok
    | some (.negated k) => (Decimal.of? true k 0).elim (.error .unfit) .ok
    | some (.real x) => (Decimal.ofDouble? x).elim (.error .unfit) .ok
    | none => .error .malformed
  | .string (some s) => (Decimal.ofText? s).elim (.error .unfit) .ok
  | j => .error j.misfit

/-- An instant is written as its text. -/
def Instant.toJson (t : Instant) : Json := .text t.toText

/-- An instant is read from its text. -/
def Instant.ofJson (j : Json) : Except Fault Instant := do
  match Instant.ofText? (← j.asText) with
  | some t => .ok t
  | none => .error .unfit

/-- A time that may be missing. -/
def Instant.optionToJson (t : Option Instant) : Json := (t.map Instant.toJson).getD .null

/-- A height of 64 bits. -/
def readHeight (j : Json) : Except Fault UInt64 := (j.asNat Json.Numeral.wordBound).map .ofNat

/-! ### Records -/

instance : Encoded Currency where
  toJson c := .record
    [("id", .text c.id), ("code", .text c.code), ("name", .text c.name),
      ("decimals", .nat c.decimals.toNat)]
  ofJson source j := do
    let fs ← j.fields source ["id", "code", "name", "decimals"]
    let id ← (← fs.get "id").asText
    let code ← (← fs.get "code").asText
    let name ← (← fs.get "name").asText
    let decimals ← (← fs.get "decimals").asNat 256
    return ⟨id, code, name, .ofNat decimals⟩

instance : Encoded Network where
  toJson n := .record
    [("uids", .text n.uids), ("name", .text n.name), ("isMainnet", .bool n.mainnet),
      ("currency", Encoded.toJson n.currency)]
  ofJson source j := do
    let fs ← j.fields source ["uids", "name", "isMainnet", "currency"]
    let uids ← (← fs.get "uids").asText
    let name ← (← fs.get "name").asText
    let mainnet ← (← fs.get "isMainnet").asBool
    let currency ← Encoded.ofJson source.inner (← fs.get "currency")
    return ⟨uids, name, mainnet, currency⟩

instance : Encoded Account where
  toJson a := .record
    [("uid", .text a.uid), ("createdAt", a.createdAt.toJson),
      ("serialized", .array (a.serialized.map fun b => .nat b.toNat))]
  ofJson source j := do
    let fs ← j.fields source ["uid", "createdAt", "serialized"]
    let uid ← (← fs.get "uid").asText
    let createdAt ← Instant.ofJson (← fs.get "createdAt")
    let bytes ← Json.asList source.inner (fun _ j => j.asNat 256) (← fs.get "serialized")
    return ⟨uid, createdAt, bytes.map .ofNat⟩

instance : Encoded SyncState where
  toJson s := .record
    [("currencyCode", .text s.code), ("percentComplete", .single s.fraction),
      ("timestamp", .int s.timestamp), ("isSyncing", .bool s.syncing)]
  ofJson source j := do
    let fs ← j.fields source ["currencyCode", "percentComplete", "timestamp", "isSyncing"]
    let code ← (← fs.get "currencyCode").asText
    let fraction ← (← fs.get "percentComplete").asSingle
    let timestamp ← (← fs.get "timestamp").asInt
    let syncing ← (← fs.get "isSyncing").asBool
    return ⟨code, fraction, timestamp, syncing⟩

end WalletHub
