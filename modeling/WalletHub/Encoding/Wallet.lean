import WalletHub.Encoding.Basic
import WalletHub.Wallet

/-!
# JSON forms of wallets

The forms of transfers, managers and wallets, with their states. A state is an object whose member
`type` names it and whose other members are its fields.

## The model

* `Json.form`, `Json.formWith`, `Json.oneField`: the trees of a choice, without fields, with some, and how the
  only field of one is read.
* The instances of transfers: direction, state, and the transfer itself, whose times may be missing.
* The instances of managers and wallets. A wallet has its transfers in order.

`WalletHub.Proofs.Encoding.Wallet` says what is read back of each of them.
-/

namespace WalletHub

open Json (Source Fault)

/-- A form without fields. -/
def Json.form (name : String) : Json := .record [("type", .text name)]

/-- A form with fields. -/
def Json.formWith (name : String) (fields : List (String × Json)) : Json :=
  .record (("type", .text name) :: fields)

/-- The one field of a form. -/
def Json.oneField (name : String) (j : Json) : Except Fault Json := do
  (← j.fields .held [name]).get name

/-! ### Transfers -/

/-- The name under which a direction is written. -/
def Direction.name : Direction → String
  | .sent => "SENT"
  | .received => "RECEIVED"
  | .recovered => "RECOVERED"

instance : Encoded Direction where
  toJson d := .text d.name
  ofJson source j := do
    let name ← j.asName source ["SENT", "RECEIVED", "RECOVERED"]
    return if name = "SENT" then .sent else if name = "RECEIVED" then .received else .recovered

instance : Encoded TransferState where
  toJson
    | .created => .form "created"
    | .signed => .form "signed"
    | .submitted => .form "submitted"
    | .included height => .formWith "included" [("block_height", .nat height.toNat)]
    | .failed reason => .formWith "failed" [("reason", .text reason)]
    | .deleted => .form "deleted"
  ofJson source j := do
    let (name, rest) ←
      j.choice source "type" ["created", "signed", "submitted", "included", "failed", "deleted"]
    if name = "included" then return .included (← readHeight (← rest.oneField "block_height"))
    else if name = "failed" then return .failed (← (← rest.oneField "reason").asText)
    else
      rest.noFields
      return if name = "created" then .created
        else if name = "signed" then .signed
        else if name = "submitted" then .submitted
        else .deleted

instance : Encoded Transfer where
  toJson t := .record
    [("hash", .text t.hash), ("amount", t.amount.toJson), ("fee", t.fee.toJson),
      ("direction", Encoded.toJson t.direction), ("state", Encoded.toJson t.state),
      ("confirmedAt", Instant.optionToJson t.confirmedAt)]
  ofJson source j := do
    let fs ← j.fields source ["hash", "amount", "fee", "direction", "state", "confirmedAt"]
    let hash ← (← fs.get "hash").asText
    let amount ← Decimal.ofJson (← fs.get "amount")
    let fee ← Decimal.ofJson (← fs.get "fee")
    let direction ← Encoded.ofJson source.inner (← fs.get "direction")
    let state ← Encoded.ofJson source.inner (← fs.get "state")
    let confirmedAt ← (fs.getD "confirmedAt").asOption Instant.ofJson
    return ⟨hash, amount, fee, direction, state, confirmedAt⟩

/-! ### Managers and wallets -/

instance : Encoded ManagerState where
  toJson
    | .created => .form "CREATED"
    | .disconnected reason => .formWith "DISCONNECTED" [("reason", .text reason)]
    | .connected => .form "CONNECTED"
    | .syncing => .form "SYNCING"
    | .deleted => .form "DELETED"
  ofJson source j := do
    let (name, rest) ←
      j.choice source "type" ["CREATED", "DISCONNECTED", "CONNECTED", "SYNCING", "DELETED"]
    if name = "DISCONNECTED" then return .disconnected (← (← rest.oneField "reason").asText)
    else
      rest.noFields
      return if name = "CREATED" then .created
        else if name = "CONNECTED" then .connected
        else if name = "SYNCING" then .syncing
        else .deleted

instance : Encoded Manager where
  toJson m := .record
    [("currency", Encoded.toJson m.currency), ("network", .text m.network),
      ("state", Encoded.toJson m.state)]
  ofJson source j := do
    let fs ← j.fields source ["currency", "network", "state"]
    let currency ← Encoded.ofJson source.inner (← fs.get "currency")
    let network ← (← fs.get "network").asText
    let state ← Encoded.ofJson source.inner (← fs.get "state")
    return ⟨currency, network, state⟩

instance : Encoded Wallet where
  toJson w := .record
    [("currency", Encoded.toJson w.currency), ("balance", w.balance.toJson),
      ("managerState", Encoded.toJson w.managerState),
      ("transfers", .array (w.transfers.map Encoded.toJson))]
  ofJson source j := do
    let fs ← j.fields source ["currency", "balance", "managerState", "transfers"]
    let currency ← Encoded.ofJson source.inner (← fs.get "currency")
    let balance ← Decimal.ofJson (← fs.get "balance")
    let managerState ← Encoded.ofJson source.inner (← fs.get "managerState")
    let transfers ← Json.asList source.inner Encoded.ofJson (← fs.get "transfers")
    return ⟨currency, balance, managerState, transfers⟩

end WalletHub
