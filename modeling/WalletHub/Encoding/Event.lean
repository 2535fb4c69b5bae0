import WalletHub.Encoding.Wallet
import WalletHub.Event

/-!
# JSON forms of events

An event is an object whose member `type` is its name and whose other members are its fields.

There is one instance for each of the five kinds of event. An event that carries a wallet's transfer, a manager's
state or a network has the form of that as a member, so the forms of `WalletHub.Encoding.Wallet` come in here.
The names are those that the events have in the texts of the notation, not those of their constructors.

An event is written and read with `Json.formWith` and `Json.choice`, as all types are that have several forms.
Unknown names are refused, and so are members that are missing; members that are unknown are passed over.
-/

namespace WalletHub

open Json (Source Fault)

instance : Encoded SystemEvent where
  toJson
    | .created => .form "created"
    | .deleted => .form "deleted"
    | .networkAdded network => .formWith "network_added" [("network", Encoded.toJson network)]
    | .managerAdded manager => .formWith "manager_added" [("manager", Encoded.toJson manager)]
    | .discoveredNetworks networks =>
      .formWith "discovered_networks" [("networks", .array (networks.map Encoded.toJson))]
  ofJson source j := do
    let (name, rest) ← j.choice source "type"
      ["created", "deleted", "network_added", "manager_added", "discovered_networks"]
    if name = "network_added" then
      return .networkAdded (← Encoded.ofJson .held (← rest.oneField "network"))
    else if name = "manager_added" then
      return .managerAdded (← Encoded.ofJson .held (← rest.oneField "manager"))
    else if name = "discovered_networks" then
      return .discoveredNetworks (← Json.asList .held Encoded.ofJson (← rest.oneField "networks"))
    else
      rest.noFields
      return if name = "created" then .created else .deleted

instance : Encoded NetworkEvent where
  toJson
    | .created => .form "created"
    | .feesUpdated => .form "fees_updated"
  ofJson source j := do
    let (name, rest) ← j.choice source "type" ["created", "fees_updated"]
    rest.noFields
    return if name = "created" then .created else .feesUpdated

instance : Encoded ManagerEvent where
  toJson
    | .created => .form "created"
    | .deleted => .form "deleted"
    | .changed oldState newState => .formWith "changed"
      [("old_state", Encoded.toJson oldState), ("new_state", Encoded.toJson newState)]
    | .walletAdded currency => .formWith "wallet_added" [("currency", Encoded.toJson currency)]
    | .walletChanged currency => .formWith "wallet_changed" [("currency", Encoded.toJson currency)]
    | .walletDeleted currency => .formWith "wallet_deleted" [("currency", Encoded.toJson currency)]
    | .syncStarted => .form "sync_started"
    | .syncProgress timestamp percent => .formWith "sync_progress"
      [("timestamp", Instant.optionToJson timestamp), ("percent_complete", .single percent)]
    | .syncStopped reason => .formWith "sync_stopped" [("reason", .text reason)]
    | .syncRecommended => .form "sync_recommended"
    | .blockUpdated height => .formWith "block_updated" [("height", .nat height.toNat)]
  ofJson source j := do
    let (name, rest) ← j.choice source "type"
      ["created", "deleted", "changed", "wallet_added", "wallet_changed", "wallet_deleted",
        "sync_started", "sync_progress", "sync_stopped", "sync_recommended", "block_updated"]
    if name = "changed" then
      let fs ← rest.fields .held ["old_state", "new_state"]
      let oldState ← Encoded.ofJson .held (← fs.get "old_state")
      let newState ← Encoded.ofJson .held (← fs.get "new_state")
      return .changed oldState newState
    else if name = "wallet_added" then
      return .walletAdded (← Encoded.ofJson .held (← rest.oneField "currency"))
    else if name = "wallet_changed" then
      return .walletChanged (← Encoded.ofJson .held (← rest.oneField "currency"))
    else if name = "wallet_deleted" then
      return .walletDeleted (← Encoded.ofJson .held (← rest.oneField "currency"))
    else if name = "sync_progress" then
      let fs ← rest.fields .held ["timestamp", "percent_complete"]
      let timestamp ← (fs.getD "timestamp").asOption Instant.ofJson
      let percent ← (← fs.get "percent_complete").asSingle
      return .syncProgress timestamp percent
    else if name = "sync_stopped" then
      return .syncStopped (← (← rest.oneField "reason").asText)
    else if name = "block_updated" then
      return .blockUpdated (← readHeight (← rest.oneField "height"))
    else
      rest.noFields
      return if name = "created" then .created
        else if name = "deleted" then .deleted
        else if name = "sync_started" then .syncStarted
        else .syncRecommended

instance : Encoded WalletEvent where
  toJson
    | .created => .form "created"
    | .deleted => .form "deleted"
    | .balanceUpdated amount => .formWith "balance_updated" [("amount", amount.toJson)]
    | .feeBasisUpdated => .form "fee_basis_updated"
    | .transferAdded t => .formWith "transfer_added" [("transfer", Encoded.toJson t)]
    | .transferChanged t => .formWith "transfer_changed" [("transfer", Encoded.toJson t)]
    | .transferSubmitted t => .formWith "transfer_submitted" [("transfer", Encoded.toJson t)]
    | .transferDeleted t => .formWith "transfer_deleted" [("transfer", Encoded.toJson t)]
  ofJson source j := do
    let (name, rest) ← j.choice source "type"
      ["created", "deleted", "balance_updated", "fee_basis_updated", "transfer_added",
        "transfer_changed", "transfer_submitted", "transfer_deleted"]
    if name = "balance_updated" then
      return .balanceUpdated (← Decimal.ofJson (← rest.oneField "amount"))
    else if name = "transfer_added" then
      return .transferAdded (← Encoded.ofJson .held (← rest.oneField "transfer"))
    else if name = "transfer_changed" then
      return .transferChanged (← Encoded.ofJson .held (← rest.oneField "transfer"))
    else if name = "transfer_submitted" then
      return .transferSubmitted (← Encoded.ofJson .held (← rest.oneField "transfer"))
    else if name = "transfer_deleted" then
      return .transferDeleted (← Encoded.ofJson .held (← rest.oneField "transfer"))
    else
      rest.noFields
      return if name = "created" then .created
        else if name = "deleted" then .deleted
        else .feeBasisUpdated

instance : Encoded TransferEvent where
  toJson
    | .created => .form "created"
    | .changed oldState newState => .formWith "changed"
      [("old_state", Encoded.toJson oldState), ("new_state", Encoded.toJson newState)]
    | .deleted => .form "deleted"
  ofJson source j := do
    let (name, rest) ← j.choice source "type" ["created", "changed", "deleted"]
    if name = "changed" then
      let fs ← rest.fields .held ["old_state", "new_state"]
      let oldState ← Encoded.ofJson .held (← fs.get "old_state")
      let newState ← Encoded.ofJson .held (← fs.get "new_state")
      return .changed oldState newState
    else
      rest.noFields
      return if name = "created" then .created else .deleted

end WalletHub
