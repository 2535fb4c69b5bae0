import WalletHub.Proofs.Json.Reading
import WalletHub.Proofs.Json.RoundTrip
import WalletHub.Proofs.Time.InstantText

/-!
# What is read back of a wallet

A wallet that is written and read again comes back as it was, but for its amounts: each amount is
written as a number of 64 bits, and what comes back is the amount that this number stands for, if it
stands for one. `stored` says this for an amount, a transfer and a wallet, and
`Wallet.ofJson_toJson` that the readers of JSON forms compute just that.

A form is read where some levels of nesting may still be entered; each law asks for the levels that its own
form takes.

## What is proved

* `Currency.ofJson_toJson`, `TransferState.ofJson_toJson`, `ManagerState.ofJson_toJson`,
  `Instant.asOption_optionToJson`: the parts without amounts come back as they were.
* `Transfer.ofJson_toJson_eq`, `Wallet.ofJson_toJson_eq`: what is read of a transfer and of a wallet, part by
  part.
* `Transfer.ofJson_toJson`, `Wallet.ofJson_toJson`: the same with times of the calendar, in the words of
  `stored`.
* `Transfer.hash_of_ofJson`, `Wallet.fields_of_ofJson`: whatever is read, it has the hash, or the currency and
  the hashes, that were written; for this no condition on times or amounts is needed.
-/

namespace WalletHub

open Json (Source Fault)

/-! ### What comes back -/

/-- The amount that comes back. -/
def Decimal.stored (d : Decimal) : Except Fault Decimal := Decimal.ofJson d.toJson

/-- The transfer that comes back. -/
def Transfer.stored (t : Transfer) : Except Fault Transfer := do
  let amount ← t.amount.stored
  let fee ← t.fee.stored
  return { t with amount := amount, fee := fee }

/-- The wallet that comes back. -/
def Wallet.stored (w : Wallet) : Except Fault Wallet := do
  let balance ← w.balance.stored
  let transfers ← w.transfers.mapM Transfer.stored
  return { w with balance := balance, transfers := transfers }

/-- The times of a wallet are times of the calendar. -/
def Wallet.Dated (w : Wallet) : Prop := ∀ t ∈ w.transfers, ∀ time ∈ t.confirmedAt, time.OfCalendar

/-! ### Forms without amounts -/

section

variable {source : Source}

theorem Currency.ofJson_toJson (h : source.Allows 1) (c : Currency) :
    Encoded.ofJson source (Encoded.toJson c) = .ok c := by
  have hdecimals := Json.asNat_nat c.decimals.toNat_lt (by decide)
  simp [Encoded.ofJson, Encoded.toJson, Json.record, Json.fields, h.enter, Json.knownMembers,
    Json.Fields.get, List.lookup_cons, Json.asText_text, hdecimals, Bind.bind, Except.bind, pure, Except.pure]

theorem Direction.ofJson_toJson (source : Source) (d : Direction) :
    Encoded.ofJson source (Encoded.toJson d) = .ok d := by
  cases d <;> rfl

theorem readHeight_nat (height : UInt64) : readHeight (.nat height.toNat) = .ok height := by
  have hnumber := Json.asNat_nat (b := Json.Numeral.wordBound) height.toNat_lt (by decide)
  rw [readHeight, hnumber, Except.map, UInt64.ofNat_toNat]

theorem TransferState.ofJson_toJson (h : source.Allows 1) (s : TransferState) :
    Encoded.ofJson source (Encoded.toJson s) = .ok s := by
  cases s with
  | included height =>
    simp only [Encoded.ofJson, Encoded.toJson]
    rw [Json.choice_formOne h (by decide) (by decide) (Source.hold_nat _ height.toNat_lt)]
    show (do
      let j ← (Json.record [("block_height", .nat height.toNat)]).oneField "block_height"
      return included (← readHeight j)) = Except.ok (included height)
    rw [Json.oneField_record]
    show (do return included (← readHeight (.nat height.toNat))) = Except.ok (included height)
    rw [readHeight_nat]
    rfl
  | failed reason =>
    simp only [Encoded.ofJson, Encoded.toJson]
    rw [Json.choice_formOne h (by decide) (by decide) (Source.hold_text _ reason)]
    show (do
      let j ← (Json.record [("reason", .text reason)]).oneField "reason"
      return failed (← j.asText)) = Except.ok (failed reason)
    rw [Json.oneField_record]
    rfl
  | created | signed | submitted | deleted =>
    simp only [Encoded.ofJson, Encoded.toJson]
    rw [Json.choice_form h (by decide)]
    rfl

theorem ManagerState.ofJson_toJson (h : source.Allows 1) (s : ManagerState) :
    Encoded.ofJson source (Encoded.toJson s) = .ok s := by
  cases s with
  | disconnected reason =>
    simp only [Encoded.ofJson, Encoded.toJson]
    rw [Json.choice_formOne h (by decide) (by decide) (Source.hold_text _ reason)]
    show (do
      let j ← (Json.record [("reason", .text reason)]).oneField "reason"
      return disconnected (← j.asText)) = Except.ok (disconnected reason)
    rw [Json.oneField_record]
    rfl
  | created | connected | syncing | deleted =>
    simp only [Encoded.ofJson, Encoded.toJson]
    rw [Json.choice_form h (by decide)]
    rfl

/-! ### Forms with amounts -/

theorem Instant.ofJson_toJson {t : Instant} (h : t.OfCalendar) : Instant.ofJson t.toJson = .ok t := by
  simp [Instant.ofJson, Instant.toJson, Json.asText_text, Instant.ofText?_toText h, Bind.bind, Except.bind]

theorem Instant.asOption_optionToJson {t : Option Instant} (h : ∀ time ∈ t, time.OfCalendar) :
    (Instant.optionToJson t).asOption Instant.ofJson = .ok t := by
  cases t with
  | none => rfl
  | some time =>
    have hback := Instant.ofJson_toJson (h time rfl)
    show ((Instant.ofJson time.toJson).map some) = .ok (some time)
    rw [hback]
    rfl

/-- A transfer comes back but for its amounts and its time of confirmation, whatever becomes of these. -/
theorem Transfer.ofJson_toJson_eq (h : source.Allows 2) (t : Transfer) :
    Encoded.ofJson source (Encoded.toJson t) = (do
      let amount ← t.amount.stored
      let fee ← t.fee.stored
      let confirmedAt ← (Instant.optionToJson t.confirmedAt).asOption Instant.ofJson
      return { t with amount := amount, fee := fee, confirmedAt := confirmedAt }) := by
  have hstate := TransferState.ofJson_toJson h.inner t.state
  have hdirection := Direction.ofJson_toJson source.inner t.direction
  delta instEncodedTransfer
  dsimp only
  simp [Json.record, Json.fields, h.enter, Json.knownMembers, Json.Fields.get, Json.Fields.getD,
    List.lookup_cons, Json.asText_text, Bind.bind, Except.bind, pure, Except.pure, Decimal.stored, hstate, hdirection]

theorem Transfer.ofJson_toJson (h : source.Allows 2) {t : Transfer}
    (hdate : ∀ time ∈ t.confirmedAt, time.OfCalendar) : Encoded.ofJson source (Encoded.toJson t) = t.stored := by
  rw [ofJson_toJson_eq h, Instant.asOption_optionToJson hdate, stored]
  rfl

/-- A transfer that comes back has its hash. -/
theorem Transfer.hash_of_ofJson (h : source.Allows 2) {t back : Transfer}
    (hback : Encoded.ofJson source (Encoded.toJson t) = .ok back) : back.hash = t.hash := by
  rw [ofJson_toJson_eq h] at hback
  cases hamount : t.amount.stored with
  | error fault => simp [hamount, Bind.bind, Except.bind] at hback
  | ok amount =>
    cases hfee : t.fee.stored with
    | error fault => simp [hamount, hfee, Bind.bind, Except.bind] at hback
    | ok fee =>
      cases htime : (Instant.optionToJson t.confirmedAt).asOption Instant.ofJson with
      | error fault => simp [hamount, hfee, htime, Bind.bind, Except.bind] at hback
      | ok time =>
        obtain rfl : { t with amount := amount, fee := fee, confirmedAt := time } = back := by
          simpa [hamount, hfee, htime, Bind.bind, Except.bind, pure, Except.pure] using hback
        rfl

/-- The currency of a wallet and the state of its manager come back whatever becomes of the rest. -/
theorem Wallet.ofJson_toJson_eq (h : source.Allows 2) (w : Wallet) :
    Encoded.ofJson source (Encoded.toJson w) = (do
      let balance ← w.balance.stored
      let transfers ← Json.asList source.inner Encoded.ofJson (.array (w.transfers.map Encoded.toJson))
      return { w with balance := balance, transfers := transfers }) := by
  have hcurrency := Currency.ofJson_toJson h.inner w.currency
  have hstate := ManagerState.ofJson_toJson h.inner w.managerState
  delta instEncodedWallet
  dsimp only
  simp [Json.record, Json.fields, h.enter, Json.knownMembers, Json.Fields.get, List.lookup_cons, Bind.bind,
    Except.bind, pure, Except.pure, Decimal.stored, hcurrency, hstate]

/-- **A wallet comes back with the amounts that its written amounts stand for.** -/
theorem Wallet.ofJson_toJson (h : source.Allows 4) {w : Wallet} (hdates : w.Dated) :
    Encoded.ofJson source (Encoded.toJson w) = w.stored := by
  have htransfers := Json.asList_map (h.inner.mono (by decide)) Encoded.toJson Encoded.ofJson Transfer.stored
    w.transfers fun t ht => Transfer.ofJson_toJson h.inner.inner (hdates t ht)
  rw [ofJson_toJson_eq (h.mono (by decide)), htransfers, stored]

/-- A wallet comes back with its currency and the state of its manager, and with the transfers that are read. -/
theorem Wallet.exists_of_ofJson (h : source.Allows 2) {w back : Wallet}
    (hback : Encoded.ofJson source (Encoded.toJson w) = .ok back) : ∃ balance transfers,
      Json.asList source.inner Encoded.ofJson (.array (w.transfers.map Encoded.toJson)) = .ok transfers ∧
        back = { w with balance := balance, transfers := transfers } := by
  rw [ofJson_toJson_eq h] at hback
  cases hbalance : w.balance.stored with
  | error fault => simp [hbalance, Bind.bind, Except.bind] at hback
  | ok balance =>
    cases htransfers : Json.asList source.inner (Encoded.ofJson (α := Transfer))
        (.array (w.transfers.map Encoded.toJson)) with
    | error fault => simp [hbalance, htransfers, Bind.bind, Except.bind] at hback
    | ok transfers =>
      obtain rfl : { w with balance := balance, transfers := transfers } = back := by
        simpa [hbalance, htransfers, Bind.bind, Except.bind, pure, Except.pure] using hback
      exact ⟨balance, transfers, rfl, rfl⟩

/-- A wallet that comes back is of the same currency, and its manager in the same state. -/
theorem Wallet.fields_of_ofJson (h : source.Allows 2) {w back : Wallet}
    (hback : Encoded.ofJson source (Encoded.toJson w) = .ok back) :
    back.currency = w.currency ∧ back.managerState = w.managerState := by
  obtain ⟨balance, transfers, -, rfl⟩ := exists_of_ofJson h hback
  exact ⟨rfl, rfl⟩

end

end WalletHub
