import WalletHub.Proofs.Encoding.Event
import WalletHub.Proofs.Memory.Storage

/-!
# Decoding undoes encoding

Whatever the program puts into JSON comes out of it again: what is read in the text of a value, on one line or
set out, is equal to the value (`Encoded.decode_undoes_encode`). Values are equal part by part, amounts by what
they are worth, and percents as numbers, so that zero has no sign. An amount or a percent must come back from
its own number (`Decimal.Kept`, `Single.Kept`), which not every one does, and a time must be one of the calendar.

## What is proved

* `Decimal.hold_of_ofJson`, `Json.hold_of_asSingle`, `Transfer.hold_toJson`: amounts, percents and transfers can
  be held where they come back at all, as the reader of an event does before it knows what it reads.
* `Transfer.exists_of_kept`, `Wallet.exists_of_kept`, `WalletEvent.exists_of_kept`,
  `ManagerEvent.exists_of_kept`: values with amounts or percents come back as equal ones.
* `Encoded.returns_of_ofJson`, `Encoded.returns_of_eq`: what holds of the trees holds of the texts in both
  layouts.
* `Encoded.decode_undoes_encode`: all types, with what each of them needs.
* `odd_values_return`: a wallet and an event at the edges of what can be written.
-/

namespace WalletHub

open Json (Source Fault)

/-! ### Equality -/

/-- Wallets are equal when all their parts are, the balance by its value. -/
instance : BEq Wallet where
  beq a b := a.currency == b.currency && a.balance == b.balance && a.managerState == b.managerState &&
    a.transfers == b.transfers

/-- The events are equal, amounts by their values. -/
def WalletEvent.same : WalletEvent → WalletEvent → Bool
  | .created, .created | .deleted, .deleted | .feeBasisUpdated, .feeBasisUpdated => true
  | .balanceUpdated a, .balanceUpdated b => a == b
  | .transferAdded t, .transferAdded u | .transferChanged t, .transferChanged u
  | .transferSubmitted t, .transferSubmitted u | .transferDeleted t, .transferDeleted u => t == u
  | _, _ => false

/-- The events are equal, percents as numbers. -/
def ManagerEvent.same : ManagerEvent → ManagerEvent → Bool
  | .syncProgress time percent, .syncProgress time' percent' => time == time' && percent.same percent'
  | e, e' => e == e'

/-! ### What can come back -/

/-- The percent comes back as the same number. -/
def Single.Kept (x : Single) : Prop := ∃ back, (Json.single x).asSingle = .ok back ∧ back.same x = true

/-- An instant of a year with four digits, outside leap seconds, is one of the calendar. -/
theorem Instant.ofCalendar_of_year {t : Instant}
    (year : 0 ≤ (Date.ofDays (Int.fdiv t.seconds 86400)).year ∧ (Date.ofDays (Int.fdiv t.seconds 86400)).year ≤ 9999)
    (nanos : t.nanos < 1000000000) : t.OfCalendar where
  first := Int.le_trans (by decide) year.1
  last := Int.le_trans year.2 (by decide)
  nanos := Nat.lt_trans nanos (by decide)
  leap late := absurd nanos (Nat.not_lt_of_le late)

/-- The time of the transfer is one of the calendar. -/
def Transfer.Dated (t : Transfer) : Prop := ∀ time ∈ t.confirmedAt, time.OfCalendar

/-- The amounts of the event come back with their values. -/
def WalletEvent.Kept (e : WalletEvent) : Prop :=
  (∀ amount, e = .balanceUpdated amount → amount.Kept) ∧ ∀ t ∈ e.transfer?, t.Kept

/-- The time of the event's transfer is one of the calendar. -/
def WalletEvent.Dated (e : WalletEvent) : Prop := ∀ t ∈ e.transfer?, t.Dated

/-- The percent of the event comes back as the same number. -/
def ManagerEvent.Kept (e : ManagerEvent) : Prop := ∀ time percent, e = .syncProgress time percent → Single.Kept percent

/-- The time of the event is one of the calendar. -/
def ManagerEvent.Dated (e : ManagerEvent) : Prop :=
  ∀ time percent, e = .syncProgress (some time) percent → time.OfCalendar

section

variable {source : Source}

/-! ### Numbers that can be held -/

/-- What is read as an amount can be held. -/
theorem Decimal.hold_of_ofJson (source : Source) {j : Json} {d : Decimal} (h : Decimal.ofJson j = .ok d) :
    source.hold j = .ok () := by
  cases j with
  | number n =>
    refine Source.hold_number _ ?_
    cases hmeaning : n.meaning? with
    | none => simp [Decimal.ofJson, hmeaning] at h
    | some meaning => rfl
  | string s =>
    cases s with
    | none => cases h
    | some s => exact Source.hold_text _ s
  | null | bool | array | object => cases h

/-- What is read as a percent can be held. -/
theorem Json.hold_of_asSingle (source : Source) {j : Json} {x : Single} (h : j.asSingle = .ok x) :
    source.hold j = .ok () := by
  cases j with
  | number n =>
    refine Source.hold_number _ ?_
    cases hmeaning : n.meaning? with
    | none => simp [Json.asSingle, hmeaning] at h
    | some meaning => rfl
  | null | bool | string | array | object => cases h

theorem Instant.hold_optionToJson (source : Source) (t : Option Instant) :
    source.hold (Instant.optionToJson t) = .ok () := by
  cases t with
  | none => exact Source.hold_null _
  | some t => exact Source.hold_text _ _

theorem Transfer.hold_toJson (h : source.Allows 2) {t : Transfer} (kept : t.Kept) :
    source.hold (Encoded.toJson t) = .ok () := by
  obtain ⟨⟨amount, hamount, -⟩, fee, hfee, -⟩ := kept
  refine Source.hold_record (h.mono (by decide)) ?_
  simp only [List.forall_mem_cons, List.not_mem_nil, false_imp_iff, implies_true, and_true]
  exact ⟨Source.hold_text _ _, Decimal.hold_of_ofJson _ hamount, Decimal.hold_of_ofJson _ hfee,
    Source.hold_text _ _, t.state.hold_toJson h.inner, Instant.hold_optionToJson _ _⟩

/-! ### Events with amounts and percents -/

theorem Transfer.exists_of_kept (h : source.Allows 2) {t : Transfer} (kept : t.Kept) (dated : t.Dated) :
    ∃ back, Encoded.ofJson source (Encoded.toJson t) = .ok back ∧ (back == t) = true := by
  rw [Transfer.ofJson_toJson h dated]
  exact t.kept_iff.mpr kept

/-- Lists are equal when their items are. -/
theorem beq_of_forall₂ {α : Type} [BEq α] {as bs : List α} (h : List.Forall₂ (fun a b => (b == a) = true) as bs) :
    (bs == as) = true := by
  induction h with
  | nil => rfl
  | cons hab _ ih =>
    show (_ && _) = true
    rw [hab]
    exact ih

theorem Wallet.exists_of_kept (h : source.Allows 4) {w : Wallet} (kept : w.Kept) (dated : w.Dated) :
    ∃ back, Encoded.ofJson source (Encoded.toJson w) = .ok back ∧ (back == w) = true := by
  obtain ⟨back, hback, hsame⟩ := w.kept_iff.mpr kept
  rw [← Wallet.ofJson_toJson h dated] at hback
  obtain ⟨hcurrency, hstate⟩ := Wallet.fields_of_ofJson (h.mono (by decide)) hback
  refine ⟨back, hback, ?_⟩
  show (back.currency == w.currency && back.balance == w.balance && back.managerState == w.managerState &&
    back.transfers == w.transfers) = true
  rw [hcurrency, hstate, hsame.balance, beq_of_forall₂ hsame.transfers, beq_self_eq_true, beq_self_eq_true]
  rfl

theorem WalletEvent.exists_of_kept (h : source.Allows 3) {e : WalletEvent} (kept : e.Kept) (dated : e.Dated) :
    ∃ back : WalletEvent, Encoded.ofJson source (Encoded.toJson e) = .ok back ∧ back.same e = true := by
  have hone : source.Allows 1 := h.mono (by decide)
  obtain ⟨hamounts, htransfers⟩ := kept
  have htransfer {t : Transfer} (ht : e.transfer? = some t) : source.inner.hold (Encoded.toJson t) = .ok () ∧
      ∃ back, Encoded.ofJson .held (Encoded.toJson t) = .ok back ∧ (back == t) = true :=
    ⟨Transfer.hold_toJson h.inner (htransfers t ht),
      Transfer.exists_of_kept (Source.allows_held 2) (htransfers t ht) (dated t ht)⟩
  delta instEncodedWalletEvent
  dsimp only
  cases e with
  | created | deleted | feeBasisUpdated =>
    dsimp only
    rw [Json.choice_form hone (by decide)]
    exact ⟨_, rfl, rfl⟩
  | balanceUpdated amount =>
    obtain ⟨back, hback, hsame⟩ := hamounts amount rfl
    dsimp only
    rw [Json.choice_formOne hone (by decide) (by decide) (Decimal.hold_of_ofJson _ hback)]
    refine ⟨.balanceUpdated back, ?_, hsame⟩
    rw [Decimal.stored] at hback
    simp [Json.oneField_record, hback, Bind.bind, Except.bind, pure, Except.pure]
  | transferAdded t | transferChanged t | transferSubmitted t | transferDeleted t =>
    obtain ⟨hheld, back, hback, hsame⟩ := htransfer rfl
    dsimp only
    rw [Json.choice_formOne hone (by decide) (by decide) hheld]
    simp only [Json.oneField_record, hback, Bind.bind, Except.bind, pure, Except.pure]
    exact ⟨_, rfl, hsame⟩

theorem ManagerEvent.same_self {e : ManagerEvent} (other : ∀ time percent, e ≠ .syncProgress time percent) :
    e.same e = true := by
  cases e with
  | syncProgress time percent => exact absurd rfl (other time percent)
  | _ => exact beq_self_eq_true _

theorem ManagerEvent.exists_of_kept (h : source.Allows 2) {e : ManagerEvent} (kept : e.Kept) (dated : e.Dated) :
    ∃ back : ManagerEvent, Encoded.ofJson source (Encoded.toJson e) = .ok back ∧ back.same e = true := by
  have hone : source.Allows 1 := h.mono (by decide)
  have hcurrency (c : Currency) := c.ofJson_toJson (Source.allows_held 1)
  have hstate (s : ManagerState) := s.ofJson_toJson (Source.allows_held 1)
  delta instEncodedManagerEvent
  dsimp only
  cases e with
  | created | deleted | syncStarted | syncRecommended =>
    dsimp only
    rw [Json.choice_form hone (by decide)]
    exact ⟨_, rfl, same_self (by simp)⟩
  | changed oldState newState =>
    refine ⟨_, ?_, same_self (by simp)⟩
    dsimp only
    rw [Json.choice_formWith hone (by decide) (by simp)
      (forall_hold_two (oldState.hold_toJson h.inner) (newState.hold_toJson h.inner))]
    simp [Json.fields_two, Json.Fields.get, List.lookup_cons, hstate, Bind.bind, Except.bind, pure, Except.pure]
  | walletAdded c | walletChanged c | walletDeleted c =>
    refine ⟨_, ?_, same_self (by simp)⟩
    dsimp only
    rw [Json.choice_formOne hone (by decide) (by decide) (c.hold_toJson h.inner)]
    simp [Json.oneField_record, hcurrency, Bind.bind, Except.bind, pure, Except.pure]
  | syncProgress time percent =>
    obtain ⟨back, hback, hsame⟩ := kept time percent rfl
    have htime : (Instant.optionToJson time).asOption Instant.ofJson = .ok time := by
      refine Instant.asOption_optionToJson fun t ht => dated t percent ?_
      rw [Option.mem_def.mp ht]
    refine ⟨.syncProgress time back, ?_, ?_⟩
    · dsimp only
      rw [Json.choice_formWith hone (by decide) (by simp)
        (forall_hold_two (Instant.hold_optionToJson _ time) (Json.hold_of_asSingle _ hback))]
      simp [Json.fields_two, Json.Fields.get, Json.Fields.getD, List.lookup_cons, htime, hback, Bind.bind, Except.bind,
        pure, Except.pure]
    · show (time == time && back.same percent) = true
      rw [hsame, beq_self_eq_true]
      rfl
  | syncStopped reason =>
    refine ⟨_, ?_, same_self (by simp)⟩
    dsimp only
    rw [Json.choice_formOne hone (by decide) (by decide) (Source.hold_text _ reason)]
    simp [Json.oneField_record, Json.asText_text, Bind.bind, Except.bind, pure, Except.pure]
  | blockUpdated height =>
    refine ⟨_, ?_, same_self (by simp)⟩
    dsimp only
    rw [Json.choice_formOne hone (by decide) (by decide) (Source.hold_nat _ height.toNat_lt)]
    simp [Json.oneField_record, readHeight_nat, Bind.bind, Except.bind, pure, Except.pure]

end

/-! ### Texts -/

namespace Encoded

/-- A text is read back as the tree that was written. -/
theorem decode_encode {α : Type} [Encoded α] (layout : Json.Layout) (a : α) :
    (decode (encode layout a) : Except Fault α) = ofJson .start (toJson a) := by
  rw [decode, encode, Json.parse_render]

/-- The value that is read in the text of `a`, in either layout, is equal to `a`. -/
def Returns {α : Type} [Encoded α] (equal : α → α → Bool) (a : α) : Prop :=
  ∀ layout, ∃ back, decode (encode layout a) = .ok back ∧ equal back a = true

variable {α : Type} [Encoded α] {a : α}

theorem returns_of_ofJson {equal : α → α → Bool}
    (h : ∃ back, ofJson .start (toJson a) = .ok back ∧ equal back a = true) : Returns equal a := by
  intro layout
  rw [decode_encode]
  exact h

/-- What comes back as it was is equal. -/
theorem returns_of_eq [BEq α] [LawfulBEq α] (h : ofJson .start (toJson a) = .ok a) : Returns (· == ·) a :=
  returns_of_ofJson ⟨a, h, beq_self_eq_true a⟩

/-- **Decoding undoes encoding.** A value of any of the types that are put into JSON is equal to what is read in
its text, on one line or set out: whatever texts, heights and bytes it has, however many parts, and whichever
form it takes; provided only that its amounts and percents come back from their own numbers and that its times
are times of the calendar. -/
theorem decode_undoes_encode :
    (∀ c : Currency, Returns (· == ·) c) ∧
    (∀ n : Network, Returns (· == ·) n) ∧
    (∀ d : Direction, Returns (· == ·) d) ∧
    (∀ s : TransferState, Returns (· == ·) s) ∧
    (∀ t : Transfer, t.Kept → t.Dated → Returns (· == ·) t) ∧
    (∀ s : ManagerState, Returns (· == ·) s) ∧
    (∀ m : Manager, Returns (· == ·) m) ∧
    (∀ w : Wallet, w.Kept → w.Dated → Returns (· == ·) w) ∧
    (∀ a : Account, a.createdAt.OfCalendar → Returns (· == ·) a) ∧
    (∀ e : SystemEvent, Returns (· == ·) e) ∧
    (∀ e : NetworkEvent, Returns (· == ·) e) ∧
    (∀ e : TransferEvent, Returns (· == ·) e) ∧
    (∀ e : WalletEvent, e.Kept → e.Dated → Returns WalletEvent.same e) ∧
    (∀ e : ManagerEvent, e.Kept → e.Dated → Returns ManagerEvent.same e) := by
  refine ⟨?_, ?_, ?_, ?_, ?_, ?_, ?_, ?_, ?_, ?_, ?_, ?_, ?_, ?_⟩
  · exact fun c => returns_of_eq (c.ofJson_toJson (by decide))
  · exact fun n => returns_of_eq (n.ofJson_toJson (by decide))
  · exact fun d => returns_of_eq (d.ofJson_toJson .start)
  · exact fun s => returns_of_eq (s.ofJson_toJson (by decide))
  · exact fun t kept dated => returns_of_ofJson (t.exists_of_kept (by decide) kept dated)
  · exact fun s => returns_of_eq (s.ofJson_toJson (by decide))
  · exact fun m => returns_of_eq (m.ofJson_toJson (by decide))
  · exact fun w kept dated => returns_of_ofJson (w.exists_of_kept (by decide) kept dated)
  · exact fun a dated => returns_of_eq (a.ofJson_toJson (by decide) dated)
  · exact fun e => returns_of_eq (e.ofJson_toJson (by decide))
  · exact fun e => returns_of_eq (e.ofJson_toJson (by decide))
  · exact fun e => returns_of_eq (e.ofJson_toJson (by decide))
  · exact fun e kept dated => returns_of_ofJson (e.exists_of_kept (by decide) kept dated)
  · exact fun e kept dated => returns_of_ofJson (e.exists_of_kept (by decide) kept dated)

/-- A wallet with places in its amounts, marks in its texts and a time to the nanosecond. -/
def oddWallet : Wallet :=
  ⟨⟨"bitcoin:__native__", "btc", "Bit\"coin\\ ₿\n", 255⟩, (Decimal.of? true 150 2).getD .zero, .disconnected "type",
    [⟨"", (Decimal.of? false 123456789 3).getD .zero, .zero, .recovered, .included 18446744073709551615,
      some ⟨-62167219200, 1⟩⟩]⟩

/-- Progress of a third of a percent, up to a block of the last second of the year 9999. -/
def oddProgress : ManagerEvent := .syncProgress (some ⟨253402300799, 999000000⟩) (Binary.round _ (1 / 3))

/-- Both come back equal, and so does the event that tells of the wallet's transfer. -/
theorem odd_values_return : Returns (· == ·) oddWallet ∧ Returns ManagerEvent.same oddProgress ∧
    ∀ t ∈ oddWallet.transfers, Returns WalletEvent.same (.transferDeleted t) := by
  obtain ⟨-, -, -, -, -, -, -, hwallet, -, -, -, -, hwalletEvent, hmanagerEvent⟩ := decode_undoes_encode
  have kept : ∀ t ∈ oddWallet.transfers, t.Kept := by
    intro t ht
    rw [List.mem_singleton.mp ht]
    exact ⟨by decide +kernel, by decide +kernel⟩
  have dated : ∀ t ∈ oddWallet.transfers, t.Dated := by
    intro t ht time htime
    rw [List.mem_singleton.mp ht] at htime
    obtain rfl := Option.some.inj htime
    exact Instant.ofCalendar_of_year (by decide +kernel) (by decide)
  refine ⟨hwallet _ ⟨by decide +kernel, kept⟩ dated, hmanagerEvent _ ?_ ?_, fun t ht => hwalletEvent _ ⟨nofun, ?_⟩ ?_⟩
  · rintro time percent ⟨⟩
    exact ⟨Binary.round _ (1 / 3), by decide +kernel, by decide +kernel⟩
  · rintro time percent ⟨⟩
    exact Instant.ofCalendar_of_year (by decide +kernel) (by decide)
  · rintro _ ⟨⟩
    exact kept t ht
  · rintro _ ⟨⟩
    exact dated t ht

end Encoded

end WalletHub
