import WalletHub.Encoding.Event
import WalletHub.Proofs.Encoding.Wallet

/-!
# What is read back of an event

Networks, accounts, managers, and those events that carry no amounts come back as they were. To find the name of
an event the rest of its tree is held first, and its parts are then read from there; so each part needs two
laws, that it can be held (`hold_toJson`) and that it is read back from wherever it is (`ofJson_toJson`).

## What is proved

* `Currency.hold_toJson`, `Network.hold_toJson`, `TransferState.hold_toJson`, `ManagerState.hold_toJson`,
  `Manager.hold_toJson`: the parts of events can be held.
* `Network.ofJson_toJson`, `Manager.ofJson_toJson`, `Account.ofJson_toJson`: networks, managers and accounts come
  back as they were, an account with the time at which it was created if that is one of the calendar.
* `SystemEvent.ofJson_toJson`, `NetworkEvent.ofJson_toJson`, `TransferEvent.ofJson_toJson`: so do these events.
* `asList_bytes`: the bytes of an account come back one by one.
-/

namespace WalletHub

open Json (Source Fault)

section

variable {source : Source}

/-! ### What can be held -/

theorem Currency.hold_toJson (h : source.Allows 1) (c : Currency) : source.hold (Encoded.toJson c) = .ok () := by
  have hdecimals : c.decimals.toNat < Json.Numeral.wordBound := Nat.lt_trans c.decimals.toNat_lt (by decide)
  refine Source.hold_record h ?_
  simp only [List.forall_mem_cons, List.not_mem_nil, false_imp_iff, implies_true, and_true]
  exact ⟨Source.hold_text _ _, Source.hold_text _ _, Source.hold_text _ _, Source.hold_nat _ hdecimals⟩

theorem Network.hold_toJson (h : source.Allows 2) (n : Network) : source.hold (Encoded.toJson n) = .ok () := by
  refine Source.hold_record (h.mono (by decide)) ?_
  simp only [List.forall_mem_cons, List.not_mem_nil, false_imp_iff, implies_true, and_true]
  exact ⟨Source.hold_text _ _, Source.hold_text _ _, Source.hold_bool _ _, n.currency.hold_toJson h.inner⟩

/-- A form without fields can be held. -/
theorem Json.Source.hold_form (h : source.Allows 1) (name : String) : source.hold (.form name) = .ok () := by
  refine Source.hold_record h fun f hf => ?_
  rw [List.mem_singleton.mp hf]
  exact Source.hold_text _ name

/-- A form with one field can be held if the field can. -/
theorem Json.Source.hold_formOne (h : source.Allows 1) (name : String) {field : String} {j : Json}
    (inner : source.inner.hold j = .ok ()) : source.hold (.formWith name [(field, j)]) = .ok () := by
  refine Source.hold_record h ?_
  simp only [List.forall_mem_cons, List.not_mem_nil, false_imp_iff, implies_true, and_true]
  exact ⟨Source.hold_text _ name, inner⟩

theorem TransferState.hold_toJson (h : source.Allows 1) (s : TransferState) :
    source.hold (Encoded.toJson s) = .ok () := by
  cases s with
  | included height => exact Source.hold_formOne h _ (Source.hold_nat _ height.toNat_lt)
  | failed reason => exact Source.hold_formOne h _ (Source.hold_text _ reason)
  | created | signed | submitted | deleted => exact Source.hold_form h _

theorem ManagerState.hold_toJson (h : source.Allows 1) (s : ManagerState) :
    source.hold (Encoded.toJson s) = .ok () := by
  cases s with
  | disconnected reason => exact Source.hold_formOne h _ (Source.hold_text _ reason)
  | created | connected | syncing | deleted => exact Source.hold_form h _

theorem Manager.hold_toJson (h : source.Allows 2) (m : Manager) : source.hold (Encoded.toJson m) = .ok () := by
  refine Source.hold_record (h.mono (by decide)) ?_
  simp only [List.forall_mem_cons, List.not_mem_nil, false_imp_iff, implies_true, and_true]
  exact ⟨m.currency.hold_toJson h.inner, Source.hold_text _ _, m.state.hold_toJson h.inner⟩

/-! ### Networks, accounts and managers -/

theorem Network.ofJson_toJson (h : source.Allows 2) (n : Network) :
    Encoded.ofJson source (Encoded.toJson n) = .ok n := by
  have hcurrency := Currency.ofJson_toJson h.inner n.currency
  delta instEncodedNetwork
  dsimp only
  simp [Json.record, Json.fields, h.enter, Json.knownMembers, Json.Fields.get, List.lookup_cons, Json.asText_text,
    Json.asBool, hcurrency, Bind.bind, Except.bind, pure, Except.pure]

theorem Manager.ofJson_toJson (h : source.Allows 2) (m : Manager) :
    Encoded.ofJson source (Encoded.toJson m) = .ok m := by
  have hcurrency := Currency.ofJson_toJson h.inner m.currency
  have hstate := ManagerState.ofJson_toJson h.inner m.state
  delta instEncodedManager
  dsimp only
  simp [Json.record, Json.fields, h.enter, Json.knownMembers, Json.Fields.get, List.lookup_cons, Json.asText_text,
    hcurrency, hstate, Bind.bind, Except.bind, pure, Except.pure]

/-- The bytes of an account come back one by one. -/
theorem asList_bytes (h : source.Allows 1) (bytes : List UInt8) :
    Json.asList source (fun _ j => j.asNat 256) (.array (bytes.map fun b => .nat b.toNat)) =
      .ok (bytes.map UInt8.toNat) := by
  rw [Json.asList_map h (fun b : UInt8 => Json.nat b.toNat) _ (fun b => .ok b.toNat) bytes
    fun b _ => Json.asNat_nat b.toNat_lt (by decide)]
  induction bytes with
  | nil => rfl
  | cons b bytes ih =>
    rw [List.mapM_cons, ih]
    rfl

theorem Account.ofJson_toJson (h : source.Allows 2) {a : Account} (dated : a.createdAt.OfCalendar) :
    Encoded.ofJson source (Encoded.toJson a) = .ok a := by
  have hcreated := Instant.ofJson_toJson dated
  have hbytes := asList_bytes h.inner a.serialized
  have hback : a.serialized.map (UInt8.ofNat ∘ UInt8.toNat) = a.serialized :=
    (List.map_congr_left fun b _ => UInt8.ofNat_toNat).trans (List.map_id _)
  delta instEncodedAccount
  dsimp only
  simp [Json.record, Json.fields, h.enter, Json.knownMembers, Json.Fields.get, List.lookup_cons, Json.asText_text,
    hcreated, hbytes, hback, Bind.bind, Except.bind, pure, Except.pure]

/-! ### Events -/

theorem SystemEvent.ofJson_toJson (h : source.Allows 4) (e : SystemEvent) :
    Encoded.ofJson source (Encoded.toJson e) = .ok e := by
  have hone : source.Allows 1 := h.mono (by decide)
  delta instEncodedSystemEvent
  dsimp only
  cases e with
  | created | deleted =>
    dsimp only
    rw [Json.choice_form hone (by decide)]
    rfl
  | networkAdded n =>
    have hback := n.ofJson_toJson (Source.allows_held 2)
    dsimp only
    rw [Json.choice_formOne hone (by decide) (by decide) (n.hold_toJson (h.inner.mono (by decide)))]
    simp [Json.oneField_record, hback, Bind.bind, Except.bind, pure, Except.pure]
  | managerAdded m =>
    have hback := m.ofJson_toJson (Source.allows_held 2)
    dsimp only
    rw [Json.choice_formOne hone (by decide) (by decide) (m.hold_toJson (h.inner.mono (by decide)))]
    simp [Json.oneField_record, hback, Bind.bind, Except.bind, pure, Except.pure]
  | discoveredNetworks ns =>
    have hback : Json.asList .held Encoded.ofJson (.array (ns.map Encoded.toJson)) = .ok ns := by
      rw [Json.asList_map (Source.allows_held 1) Encoded.toJson Encoded.ofJson .ok ns
        fun n _ => n.ofJson_toJson (Source.allows_held 2)]
      exact Json.mapM_eq_ok_self fun _ _ => rfl
    have hheld : source.inner.hold (.array (ns.map Encoded.toJson)) = .ok () := by
      refine Source.hold_list (h.inner.mono (by decide)) fun item hitem => ?_
      obtain ⟨n, -, rfl⟩ := List.mem_map.mp hitem
      exact n.hold_toJson h.inner.inner
    dsimp only
    rw [Json.choice_formOne hone (by decide) (by decide) hheld]
    simp [Json.oneField_record, hback, Bind.bind, Except.bind, pure, Except.pure]

theorem NetworkEvent.ofJson_toJson (h : source.Allows 1) (e : NetworkEvent) :
    Encoded.ofJson source (Encoded.toJson e) = .ok e := by
  cases e with
  | created | feesUpdated =>
    simp only [Encoded.ofJson, Encoded.toJson]
    rw [Json.choice_form h (by decide)]
    rfl

/-- The two states of a change can be held beside each other. -/
theorem forall_hold_two {first second : String} {j k : Json} (hj : source.hold j = .ok ())
    (hk : source.hold k = .ok ()) : ∀ f ∈ [(first, j), (second, k)], source.hold f.2 = .ok () := by
  simp only [List.forall_mem_cons, List.not_mem_nil, false_imp_iff, implies_true, and_true]
  exact ⟨hj, hk⟩

theorem TransferEvent.ofJson_toJson (h : source.Allows 2) (e : TransferEvent) :
    Encoded.ofJson source (Encoded.toJson e) = .ok e := by
  have hone : source.Allows 1 := h.mono (by decide)
  delta instEncodedTransferEvent
  dsimp only
  cases e with
  | created | deleted =>
    dsimp only
    rw [Json.choice_form hone (by decide)]
    rfl
  | changed oldState newState =>
    have hback (s : TransferState) := TransferState.ofJson_toJson (Source.allows_held 1) s
    dsimp only
    rw [Json.choice_formWith hone (by decide) (by simp)
      (forall_hold_two (oldState.hold_toJson h.inner) (newState.hold_toJson h.inner))]
    simp [Json.fields_two, Json.Fields.get, List.lookup_cons, hback, Bind.bind, Except.bind, pure, Except.pure]

end

end WalletHub
