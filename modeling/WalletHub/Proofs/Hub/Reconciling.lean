import WalletHub.Proofs.Hub.Wallets
import WalletHub.Proofs.Transfer
import WalletHub.Scripted

/-!
# What an opening leaves on the channels

While a hub is closed its channels fall behind its system. An opening goes through the wallets and
rewrites the channels of their currencies, each kind by a rule of its own (`Board.Refreshed`): the
transfers always, the progress only where it contradicts the wallet, and the last update only where the
wallet has its transfer in another form. A wallet leaves the channels of other currencies alone
(`Board.Untouched`), so that where no two wallets share a code every rule holds of the opening as a whole
(`Hub.reconciled_of_openFor`), whatever was on the channels before and whatever the system is.

## What is proved

* `Board.untouched_refresh`, `Board.refreshed_refresh`: what the pass over one wallet does to the channels of
  another currency, which is nothing, and to those of its own.
* `Board.untouched_foldl`, `Board.refreshed_foldl`: the same of the pass over all wallets, by induction on the
  list before the wallet and after it.
* `Board.reconciled_reconcile`: the board is up to date after the pass, in all five kinds of channel.
* `Hub.reconciled_of_openFor`: so it is after every opening that goes through, and the channels of a currency
  without a wallet are as they were.
* `opening_catches_up`: a hub that missed the failing of a transfer and the loss of a connection tells of both.
-/

namespace WalletHub

namespace Board

/-! ### The channels of one code -/

/-- The channels of a code are as they were. -/
structure Untouched (b b' : Board) (code : String) : Prop where
  sync : b'.sync.get code = b.sync.get code
  transfers : b'.transfers.get code = b.transfers.get code
  updates : b'.updates.get code = b.updates.get code

/-- The channels of a code are up to date with the wallet of the code. -/
structure Refreshed (b b' : Board) (w : Wallet) (code : String) : Prop where
  transfers : b'.transfers.get code = (b.transfers.get code).offer w.transfers
  /-- Progress that agrees with the wallet stays, and so does a channel without progress. -/
  syncKept : (∀ p, (b.sync.get code).latest = some p → p.syncing = w.isSyncing) →
    b'.sync.get code = b.sync.get code
  syncReplaced : ∀ p, (b.sync.get code).latest = some p → p.syncing ≠ w.isSyncing →
    b'.sync.get code = (b.sync.get code).offer (.initial w.code w.isSyncing)
  /-- What was updated last is the only transfer of its hash, in the form that the wallet has. -/
  updateKept : ∀ u t, (b.updates.get code).latest = some u →
    w.transfers.filter (fun t => t.hash == u.hash) = [t] → (t == u) = true →
    b'.updates.get code = b.updates.get code
  updateReplaced : ∀ u t, (b.updates.get code).latest = some u →
    w.transfers.filter (fun t => t.hash == u.hash) = [t] → (t == u) = false →
    b'.updates.get code = (b.updates.get code).offer t
  /-- The wallet has no transfer of the hash that was updated last, or several; or nothing was
  updated. -/
  updateLeft : (∀ u, (b.updates.get code).latest = some u →
    (w.transfers.filter fun t => t.hash == u.hash).length ≠ 1) →
    b'.updates.get code = b.updates.get code

namespace Untouched

variable {b b' b'' : Board} {code : String}

theorem refl (b : Board) (code : String) : b.Untouched b code := ⟨rfl, rfl, rfl⟩

theorem trans (h : b.Untouched b' code) (h' : b'.Untouched b'' code) : b.Untouched b'' code :=
  ⟨h'.sync.trans h.sync, h'.transfers.trans h.transfers, h'.updates.trans h.updates⟩

end Untouched

namespace Refreshed

variable {b b' b'' : Board} {w : Wallet} {code : String}

theorem after (h : b.Untouched b' code) (h' : b'.Refreshed b'' w code) : b.Refreshed b'' w code := by
  obtain ⟨transfers, syncKept, syncReplaced, updateKept, updateReplaced, updateLeft⟩ := h'
  rw [h.sync] at syncKept syncReplaced
  rw [h.transfers] at transfers
  rw [h.updates] at updateKept updateReplaced updateLeft
  exact ⟨transfers, syncKept, syncReplaced, updateKept, updateReplaced, updateLeft⟩

theorem before (h : b.Refreshed b' w code) (h' : b'.Untouched b'' code) : b.Refreshed b'' w code := by
  obtain ⟨transfers, syncKept, syncReplaced, updateKept, updateReplaced, updateLeft⟩ := h
  rw [← h'.sync] at syncKept syncReplaced
  rw [← h'.transfers] at transfers
  rw [← h'.updates] at updateKept updateReplaced updateLeft
  exact ⟨transfers, syncKept, syncReplaced, updateKept, updateReplaced, updateLeft⟩

end Refreshed

/-! ### Single wallets -/

theorem untouched_refresh (b : Board) {w : Wallet} {code : String}
    (other : w.currency.hasCode code = false) : b.Untouched (b.refresh w) code := by
  have hkey : Currency.key code ≠ Currency.key w.code := by
    rw [← Bool.not_eq_true, Currency.hasCode_iff] at other
    exact Ne.symm other
  constructor
  · simp only [refresh]
    split
    · rw [Channels.get_offer, if_neg hkey]
    · rfl
  · simp only [refresh, Channels.get_offer, if_neg hkey]
  · simp only [refresh]
    split
    · rw [Channels.get_offer, if_neg hkey]
    · rfl

theorem staleSync_eq_none {b : Board} {w : Wallet}
    (agrees : ∀ p, (b.sync.get w.code).latest = some p → p.syncing = w.isSyncing) :
    b.staleSync w = none := by
  unfold staleSync
  split
  · next p hp => rw [if_pos (agrees p hp)]
  · rfl

theorem staleUpdate_eq {b : Board} {w : Wallet} {u t : Transfer}
    (hu : (b.updates.get w.code).latest = some u)
    (ht : w.transfers.filter (fun t => t.hash == u.hash) = [t]) :
    b.staleUpdate w = if t == u then none else some t := by
  simp only [staleUpdate, hu, Wallet.transfer?, ht]

theorem staleUpdate_eq_none {b : Board} {w : Wallet}
    (several : ∀ u, (b.updates.get w.code).latest = some u →
      (w.transfers.filter fun t => t.hash == u.hash).length ≠ 1) : b.staleUpdate w = none := by
  unfold staleUpdate Wallet.transfer?
  split
  · next u hu =>
    split
    · next t ht =>
      split at ht
      · next t' hfilter => exact absurd (congrArg List.length hfilter) (several u hu)
      · exact nomatch ht
    · rfl
  · rfl

/-- A wallet brings the channels of its code up to date. -/
theorem refreshed_refresh (b : Board) {w : Wallet} {code : String}
    (found : w.currency.hasCode code = true) : b.Refreshed (b.refresh w) w code := by
  have hkey : Currency.key code = Currency.key w.code := ((Currency.hasCode_iff _ _).mp found).symm
  have hget {α : Type} (cs : Channels α) : cs.get code = cs.get w.code := cs.get_congr hkey
  constructor
  · simp only [refresh, hget, Channels.get_offer, if_true]
  · intro agrees
    rw [hget] at agrees
    simp only [refresh, staleSync_eq_none agrees]
  · intro p hp stale
    rw [hget] at hp
    have hstale : b.staleSync w = some (.initial w.code w.isSyncing) := by
      simp only [staleSync, hp, if_neg stale]
    simp only [refresh, hstale, hget, Channels.get_offer, if_true]
  · intro u t hu ht same
    rw [hget] at hu
    have hnone : b.staleUpdate w = none := by rw [staleUpdate_eq hu ht, if_pos same]
    simp only [refresh, hnone]
  · intro u t hu ht other
    rw [hget] at hu
    have hsome : b.staleUpdate w = some t := by
      rw [staleUpdate_eq hu ht, other, if_neg Bool.false_ne_true]
    simp only [refresh, hsome, hget, Channels.get_offer, if_true]
  · intro several
    rw [hget] at several
    simp only [refresh, staleUpdate_eq_none several]

/-! ### All wallets -/

theorem untouched_foldl {code : String} (ws : List Wallet) (b : Board)
    (others : ∀ w ∈ ws, w.currency.hasCode code = false) : b.Untouched (ws.foldl refresh b) code := by
  induction ws generalizing b with
  | nil => exact .refl b code
  | cons w ws ih =>
    have hfirst := b.untouched_refresh (others w List.mem_cons_self)
    have hrest := ih (b.refresh w) fun x hx => others x (List.mem_cons_of_mem w hx)
    exact hfirst.trans hrest

/-- The only wallet of a code brings the channels of the code up to date, wherever it stands. -/
theorem refreshed_foldl {code : String} (before after : List Wallet) {w : Wallet} (b : Board)
    (found : w.currency.hasCode code = true) (others : ∀ x ∈ before ++ after, x.currency.hasCode code = false) :
    b.Refreshed ((before ++ w :: after).foldl refresh b) w code := by
  rw [List.foldl_append, List.foldl_cons]
  have hbefore := untouched_foldl before b fun x hx => others x (List.mem_append_left after hx)
  have hafter := untouched_foldl after ((before.foldl refresh b).refresh w) fun x hx =>
    others x (List.mem_append_right before hx)
  exact ((refreshed_refresh _ found).before hafter).after hbefore

/-- The channels that belong to no currency. -/
theorem holder_foldl_refresh (ws : List Wallet) (b : Board) :
    (ws.foldl refresh b).system = b.system ∧ (ws.foldl refresh b).account = b.account := by
  induction ws generalizing b with
  | nil => exact ⟨rfl, rfl⟩
  | cons w ws ih => exact ih (b.refresh w)

/-- The board is up to date with a system that has this account and these wallets. -/
structure Reconciled (owner : Account) (ws : List Wallet) (b b' : Board) : Prop where
  system : b'.system = b.system.offer ⟨owner⟩
  account : b'.account = b.account.offer owner
  wallets : b'.wallets = b.wallets.offer ws
  refreshed : ∀ w ∈ ws, ∀ code, w.currency.hasCode code = true → b.Refreshed b' w code
  untouched : ∀ code, (∀ w ∈ ws, w.currency.hasCode code = false) → b.Untouched b' code

/-- A wallet that shares its code with no other is the only one of every code that it has. -/
theorem others_of_pairwise {before after : List Wallet} {w : Wallet} {code : String}
    (distinct : (before ++ w :: after).Pairwise fun a b => a.currency.hasCode b.code = false)
    (found : w.currency.hasCode code = true) :
    ∀ x ∈ before ++ after, x.currency.hasCode code = false := by
  have hkey : Currency.key w.code = Currency.key code := (Currency.hasCode_iff _ _).mp found
  obtain ⟨-, hafter, hbefore⟩ := List.pairwise_append.mp distinct
  intro x hx
  rw [← Bool.not_eq_true, Currency.hasCode_iff, ← hkey, ← Currency.hasCode_iff, Bool.not_eq_true]
  rcases List.mem_append.mp hx with hx | hx
  · exact hbefore x hx w List.mem_cons_self
  · have hother := (List.pairwise_cons.mp hafter).1 x hx
    rw [← Bool.not_eq_true, Currency.hasCode_iff] at hother ⊢
    exact Ne.symm hother

theorem untouched_reconcile (owner : Account) {ws : List Wallet} {code : String} (b : Board)
    (others : ∀ w ∈ ws, w.currency.hasCode code = false) : b.Untouched (b.reconcile owner ws) code := by
  let told : Board := { b with system := b.system.offer ⟨owner⟩, account := b.account.offer owner }
  have hhead : b.Untouched told code := ⟨rfl, rfl, rfl⟩
  have hlast (b' : Board) : b'.Untouched (b'.offerWallets ws) code := ⟨rfl, rfl, rfl⟩
  exact (hhead.trans (untouched_foldl ws told others)).trans (hlast _)

theorem refreshed_reconcile (owner : Account) {before after : List Wallet} {w : Wallet} {code : String}
    (b : Board) (found : w.currency.hasCode code = true)
    (others : ∀ x ∈ before ++ after, x.currency.hasCode code = false) :
    b.Refreshed (b.reconcile owner (before ++ w :: after)) w code := by
  let told : Board := { b with system := b.system.offer ⟨owner⟩, account := b.account.offer owner }
  have hhead : b.Untouched told code := ⟨rfl, rfl, rfl⟩
  have hlast (b' : Board) : b'.Untouched (b'.offerWallets (before ++ w :: after)) code := ⟨rfl, rfl, rfl⟩
  exact ((refreshed_foldl before after told found others).before (hlast _)).after hhead

theorem reconciled_reconcile (owner : Account) {ws : List Wallet} (b : Board)
    (distinct : ws.Pairwise fun a b => a.currency.hasCode b.code = false) :
    b.Reconciled owner ws (b.reconcile owner ws) := by
  constructor
  · exact (holder_foldl_refresh ws _).1
  · exact (holder_foldl_refresh ws _).2
  · exact wallets_reconcile owner ws b
  · intro w hw code found
    obtain ⟨before, after, rfl⟩ := List.append_of_mem hw
    exact refreshed_reconcile owner b found (others_of_pairwise distinct found)
  · intro code others
    exact untouched_reconcile owner b others

end Board

/-! ### Openings -/

/-- **An opening brings every channel up to date**: for every hub and every kind of system, whatever the
channels held before, as long as no two wallets of the system share a code. -/
theorem Hub.reconciled_of_openFor {φ σ : Type} [WalletSystem σ] [SystemFactory φ σ] {account : Account}
    {session : Session} {h h' : Hub σ} {e e' : Surroundings φ}
    (opened : h.openFor account session e = (.ok (), h', e'))
    (distinct : h'.wallets.Pairwise fun a b => a.currency.hasCode b.code = false) :
    ∃ s, (h.handle = none ∨ h.handle = some s) ∧ h'.handle = some (WalletSystem.connect s) ∧
      h.board.Reconciled (WalletSystem.account (WalletSystem.connect s))
        (WalletSystem.wallets (WalletSystem.connect s)) h'.board := by
  have hend := opening_openFor account session h e
  rw [opened] at hend
  cases hend with
  | @launched e₁ e₂ s closed given directory obtained same =>
    refine ⟨s, ?_, rfl, Board.reconciled_reconcile _ h.board distinct⟩
    rcases obtain_cases obtained with ⟨hkept, -⟩ | ⟨hbare, -⟩
    · exact Or.inr hkept
    · exact Or.inl hbare

/-- A transfer that has failed. -/
def failedTransfer : Transfer := ⟨"a", .zero, .zero, .sent, .failed "expired", none⟩

/-- A wallet that catches up again and has seen the transfer fail. -/
def lateWallet : Wallet := ⟨⟨"bitcoin", "btc", "Bitcoin", 8⟩, .zero, .syncing, [failedTransfer]⟩

/-- A closed hub whose channels say that the wallet has caught up and that the transfer is on its
way. -/
def behindHub : Hub ScriptedSystem :=
  let updates := Channels.empty.offer "BTC" { failedTransfer with state := .submitted }
  let sync := (Channels.empty.offer "btc" (.completed "btc")).offer "doge" (.started "doge")
  ⟨.ofDirectory "data", false, some ⟨⟨"alice", ⟨0, 0⟩, [1]⟩, [lateWallet]⟩, none,
    { Board.empty with sync := sync, updates := updates }, []⟩

/-- After the opening the channels say what the wallet does, and that of a currency without a wallet is
as it was. -/
theorem opening_catches_up :
    ∃ h' e', behindHub.openFor ⟨"alice", ⟨0, 0⟩, [1]⟩ (.following .start none)
        (⟨.empty, ⟨none, [], none⟩, [], []⟩ : Surroundings ScriptedFactory) = (.ok (), h', e') ∧
      (h'.board.sync.get "BTC").latest = some (.started "btc") ∧
      (h'.board.updates.get "btc").latest = some failedTransfer ∧
      h'.board.sync.get "doge" = behindHub.board.sync.get "doge" := by
  obtain ⟨h', e', opened, hwallets⟩ : ∃ h' e', behindHub.openFor ⟨"alice", ⟨0, 0⟩, [1]⟩ (.following .start none)
      (⟨.empty, ⟨none, [], none⟩, [], []⟩ : Surroundings ScriptedFactory) = (.ok (), h', e') ∧
      h'.wallets = [lateWallet] := ⟨_, _, by rfl, by rfl⟩
  obtain ⟨s, -, hhandle, hreconciled⟩ :=
    Hub.reconciled_of_openFor opened (by rw [hwallets]; exact List.pairwise_singleton _ _)
  have hs : WalletSystem.wallets (WalletSystem.connect s) = [lateWallet] := by
    rw [← hwallets, Hub.wallets, hhandle]
    rfl
  rw [hs] at hreconciled
  have hrefreshed (code : String) (found : lateWallet.currency.hasCode code = true) :=
    hreconciled.refreshed lateWallet List.mem_cons_self code found
  refine ⟨h', e', opened, ?_, ?_, ?_⟩
  · rw [(hrefreshed "BTC" (by decide)).syncReplaced (.completed "btc") (by rfl) (by decide)]
    rfl
  · rw [(hrefreshed "btc" (by decide)).updateReplaced { failedTransfer with state := .submitted } failedTransfer
      (by rfl) (by rfl) (by rfl)]
    rfl
  · refine (hreconciled.untouched "doge" ?_).sync
    intro w hw
    rw [List.mem_singleton.mp hw]
    rfl

end WalletHub
