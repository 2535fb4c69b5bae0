import WalletHub.Proofs.Hub.Progress
import WalletHub.Proofs.Hub.Reconciling
import WalletHub.Proofs.Subscription.Transfers

/-!
# What a callback publishes

An open hub publishes a callback on the channels that it concerns, and on no others (`Hub.Translates`,
`Hub.translates_receive`): the wallets, the progress of the manager's currency, the transfers of the wallet's
currency. What it publishes for a currency depends on nothing but the callback and what was published for this
currency before (`Board.Untouched.receive`), and it is the same with an opening (`Board.Untouched.refresh`). So
two boards that agree on a currency still do when both are told the same.

## What is proved

* `Board.untouched_receive`: a callback about another currency leaves the channels of this one alone.
* `Board.Untouched.receive`, `Board.Untouched.refresh`: two boards that agree on a currency still do when both
  are told the same, or are brought up to date with the same wallet. This is what separates the currencies.
* `Hub.translates_receive`: what an open hub does with a callback, for every channel of the board, whatever the
  system is. On the channel of progress stands what the callback leaves there (`Callback.leaves`).

The updates of transfers are news in the sense of `WalletHub.Proofs.Hub.News` (`updateNews`), so that what is known
of every kind of news holds of them; `News.get_receive_of_apart` and `News.get_receive_congr` are the two laws.
-/

namespace WalletHub

namespace Callback

/-- The progress that the callback leaves on the channel of its manager. -/
def leaves : Callback → Option SyncState
  | .manager m (.syncProgress time percent) => some (.progress m.currency.code percent time)
  | .manager m (.changed oldState newState) =>
    if newState.isSyncing then some (.started m.currency.code)
    else if oldState.isSyncing then some (.completed m.currency.code) else none
  | _ => none

/-- The transfer that the callback tells of, with its wallet. -/
def carries : Callback → Option (Wallet × Transfer)
  | .wallet _ w event => event.transfer?.map fun t => (w, t)
  | .transfer _ w t _ => some (w, t)
  | _ => none

/-- The callback is about the currency of a code. -/
def isAbout (code : String) (c : Callback) : Bool := c.code?.any fun own => Currency.key own == Currency.key code

theorem isAbout_eq_false {code : String} {c : Callback} (h : c.isAbout code = false) :
    ∀ own, c.code? = some own → Currency.key own ≠ Currency.key code := by
  intro own hown hsame
  rw [isAbout, hown, Option.any_some, hsame, beq_self_eq_true] at h
  cases h

end Callback

/-- What an open hub does with a callback: the wallets of its system are published, if the callback tells of
managers or wallets; the channel of the manager's progress is left as the callback says; transfers are published
if there is one. All else is as before, the channels of all other currencies in particular. -/
structure Hub.Translates {σ : Type} [WalletSystem σ] (h : Hub σ) (c : Callback) (h' : Hub σ) : Prop where
  hub : h' = { h with board := h'.board }
  system : h'.board.system = h.board.system
  account : h'.board.account = h.board.account
  wallets : h'.board.wallets = if c.tellsWallets then h.board.wallets.offer h.wallets else h.board.wallets
  progress : ∀ p, c.leaves = some p → (h'.board.sync.get p.code).latest = some p
  still : c.leaves = none → h'.board.sync = h.board.sync
  transfer : ∀ w t, c.carries = some (w, t) →
    (h'.board.transfers.get w.code).latest = some w.transfers ∧ (h'.board.updates.get w.code).latest = some t
  untold : c.carries = none → h'.board.transfers = h.board.transfers ∧ h'.board.updates = h.board.updates
  apart : ∀ code, (∀ own, c.code? = some own → Currency.key own ≠ Currency.key code) →
    h.board.Untouched h'.board code

/-! ### News -/

/-- Where the channels of a code agree they still do when both are offered the same. -/
theorem Channels.get_offer_congr {α : Type} {cs cs' : Channels α} {code : String} (same : cs'.get code = cs.get code)
    (other : String) (a : α) : (cs'.offer other a).get code = (cs.offer other a).get code := by
  rw [get_offer, get_offer]
  by_cases hkey : Currency.key code = Currency.key other
  · rw [if_pos hkey, if_pos hkey, get_congr cs' hkey.symm, get_congr cs hkey.symm, same]
  · rw [if_neg hkey, if_neg hkey, same]

/-- The updates of transfers. -/
def updateNews : News Transfer where
  told c := c.update?.toList
  channels := Board.updates
  own := by
    intro c u hu
    cases c with
    | system | network | manager => cases hu
    | wallet m w event =>
      obtain ⟨t, -, rfl⟩ := Option.map_eq_some_iff.mp (Option.mem_toList.mp hu)
      rfl
    | transfer m w t event =>
      rw [List.mem_singleton.mp hu]
      rfl
  received := by
    intro ws b c
    rw [Board.updates_receive]
    cases c.update? <;> rfl
  unlisted _ _ := rfl

namespace News

variable {α : Type} (n : News α) {b b' : Board} {code : String}

/-- A callback about another currency is not news. -/
theorem get_receive_of_apart (ws : List Wallet) (b : Board) {c : Callback}
    (apart : ∀ own, c.code? = some own → Currency.key own ≠ Currency.key code) :
    (n.channels (b.receive ws c)).get code = (n.channels b).get code := by
  rw [n.received]
  have hothers : ∀ u ∈ n.told c, Currency.key u.1 ≠ Currency.key code := fun u hu => apart u.1 (n.own c u hu)
  generalize n.told c = told at hothers
  generalize n.channels b = channels
  induction told generalizing channels with
  | nil => rfl
  | cons u told ih =>
    rw [List.foldl_cons, ih (fun u' hu' => hothers u' (List.mem_cons_of_mem _ hu')), Channels.get_offer,
      if_neg (Ne.symm (hothers u List.mem_cons_self))]

/-- What becomes of a channel depends on nothing but the callback and the channel. -/
theorem get_receive_congr (same : (n.channels b').get code = (n.channels b).get code) (ws ws' : List Wallet)
    (c : Callback) : (n.channels (b'.receive ws' c)).get code = (n.channels (b.receive ws c)).get code := by
  rw [n.received, n.received]
  generalize n.channels b = channels at same
  generalize n.channels b' = channels' at same
  induction n.told c generalizing channels channels' with
  | nil => exact same
  | cons u told ih => exact ih _ _ (Channels.get_offer_congr same u.1 u.2)

end News

namespace Board

variable {b b' b'' : Board} {code : String}

/-! ### Boards that agree on a currency -/

theorem Untouched.symm (h : b.Untouched b' code) : b'.Untouched b code :=
  ⟨h.sync.symm, h.transfers.symm, h.updates.symm⟩

/-- **A callback about another currency changes nothing.** -/
theorem untouched_receive (ws : List Wallet) (b : Board) {c : Callback}
    (apart : ∀ own, c.code? = some own → Currency.key own ≠ Currency.key code) :
    b.Untouched (b.receive ws c) code where
  sync := progressNews.get_receive_of_apart ws b apart
  transfers := transferNews.get_receive_of_apart ws b apart
  updates := updateNews.get_receive_of_apart ws b apart

/-- Boards that agree still do when both receive the same callback, whatever the wallets are. -/
theorem Untouched.receive (h : b.Untouched b' code) (ws ws' : List Wallet) (c : Callback) :
    (b.receive ws c).Untouched (b'.receive ws' c) code where
  sync := progressNews.get_receive_congr h.sync ws ws' c
  transfers := transferNews.get_receive_congr h.transfers ws ws' c
  updates := updateNews.get_receive_congr h.updates ws ws' c

/-- Boards that agree still do when both are brought up to date with the same wallet. -/
theorem Untouched.refresh (h : b.Untouched b' code) (w : Wallet) : (b.refresh w).Untouched (b'.refresh w) code := by
  cases hcode : w.currency.hasCode code with
  | false => exact ((b.untouched_refresh hcode).symm.trans h).trans (b'.untouched_refresh hcode)
  | true =>
    have hkey : Currency.key w.code = Currency.key code := (Currency.hasCode_iff _ _).mp hcode
    have hsync : b'.staleSync w = b.staleSync w := by
      rw [staleSync, staleSync, Channels.get_congr b'.sync hkey, Channels.get_congr b.sync hkey, h.sync]
    have hupdate : b'.staleUpdate w = b.staleUpdate w := by
      rw [staleUpdate, staleUpdate, Channels.get_congr b'.updates hkey, Channels.get_congr b.updates hkey, h.updates]
    refine ⟨?_, Channels.get_offer_congr h.transfers _ _, ?_⟩
    · simp only [Board.refresh, hsync]
      split
      · exact Channels.get_offer_congr h.sync _ _
      · exact h.sync
    · simp only [Board.refresh, hupdate]
      split
      · exact Channels.get_offer_congr h.updates _ _
      · exact h.updates

/-- Of the wallets of an opening those of other currencies make no difference. -/
theorem untouched_foldl_filter (ws : List Wallet) (h : b.Untouched b' code) :
    ((ws.filter fun w => w.currency.hasCode code).foldl Board.refresh b).Untouched
      (ws.foldl Board.refresh b') code := by
  induction ws generalizing b b' with
  | nil => exact h
  | cons w ws ih =>
    cases hcode : w.currency.hasCode code with
    | true =>
      simp only [List.filter_cons, hcode, if_true]
      exact ih (h.refresh w)
    | false =>
      simp only [List.filter_cons, hcode, Bool.false_eq_true, if_false]
      exact ih (h.trans (b'.untouched_refresh hcode))

end Board

/-! ### Translation -/

namespace Callback

theorem transfers?_eq (c : Callback) : c.transfers? = c.carries.map fun (w, _) => (w.code, w.transfers) := by
  cases c with
  | wallet m w event =>
    cases h : event.transfer? <;> simp only [transfers?, carries, h, Option.map_none, Option.map_some]
  | _ => rfl

theorem update?_eq (c : Callback) : c.update? = c.carries.map fun (w, t) => (w.code, t) := by
  cases c with
  | wallet m w event => cases h : event.transfer? <;> simp only [update?, carries, h, Option.map_none, Option.map_some]
  | _ => rfl

/-- Where nothing is left on the channel of progress nothing is said about it. -/
theorem progress_of_leaves {c : Callback} (silent : c.leaves = none) : c.progress = [] := by
  cases c with
  | manager m event =>
    cases event with
    | syncProgress time percent => cases silent
    | changed old new =>
      simp only [leaves] at silent
      cases hnew : new.isSyncing with
      | true =>
        rw [hnew, if_pos rfl] at silent
        cases silent
      | false =>
        cases hold : old.isSyncing with
        | true =>
          simp only [hnew, hold, Bool.false_eq_true, if_false, if_true] at silent
          cases silent
        | false =>
          simp only [progress, Board.syncOf, hnew, hold, Bool.false_eq_true, if_false, List.append_nil, List.map_nil]
    | _ => rfl
  | _ => rfl

/-- What is said about progress ends with what is left. -/
theorem exists_progress {c : Callback} {p : SyncState} (left : c.leaves = some p) :
    ∃ before, c.progress = before ++ [(p.code, p)] := by
  cases c with
  | manager m event =>
    cases event with
    | syncProgress time percent =>
      obtain rfl := Option.some.inj left
      exact ⟨[], rfl⟩
    | changed old new =>
      simp only [leaves] at left
      cases hnew : new.isSyncing with
      | true =>
        rw [hnew, if_pos rfl] at left
        obtain rfl := Option.some.inj left
        refine ⟨(if old.isSyncing then [.completed m.currency.code] else []).map fun p => (p.code, p), ?_⟩
        simp only [progress, Board.syncOf, hnew, if_true, List.map_append]
        rfl
      | false =>
        cases hold : old.isSyncing with
        | true =>
          simp only [hnew, hold, Bool.false_eq_true, if_false, if_true] at left
          obtain rfl := Option.some.inj left
          refine ⟨[], ?_⟩
          simp only [progress, Board.syncOf, hnew, hold, Bool.false_eq_true, if_false, if_true, List.append_nil]
          rfl
        | false =>
          simp only [hnew, hold, Bool.false_eq_true, if_false] at left
          cases left
    | _ => cases left
  | _ => cases left

end Callback

/-- No callback concerns the channels of the system and its account. -/
theorem Board.holder_receive (ws : List Wallet) (b : Board) (c : Callback) :
    (b.receive ws c).system = b.system ∧ (b.receive ws c).account = b.account := by
  have hstates (states : List SyncState) (b : Board) :
      (states.foldl (fun b p => b.offerSync p) b).system = b.system ∧
        (states.foldl (fun b p => b.offerSync p) b).account = b.account := by
    induction states generalizing b with
    | nil => exact ⟨rfl, rfl⟩
    | cons p states ih => exact ih (b.offerSync p)
  cases c with
  | manager m event => exact hstates _ _
  | wallet m w event =>
    rw [receive]
    split <;> exact ⟨rfl, rfl⟩
  | _ => exact ⟨rfl, rfl⟩

/-- **An open hub does with a callback what it says**, and no more. -/
theorem Hub.translates_receive {σ : Type} [WalletSystem σ] {h : Hub σ} (isOpen : h.isOpen = true) (c : Callback) :
    h.Translates c (h.receive c) := by
  have hreceive : h.receive c = { h with board := h.board.receive h.wallets c } := by
    rw [Hub.receive, if_pos isOpen]
  rw [hreceive]
  obtain ⟨hsystem, haccount⟩ := h.board.holder_receive h.wallets c
  have hsync := progressNews.received h.wallets h.board c
  have htransfers := transferNews.received h.wallets h.board c
  have hupdates := updateNews.received h.wallets h.board c
  simp only [progressNews, transferNews, updateNews, c.transfers?_eq, c.update?_eq] at hsync htransfers hupdates
  have hlatest {α : Type} (cs : Channels α) (code : String) (a : α) : ((cs.offer code a).get code).latest = some a := by
    rw [Channels.get_offer, if_pos rfl]
    rfl
  refine ⟨rfl, hsystem, haccount, h.board.wallets_receive h.wallets c, ?_, ?_, ?_, ?_, ?_⟩
  · intro p hp
    obtain ⟨before, hprogress⟩ := Callback.exists_progress hp
    rw [hprogress, List.foldl_append] at hsync
    rw [hsync]
    exact hlatest _ _ _
  · intro hsilent
    rw [Callback.progress_of_leaves hsilent] at hsync
    exact hsync
  · intro w t hcarries
    rw [hcarries] at htransfers hupdates
    rw [htransfers, hupdates]
    exact ⟨hlatest _ _ _, hlatest _ _ _⟩
  · intro hnone
    rw [hnone] at htransfers hupdates
    exact ⟨htransfers, hupdates⟩
  · exact fun code apart => h.board.untouched_receive h.wallets apart

end WalletHub
