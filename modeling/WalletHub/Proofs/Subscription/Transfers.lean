import WalletHub.Proofs.Hub.News
import WalletHub.Proofs.Subscription.Asking

/-!
# Subscriptions to the transfers of a wallet

A subscription to the transfers of a currency begins with what was published last for its code, and only
where nothing was published with what the wallet has. The channel outlives the wallet: neither the removal
of a wallet nor the addition of another publishes a list. So a new subscription may be shown what a wallet
had that was removed long ago (`removed_wallet_is_shown`). `Run.first_transfers_iff` says when: the first
item is the list of the wallet unless the wallet has no transfers and the newest list on its channel has
some, which does not happen where no wallet of the code was removed.

Two accords are followed through a run (`WalletHub.Proofs.Hub.News`): that a wallet with transfers has them
published (`publishedTransfers`), which every command keeps, and that the newest list is the one of the wallet
(`faithfulTransfers`), which all commands keep but the one that removes a wallet.

## What is proved

* `sound_publishedTransfers`, `sound_faithfulTransfers`: the two are sound.
* `Subscription.first_transfers`, `World.first_transfers`: the first item of a new subscription, in the words of
  its channel and its wallet.
* `Run.first_transfers_iff`: when it is the list of the wallet, in every run; and that it always is where no
  wallet of the code was removed.
* `removed_wallet_is_shown`: a wallet that was removed and added again shows its old transfers.
-/

namespace WalletHub

open MemorySystem (Command Glimpse)

/-! ### What is told of transfers -/

/-- The list of transfers that a hub publishes when it receives the callback, with the code. -/
def Callback.transfers? : Callback → Option (String × List Transfer)
  | .wallet _ w event => event.transfer?.map fun _ => (w.code, w.transfers)
  | .transfer _ w _ _ => some (w.code, w.transfers)
  | .system _ | .network .. | .manager .. => none

theorem Board.transfers_foldl_offerSync (states : List SyncState) (b : Board) :
    (states.foldl (fun b s => b.offerSync s) b).transfers = b.transfers := by
  induction states generalizing b with
  | nil => rfl
  | cons s states ih => exact ih (b.offerSync s)

/-- The lists of transfers. -/
def transferNews : News (List Transfer) where
  told c := c.transfers?.toList
  channels := Board.transfers
  own := by
    intro c u hu
    cases c with
    | system | network | manager => exact nomatch hu
    | wallet m w event =>
      cases h : event.transfer? with
      | none =>
        simp only [Callback.transfers?, h, Option.map_none, Option.toList_none] at hu
        exact nomatch hu
      | some t =>
        simp only [Callback.transfers?, h, Option.map_some, Option.toList_some] at hu
        rw [List.mem_singleton.mp hu]
        rfl
    | transfer m w t event =>
      rw [List.mem_singleton.mp hu]
      rfl
  received := by
    intro ws b c
    cases c with
    | system | network | transfer => rfl
    | manager m event => exact Board.transfers_foldl_offerSync _ _
    | wallet m w event =>
      cases h : event.transfer? with
      | none =>
        simp only [Board.receive, Callback.transfers?, h, Option.map_none, Option.toList_none, List.foldl_nil]
        rfl
      | some t =>
        simp only [Board.receive, Callback.transfers?, h, Option.map_some, Option.toList_some,
          List.foldl_cons, List.foldl_nil]
        rfl
  unlisted _ _ := rfl

/-- Of an alteration either nothing is told, and the transfers stay, or the new list is. -/
theorem transfers_of_altered {code : String} {m : Manager} {w w' : Wallet} {job : Job}
    (found : w'.currency.hasCode code = true) (h : w.Altered m w' job) :
    transferNews.of code [job] = [] ∧ w'.transfers = w.transfers ∨
      ∃ us, transferNews.of code [job] = us ++ [w'.transfers] := by
  have hkey : (Currency.key w'.code == Currency.key code) = true :=
    beq_iff_eq.mpr ((Currency.hasCode_iff _ _).mp found)
  cases h with
  | balance amount changed told | moved state changed told =>
    subst changed told
    exact Or.inl ⟨rfl, rfl⟩
  | submitted t changed told =>
    subst told
    refine Or.inr ⟨[], ?_⟩
    simp [News.of, transferNews, Callback.transfers?, WalletEvent.transfer?, hkey]
  | entered t event walletEvent carried changed told =>
    subst told
    refine Or.inr ⟨[w'.transfers], ?_⟩
    simp [News.of, transferNews, MemorySystem.transferJob, Callback.transfers?, carried, hkey]
  | removed t changed told =>
    subst told
    refine Or.inr ⟨[w'.transfers], ?_⟩
    simp [News.of, transferNews, MemorySystem.transferJob, Callback.transfers?, WalletEvent.transfer?, hkey]

/-! ### What the newest list can be -/

/-- A wallet that has transfers has them published. Without transfers, or without a wallet, anything may be
published. -/
def publishedTransfers : Accord (List Transfer) where
  possible _ _ := True
  current x v := ∀ w, x = some w → w.transfers ≠ [] → v = some w.transfers

theorem sound_publishedTransfers (code : String) :
    publishedTransfers.Sound transferNews code fun _ _ => True where
  glimpse := by
    intro c x x' job h _
    cases h with
    | aside x job others =>
      rw [transferNews.of_aside code others]
      exact .refl x
    | added m w found same blank =>
      refine ⟨fun _ _ => trivial, fun _ _ => trivial, nofun, ?_⟩
      intro _ v _ w' hw' htransfers
      obtain rfl := Option.some.inj hw'
      exact absurd blank htransfers
    | altered m w w' job found same altered =>
      have hfound : w'.currency.hasCode code = true := by rwa [altered.currency_eq]
      rcases transfers_of_altered hfound altered with ⟨hnone, hsame⟩ | ⟨us, hus⟩
      · rw [hnone]
        refine ⟨fun _ _ => trivial, fun _ _ => trivial, nofun, ?_⟩
        intro _ v hv x hx htransfers
        obtain rfl := Option.some.inj hx
        rw [hsame] at htransfers ⊢
        exact hv w rfl htransfers
      · rw [hus]
        refine ⟨fun _ _ => trivial, fun _ _ => trivial, ?_, ?_⟩
        · intro u hu x hx _
          obtain rfl := Option.some.inj hx
          rw [List.getLast?_concat] at hu
          exact hu.symm
        · intro hnil
          exact absurd hnil (List.concat_ne_nil _ _)
    | removed => exact ⟨fun _ _ => trivial, fun _ _ => trivial, nofun, nofun⟩
    | progressed => exact .refl _
  steady _ _ _ := trivial
  connect _ := trivial
  disconnect _ := trivial
  opened := by
    intro x b b' _ hrefreshed _
    refine ⟨fun _ _ => trivial, ?_⟩
    intro w hw _
    rw [News.latest, transferNews, (hrefreshed w hw).transfers]
    rfl

/-- The newest list is the one of the wallet, and there is none without a wallet. -/
def faithfulTransfers : Accord (List Transfer) where
  possible x _ := x.isSome = true
  current
    | none, v => v = none
    | some w, v => ∀ ts, v = some ts → ts = w.transfers

theorem sound_faithfulTransfers (code : String) :
    faithfulTransfers.Sound transferNews code (keepsWallet code) where
  glimpse := by
    intro c x x' job h hkeeps
    cases h with
    | aside x job others =>
      rw [transferNews.of_aside code others]
      exact .refl x
    | added m w found same blank =>
      refine ⟨nofun, nofun, nofun, ?_⟩
      intro _ v hv ts hts
      cases hv.symm.trans hts
    | altered m w w' job found same altered =>
      have hfound : w'.currency.hasCode code = true := by rwa [altered.currency_eq]
      rcases transfers_of_altered hfound altered with ⟨hnone, hsame⟩ | ⟨us, hus⟩
      · rw [hnone]
        refine ⟨fun _ _ => rfl, nofun, nofun, ?_⟩
        intro _ v hv ts hts
        rw [hsame]
        exact hv ts hts
      · rw [hus]
        refine ⟨fun _ _ => rfl, fun _ _ => rfl, ?_, ?_⟩
        · intro u hu ts hts
          rw [List.getLast?_concat] at hu
          exact (Option.some.inj hts).symm.trans (Option.some.inj hu).symm
        · intro hnil
          exact absurd hnil (List.concat_ne_nil _ _)
    | removed code' m w asked equal => exact absurd equal (hkeeps code' asked)
    | progressed => exact .refl _
  steady _ _ h := h
  connect _ := nofun
  disconnect _ := nofun
  opened := by
    intro x b b' huntouched hrefreshed hpossible
    cases x with
    | none =>
      have hlatest : transferNews.latest code b' = transferNews.latest code b := by
        rw [News.latest, News.latest, transferNews, (huntouched rfl).transfers]
      rw [hlatest]
      refine ⟨hpossible, ?_⟩
      cases hb : transferNews.latest code b with
      | none => rfl
      | some ts => cases hpossible ts hb
    | some w =>
      refine ⟨fun _ _ => rfl, ?_⟩
      intro ts hts
      rw [News.latest, transferNews, (hrefreshed w rfl).transfers] at hts
      exact (Option.some.inj hts).symm

/-! ### New subscriptions -/

theorem Subscription.first_transfers {h : Hub MemorySystem} {now : Nat} {v : View} {code : String} {x : Wallet}
    (hv : v.Of h now) (found : v.wallet? code = some x) (period : Nat) :
    (Subscription.poll v (.transfers code (.fresh period))).1 =
      .item (.transfers ((transferNews.latest code h.board).getD x.transfers)) := by
  simp only [Subscription.poll, Feed.pollTransfers, found, Option.map_some, hv.board, Option.or_some, Feed.poll,
    Feed.fresh]
  rfl

/-- The first item of a subscription to transfers is what was published last, and where nothing was, what
the wallet has. -/
theorem World.first_transfers {w : MemoryWorld} {h : Hub MemorySystem} {s : MemorySystem} {x : Wallet}
    {code : String} (hub : w.hub = some h) (kept : h.handle = some s)
    (found : Wallet.find? s.wallets code = some x) (name : String) :
    (World.move (w.move (.act (.subscribe name (.transfers code)))).2 (.act (.next name))).1 =
      .polled (.item (.transfers ((transferNews.latest code h.board).getD x.transfers))) := by
  let sub : Subscriber :=
    ⟨.create h.config.throttle h.config.transferThrottle (.transfers code), w.dropped, none⟩
  let w' : MemoryWorld := { w with hub := some h, subscribers := Entries.put name sub w.subscribers }
  have hsubscribe : (w.move (.act (.subscribe name (.transfers code)))).2 = w' := by
    simp only [World.move, World.act, World.subscribe, hub]
    rfl
  have hlookup : w'.subscribers.lookup name = some sub := by
    rw [Entries.lookup_put, if_pos rfl]
  have hview : (w'.view name sub).Of h w.now := World.view_of (w := w') rfl rfl name
  have hwallet : (w'.view name sub).wallet? code = some x := by
    rw [View.wallet?, hview.live, kept, Option.map_some, Option.bind_some]
    exact found
  have hpoll := Subscription.first_transfers hview hwallet h.config.transferThrottle
  rw [hsubscribe]
  simp only [World.move, World.act, World.next, hlookup]
  exact congrArg Reply.polled hpoll

/-! ### Runs -/

/-- **The first item of a new subscription to transfers is the list of the wallet, unless the wallet has no
transfers and the newest list on its channel has some**: in every settled state of a run in which the hub is
open, if no delivery broke off and no system came with two wallets of the code. Where no wallet of the code
was removed the first item is always the list of the wallet. -/
theorem Run.first_transfers_iff {config : Config} {factory : MemoryFactory} {disk : Disk} {wall : Instant}
    {enabled : List String} {withHub : Bool} {past : Past} {w : MemoryWorld} {code : String}
    (run : Run (fun w m r => unbroken w m r ∧ bringsSole code w m)
      (.start config factory disk wall enabled withHub) past w)
    (settled : w.waiting = 0) {h : Hub MemorySystem} (hub : w.hub = some h) (isOpen : h.isOpen = true)
    {x : Wallet} (hx : x ∈ h.wallets) (found : x.currency.hasCode code = true) (name : String) :
    ∃ ts, (World.move (w.move (.act (.subscribe name (.transfers code)))).2 (.act (.next name))).1 =
        .polled (.item (.transfers ts)) ∧
      (ts = x.transfers ↔
        (x.transfers = [] → ∀ old, (h.board.transfers.get code).latest = some old → old = [])) ∧
      (¬Removed code past → ts = x.transfers) := by
  obtain ⟨s, hs, hxs⟩ : ∃ s, h.handle = some s ∧ x ∈ s.wallets := by
    cases hs : h.handle with
    | none =>
      rw [Hub.wallets, hs] at hx
      cases hx
    | some s =>
      rw [Hub.wallets, hs] at hx
      exact ⟨s, rfl, hx⟩
  have hqueue := World.queue_of_waiting hub hs settled
  have hcoming : transferNews.coming code s h.board = transferNews.latest code h.board := by
    rw [News.coming, hqueue]
    rfl
  have hstart (a : Accord (List Transfer)) (h : Hub MemorySystem)
      (hh : (World.start config factory disk wall enabled withHub : MemoryWorld).hub = some h) :
      a.Holds transferNews code h := by
    obtain rfl := World.eq_create_of_start hh
    exact Accord.holds_create a transferNews code config rfl
  have hpublished := run.accord (sound_publishedTransfers code)
    (fun w m r hallowed _ => ⟨hallowed.1, hallowed.2, fun _ _ _ _ _ _ _ _ _ => trivial⟩) rfl
    (hstart publishedTransfers) h hub
  have hfind := MemorySystem.find?_of_sole (hpublished.waits s hs).sole hxs found
  refine ⟨_, World.first_transfers hub hs hfind name, ?_, ?_⟩
  · have hcurrent := hpublished.current isOpen s hs
    rw [hfind, hcoming] at hcurrent
    show (transferNews.latest code h.board).getD x.transfers = x.transfers ↔
      (x.transfers = [] → ∀ old, transferNews.latest code h.board = some old → old = [])
    constructor
    · intro hts hnil old hold
      rwa [hold, Option.getD_some, hnil] at hts
    · intro hold
      by_cases hnil : x.transfers = []
      · cases hlatest : transferNews.latest code h.board with
        | none => rfl
        | some old => rw [Option.getD_some, hold hnil old hlatest, hnil]
      · rw [hcurrent x rfl hnil, Option.getD_some]
  · intro hkept
    have hfaithful := (run.keeping hkept).accord (sound_faithfulTransfers code)
      (fun w m r hallowed hmove => ⟨hallowed.1.1, hallowed.1.2, hallowed.2.commands hmove⟩) rfl
      (hstart faithfulTransfers) h hub
    have hcurrent := hfaithful.current isOpen s hs
    rw [hfind, hcoming] at hcurrent
    cases hlatest : transferNews.latest code h.board with
    | none => rfl
    | some ts => exact hcurrent ts hlatest

/-- A transfer of a wallet that was removed. -/
def formerTransfer : Transfer := .create "a" .zero .received

/-- A hub whose wallet was given a transfer, removed, and added again. -/
def readded : Past × MemoryWorld :=
  World.play neverOpen
    [.act (.openHub ⟨"alice", ⟨0, 0⟩, [1]⟩), .act (.command (.addWallet ⟨"bitcoin", "btc", "Bitcoin", 8⟩)),
      .act (.command (.addTransfer "btc" formerTransfer)), .act (.command (.removeWallet "btc")),
      .act (.command (.addWallet ⟨"bitcoin", "btc", "Bitcoin", 8⟩)),
      .deliver, .deliver, .deliver, .deliver, .deliver, .deliver, .deliver, .deliver,
      .deliver, .deliver, .deliver, .deliver, .deliver, .deliver, .deliver, .deliver, .deliver]

/-- The wallet has no transfers, but a new subscription is shown one of the wallet that was there before. -/
theorem removed_wallet_is_shown :
    ∃ h x t ts, readded.2.hub = some h ∧ x ∈ h.wallets ∧ x.code = "btc" ∧ x.transfers = [] ∧
      (World.move (readded.2.move (.act (.subscribe "new" (.transfers "btc")))).2 (.act (.next "new"))).1 =
        .polled (.item (.transfers (t :: ts))) := by
  have hheld {w : MemoryWorld} {m : Move} {r : Reply} (held : (w.hub.bind Hub.handle).isSome = true)
      (hok : unbroken w m r) : unbroken w m r ∧ bringsSole "btc" w m := by
    refine ⟨hok, ?_⟩
    intro h h' hub hbare
    rw [hub, Option.bind_some, hbare] at held
    exact nomatch held
  have run : Run (fun w m r => unbroken w m r ∧ bringsSole "btc" w m) neverOpen
      readded.1 readded.2 := by
    refine Run.play _ _ ⟨⟨unbroken_act _ _ _, fun h h' _ _ hub' s hs => ?_⟩, ?_⟩
    · obtain rfl := Option.some.inj hub'
      obtain rfl := Option.some.inj hs
      decide +kernel
    refine ⟨?_, ?_, ?_, ?_, ?_, ?_, ?_, ?_, ?_, ?_, ?_, ?_, ?_, ?_, ?_, ?_, ?_, ?_, ?_, ?_, ?_, trivial⟩
    all_goals refine hheld (by rfl) ?_
    all_goals first
      | exact unbroken_act _ _ _
      | exact unbroken_ok _ _
      | exact unbroken_nothing _ _
  obtain ⟨h, hub⟩ : ∃ h, readded.2.hub = some h := ⟨_, by rfl⟩
  have hfields : (readded.2.hub.map fun h => (h.isOpen, h.wallets.map fun x => (x.code, x.transfers),
      (h.board.transfers.get "btc").latest)) =
      some (true, [("btc", [])], some [formerTransfer]) := by
    rfl
  rw [hub, Option.map_some] at hfields
  simp only [Option.some.injEq, Prod.mk.injEq] at hfields
  obtain ⟨isOpen, hwallets, hlatest⟩ := hfields
  obtain ⟨x, hx, hfound⟩ : ∃ x, h.wallets = [x] ∧ (x.code, x.transfers) = ("btc", []) := by
    obtain ⟨x, hx, hfound⟩ := List.map_eq_singleton_iff.mp hwallets
    exact ⟨x, hx, hfound⟩
  obtain ⟨hcode, hnil⟩ := Prod.mk.inj hfound
  have hmem : x ∈ h.wallets := by rw [hx]; exact List.mem_cons_self
  obtain ⟨ts, hshown, hiff, -⟩ := run.first_transfers_iff (by rfl) hub isOpen hmem
    ((Currency.hasCode_iff _ _).mpr (congrArg Currency.key hcode)) "new"
  cases ts with
  | nil => exact nomatch hiff.mp hnil.symm hnil _ hlatest
  | cons t ts => exact ⟨h, x, t, ts, hub, hmem, hcode, hnil, hshown⟩

end WalletHub
