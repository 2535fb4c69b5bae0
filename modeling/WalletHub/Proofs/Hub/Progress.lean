import WalletHub.Proofs.Hub.News
import WalletHub.Proofs.Memory.Lineage
import WalletHub.Proofs.Subscription.Asking
import WalletHub.Proofs.World.Calm

/-!
# Published progress

A wallet that catches up with the chain has its progress published, from the beginning to the end. What a
closed hub is told is dropped, an opening moves the managers itself and compares only whether a wallet is
catching up, and one move of a manager publishes two states. Nevertheless the published state and the
wallet agree wherever all was delivered and the hub is open (`Run.progress_agrees`), as long as progress is
reported only of wallets that are catching up.

What fits a wallet is said by `agreeingProgress`: the newest state is catching up exactly if the wallet is, and
where it is not, all blocks are there. A state that waits behind it may be about the time before. That a report
of progress comes in time is asked of the run (`timely`), since a report about a wallet that has caught up
publishes a state that nothing takes back.

## What is proved

* `SyncState.settled_initial`: a first state with nothing left to do is complete.
* `told_of_changed`: a manager that moves lines up states that fit where it has moved to.
* `sound_agreeingProgress`: every allowed command keeps the accord, and an opening restores it.
* `Run.progress_agrees`: in every run in which progress is reported in time, and wherever all was delivered, what
  was published last of a wallet agrees with it.
* `end_of_progress_is_published`: a wallet that caught up while its hub was closed is shown to have caught up.
-/

namespace WalletHub

open MemorySystem (Command Glimpse)

/-! ### What is told of progress -/

/-- The states that a hub publishes when it receives the callback, each with its code. -/
def Callback.progress : Callback → List (String × SyncState)
  | .manager m event => (Board.syncOf m.currency.code event).map fun p => (p.code, p)
  | .system _ | .network .. | .wallet .. | .transfer .. => []

theorem Board.code_of_mem_syncOf {code : String} {event : ManagerEvent} {p : SyncState}
    (h : p ∈ syncOf code event) : p.code = code := by
  cases event with
  | syncProgress time percent =>
    rw [List.mem_singleton.mp h]
    rfl
  | changed old new =>
    rcases List.mem_append.mp h with hold | hnew
    · split at hold
      · rw [List.mem_singleton.mp hold]
        rfl
      · exact nomatch hold
    · split at hnew
      · rw [List.mem_singleton.mp hnew]
        rfl
      · exact nomatch hnew
  | _ => exact nomatch h

theorem Board.sync_foldl_offerSync (states : List SyncState) (b : Board) :
    (states.foldl (fun b p => b.offerSync p) b).sync =
      (states.map fun p => (p.code, p)).foldl (fun cs u => cs.offer u.1 u.2) b.sync := by
  induction states generalizing b with
  | nil => rfl
  | cons p states ih => exact ih (b.offerSync p)

/-- The states of progress. -/
def progressNews : News SyncState where
  told := Callback.progress
  channels := Board.sync
  own := by
    intro c u hu
    cases c with
    | system | network | wallet | transfer => exact nomatch hu
    | manager m event =>
      obtain ⟨p, hp, rfl⟩ := List.mem_map.mp hu
      exact congrArg some (Board.code_of_mem_syncOf hp).symm
  received := by
    intro ws b c
    cases c with
    | system | network | transfer => rfl
    | manager m event => exact Board.sync_foldl_offerSync _ _
    | wallet m w event =>
      simp only [Board.receive]
      split <;> rfl
  unlisted _ _ := rfl

/-- All that an event of a manager says about progress is told of its code. -/
theorem progress_of_manager {code : String} {m : Manager} (own : Currency.key m.currency.code = Currency.key code)
    (event : ManagerEvent) :
    progressNews.of code [[.manager m event]] = Board.syncOf m.currency.code event := by
  have hall : ((Board.syncOf m.currency.code event).map fun p => (p.code, p)).filter
      (fun u => Currency.key u.1 == Currency.key code) =
      (Board.syncOf m.currency.code event).map fun p => (p.code, p) := by
    rw [List.filter_eq_self]
    intro u hu
    obtain ⟨p, hp, rfl⟩ := List.mem_map.mp hu
    rw [beq_iff_eq, Board.code_of_mem_syncOf hp, own]
  simp only [News.of, progressNews, List.flatten_cons, List.flatten_nil, List.append_nil, List.flatMap_cons,
    List.flatMap_nil, Callback.progress, hall, List.map_map]
  exact List.map_id _

/-- Of an alteration nothing is told, and the wallet catches up as before, or its manager has moved. -/
theorem progress_of_altered {code : String} {m : Manager} {w w' : Wallet} {job : Job}
    (own : Currency.key m.currency.code = Currency.key code) (h : w.Altered m w' job) :
    progressNews.of code [job] = [] ∧ w'.isSyncing = w.isSyncing ∨
      progressNews.of code [job] =
        Board.syncOf m.currency.code (.changed w.managerState w'.managerState) := by
  cases h with
  | balance _ changed told | submitted _ changed told | entered _ _ _ _ changed told | removed _ changed told =>
    subst changed told
    exact Or.inl ⟨rfl, rfl⟩
  | moved state changed told =>
    subst changed told
    exact Or.inr (progress_of_manager own _)

/-! ### What the newest state can be -/

/-- Where nothing is left to do all is done. -/
def SyncState.Settled (p : SyncState) : Prop := p.syncing = false → p.fraction = .one ∧ p.timestamp = 0

theorem SyncState.settled_initial (code : String) (syncing : Bool) : (initial code syncing).Settled := by
  intro hsyncing
  obtain rfl : syncing = false := hsyncing
  exact ⟨rfl, rfl⟩

/-- The newest state is catching up exactly if the wallet is, and there is none without a wallet. -/
def agreeingProgress : Accord SyncState where
  possible x p := x.isSome = true ∧ p.Settled
  current
    | none, v => v = none
    | some w, v => ∀ p, v = some p → p.syncing = w.isSyncing

/-- A move of the manager is told as it is. -/
theorem told_of_changed (code : String) (w w' : Wallet) :
    agreeingProgress.Told (some w) (some w')
      (Board.syncOf code (.changed w.managerState w'.managerState)) := by
  have hsettled : ∀ p ∈ Board.syncOf code (.changed w.managerState w'.managerState), p.Settled := by
    intro p hp
    rcases List.mem_append.mp hp with hold | hnew
    · split at hold
      · rw [List.mem_singleton.mp hold]
        exact SyncState.settled_initial code false
      · exact nomatch hold
    · split at hnew
      · rw [List.mem_singleton.mp hnew]
        exact SyncState.settled_initial code true
      · exact nomatch hnew
  constructor
  · intro p hp
    exact ⟨rfl, hp.2⟩
  · intro p hp
    exact ⟨rfl, hsettled p hp⟩
  · intro p hp q hq
    obtain rfl := Option.some.inj hq
    show p.syncing = w'.managerState.isSyncing
    cases hnew : w'.managerState.isSyncing with
    | true =>
      rw [Board.syncOf, hnew, if_pos rfl, List.getLast?_concat] at hp
      rw [← Option.some.inj hp]
      rfl
    | false =>
      rw [Board.syncOf, hnew, if_neg Bool.false_ne_true, List.append_nil] at hp
      split at hp
      · rw [← Option.some.inj hp]
        rfl
      · exact nomatch hp
  · intro hnil v hv p hp
    rw [hv p hp]
    obtain ⟨hold, hnew⟩ := List.append_eq_nil_iff.mp hnil
    show w.managerState.isSyncing = w'.managerState.isSyncing
    cases h : w.managerState.isSyncing with
    | true =>
      rw [h, if_pos rfl] at hold
      exact nomatch hold
    | false =>
      cases h' : w'.managerState.isSyncing with
      | true =>
        rw [h', if_pos rfl] at hnew
        exact nomatch hnew
      | false => rfl

/-- No wallet of the code is removed, and it reports progress only while it is catching up. -/
def reportsInTime (code : String) (c : Command) (x : Option Wallet) : Prop :=
  keepsWallet code c x ∧ ∀ other percent time, c = .syncProgress other percent time →
    Currency.key other = Currency.key code → ∀ w, x = some w → w.isSyncing = true

theorem sound_agreeingProgress (code : String) :
    agreeingProgress.Sound progressNews code (reportsInTime code) where
  glimpse := by
    intro c x x' job h hreports
    cases h with
    | aside x job others =>
      rw [progressNews.of_aside code others]
      exact .refl x
    | added m w found same blank =>
      refine ⟨nofun, nofun, nofun, ?_⟩
      intro _ v hv p hp
      cases hv.symm.trans hp
    | altered m w w' job found same altered =>
      have hown : Currency.key m.currency.code = Currency.key code := by
        rw [same, altered.currency_eq]
        exact (Currency.hasCode_iff _ _).mp found
      rcases progress_of_altered hown altered with ⟨hnone, hsame⟩ | hmoved
      · rw [hnone]
        refine ⟨fun _ hp => ⟨rfl, hp.2⟩, nofun, nofun, ?_⟩
        intro _ v hv p hp
        rw [hv p hp, hsame]
      · rw [hmoved]
        exact told_of_changed _ w w'
    | removed code' m w asked equal => exact absurd equal (hreports.1 code' asked)
    | progressed code' percent time m w asked equal found same =>
      have hown : Currency.key m.currency.code = Currency.key code := by
        rw [same]
        exact (Currency.hasCode_iff _ _).mp found
      have hsyncing := hreports.2 code' percent time asked equal w rfl
      rw [progress_of_manager hown]
      refine ⟨fun _ hp => hp, ?_, ?_, nofun⟩
      · intro p hp
        rw [List.mem_singleton.mp hp]
        exact ⟨rfl, nofun⟩
      · intro p hp q hq
        obtain rfl := Option.some.inj hq
        rw [← Option.some.inj hp, hsyncing]
        rfl
  steady x' hsteady h := ⟨h.1, fun code' percent time hc => absurd hc (hsteady code' percent time)⟩
  connect _ := ⟨nofun, nofun⟩
  disconnect _ := ⟨nofun, nofun⟩
  opened := by
    intro x b b' huntouched hrefreshed hpossible
    cases x with
    | none =>
      have hlatest : progressNews.latest code b' = progressNews.latest code b := by
        rw [News.latest, News.latest, progressNews, (huntouched rfl).sync]
      rw [hlatest]
      refine ⟨hpossible, ?_⟩
      cases hb : progressNews.latest code b with
      | none => rfl
      | some p => cases (hpossible p hb).1
    | some w =>
      have hrefreshed := hrefreshed w rfl
      by_cases hagrees : ∀ p, (b.sync.get code).latest = some p → p.syncing = w.isSyncing
      · have hlatest : progressNews.latest code b' = progressNews.latest code b := by
          rw [News.latest, News.latest, progressNews, hrefreshed.syncKept hagrees]
        rw [hlatest]
        exact ⟨hpossible, hagrees⟩
      · simp only [not_forall] at hagrees
        obtain ⟨p, hp, hstale⟩ := hagrees
        have hlatest : progressNews.latest code b' = some (.initial w.code w.isSyncing) := by
          rw [News.latest, progressNews, hrefreshed.syncReplaced p hp hstale]
          rfl
        rw [hlatest]
        constructor
        · intro q hq
          rw [← Option.some.inj hq]
          exact ⟨rfl, SyncState.settled_initial _ _⟩
        · intro q hq
          rw [← Option.some.inj hq]
          rfl

/-! ### Runs -/

/-- Progress is reported only of a wallet whose manager is catching up. -/
def timely (w : MemoryWorld) (m : Move) (_ : Reply) : Prop :=
  ∀ code percent time s x, m = .act (.command (.syncProgress code percent time)) → w.lastSystem = some s →
    Wallet.find? s.wallets code = some x → x.isSyncing = true

theorem timely_of_ne {w : MemoryWorld} {m : Move} {r : Reply}
    (other : ∀ code percent time, m ≠ .act (.command (.syncProgress code percent time))) : timely w m r :=
  fun code percent time _ _ hm => absurd hm (other code percent time)

theorem timely_of_syncing {w : MemoryWorld} {r : Reply} {code : String} {percent : Single}
    {time : Option Instant}
    (syncing : ((w.lastSystem.bind fun s => Wallet.find? s.wallets code).map Wallet.isSyncing) = some true) :
    timely w (.act (.command (.syncProgress code percent time))) r := by
  rintro _ _ _ s x ⟨⟩ hlast hfound
  rw [hlast, Option.bind_some, hfound] at syncing
  exact Option.some.inj syncing

theorem commands_reportsInTime {code : String} {w : MemoryWorld} {m : Move} {r : Reply} (h : timely w m r)
    (keeps : Commands code (keepsWallet code) w m) : Commands code (reportsInTime code) w m := by
  intro c now hub s s' hm hhub kept hrun
  refine ⟨keeps c now hub s s' hm hhub kept hrun, ?_⟩
  rintro other percent time rfl hequal x hx
  have hlast : w.lastSystem = some s := by rw [World.lastSystem, hhub, Option.bind_some, kept]
  exact h other percent time s x hm hlast ((MemorySystem.find?_congr hequal s.wallets).trans hx)

/-- A hub that finds only what systems have left gets no two wallets of a code. -/
theorem bringsSole_of_inherits (code : String) {w w' : MemoryWorld} {m : Move} {r : Reply} (h : inherits w m r)
    (moved : w.move m = (r, w')) : bringsSole code w m := by
  intro hub hub' hhub hbare hhub' s hs
  rw [moved] at hhub'
  have hsame (hsame : w'.hub = w.hub) : MemorySystem.Sole code s.wallets := by
    obtain rfl := Option.some.inj ((hhub'.symm.trans hsame).trans hhub)
    exact nomatch hbare.symm.trans hs
  cases Effect.effect_move moved with
  | quiet hub₁ | unsubscribe hub₁ | next _ _ hub₁ | drain _ _ hub₁ => exact hsame hub₁
  | subscribe made hub₁ hub₁' => exact hsame (hub₁'.trans hub₁.symm)
  | subscribeAlone made alone hub₁ => exact nomatch hub₁.symm.trans hhub
  | make hub₁ => exact nomatch hub₁.symm.trans hhub
  | drop hub₁ hub₁' =>
    rcases hub₁' with hnone | ⟨config, hcreate⟩
    · exact nomatch hnone.symm.trans hhub'
    · obtain rfl := Option.some.inj (hhub'.symm.trans hcreate)
      exact nomatch hs
  | lose broke hub₁ kept =>
    obtain rfl := Option.some.inj (hub₁.symm.trans hhub)
    exact nomatch hbare.symm.trans kept
  | @change h₁ _ _ hub₁ change caused hub₁' =>
    obtain rfl := Option.some.inj (hub₁.symm.trans hhub)
    obtain rfl := Option.some.inj (hub₁'.symm.trans hhub')
    cases change with
    | launch session made closed kept =>
      rcases kept with hkept | ⟨-, hnew⟩
      · exact nomatch hbare.symm.trans hkept
      · cases caused with
        | opening =>
          obtain rfl := Option.some.inj hs
          have hgrown := hnew.grown (h _ _ rfl hhub hbare)
          exact MemorySystem.sole_connect.mpr (hgrown.sole code)
    | hold made closed bare hnew =>
      cases caused with
      | opening =>
        obtain rfl := Option.some.inj hs
        exact (hnew.grown (h _ _ rfl hhub hbare)).sole code
    | closeBare => exact nomatch hbare.symm.trans hs
    | close s isOpen kept | command s s' now c kept | finish s jobs kept | deliver s callback job jobs kept =>
      exact nomatch hbare.symm.trans kept
    | task p t =>
      obtain ⟨-, hhandle, -⟩ := Hub.runSession_fields p t h₁
      exact nomatch (hbare.symm.trans hhandle.symm).trans hs

/-- **Published progress agrees with the wallet**: in every settled state of a run in which the hub is open,
what was published last of a wallet that is there, and whose code was never removed, is catching up exactly
if the wallet is; and when the wallet is not, all is done. No delivery breaks off, the hub finds no stored
wallets but those that systems have left, and progress is reported only of wallets that are catching up. -/
theorem Run.progress_agrees {config : Config} {factory : MemoryFactory} {disk : Disk} {wall : Instant}
    {enabled : List String} {withHub : Bool} {past : Past} {w : MemoryWorld}
    (run : Run (fun w m r => unbroken w m r ∧ inherits w m r ∧ timely w m r)
      (.start config factory disk wall enabled withHub) past w)
    (settled : w.waiting = 0) {h : Hub MemorySystem} (hub : w.hub = some h) (isOpen : h.isOpen = true)
    {x : Wallet} (hx : x ∈ h.wallets) (kept : ¬Removed x.code past) {p : SyncState}
    (published : (h.board.sync.get x.code).latest = some p) :
    p.syncing = x.isSyncing ∧
      (x.isSyncing = false → p.fraction = .one ∧ p.timestamp = 0 ∧ p.syncing = false) := by
  obtain ⟨s, hs, hxs⟩ : ∃ s, h.handle = some s ∧ x ∈ s.wallets := by
    cases hs : h.handle with
    | none =>
      rw [Hub.wallets, hs] at hx
      cases hx
    | some s =>
      rw [Hub.wallets, hs] at hx
      exact ⟨s, rfl, hx⟩
  have hqueue := World.queue_of_waiting hub hs settled
  have hagrees := (run.keeping kept).accord (sound_agreeingProgress x.code)
    (fun w m r hallowed hmove => ⟨hallowed.1.1, bringsSole_of_inherits x.code hallowed.1.2.1 hmove,
      commands_reportsInTime hallowed.1.2.2 (hallowed.2.commands hmove)⟩) rfl
    (fun h hh => World.eq_create_of_start hh ▸ Accord.holds_create agreeingProgress progressNews x.code config rfl)
    h hub
  have hfind : Wallet.find? s.wallets x.code = some x :=
    MemorySystem.find?_of_sole (hagrees.waits s hs).sole hxs ((Currency.hasCode_iff _ _).mpr rfl)
  have hcurrent := hagrees.current isOpen s hs
  have hpossible := hagrees.possible s hs p published
  rw [hfind, News.coming, hqueue] at hcurrent
  have hsyncing : p.syncing = x.isSyncing := hcurrent p published
  refine ⟨hsyncing, ?_⟩
  intro hdone
  have hnot : p.syncing = false := hsyncing.trans hdone
  obtain ⟨hfraction, htimestamp⟩ := hpossible.2 hnot
  exact ⟨hfraction, htimestamp, hnot⟩

/-- A hub that was closed while its wallet was catching up, and opened again. -/
def closedInTheMiddle : Past × MemoryWorld :=
  World.play neverOpen
    [.act (.openHub ⟨"alice", ⟨0, 0⟩, [1]⟩), .act (.command (.addWallet ⟨"bitcoin", "btc", "Bitcoin", 8⟩)),
      .deliver, .deliver, .deliver, .deliver, .deliver,
      .act (.command (.setManagerState "btc" .syncing)), .deliver, .deliver,
      .act (.command (.syncProgress "btc" (.finite false 40 0) none)), .deliver, .deliver,
      .act .closeHub, .deliver, .deliver,
      .act (.openHub ⟨"alice", ⟨0, 0⟩, [1]⟩), .deliver, .deliver]

/-- What was said when the hub was closed has been taken back. -/
theorem end_of_progress_is_published :
    ∃ h p, closedInTheMiddle.2.hub = some h ∧ (h.board.sync.get "btc").latest = some p ∧
      p.fraction = .one ∧ p.timestamp = 0 ∧ p.syncing = false := by
  have hplain {w : MemoryWorld} {m : Move} {r : Reply} (hpeace : ∀ trap, m ≠ .act (.arm trap))
      (hopen : ∀ account, m ≠ .act (.openHub account))
      (hreport : ∀ code percent time, m ≠ .act (.command (.syncProgress code percent time))) :
      peaceful w m r ∧ inherits w m r ∧ timely w m r :=
    ⟨hpeace, inherits_of_ne hopen, timely_of_ne hreport⟩
  have hplay : Run (fun w m r => peaceful w m r ∧ inherits w m r ∧ timely w m r) neverOpen
      closedInTheMiddle.1 closedInTheMiddle.2 := by
    refine Run.play _ _ ⟨⟨nofun, ?_, timely_of_ne nofun⟩, ?_⟩
    · intro account h _ hub _
      obtain rfl := Option.some.inj hub
      exact Or.inl (by decide +kernel)
    iterate 9 refine ⟨hplain nofun nofun nofun, ?_⟩
    refine ⟨⟨nofun, inherits_of_ne nofun, ?_⟩, ?_⟩
    · exact timely_of_syncing (by decide +kernel)
    iterate 5 refine ⟨hplain nofun nofun nofun, ?_⟩
    refine ⟨⟨nofun, inherits_of_held ?_, timely_of_ne nofun⟩, ?_⟩
    · decide +kernel
    iterate 2 refine ⟨hplain nofun nofun nofun, ?_⟩
    trivial
  obtain ⟨-, hcalm⟩ := hplay.calm rfl fun w m r h => h.1
  have run : Run (fun w m r => unbroken w m r ∧ inherits w m r ∧ timely w m r) neverOpen
      closedInTheMiddle.1 closedInTheMiddle.2 := hcalm.mono fun w m r h => ⟨h.2.2, h.1.2⟩
  obtain ⟨h, hub⟩ : ∃ h, closedInTheMiddle.2.hub = some h := Option.isSome_iff_exists.mp (by decide +kernel)
  have hfields : (closedInTheMiddle.2.hub.map fun h => (h.isOpen, h.wallets.map fun x => (x.code, x.isSyncing),
      (h.board.sync.get "btc").latest.isSome)) = some (true, [("btc", false)], true) := by
    decide +kernel
  rw [hub, Option.map_some] at hfields
  simp only [Option.some.injEq, Prod.mk.injEq] at hfields
  obtain ⟨isOpen, hwallets, hpublished⟩ := hfields
  obtain ⟨x, hx, hxcode⟩ := List.map_eq_singleton_iff.mp hwallets
  obtain ⟨hcode, hdone⟩ := Prod.mk.inj hxcode
  obtain ⟨p, hp⟩ := Option.isSome_iff_exists.mp hpublished
  have hmem : x ∈ h.wallets := by rw [hx]; exact List.mem_cons_self
  have hkept : ¬Removed x.code closedInTheMiddle.1 := by
    rintro ⟨other, -, hm⟩
    have hmove := List.mem_map_of_mem (f := Prod.fst) hm
    rw [closedInTheMiddle, World.map_fst_play] at hmove
    simp at hmove
  obtain ⟨-, hagrees⟩ := run.progress_agrees (by decide +kernel) hub isOpen hmem hkept (hcode.symm ▸ hp)
  exact ⟨h, p, hub, hp, hagrees hdone⟩

end WalletHub
