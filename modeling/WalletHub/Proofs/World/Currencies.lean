import WalletHub.Proofs.Hub.Callbacks
import WalletHub.Proofs.World.Closed
import WalletHub.Proofs.World.Onlookers

/-!
# Each currency for itself

The channels of a currency are filled by openings, with the wallets of this currency, and by the callbacks that
are about it. Nothing else leaves a trace on them: whatever else happened in a run, they are as if these entries
alone had been made on an empty board (`Course.replayed`). So two runs with the same entries, over systems of any
kind, have the same channels in the end.

## What is proved

* `World.shows_go`: every move that keeps the hub makes its entries for a currency (`World.entries`), and nothing
  else comes onto the channels.
* `World.Records.go`, `World.Records.after`: the channels are what the entries have made of an empty board, after
  one move and after any number of them.
* `Course.replayed`: it is so in every course.
* `Course.each_currency_for_itself`: an open hub does with a callback what the callback says and no more
  (`Hub.Translates`), and the channels of a currency depend on its own entries alone.

`accompanied_apart` compares a hub that has one wallet with a hub that has another one as well.
-/

namespace WalletHub

/-! ### Entries -/

/-- What is entered on the channels of a currency. -/
inductive Entry where
  /-- The hub was opened, with these wallets of the currency. -/
  | opened (wallets : List Wallet)
  /-- A callback was told that is about the currency. -/
  | told (callback : Callback)

namespace Board

/-- The board with an entry made. Of the wallets that a callback finds only the list is published. -/
def enter (b : Board) : Entry → Board
  | .opened wallets => wallets.foldl refresh b
  | .told callback => b.receive [] callback

/-- The board with nothing but some entries on it. -/
def replay (entries : List Entry) : Board := entries.foldl enter .empty

variable {b b' : Board} {code : String}

theorem Untouched.foldl_enter (h : b.Untouched b' code) (entries : List Entry) :
    (entries.foldl enter b).Untouched (entries.foldl enter b') code := by
  have hwallets {b b' : Board} (h : b.Untouched b' code) (ws : List Wallet) :
      (ws.foldl Board.refresh b).Untouched (ws.foldl Board.refresh b') code := by
    induction ws generalizing b b' with
    | nil => exact h
    | cons w ws ih => exact ih (h.refresh w)
  induction entries generalizing b b' with
  | nil => exact h
  | cons e entries ih =>
    cases e with
    | opened ws => exact ih (hwallets h ws)
    | told c => exact ih (h.receive [] [] c)

end Board

variable {φ σ : Type} [WalletSystem σ] [SystemFactory φ σ] [Steering φ σ]

namespace World

/-- The entries of the callbacks that are delivered to the hub: an open hub takes those about the currency, but
for one at which the tracker breaks off. -/
def noted (code : String) (w : World φ σ) (callbacks : List Callback) : List Entry :=
  if w.hub.any Hub.isOpen then (callbacks.filter fun c => !w.breaksAt c && c.isAbout code).map .told else []

/-- What a move enters for a currency. -/
def entries (code : String) (w : World φ σ) : Move → List Entry
  | .act (.openHub account) => match w.act (.openHub account) with
    | (.ok, w') => [.opened (((w'.hub.map Hub.wallets).getD []).filter fun x => x.currency.hasCode code)]
    | _ => []
  | m => w.noted code (w.listened m)

/-- What was entered for a currency since the hub was made, after what there was before. -/
def since (code : String) (before : List Entry) (w : World φ σ) : List Move → List Entry
  | [] => before
  | m :: moves => (w.go m).2.since code (if m.drops then [] else before ++ w.entries code m) moves

/-! ### Boards along a move -/

/-- The board of the hub. -/
def shown (w : World φ σ) : Option Board := w.hub.map Hub.board

/-- The entries are what has happened to the channels of a currency in going from one world to another. -/
def Shows (code : String) (entries : List Entry) (w w' : World φ σ) : Prop :=
  ∀ b', w'.shown = some b' → ∃ b, w.shown = some b ∧ (entries.foldl Board.enter b).Untouched b' code

variable {code : String} {w w' x x' : World φ σ} {es : List Entry}

omit [WalletSystem σ] [SystemFactory φ σ] [Steering φ σ] in
theorem Shows.of_shown (h : w'.shown = w.shown) : Shows code [] w w' :=
  fun b' hb' => ⟨b', h ▸ hb', .refl b' code⟩

omit [WalletSystem σ] [SystemFactory φ σ] [Steering φ σ] in
theorem Shows.congr (h : Shows code es x x') (first : x.shown = w.shown) (last : w'.shown = x'.shown) :
    Shows code es w w' := by
  intro b' hb'
  obtain ⟨b, hb, hsame⟩ := h b' (last ▸ hb')
  exact ⟨b, first ▸ hb, hsame⟩

omit [WalletSystem σ] [SystemFactory φ σ] [Steering φ σ] in
theorem shown_setSystem (w : World φ σ) (s : σ) : (w.setSystem s).shown = w.shown := by
  obtain ⟨loose, hset⟩ := w.exists_setSystem s
  rw [hset, shown, Option.map_map]
  rfl

/-- An action on the world that neither opens nor drops the hub, and delivers nothing, leaves the board as it
is. -/
theorem shown_act (w : World φ σ) {a : Action} (apart : (Move.act a).subscriber? = none)
    (kept : (Move.act a).drops = false) (undelivered : ∀ c alone, a ≠ .deliver c alone)
    (unopened : ∀ account, a ≠ .openHub account) :
    (w.act a).2.shown = w.shown := by
  cases a with
  | deliver c alone => exact absurd rfl (undelivered c alone)
  | openHub account => exact absurd rfl (unopened account)
  | dropHub | restart => cases kept
  | closeHub =>
    cases hhub : w.hub with
    | none => simp only [act, close, hhub]
    | some h =>
      simp only [act, close, hhub, shown, Option.map_some]
      unfold Hub.close
      split
      · simp only
        split <;> rfl
      · rfl
  | command c =>
    obtain ⟨change, loose, wall, around, hcommand⟩ := w.exists_runCommand c
    rw [act, hcommand, shown, Option.map_map]
    rfl
  | subscribe | unsubscribe | next | drain => cases apart
  | create account recorded =>
    have hact : (w.act (.create account recorded)).2 = (w.createLoose account recorded).2 := by
      simp only [act]
      split <;> next heq => rw [heq]
    rw [hact]
    simp only [createLoose]
    split <;> rfl
  | setWallets wallets =>
    simp only [act]
    split
    · exact shown_setSystem _ _
    · rfl
  | askCalls =>
    simp only [act, takeCalls]
    split <;> rfl
  | _ => rfl

omit [SystemFactory φ σ] [Steering φ σ] in
/-- A delivery is entered if the hub takes it. -/
theorem shows_deliver (c : Callback) (w : World φ σ) :
    Shows code (w.noted code (if (w.hub.bind Hub.handle).isSome then [c] else [])) w (w.deliver c).2 := by
  have hend := w.delivery_deliver c
  generalize (w.deliver c).1 = answer at hend
  generalize (w.deliver c).2 = w' at hend ⊢
  cases hend with
  | broke reason hbreaks =>
    have hnone : w.noted code (if (w.hub.bind Hub.handle).isSome then [c] else []) = [] := by
      unfold noted
      split
      · split <;> simp [hbreaks]
      · rfl
    rw [hnone]
    exact .of_shown rfl
  | @received h s hhub hkept hwhole =>
    intro b' hb'
    obtain rfl := Option.some.inj hb'
    refine ⟨h.board, by rw [shown, hhub]; rfl, ?_⟩
    have hnoted : w.noted code (if (w.hub.bind Hub.handle).isSome then [c] else []) =
        if h.isOpen && c.isAbout code then [.told c] else [] := by
      cases hopen : h.isOpen <;> cases habout : c.isAbout code <;>
        simp [noted, hhub, hkept, hopen, habout, hwhole]
    rw [hnoted]
    cases hopen : h.isOpen with
    | false =>
      rw [Hub.receive, hopen]
      exact .refl _ _
    | true =>
      rw [Hub.receive, if_pos hopen]
      cases habout : c.isAbout code with
      | true => exact (Board.Untouched.refl h.board code).receive [] h.wallets c
      | false => exact h.board.untouched_receive h.wallets (Callback.isAbout_eq_false habout)
  | aside hbare seen =>
    have hnone : w.noted code (if (w.hub.bind Hub.handle).isSome then [c] else []) = [] := by
      rw [hbare]
      unfold noted
      split <;> rfl
    rw [hnone]
    exact .of_shown rfl

omit [WalletSystem σ] [SystemFactory φ σ] [Steering φ σ] in
theorem noted_setSystem (w : World φ σ) (s : σ) (callbacks : List Callback) :
    (w.setSystem s).noted code callbacks = w.noted code callbacks := by
  obtain ⟨loose, hset⟩ := w.exists_setSystem s
  have hopen : (w.setSystem s).hub.any Hub.isOpen = w.hub.any Hub.isOpen := by
    rw [hset]
    cases w.hub <;> rfl
  have hbreaks (c : Callback) : (w.setSystem s).breaksAt c = w.breaksAt c := by
    rw [hset]
    rfl
  simp only [noted, hopen, hbreaks]

omit [WalletSystem σ] [SystemFactory φ σ] [Steering φ σ] in
theorem noted_nil (w : World φ σ) : w.noted code [] = [] := by
  unfold noted
  split <;> rfl

omit [SystemFactory φ σ] in
theorem shows_deliverFirst (w : World φ σ) :
    Shows code (w.noted code (w.listened .deliver)) w w.deliverFirst.2 := by
  cases hlast : w.lastSystem with
  | none =>
    have hnone := bare_of_lastSystem hlast
    simp only [listened, hnone, deliverFirst, hlast, noted_nil]
    exact .of_shown rfl
  | some s =>
    rw [listened_deliver hlast]
    cases hqueue : WalletSystem.queue s with
    | nil =>
      simp only [deliverFirst, hlast, hqueue, List.headD_nil, List.take_nil, ite_self, noted_nil]
      exact .of_shown rfl
    | cons job jobs =>
      cases job with
      | nil =>
        simp only [deliverFirst, hlast, hqueue, List.headD_cons, List.take_nil, ite_self, noted_nil]
        exact .of_shown (shown_setSystem w _)
      | cons c job =>
        have hshows : Shows code _ _ _ := shows_deliver c (w.setSystem (WalletSystem.withQueue (job :: jobs) s))
        rw [isSome_setSystem, noted_setSystem] at hshows
        refine hshows.congr (shown_setSystem w _) ?_
        simp only [deliverFirst, hlast, hqueue]
        split
        · next heq => rw [heq]
        · next heq =>
          rw [heq]
          exact shown_setSystem _ _

omit [SystemFactory φ σ] in
theorem shows_deliverScripted (w : World φ σ) (c : Callback) (alone : Bool) :
    Shows code (w.noted code (w.listened (.act (.deliver c alone)))) w (w.deliverScripted c alone).2 := by
  cases alone with
  | true =>
    simp only [listened, noted_nil, deliverScripted, if_true]
    rcases w.toTracker_cases c with ⟨-, reason, htracker⟩ | ⟨-, htracker⟩
    · rw [htracker]
      exact .of_shown rfl
    · rw [htracker]
      exact .of_shown rfl
  | false =>
    simp only [listened, deliverScripted, Bool.false_eq_true, if_false]
    cases hscripted : Steering.scripted w.surroundings.factory with
    | false =>
      simp only [Bool.false_and, Bool.false_eq_true, if_false, noted_nil]
      exact .of_shown rfl
    | true =>
      simp only [Bool.true_and]
      cases hlast : w.lastSystem with
      | some s => exact shows_deliver c w
      | none =>
        rw [bare_of_lastSystem hlast]
        simp only [Option.isSome_none, Bool.false_eq_true, if_false, noted_nil]
        exact .of_shown rfl

/-- An opening enters the wallets that the system has then. -/
theorem shows_openHub (w : World φ σ) (account : Account) :
    Shows code (w.entries code (.act (.openHub account))) w (w.act (.openHub account)).2 := by
  cases hhub : w.hub with
  | none =>
    simp only [entries, act, openFor, hhub, lifecycleReply]
    exact .of_shown rfl
  | some h =>
    obtain ⟨answer, h', around, trap, hend, hact⟩ := exists_opening hhub account
    have hrefused {error : HubError} (refused : answer = .error error) (same : h'.board = h.board) :
        Shows code (w.entries code (.act (.openHub account))) w (w.act (.openHub account)).2 := by
      rw [refused] at hact
      have hnone : w.entries code (.act (.openHub account)) = [] := by
        rw [entries, hact]
        rfl
      rw [hnone, hact]
      refine .of_shown ?_
      rw [shown, shown, hhub, Option.map_some, Option.map_some, same]
    cases hend with
    | alreadyOpen | emptyAccount | noDirectory | notObtained | mismatch => exact hrefused rfl rfl
    | @launched e₁ e₂ s closed given directory obtained same =>
      have hentries : w.entries code (.act (.openHub account)) =
          [.opened ((h.launch w.nextSession s).wallets.filter fun x => x.currency.hasCode code)] := by
        rw [entries, hact]
        rfl
      rw [hentries, hact]
      intro b' hb'
      obtain rfl := Option.some.inj hb'
      refine ⟨h.board, by rw [shown, hhub]; rfl, ?_⟩
      have hgreeted : h.board.Untouched { h.board with
          system := h.board.system.offer ⟨WalletSystem.account (WalletSystem.connect s)⟩
          account := h.board.account.offer (WalletSystem.account (WalletSystem.connect s)) } code :=
        ⟨rfl, rfl, rfl⟩
      have hfold := Board.untouched_foldl_filter (WalletSystem.wallets (WalletSystem.connect s)) hgreeted
      exact ⟨hfold.sync, hfold.transfers, hfold.updates⟩

omit [SystemFactory φ σ] [Steering φ σ] in
/-- The task publishes the list of wallets only. -/
theorem shows_runSession (w : World φ σ) : Shows code [] w w.runSession := by
  cases hhub : w.hub with
  | none =>
    simp only [runSession, hhub]
    exact .of_shown rfl
  | some h =>
    intro b' hb'
    refine ⟨h.board, by rw [shown, hhub]; rfl, ?_⟩
    simp only [runSession, hhub] at hb'
    obtain rfl := Option.some.inj hb'
    show h.board.Untouched (h.runSession w.provider w.tracker).1.board code
    rcases h.runSession_cases w.provider w.tracker with ⟨-, hsame⟩ | ⟨_, _, changes, _, _, -, -, hrun⟩
    · rw [hsame]
      exact .refl _ _
    · have hkeeps (h' : Hub σ) (hkept : h.board.Untouched h'.board code) :
          h.board.Untouched (h'.publish (h'.handle.map WalletSystem.wallets)).board code := by
        cases h'.handle with
        | none => exact hkept
        | some s => exact ⟨hkept.sync, hkept.transfers, hkept.updates⟩
      rw [hrun]
      exact Hub.kept_republish hkeeps changes (Board.Untouched.refl h.board code)

/-- **Every move that keeps the hub makes its entries**, and nothing else comes onto the channels. -/
theorem shows_go (w : World φ σ) {m : Move} (kept : m.drops = false) :
    Shows code (w.entries code m) w (w.go m).2 := by
  cases hasked : m.subscriber? with
  | some name =>
    have hnone : w.entries code m = [] := by
      cases m with
      | act a =>
        cases a with
        | subscribe | unsubscribe | next | drain => exact w.noted_nil
        | _ => cases hasked
      | deliver | task | forget => cases hasked
    rw [hnone, go_of_subscriber w (by rw [hasked]; rfl)]
    exact .of_shown rfl
  | none =>
    cases m with
    | deliver => exact w.shows_deliverFirst
    | task =>
      have hnone : w.entries code .task = [] := w.noted_nil
      rw [hnone]
      exact w.shows_runSession
    | forget =>
      have hnone : w.entries code .forget = [] := w.noted_nil
      rw [hnone]
      exact .of_shown rfl
    | act a =>
      by_cases hopened : ∃ account, a = .openHub account
      · obtain ⟨account, rfl⟩ := hopened
        exact w.shows_openHub account
      · obtain ⟨c, alone, rfl⟩ | undelivered := a.eq_deliver_or
        · exact w.shows_deliverScripted c alone
        · have unopened (account : Account) : a ≠ .openHub account := fun h => hopened ⟨account, h⟩
          have hnone : w.entries code (.act a) = [] := by
            cases a with
            | deliver c alone => exact absurd rfl (undelivered c alone)
            | openHub account => exact absurd rfl (unopened account)
            | _ => exact w.noted_nil
          rw [hnone]
          exact .of_shown (w.shown_act hasked kept undelivered unopened)

/-- Nothing is on the board after a hub was dropped, or made anew. -/
theorem shown_drops (w : World φ σ) {m : Move} (drops : m.drops = true) {b : Board} (hb : (w.go m).2.shown = some b) :
    b = .empty := by
  cases m with
  | act a =>
    cases a with
    | dropHub =>
      cases hhub : w.hub with
      | none =>
        simp only [go, act, dropHub, hhub, shown, Option.map_none] at hb
        cases hb
      | some h =>
        simp only [go, act, dropHub, hhub, shown, Option.map_none] at hb
        cases hb
    | restart config =>
      simp only [go, act, restart, shown, Option.map_some] at hb
      exact (Option.some.inj hb).symm
    | _ => cases drops
  | deliver | task | forget => cases drops

/-! ### Boards along a run -/

/-- The channels of a currency are what the entries have made of an empty board. -/
def Records (code : String) (entries : List Entry) (w : World φ σ) : Prop :=
  ∀ b, w.shown = some b → (Board.replay entries).Untouched b code

theorem Records.go (h : w.Records code es) (m : Move) :
    (w.go m).2.Records code (if m.drops then [] else es ++ w.entries code m) := by
  intro b' hb'
  cases hdrops : m.drops with
  | true =>
    obtain rfl := w.shown_drops hdrops hb'
    exact .refl _ _
  | false =>
    obtain ⟨b, hb, hsame⟩ := w.shows_go hdrops b' hb'
    have hreplay : Board.replay (es ++ w.entries code m) = (w.entries code m).foldl Board.enter (Board.replay es) :=
      List.foldl_append
    simp only [Bool.false_eq_true, if_false, hreplay]
    exact ((h b hb).foldl_enter _).trans hsame

theorem Records.after (h : w.Records code es) (moves : List Move) :
    (w.after moves).Records code (w.since code es moves) := by
  induction moves generalizing w es with
  | nil => exact h
  | cons m moves ih => exact ih (h.go m)

end World

namespace Course

variable {φ' σ' : Type} [WalletSystem σ'] [SystemFactory φ' σ'] [Steering φ' σ']

/-- **The entries of a currency make its channels**, whatever else has happened in the run. -/
theorem replayed {start w : World φ σ} {past : Past} (course : Course start past w)
    (first : ∀ h, start.hub = some h → h.board = .empty) {h : Hub σ} (hub : w.hub = some h) (code : String) :
    (Board.replay (start.since code [] (past.map Prod.fst))).Untouched h.board code := by
  have hfirst : start.Records code [] := by
    intro b hb
    obtain ⟨h, hh, rfl⟩ := Option.map_eq_some_iff.mp hb
    rw [first h hh]
    exact .refl _ _
  have hlast := hfirst.after (past.map Prod.fst)
  rw [← course.eq_after] at hlast
  exact hlast h.board (by rw [World.shown, hub]; rfl)

/-- **A callback says what it is about, and each currency is published for itself.** An open hub in any state does
with any callback what the callback says, and no more: the callbacks of systems and networks change no channel at
all, and no callback changes the channels of a currency that it is not about. In two runs therefore, over systems
of any kinds, where the callbacks about a currency were the same since the hub was made, and the openings with
their wallets of this currency, its channels are the same in the end. -/
theorem each_currency_for_itself :
    (∀ h : Hub σ, h.isOpen = true → ∀ c, h.Translates c (h.receive c)) ∧
      ∀ {start w : World φ σ} {start' w' : World φ' σ'} {past past' : Past},
        (∀ h, start.hub = some h → h.board = .empty) → (∀ h, start'.hub = some h → h.board = .empty) →
        Course start past w → Course start' past' w' → ∀ code : String,
        start.since code [] (past.map Prod.fst) = start'.since code [] (past'.map Prod.fst) →
        ∀ h h', w.hub = some h → w'.hub = some h' → h.board.Untouched h'.board code := by
  refine ⟨fun h isOpen c => Hub.translates_receive isOpen c, ?_⟩
  intro start w start' w' past past' first first' course course' code same h h' hub hub'
  have hreplayed := course.replayed first hub code
  rw [same] at hreplayed
  exact hreplayed.symm.trans (course'.replayed first' hub' code)

end Course

/-- A wallet is added, and its manager begins to synchronize. -/
def beginning (currency : Currency) : List Move :=
  [.act (.command (.addWallet currency)), .deliver, .deliver, .deliver, .deliver, .deliver,
    .act (.command (.setManagerState currency.code .syncing)), .deliver, .deliver]

/-- The manager of the first wallet is done. -/
def caughtUp : Callback :=
  .manager ⟨⟨"bitcoin", "btc", "Bitcoin", 8⟩, "bitcoin", .connected⟩ (.changed .syncing .connected)

/-- A hub with one wallet. -/
def unaccompanied : Past × MemoryWorld :=
  neverOpen.play (.act (.openHub ⟨"alice", ⟨0, 0⟩, [1]⟩) :: beginning ⟨"bitcoin", "btc", "Bitcoin", 8⟩)

/-- It has another wallet before. -/
def accompanied : Past × MemoryWorld :=
  neverOpen.play (.act (.openHub ⟨"alice", ⟨0, 0⟩, [1]⟩) ::
    (beginning ⟨"dogecoin", "doge", "Dogecoin", 8⟩ ++ beginning ⟨"bitcoin", "btc", "Bitcoin", 8⟩))

/-- The channels of a wallet are the same whether or not there is another one, and when its manager is done the
progress of the other one stays. -/
theorem accompanied_apart : ∃ h h', unaccompanied.2.hub = some h ∧ accompanied.2.hub = some h' ∧
    h.board.Untouched h'.board "btc" ∧
    ((h'.receive caughtUp).board.sync.get "btc").latest = some (.completed "btc") ∧
    ((h'.receive caughtUp).board.sync.get "doge").latest = some (.started "doge") := by
  obtain ⟨h, hub⟩ : ∃ h, unaccompanied.2.hub = some h := Option.isSome_iff_exists.mp (by decide +kernel)
  obtain ⟨h', hub'⟩ : ∃ h', accompanied.2.hub = some h' := Option.isSome_iff_exists.mp (by decide +kernel)
  have hfields : accompanied.2.hub.map (fun h => (h.isOpen, (h.board.sync.get "doge").latest)) =
      some (true, some (.started "doge")) := by
    decide +kernel
  rw [hub', Option.map_some] at hfields
  simp only [Option.some.injEq, Prod.mk.injEq] at hfields
  obtain ⟨isOpen, hstarted⟩ := hfields
  have first (h : Hub MemorySystem) (hub : neverOpen.hub = some h) : h.board = .empty := by
    rw [World.eq_create_of_start hub]
    rfl
  have course : Course neverOpen unaccompanied.1 unaccompanied.2 := (Run.play_any _ _).course
  have course' : Course neverOpen accompanied.1 accompanied.2 := (Run.play_any _ _).course
  have same : neverOpen.since "btc" [] (unaccompanied.1.map Prod.fst) =
      neverOpen.since "btc" [] (accompanied.1.map Prod.fst) := by rfl
  obtain ⟨htranslates, happart⟩ := @Course.each_currency_for_itself MemoryFactory MemorySystem _ _ _
    MemoryFactory MemorySystem _ _ _
  have htranslated := htranslates h' isOpen caughtUp
  refine ⟨h, h', hub, hub', happart first first course course' "btc" same h h' hub hub',
    htranslated.progress (.completed "btc") rfl, ?_⟩
  have hdoge := htranslated.apart "doge" fun own hown => by
    obtain rfl := Option.some.inj hown
    decide
  rw [hdoge.sync, hstarted]

end WalletHub
