import WalletHub.Proofs.Hub.Updates
import WalletHub.Proofs.World.Moves

/-!
# What can happen to a hub, whatever its systems are

`Hub.Change` says what can happen to a hub over systems in memory, and what it does to the system. Where
only the hub itself matters less is enough, and it can be said for systems of every kind: a hub gets
another system, is opened or closed, receives a callback, or has its task run (`Hub.Step`). Nothing that
was published is ever taken back (`Hub.Step.grown`).

A step says less than a change: of a new system it is not said where it comes from, and of a command nothing
at all but that the system may be another one. In exchange it holds of every kind of system, so that what is
proved by steps holds of hubs over systems that answer by a script too.

## What is proved

* `Board.Grown.receive`, `Board.Grown.reconcile`, `Hub.grown_runSession`: callbacks, openings and runs of the task
  publish on the channels, and take nothing back.
* `Hub.Step.grown`: so does every step of a hub. The version of a channel therefore only rises.
* `Hub.Step.config_eq`, `Hub.Step.handle_isSome`: the settings stay, and a hub that has a system keeps one.
* `Hub.Step.session_eq`: a hub that is open has a task, and one that is closed has none.
* `Hub.Step.silent`: a closed hub publishes nothing unless it is opened.
-/

namespace WalletHub

/-! ### Boards -/

/-- The channels are as they were, or values were published on them. -/
structure Board.Grown (b b' : Board) : Prop where
  system : b.system.Grown b'.system
  account : b.account.Grown b'.account
  wallets : b.wallets.Grown b'.wallets
  sync (code : String) : (b.sync.get code).Grown (b'.sync.get code)
  transfers (code : String) : (b.transfers.get code).Grown (b'.transfers.get code)
  updates (code : String) : (b.updates.get code).Grown (b'.updates.get code)

namespace Board

theorem Grown.same (b : Board) : b.Grown b :=
  ⟨.same, .same, .same, fun _ => .same, fun _ => .same, fun _ => .same⟩

theorem Grown.trans {b b' b'' : Board} (h : b.Grown b') (h' : b'.Grown b'') : b.Grown b'' where
  system := h.system.trans h'.system
  account := h.account.trans h'.account
  wallets := h.wallets.trans h'.wallets
  sync code := (h.sync code).trans (h'.sync code)
  transfers code := (h.transfers code).trans (h'.transfers code)
  updates code := (h.updates code).trans (h'.updates code)

/-- What is done over and over only adds to the board if it does so once. -/
theorem grown_foldl {α : Type} {f : Board → α → Board} (h : ∀ b a, Grown b (f b a)) (as : List α) (b : Board) :
    b.Grown (as.foldl f b) := by
  induction as generalizing b with
  | nil => exact .same b
  | cons a as ih => exact (h b a).trans (ih (f b a))

theorem grown_offerWallets (ws : List Wallet) (b : Board) : b.Grown (b.offerWallets ws) :=
  { Grown.same b with wallets := .offer .same ws }

theorem version_foldl_offerWallets (lists : List (List Wallet)) (b : Board) :
    (lists.foldl (fun b ws => b.offerWallets ws) b).wallets.version = b.wallets.version + lists.length := by
  induction lists generalizing b with
  | nil => rfl
  | cons ws lists ih =>
    rw [List.foldl_cons, ih, List.length_cons, offerWallets, Channel.version_offer]
    omega

theorem grown_offerSync (s : SyncState) (b : Board) : b.Grown (b.offerSync s) :=
  { Grown.same b with sync := fun code => Channels.grown_offer b.sync s.code code s }

theorem grown_offerTransfer (w : Wallet) (t : Transfer) (b : Board) : b.Grown (b.offerTransfer w t) :=
  { Grown.same b with
    transfers := fun code => Channels.grown_offer b.transfers w.code code w.transfers
    updates := fun code => Channels.grown_offer b.updates w.code code t }

theorem Grown.refresh (b : Board) (w : Wallet) : b.Grown (b.refresh w) where
  system := .same
  account := .same
  wallets := .same
  sync code := by
    simp only [Board.refresh]
    split
    · exact Channels.grown_offer _ _ _ _
    · exact .same
  transfers code := Channels.grown_offer b.transfers w.code code w.transfers
  updates code := grown_refresh code b w

theorem Grown.reconcile (account : Account) (ws : List Wallet) (b : Board) :
    b.Grown (b.reconcile account ws) := by
  have hgreeted : b.Grown { b with system := b.system.offer ⟨account⟩, account := b.account.offer account } :=
    { Grown.same b with system := .offer .same _, account := .offer .same _ }
  exact (hgreeted.trans (grown_foldl Grown.refresh ws _)).trans (grown_offerWallets ws _)

theorem Grown.receive (ws : List Wallet) (b : Board) (c : Callback) : b.Grown (b.receive ws c) := by
  cases c with
  | system | network => exact .same b
  | manager m event =>
    exact (b.grown_offerWallets ws).trans (grown_foldl (fun b s => b.grown_offerSync s) _ _)
  | wallet m w event =>
    rw [Board.receive]
    split
    · exact (b.grown_offerWallets ws).trans (grown_offerTransfer w _ _)
    · exact b.grown_offerWallets ws
  | transfer m w t event => exact b.grown_offerTransfer w t

end Board

/-! ### Steps -/

namespace Hub

variable {σ : Type} [WalletSystem σ]

/-- What a move that is answered can do to a hub. -/
inductive Step (h : Hub σ) (m : Move) (r : Reply) : Hub σ → Prop where
  /-- It gets a system, or another one, or its system changes. -/
  | hold (s : σ) : Step h m r { h with handle := some s }
  /-- It is opened. -/
  | launch (session : Session) (s : σ) (asked : ∃ account, m = .act (.openHub account)) (answered : r = .ok) :
      Step h m r (h.launch session s)
  /-- It is closed. -/
  | close (s : Option σ) (kept : h.handle.isSome = true → s.isSome = true) :
      Step h m r { h.cancelled with handle := s }
  | receive (c : Callback) (s : σ) : Step h m r (receive c { h with handle := some s })
  | task (p : Provider) (t : Tracker) : Step h m r (h.runSession p t).1

omit [WalletSystem σ] in
theorem grown_publish (wallets : Option (List Wallet)) (h : Hub σ) : h.board.Grown (h.publish wallets).board := by
  cases wallets with
  | none => exact .same _
  | some ws => exact h.board.grown_offerWallets ws

theorem grown_runSession (p : Provider) (t : Tracker) (h : Hub σ) : h.board.Grown (h.runSession p t).1.board := by
  rcases h.runSession_cases p t with ⟨-, hsame⟩ | ⟨_, _, changes, _, _, -, -, hrun⟩
  · rw [hsame]
    exact .same _
  · rw [hrun]
    have hkeeps (h' : Hub σ) (hgrown : h.board.Grown h'.board) :
        h.board.Grown (h'.publish (h'.handle.map WalletSystem.wallets)).board :=
      hgrown.trans (h'.grown_publish _)
    exact kept_republish hkeeps changes (Board.Grown.same h.board)

theorem grown_receive (c : Callback) (h : Hub σ) : h.board.Grown (h.receive c).board := by
  unfold Hub.receive
  split
  · exact Board.Grown.receive _ _ c
  · exact .same _

namespace Step

variable {h h' : Hub σ} {m : Move} {r : Reply}

/-- **Nothing that was published is taken back.** -/
theorem grown (step : h.Step m r h') : h.board.Grown h'.board := by
  cases step with
  | hold | close => exact .same _
  | launch session s => exact Board.Grown.reconcile _ _ h.board
  | receive c s => exact grown_receive c { h with handle := some s }
  | task p t => exact grown_runSession p t h

/-- The settings of a hub never change. -/
theorem config_eq (step : h.Step m r h') : h'.config = h.config := by
  cases step with
  | hold | close | launch => rfl
  | receive c s => exact (receive_fields c _).2.2
  | task p t => exact (runSession_fields p t h).2.2

/-- A hub that has a system keeps one. -/
theorem handle_isSome (step : h.Step m r h') (kept : h.handle.isSome = true) : h'.handle.isSome = true := by
  cases step with
  | hold | launch => rfl
  | close s still => exact still kept
  | receive c s =>
    rw [(receive_fields c _).2.1]
    rfl
  | task p t =>
    rw [(runSession_fields p t h).2.1]
    exact kept

/-- The task of a hub is there as long as the hub is open. -/
theorem session_eq (step : h.Step m r h') (paired : h.session.isSome = h.isOpen) :
    h'.session.isSome = h'.isOpen := by
  cases step with
  | hold => exact paired
  | launch | close => rfl
  | receive c s =>
    rw [(receive_fields c _).1]
    unfold Hub.receive
    split <;> exact paired
  | task p t => rw [session_runSession, (runSession_fields p t h).1, paired]

/-- **A closed hub publishes nothing**, unless it is opened, and no more of its tasks are cancelled. -/
theorem silent (step : h.Step m r h') (closed : h.isOpen = false) (idle : h.session = none)
    (unopened : ∀ account, ¬(m = .act (.openHub account) ∧ r = .ok)) :
    h'.isOpen = false ∧ h'.session = none ∧ h'.board = h.board ∧ h'.leaving = h.leaving := by
  cases step with
  | hold => exact ⟨closed, idle, rfl, rfl⟩
  | close =>
    refine ⟨rfl, rfl, rfl, ?_⟩
    simp only [cancelled, errand?, idle, Option.toList_none, List.append_nil]
  | launch session s asked answered =>
    obtain ⟨account, hasked⟩ := asked
    exact absurd ⟨hasked, answered⟩ (unopened account)
  | receive c s =>
    have hdropped : Hub.receive c { h with handle := some s } = { h with handle := some s } := by
      simp only [Hub.receive, closed, Bool.false_eq_true, if_false]
    rw [hdropped]
    exact ⟨closed, idle, rfl, rfl⟩
  | task p t =>
    have hidle : (h.runSession p t).1 = h := by simp only [Hub.runSession, idle]
    rw [hidle]
    exact ⟨closed, idle, rfl, rfl⟩

end Step

end Hub

end WalletHub
