import WalletHub.Proofs.Hub.Change
import WalletHub.Proofs.Memory.Commands
import WalletHub.Proofs.Stream.Following

/-!
# The channel of the wallets

Of an open hub the newest list on the channel of the wallets is the list that its system has, unless a
callback still waits that will publish it (`Hub.Announced`). Every change keeps this: a change of the
wallets lines up such a callback, a callback that is delivered publishes the wallets as they are then,
and an opening publishes them whatever happened before.

## What is proved

* `Hub.board_runSession`, `Hub.board_receive`: what a run of the task and a callback do to the channel, in the
  words of what they publish.
* `Hub.grown_of_change`: the channel only grows.
* `Hub.informed_of_change`: every change of a hub that is open then publishes the wallets that its system has
  now, or publishes nothing; and if the wallets are others, a callback that will publish them waits.
* `Hub.Announced.change`: so the wallets stay announced, whatever happens to the hub.

What `Hub.Announced` says of a state in which nothing waits is that the newest list is the list of the wallets.
It speaks of runs of the task as a whole; where a task is taken apart into its steps a list can be published that
was read before, and `WalletHub.Proofs.Subscription.Wallets` says when.
-/

namespace WalletHub

open MemorySystem (TellWallets)

/-! ### What an opening publishes -/

namespace Board

theorem wallets_foldl_refresh (ws : List Wallet) (b : Board) : (ws.foldl refresh b).wallets = b.wallets := by
  induction ws generalizing b with
  | nil => rfl
  | cons w ws ih => exact ih (b.refresh w)

theorem wallets_reconcile (account : Account) (ws : List Wallet) (b : Board) :
    (b.reconcile account ws).wallets = b.wallets.offer ws := by
  rw [reconcile, offerWallets, wallets_foldl_refresh]

end Board

namespace Hub

/-! ### What the task publishes -/

/-- The task publishes the wallets any number of times, and nothing else. -/
theorem board_runSession (p : Provider) (t : Tracker) (h : Hub MemorySystem) :
    (h.runSession p t).1.board = h.board ∨
      ∃ s c, h.handle = some s ∧ h.board.wallets.Grown c ∧
        (h.runSession p t).1.board = { h.board with wallets := c.offer s.wallets } := by
  rcases h.runSession_cases p t with ⟨-, hsame⟩ | ⟨_, _, changes, _, _, -, -, hrun⟩
  · rw [hsame]
    exact Or.inl rfl
  rw [hrun]
  let Kept (h' : Hub MemorySystem) : Prop := h'.handle = h.handle ∧ (h'.board = h.board ∨
    ∃ s c, h.handle = some s ∧ h.board.wallets.Grown c ∧ h'.board = { h.board with wallets := c.offer s.wallets })
  have hkeeps (h' : Hub MemorySystem) (hkept : Kept h') : Kept (h'.publish (h'.handle.map WalletSystem.wallets)) := by
    obtain ⟨hhandle, hboard⟩ := hkept
    cases hs : h.handle with
    | none =>
      rw [hhandle, hs]
      exact ⟨hhandle, hboard⟩
    | some s =>
      rw [hhandle, hs]
      refine ⟨hhandle, Or.inr ?_⟩
      rcases hboard with hsame | ⟨s', c, hs', hgrown, hboard⟩
      · refine ⟨s, h.board.wallets, hs, .same, ?_⟩
        rw [← hsame]
        rfl
      · obtain rfl := Option.some.inj (hs'.symm.trans hs)
        refine ⟨s', c.offer s'.wallets, hs, hgrown.offer _, ?_⟩
        have hpublished : (h'.publish (some s'.wallets)).board = h'.board.offerWallets s'.wallets := rfl
        refine hpublished.trans ?_
        rw [hboard]
        rfl
  exact (kept_republish hkeeps changes (show Kept h from ⟨rfl, Or.inl rfl⟩)).2

theorem board_receive (callback : Callback) {h : Hub MemorySystem} {s : MemorySystem}
    (hhandle : h.handle = some s) :
    (h.receive callback).board = if h.isOpen then h.board.receive s.wallets callback else h.board := by
  unfold receive
  split
  · show h.board.receive h.wallets callback = _
    rw [wallets, hhandle]
    rfl
  · rfl

/-! ### Every change -/

theorem config_of_change {h h' : Hub MemorySystem} {cause : Cause} (hc : h.Change cause h') : h'.config = h.config := by
  cases hc with
  | launch | hold | close | closeBare | command | finish => rfl
  | deliver => exact (receive_fields _ _).2.2
  | task p t => exact (runSession_fields p t h).2.2

/-- Whatever happens, nothing is taken from the channel of the wallets. -/
theorem grown_of_change {h h' : Hub MemorySystem} {cause : Cause} (hc : h.Change cause h') :
    h.board.wallets.Grown h'.board.wallets := by
  cases hc with
  | hold | close | closeBare | command | finish => exact .same
  | launch session s =>
    have hwallets := Board.wallets_reconcile (WalletSystem.account (WalletSystem.connect s))
      (WalletSystem.wallets (WalletSystem.connect s)) h.board
    rw [launch, hwallets]
    exact .offer .same _
  | deliver s callback job jobs kept queue =>
    rw [board_receive callback (s := { s with queue := job :: jobs }) rfl]
    split
    · rw [Board.wallets_receive]
      split
      · exact .offer .same _
      · exact .same
    · exact .same
  | task p t =>
    rcases board_runSession p t h with hsame | ⟨s, c, -, hgrown, hboard⟩
    · rw [hsame]
      exact .same
    · rw [hboard]
      exact hgrown.offer _

/-- What a change means to those who read the channel of the wallets of a hub that is open then. -/
inductive Informed (h h' : Hub MemorySystem) : Prop where
  /-- The wallets that the system has now were published. -/
  | published {s : MemorySystem} {c : Channel (List Wallet)} (kept : h'.handle = some s)
      (grown : h.board.wallets.Grown c) (offered : h'.board.wallets = c.offer s.wallets)
  /-- Nothing was published. If the wallets are others now, or it was so before, a callback waits that will
  publish them. -/
  | awaiting (isOpen : h.isOpen = true) (silent : h'.board.wallets = h.board.wallets)
      (told : ∀ s, h.handle = some s → ∃ s', h'.handle = some s' ∧ (TellWallets s.queue → TellWallets s'.queue) ∧
        (s'.wallets = s.wallets ∨ TellWallets s'.queue))

/-- **No change of the wallets of an open hub is passed over.** -/
theorem informed_of_change {h h' : Hub MemorySystem} {cause : Cause} (hc : h.Change cause h')
    (isOpen : h'.isOpen = true) : Informed h h' := by
  cases hc with
  | launch session s =>
    exact .published rfl .same (Board.wallets_reconcile (WalletSystem.account (WalletSystem.connect s))
      (WalletSystem.wallets (WalletSystem.connect s)) h.board)
  | hold s closed => exact nomatch closed.symm.trans isOpen
  | close | closeBare => exact nomatch isOpen
  | command s s' now c kept run =>
    refine .awaiting isOpen rfl fun last hlast => ⟨s', rfl, ?_⟩
    obtain rfl := Option.some.inj (hlast.symm.trans kept)
    obtain ⟨jobs, hqueue, htold⟩ := (MemorySystem.turns_of_run run).told
    rw [hqueue]
    refine ⟨fun ⟨job, hjob, htells⟩ => ⟨job, List.mem_append_left _ hjob, htells⟩, ?_⟩
    exact htold.imp_right fun ⟨job, hjob, htells⟩ => ⟨job, List.mem_append_right _ hjob, htells⟩
  | finish s jobs kept queue =>
    refine .awaiting isOpen rfl fun last hlast => ⟨_, rfl, ?_, Or.inl ?_⟩
    all_goals obtain rfl := Option.some.inj (hlast.symm.trans kept)
    · rintro ⟨job, hjob, c, hc, htells⟩
      rw [queue] at hjob
      rcases List.mem_cons.mp hjob with rfl | hjob
      · exact nomatch hc
      · exact ⟨job, hjob, c, hc, htells⟩
    · rfl
  | deliver s callback job jobs kept queue =>
    obtain ⟨hopen', hhandle, -⟩ :=
      receive_fields callback { h with handle := some { s with queue := job :: jobs } }
    rw [hopen'] at isOpen
    have hboard := board_receive callback (s := { s with queue := job :: jobs })
      (h := { h with handle := some { s with queue := job :: jobs } }) rfl
    rw [if_pos isOpen] at hboard
    have hwallets := congrArg Board.wallets hboard
    rw [Board.wallets_receive] at hwallets
    cases htells : callback.tellsWallets with
    | true =>
      rw [htells, if_pos rfl] at hwallets
      exact .published hhandle .same hwallets
    | false =>
      rw [htells, if_neg Bool.false_ne_true] at hwallets
      refine .awaiting isOpen hwallets fun last hlast => ⟨_, hhandle, ?_, Or.inl ?_⟩
      all_goals obtain rfl := Option.some.inj (hlast.symm.trans kept)
      · rintro ⟨job', hjob, c, hc, hc'⟩
        rw [queue] at hjob
        rcases List.mem_cons.mp hjob with rfl | hjob
        · rcases List.mem_cons.mp hc with rfl | hc
          · exact nomatch htells.symm.trans hc'
          · exact ⟨job, List.mem_cons_self, c, hc, hc'⟩
        · exact ⟨job', List.mem_cons_of_mem _ hjob, c, hc, hc'⟩
      · rfl
  | task p t =>
    obtain ⟨hopen', hhandle, -⟩ := runSession_fields p t h
    rw [hopen'] at isOpen
    rcases board_runSession p t h with hsame | ⟨s, c, hs, hgrown, hboard⟩
    · exact .awaiting isOpen (congrArg Board.wallets hsame) fun s hs => ⟨s, hhandle.trans hs, id, Or.inl rfl⟩
    · exact .published (hhandle.trans hs) hgrown (congrArg Board.wallets hboard)

/-- An open hub has a system whose wallets are the newest published, or will be published by a callback
that waits. -/
def Announced (h : Hub MemorySystem) : Prop :=
  h.isOpen = true → ∃ s, h.handle = some s ∧ (h.board.wallets.latest = some s.wallets ∨ TellWallets s.queue)

/-- **Every change keeps the wallets announced.** -/
theorem Announced.change {h h' : Hub MemorySystem} {cause : Cause} (ha : h.Announced)
    (hc : h.Change cause h') : h'.Announced := by
  intro hopen
  cases informed_of_change hc hopen with
  | published kept grown offered => exact ⟨_, kept, Or.inl (by rw [offered]; rfl)⟩
  | awaiting isOpen silent told =>
    obtain ⟨s, hs, hannounced⟩ := ha isOpen
    obtain ⟨s', hs', hstill, hnew⟩ := told s hs
    refine ⟨s', hs', ?_⟩
    rcases hannounced with hlatest | hwaits
    · rw [silent, hlatest]
      exact hnew.imp_left fun hsame => by rw [hsame]
    · exact Or.inr (hstill hwaits)

end Hub

end WalletHub
