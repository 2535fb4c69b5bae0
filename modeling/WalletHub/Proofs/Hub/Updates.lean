import WalletHub.Proofs.Hub.Wallets
import WalletHub.Proofs.Memory.Held

/-!
# The channel of updates

What is known of one transfer between a system, the callbacks that wait and the channel of updates: as
long as there is one such transfer at most, the last update that waits is the transfer that the wallet
has (`Hub.Foretold`). All transfers of a currency share the channel, so what the channel holds need not
be an update of this transfer at all.

Whether an update is seen depends on the one who reads the channel; here it is only said when it is there to
be seen. That belongs to the hub: with every change an open hub publishes the transfer, or another transfer of
the currency, or leaves the channel as it is.

## What is proved

* `MemorySystem.Foretold.turns`, `MemorySystem.Foretold.suffix`: commands keep the transfer foretold, and so does
  the delivery of what waits.
* `Hub.Single.change`: no change makes a second transfer of this hash, nor a second wallet of this code.
* `Hub.Foretold.change`: every change keeps the transfer foretold.
* `Hub.grown_updates`: the channel of updates only grows.
* `Hub.updates_of_change`: what each change does to the channel of an open hub, as seen from one transfer. An
  update of this transfer with which nothing of it waits any more is the transfer as the wallet has it
  (`Hub.Settled`).
-/

namespace WalletHub

open MemorySystem (Command Single Turns held updatesOf allUpdates concerns)

namespace MemorySystem

variable {code hash : String}

/-- The last update of a transfer that waits is the transfer as the wallet has it. -/
def Foretold (code hash : String) (s : MemorySystem) : Prop :=
  ∀ t u, held code hash s.wallets = some t → (updatesOf code hash s.queue).getLast? = some u → u = t

theorem Foretold.turns {c : Command} {s s' : MemorySystem} (hf : Foretold code hash s)
    (single : Single code hash s.wallets) (h : Turns c s s') : Foretold code hash s' := by
  obtain ⟨-, jobs, hqueue, hheld⟩ := h.held_eq single
  intro t u ht hu
  rw [hqueue, updatesOf_append, List.getLast?_append] at hu
  rcases hheld t ht with hlast | ⟨hnone, hkept⟩
  · rw [hlast, Option.some_or] at hu
    exact (Option.some.inj hu).symm
  · rw [hnone, List.getLast?_nil, Option.none_or] at hu
    exact hf t u hkept hu

/-- With fewer jobs at the front the last update stays the last. -/
theorem Foretold.suffix {s : MemorySystem} (hf : Foretold code hash s) {jobs : List Job}
    (h : updatesOf code hash jobs <:+ updatesOf code hash s.queue) :
    Foretold code hash { s with queue := jobs } := by
  intro t u ht hu
  obtain ⟨before, hbefore⟩ := h
  apply hf t u ht
  rw [← hbefore, List.getLast?_append, hu, Option.some_or]

/-- The updates that wait are those of the first callback and then the others. -/
theorem updatesOf_cons (code hash : String) (c : Callback) (job : Job) (jobs : List Job) :
    updatesOf code hash ((c :: job) :: jobs) =
      ((c.update?.toList.filter (concerns code hash)).map Prod.snd) ++ updatesOf code hash (job :: jobs) := by
  simp only [updatesOf, allUpdates, List.flatten_cons, List.cons_append, List.filterMap_cons]
  cases c.update? with
  | none => rfl
  | some u =>
    rw [Option.toList_some, List.filter_cons, List.filter_cons, List.filter_nil]
    split <;> rfl

theorem updatesOf_suffix_cons (code hash : String) (c : Callback) (job : Job) (jobs : List Job) :
    updatesOf code hash (job :: jobs) <:+ updatesOf code hash ((c :: job) :: jobs) := by
  rw [updatesOf_cons]
  exact List.suffix_append _ _

theorem updatesOf_suffix (code hash : String) (job : Job) (jobs : List Job) :
    updatesOf code hash jobs <:+ updatesOf code hash (job :: jobs) := by
  rw [← List.singleton_append, updatesOf_append]
  exact List.suffix_append _ _

/-- A new system that is connected has no updates to tell. -/
theorem updatesOf_connect {s : MemorySystem} (idle : s.queue = []) (code hash : String) :
    updatesOf code hash s.connect.queue = [] := by
  have hsilent (ws : List Wallet) (f : Wallet → Manager) (g : Wallet → ManagerEvent) :
      updatesOf code hash (ws.map fun w => [Callback.manager (f w) (g w)]) = [] := by
    induction ws with
    | nil => rfl
    | cons w ws ih => exact ih
  simp only [connect, moveAll, idle, List.nil_append]
  exact hsilent _ _ _

end MemorySystem

/-! ### What is published of updates -/

theorem Channels.grown_offer {α : Type} (cs : Channels α) (code code' : String) (a : α) :
    (cs.get code').Grown ((cs.offer code a).get code') := by
  rw [Channels.get_offer]
  split
  · next hcode =>
    rw [Channels.get_congr cs hcode]
    exact .offer .same a
  · exact .same

namespace Board

theorem grown_refresh (code : String) (b : Board) (w : Wallet) :
    (b.updates.get code).Grown ((b.refresh w).updates.get code) := by
  simp only [refresh]
  split
  · exact Channels.grown_offer _ _ _ _
  · exact .same

theorem grown_reconcile (account : Account) (ws : List Wallet) (code : String) (b : Board) :
    (b.updates.get code).Grown ((b.reconcile account ws).updates.get code) := by
  have hfold (b' : Board) : (b'.updates.get code).Grown ((ws.foldl refresh b').updates.get code) := by
    induction ws generalizing b' with
    | nil => exact .same
    | cons w ws ih => exact (b'.grown_refresh code w).trans (ih (b'.refresh w))
  exact hfold { b with system := b.system.offer ⟨account⟩, account := b.account.offer account }

end Board

namespace Hub

variable {code hash : String} {h h' : Hub MemorySystem} {cause : Cause}

/-- Whatever happens, nothing is taken from a channel of updates. -/
theorem grown_updates (code : String) (hc : h.Change cause h') :
    (h.board.updates.get code).Grown (h'.board.updates.get code) := by
  cases hc with
  | hold | close | closeBare | command | finish => exact .same
  | launch session s => exact h.board.grown_reconcile _ _ code
  | deliver s callback job jobs kept queue =>
    rw [board_receive callback (s := { s with queue := job :: jobs }) rfl]
    split
    · rw [Board.updates_receive]
      split
      · exact Channels.grown_offer _ _ _ _
      · exact .same
    · exact .same
  | task p t =>
    rcases board_runSession p t h with hsame | ⟨s, c, -, -, hboard⟩
    · rw [hsame]
      exact .same
    · rw [hboard]
      exact .same

/-! ### What is foretold -/

/-- There are no two such transfers in the system of the hub. -/
def Single (code hash : String) (h : Hub MemorySystem) : Prop :=
  ∀ s, h.handle = some s → MemorySystem.Single code hash s.wallets

/-- What waits in the system of the hub foretells the transfer. -/
def Foretold (code hash : String) (h : Hub MemorySystem) : Prop :=
  ∀ s, h.handle = some s → MemorySystem.Foretold code hash s

/-- **No change makes a second such transfer**, unless a new system comes with it. -/
theorem Single.change (single : h.Single code hash) (new : h.handle = none → h'.Single code hash)
    (hc : h.Change cause h') : h'.Single code hash := by
  cases hc with
  | launch session s closed kept =>
    rcases kept with hkept | ⟨hbare, -⟩
    · intro s' hs'
      obtain rfl := Option.some.inj hs'
      exact ((MemorySystem.turns_of_connect s).held_eq (single s hkept)).1
    · exact new hbare
  | hold s closed bare => exact new bare
  | close s isOpen kept =>
    intro s' hs'
    obtain rfl := Option.some.inj hs'
    exact ((MemorySystem.turns_of_disconnect s).held_eq (single s kept)).1
  | closeBare isOpen bare => exact fun s hs => nomatch bare.symm.trans hs
  | command s s' now c kept run =>
    intro s'' hs''
    obtain rfl := Option.some.inj hs''
    exact ((MemorySystem.turns_of_run run).held_eq (single s kept)).1
  | finish s jobs kept =>
    intro s' hs'
    obtain rfl := Option.some.inj hs'
    exact single s kept
  | deliver s callback job jobs kept =>
    intro s' hs'
    rw [(receive_fields callback _).2.1] at hs'
    obtain rfl := Option.some.inj hs'
    exact single s kept
  | task p t =>
    intro s hs
    rw [(runSession_fields p t h).2.1] at hs
    exact single s hs

/-- **Every change keeps the transfer foretold.** -/
theorem Foretold.change (hf : h.Foretold code hash) (single : h.Single code hash) (hc : h.Change cause h') :
    h'.Foretold code hash := by
  cases hc with
  | launch session s closed kept =>
    intro s' hs'
    obtain rfl := Option.some.inj hs'
    rcases kept with hkept | ⟨-, hnew⟩
    · exact (hf s hkept).turns (single s hkept) (MemorySystem.turns_of_connect s)
    · intro t u _ hu
      have hnone := MemorySystem.updatesOf_connect hnew.queue code hash
      rw [show (WalletSystem.connect s).queue = s.connect.queue from rfl, hnone] at hu
      exact nomatch hu
  | hold s closed bare new =>
    intro s' hs'
    obtain rfl := Option.some.inj hs'
    intro t u _ hu
    rw [new.queue] at hu
    exact nomatch hu
  | close s isOpen kept =>
    intro s' hs'
    obtain rfl := Option.some.inj hs'
    exact (hf s kept).turns (single s kept) (MemorySystem.turns_of_disconnect s)
  | closeBare isOpen bare => exact fun s hs => nomatch bare.symm.trans hs
  | command s s' now c kept run =>
    intro s'' hs''
    obtain rfl := Option.some.inj hs''
    exact (hf s kept).turns (single s kept) (MemorySystem.turns_of_run run)
  | finish s jobs kept queue =>
    intro s' hs'
    obtain rfl := Option.some.inj hs'
    apply (hf s kept).suffix
    rw [queue]
    exact MemorySystem.updatesOf_suffix code hash [] jobs
  | deliver s callback job jobs kept queue =>
    intro s' hs'
    rw [(receive_fields callback _).2.1] at hs'
    obtain rfl := Option.some.inj hs'
    apply (hf s kept).suffix
    rw [queue]
    exact MemorySystem.updatesOf_suffix_cons code hash callback job jobs
  | task p t =>
    intro s hs
    rw [(runSession_fields p t h).2.1] at hs
    exact hf s hs

/-! ### What must have been heard -/

/-- The hub is open, the wallet has this transfer, and no update of it waits. -/
def Settled (code hash : String) (t : Transfer) (h : Hub MemorySystem) : Prop :=
  h.isOpen = true ∧
    ∃ s, h.handle = some s ∧ updatesOf code hash s.queue = [] ∧ held code hash s.wallets = some t

/-- **What a change does to an open hub, seen from one transfer**: either the channel of updates gets a
value, which is the transfer if it has its hash and the transfer is settled then; or the channel stays
as it is, and the transfer was settled before if it is settled then. -/
theorem updates_of_change (hf : h.Foretold code hash) (single : h.Single code hash) (isOpen : h.isOpen = true)
    (hc : h.Change cause h') :
    (∃ u, h'.board.updates.get code = (h.board.updates.get code).offer u ∧
        ∀ t, h'.Settled code hash t → u.hash = hash → u = t) ∨
      h'.board.updates.get code = h.board.updates.get code ∧
        ∀ t, h'.Settled code hash t → h.Settled code hash t := by
  cases hc with
  | launch session s closed => exact nomatch closed.symm.trans isOpen
  | hold s closed => exact nomatch closed.symm.trans isOpen
  | close | closeBare => exact Or.inr ⟨rfl, fun t ht => nomatch ht.1⟩
  | command s s' now c kept run =>
    refine Or.inr ⟨rfl, ?_⟩
    rintro t ⟨-, s'', hs'', hnone, ht⟩
    obtain rfl := Option.some.inj hs''
    obtain ⟨-, jobs, hqueue, hheld⟩ := (MemorySystem.turns_of_run run).held_eq (single s kept)
    rw [hqueue, MemorySystem.updatesOf_append, List.append_eq_nil_iff] at hnone
    rcases hheld t ht with hlast | ⟨-, hkept⟩
    · rw [hnone.2] at hlast
      exact nomatch hlast
    · exact ⟨isOpen, s, kept, hnone.1, hkept⟩
  | finish s jobs kept queue =>
    refine Or.inr ⟨rfl, ?_⟩
    rintro t ⟨-, s', hs', hnone, ht⟩
    obtain rfl := Option.some.inj hs'
    exact ⟨isOpen, s, kept, by rwa [queue], ht⟩
  | deliver s callback job jobs kept queue =>
    have hboard := board_receive callback
      (h := { h with handle := some { s with queue := job :: jobs } }) (s := { s with queue := job :: jobs }) rfl
    rw [if_pos isOpen] at hboard
    have hupdates := Board.updates_receive s.wallets h.board callback
    have hback {t : Transfer} (ht : Settled code hash t
        (receive callback { h with handle := some { s with queue := job :: jobs } })) :
        updatesOf code hash (job :: jobs) = [] ∧ held code hash s.wallets = some t := by
      obtain ⟨-, s', hs', hnone, ht⟩ := ht
      rw [(receive_fields callback _).2.1] at hs'
      obtain rfl := Option.some.inj hs'
      exact ⟨hnone, ht⟩
    have hqueue := MemorySystem.updatesOf_cons code hash callback job jobs
    rw [← queue] at hqueue
    cases hupdate : callback.update? with
    | none =>
      rw [hupdate] at hqueue hupdates
      refine Or.inr ⟨?_, fun t ht => ⟨isOpen, s, kept, ?_, (hback ht).2⟩⟩
      · rw [hboard, hupdates]
      · rw [hqueue, (hback ht).1]
        rfl
    | some update =>
      obtain ⟨own, u⟩ := update
      rw [hupdate] at hqueue hupdates
      by_cases hcode : Currency.key code = Currency.key own
      · refine Or.inl ⟨u, ?_, fun t ht hhash => ?_⟩
        · rw [hboard, hupdates]
          simp only [Channels.get_offer, if_true, Channels.get_congr _ hcode]
        · have hlast : updatesOf code hash s.queue = [u] := by
            rw [hqueue, (hback ht).1]
            simp [concerns, hcode, hhash]
          exact hf s kept t u (hback ht).2 (by rw [hlast]; rfl)
      · refine Or.inr ⟨?_, fun t ht => ⟨isOpen, s, kept, ?_, (hback ht).2⟩⟩
        · rw [hboard, hupdates]
          simp only [Channels.get_offer, hcode, if_false]
        · rw [hqueue, (hback ht).1]
          simp [concerns, Ne.symm hcode]
  | task p t =>
    refine Or.inr ⟨?_, ?_⟩
    · rcases board_runSession p t h with hsame | ⟨s, c, -, -, hboard⟩
      · rw [hsame]
      · rw [hboard]
    · rintro t' ⟨-, s, hs, hnone, ht⟩
      rw [(runSession_fields p t h).2.1] at hs
      exact ⟨isOpen, s, hs, hnone, ht⟩

end Hub

end WalletHub
