import WalletHub.Board
import WalletHub.Proofs.Memory.Incidents

/-!
# What a hub learns of a command

A command changes the list of wallets in one of four ways (`Edit`) and lines up jobs that tell of it.
Whoever has learned the jobs knows of the change: one that makes a hub publish the wallets is among
them whenever the list has changed (`Turns.told`).

Of an incident it is forgotten here what it was, and only kept what the hub does with its callbacks. An `Edit` has
therefore four cases where there are more commands than that: a list of wallets that stays, a wallet that is added,
one that is removed, and one whose transfers become others by an `Entry`.

## What is proved

* `Board.wallets_receive`, `Board.updates_receive`: of a callback a hub publishes the wallets, and an update of a
  transfer, exactly if `Callback.tellsWallets` and `Callback.update?` say so.
* `Incident.edit`, `Turn.edit`: every incident is an edit, and so is every turn.
* `Edit.told`: an edit that changes the list lines up a callback that makes a hub publish the wallets.
* `Turns.told`: so does a command, and jobs that waited before are still there.
-/

namespace WalletHub

/-! ### What a hub publishes on a callback -/

namespace Callback

/-- A hub that receives the callback publishes the wallets. -/
def tellsWallets : Callback → Bool
  | .manager .. | .wallet .. => true
  | .system _ | .network .. | .transfer .. => false

/-- The transfer that a hub publishes when it receives the callback, and the code of its wallet. -/
def update? : Callback → Option (String × Transfer)
  | .wallet _ w event => event.transfer?.map fun t => (w.code, t)
  | .transfer _ w t _ => some (w.code, t)
  | .system _ | .network .. | .manager .. => none

end Callback

namespace Board

theorem offerSync_foldl_fields (states : List SyncState) (b : Board) :
    (states.foldl (fun b s => b.offerSync s) b).wallets = b.wallets ∧
      (states.foldl (fun b s => b.offerSync s) b).updates = b.updates := by
  induction states generalizing b with
  | nil => exact ⟨rfl, rfl⟩
  | cons s states ih =>
    obtain ⟨hwallets, hupdates⟩ := ih (b.offerSync s)
    exact ⟨hwallets, hupdates⟩

theorem wallets_receive (wallets : List Wallet) (b : Board) (c : Callback) :
    (b.receive wallets c).wallets = if c.tellsWallets then b.wallets.offer wallets else b.wallets := by
  cases c with
  | system | network | transfer => rfl
  | manager m event => exact (offerSync_foldl_fields _ _).1
  | wallet m w event =>
    cases h : event.transfer? with
    | none => simp only [receive, h, Callback.tellsWallets, if_true, offerWallets]
    | some t => simp only [receive, h, Callback.tellsWallets, if_true, offerWallets, offerTransfer]

theorem updates_receive (wallets : List Wallet) (b : Board) (c : Callback) :
    (b.receive wallets c).updates = match c.update? with
      | some (code, t) => b.updates.offer code t
      | none => b.updates := by
  cases c with
  | system | network | transfer => rfl
  | manager m event => exact (offerSync_foldl_fields _ _).2
  | wallet m w event =>
    cases h : event.transfer? with
    | none => simp only [receive, h, Callback.update?, Option.map_none, offerWallets]
    | some t => simp only [receive, h, Callback.update?, Option.map_some, offerWallets, offerTransfer]

end Board

namespace MemorySystem

/-- The callbacks of some jobs make a hub publish the wallets. -/
def TellWallets (jobs : List Job) : Prop := ∃ job ∈ jobs, ∃ c ∈ job, c.tellsWallets = true

/-- All updates of transfers that the callbacks of some jobs bring, the oldest first. -/
def allUpdates (jobs : List Job) : List (String × Transfer) := jobs.flatten.filterMap Callback.update?

theorem allUpdates_append (jobs jobs' : List Job) :
    allUpdates (jobs ++ jobs') = allUpdates jobs ++ allUpdates jobs' := by
  simp only [allUpdates, List.flatten_append, List.filterMap_append]

/-! ### Edits -/

/-- How the transfers of one wallet are changed, and the updates that tell of it. -/
inductive Entry (code : String) (ts : List Transfer) (updates : List (String × Transfer)) :
    List Transfer → Prop where
  | keep (silent : updates = []) : Entry code ts updates ts
  /-- A transfer is entered. -/
  | enter (t : Transfer) (told : updates ≠ []) (same : ∀ u ∈ updates, u = (code, t)) :
      Entry code ts updates (Wallet.enter t ts)
  /-- The first transfer of a hash is taken out. -/
  | remove (hash : String) (same : ∀ u ∈ updates, u.1 = code ∧ u.2.hash = hash) :
      Entry code ts updates (ts.eraseP fun t => t.hash == hash)

/-- How a list of wallets is changed, and the jobs that tell of it. -/
inductive Edit (ws : List Wallet) (jobs : List Job) : List Wallet → Prop where
  | keep (silent : allUpdates jobs = []) : Edit ws jobs ws
  /-- A wallet without transfers is added. -/
  | add (w : Wallet) (new : Wallet.find? ws w.code = none) (blank : w.transfers = [])
      (told : TellWallets jobs) (silent : allUpdates jobs = []) : Edit ws jobs (ws ++ [w])
  /-- The first wallet of a code is taken out. -/
  | remove (code : String) (told : TellWallets jobs) (silent : allUpdates jobs = []) :
      Edit ws jobs (ws.eraseP fun w => w.currency.hasCode code)
  /-- One wallet is changed. -/
  | alter (before after : List Wallet) (w w' : Wallet) (split : ws = before ++ w :: after)
      (currency : w'.currency = w.currency) (entry : Entry w.code w.transfers (allUpdates jobs) w'.transfers)
      (told : TellWallets jobs) : Edit ws jobs (before ++ w' :: after)

/-- **Whenever the wallets change a job tells of it.** -/
theorem Edit.told {ws ws' : List Wallet} {jobs : List Job} (h : Edit ws jobs ws') :
    ws' = ws ∨ TellWallets jobs := by
  cases h with
  | keep => exact Or.inl rfl
  | add _ _ _ told | remove _ told | alter _ _ _ _ _ _ _ told => exact Or.inr told

/-- A job tells of the wallets if one of its callbacks does. -/
theorem tellWallets_singleton {job : Job} {c : Callback} (hc : c ∈ job) (htells : c.tellsWallets = true) :
    TellWallets [job] :=
  ⟨job, List.mem_singleton.mpr rfl, c, hc, htells⟩

/-- The job of a transfer brings this transfer alone. -/
theorem eq_of_mem_transferJob {m : Manager} {w : Wallet} {t : Transfer} {event : TransferEvent}
    {walletEvent : WalletEvent} (h : walletEvent.transfer? = some t) {u : String × Transfer}
    (hu : u ∈ allUpdates [transferJob m w (t, event, walletEvent)]) : u = (w.code, t) := by
  simpa [allUpdates, transferJob, Callback.update?, h] using hu

/-- The job of an alteration tells of the wallets, and of the transfer that was entered or taken out. -/
theorem told_of_altered {m : Manager} {w w' : Wallet} {job : Job} (h : w.Altered m w' job) :
    Entry w.code w.transfers (allUpdates [job]) w'.transfers ∧ TellWallets [job] := by
  cases h with
  | balance amount changed told =>
    subst changed told
    exact ⟨.keep rfl, tellWallets_singleton List.mem_cons_self rfl⟩
  | submitted t changed told =>
    subst changed told
    refine ⟨.enter t (List.cons_ne_nil _ _) ?_, tellWallets_singleton List.mem_cons_self rfl⟩
    intro u hu
    exact List.mem_singleton.mp hu
  | entered t event walletEvent carried changed told =>
    subst changed told
    constructor
    · refine .enter t (List.cons_ne_nil _ _) ?_
      intro u hu
      have hsame := eq_of_mem_transferJob carried hu
      exact hsame
    · exact tellWallets_singleton (List.mem_cons_of_mem _ List.mem_cons_self) rfl
  | removed t changed told =>
    subst changed told
    constructor
    · refine .remove t.hash ?_
      intro u hu
      rw [eq_of_mem_transferJob rfl hu]
      exact ⟨rfl, rfl⟩
    · exact tellWallets_singleton (List.mem_cons_of_mem _ List.mem_cons_self) rfl
  | moved state changed told =>
    subst changed told
    exact ⟨.keep rfl, tellWallets_singleton List.mem_cons_self rfl⟩

/-- An incident edits the wallets, and its job tells of it. -/
theorem Incident.edit {c : Command} {s : MemorySystem} {ws : List Wallet} {job : Job}
    (h : Incident c s ws job) : Edit s.wallets [job] ws := by
  cases h with
  | announced | progressed => exact .keep rfl
  | added w new blank =>
    exact .add w new blank (tellWallets_singleton (List.mem_cons_of_mem _ List.mem_cons_self) rfl) rfl
  | altered before after w w' job split altered =>
    obtain ⟨hentry, htold⟩ := told_of_altered altered
    exact .alter before after w w' split altered.currency_eq hentry htold
  | removed code => exact .remove code (tellWallets_singleton List.mem_cons_self rfl) rfl

/-- In a turn the wallets are edited, and jobs are lined up for it. -/
theorem Turn.edit {c : Command} {s s' : MemorySystem} (h : Turn c s s') :
    ∃ jobs, s'.queue = s.queue ++ jobs ∧ Edit s.wallets jobs s'.wallets := by
  rcases h.happened with ⟨hwallets, hqueue⟩ | ⟨job, hqueue, hincident⟩
  · refine ⟨[], by rw [hqueue, List.append_nil], ?_⟩
    rw [hwallets]
    exact .keep rfl
  · exact ⟨[job], hqueue, hincident.edit⟩

/-- **The queue tells of all changes of the wallets.** -/
theorem Turns.told {c : Command} {s s' : MemorySystem} (h : Turns c s s') :
    ∃ jobs, s'.queue = s.queue ++ jobs ∧ (s'.wallets = s.wallets ∨ TellWallets jobs) := by
  induction h with
  | refl => exact ⟨[], (List.append_nil _).symm, Or.inl rfl⟩
  | tail _ turn ih =>
    obtain ⟨jobs, hqueue, htold⟩ := ih
    obtain ⟨more, hmore, hedit⟩ := turn.edit
    refine ⟨jobs ++ more, by rw [hmore, hqueue, List.append_assoc], ?_⟩
    rcases hedit.told with hsame | ⟨job, hjob, htells⟩
    · rcases htold with hkept | ⟨job, hjob, htells⟩
      · exact Or.inl (hsame.trans hkept)
      · exact Or.inr ⟨job, List.mem_append_left _ hjob, htells⟩
    · exact Or.inr ⟨job, List.mem_append_right _ hjob, htells⟩

end MemorySystem

end WalletHub
