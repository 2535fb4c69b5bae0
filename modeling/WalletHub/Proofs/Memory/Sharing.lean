import WalletHub.Proofs.Memory.Lineage
import WalletHub.Proofs.Memory.Restart

/-!
# Systems that share a directory

A directory has one file of wallets. Every system of the directory writes its wallets there when it is
disconnected, over what was there before, and a new system looks there for wallets, whatever account it is for.
`Sharing` is what can have happened in a directory until now, with all savings.

A new system finds the last saving and no other. It is given the wallets if they were saved under the identifier
of its account (`Sharing.wallets_of_create`). So an account has its wallets again as long as no other account
has saved any, and is not shown those of another one, provided that accounts are the same exactly where their
identifiers are (`Sharing.restores`). What an account has saved is lost when another one saves
(`Sharing.overwritten_wallets_are_lost`).

For `Sharing.restores` a system is created without seeds, as everything it shows then comes from the file. If
nothing was ever saved it has no wallets. Otherwise it can be created exactly if the wallets of the last saving
can be read back (`Wallet.Legible`). It then has these wallets, with their currencies and the hashes of their
transfers (`Wallet.outline`), if the same account saved them, under the same identifier; and it has none if they
are of another account with another identifier.

## What is proved

* `Sharing.file_eq`, `Sharing.holds_last`: by induction over what has happened, the file is the form of the last
  saving.
* `Sharing.exists_create_iff`, `Sharing.wallets_of_create`: when a system can be created from it, and with which
  wallets.
* `Sharing.restores`: the two together, said of accounts.
* `own_wallets_are_restored`, `overwritten_wallets_are_lost`: an account that saved last, and one that did not.
-/

namespace WalletHub

/-! ### What comes back of a wallet -/

namespace Wallet

/-- The currency of the wallet, and the hashes of its transfers. -/
def outline (w : Wallet) : Currency × List String := (w.currency, w.transfers.map Transfer.hash)

/-- The wallet can be read back from its form. -/
def Legible (w : Wallet) : Prop := ∃ back, w.reread = .ok back

/-- A wallet whose amounts are kept can be read back. -/
theorem legible_of_kept {w : Wallet} (dated : w.Dated) (kept : w.Kept) : w.Legible := by
  obtain ⟨back, hback, -⟩ := w.kept_iff.mpr kept
  exact ⟨back, (ofJson_toJson (by decide) dated).trans hback⟩

/-- What is read back has the outline of what was written. -/
theorem outline_of_reread {w back : Wallet} (h : w.reread = .ok back) : back.outline = w.outline := by
  obtain ⟨balance, transfers, hread, rfl⟩ := exists_of_ofJson (by decide) h
  rw [Json.asList_map (by decide) _ _ _ _ fun _ _ => rfl] at hread
  exact Prod.ext rfl (map_eq_of_mapM hread fun t u hu => Transfer.hash_of_ofJson (by decide) hu)

/-- The list of wallets can be read back exactly if each of them can be. -/
theorem exists_mapM_reread_iff (ws : List Wallet) :
    (∃ backs, ws.mapM reread = .ok backs) ↔ ∀ w ∈ ws, w.Legible := by
  have hall := exists_mapM_iff (f := reread) (R := fun w back => w.reread = .ok back) ws
  simp only [← mapM_eq_ok_iff, and_self] at hall
  exact hall

end Wallet

/-! ### Savings -/

/-- The wallets that a system of an account has written to its file. -/
structure Saving where
  account : Account
  wallets : List Wallet

namespace MemorySystem

/-- What can have happened in a directory: the savings, the oldest first, the disk as it is then, and the
systems that are there. -/
inductive Sharing (directory : String) : List Saving → Disk → List MemorySystem → Prop where
  /-- There is no file of wallets in the beginning. -/
  | start {disk : Disk} (absent : disk.exists? (StoredWallets.file directory) = false) :
      Sharing directory [] disk []
  | created {savings : List Saving} {disk : Disk} {systems : List MemorySystem} {params : SystemParams}
      {seeds : List Currency} {made : Created MemorySystem} (shared : Sharing directory savings disk systems)
      (here : params.directory = directory) (new : create params seeds disk = .ok made) :
      Sharing directory savings disk (systems ++ [made.system])
  | commanded {savings : List Saving} {disk : Disk} {before after : List MemorySystem} {s s' : MemorySystem}
      {now : Instant} {c : Command} (shared : Sharing directory savings disk (before ++ s :: after))
      (ran : run now c s = .ok s') (other : c ≠ .disconnect) : Sharing directory savings disk (before ++ s' :: after)
  /-- Some jobs of a system are delivered. -/
  | delivered {savings : List Saving} {disk : Disk} {before after : List MemorySystem} {s : MemorySystem}
      (shared : Sharing directory savings disk (before ++ s :: after)) (jobs : List Job) :
      Sharing directory savings disk (before ++ { s with queue := jobs } :: after)
  /-- A system is disconnected and saves its wallets. -/
  | saved {savings : List Saving} {disk disk' : Disk} {before after : List MemorySystem} {s : MemorySystem}
      (shared : Sharing directory savings disk (before ++ s :: after))
      (stored : s.disconnect.store disk = (disk', [])) :
      Sharing directory (savings ++ [⟨s.account, s.disconnect.wallets⟩]) disk' (before ++ s.disconnect :: after)
  /-- A system is disconnected, but its wallets cannot be written. -/
  | unsaved {savings : List Saving} {disk disk' : Disk} {before after : List MemorySystem} {s : MemorySystem}
      {entry : LogEntry} {log : List LogEntry} (shared : Sharing directory savings disk (before ++ s :: after))
      (failed : s.disconnect.store disk = (disk', entry :: log)) :
      Sharing directory savings disk' (before ++ s.disconnect :: after)
  /-- A system goes away. -/
  | dropped {savings : List Saving} {disk : Disk} {before after : List MemorySystem} {s : MemorySystem}
      (shared : Sharing directory savings disk (before ++ s :: after)) :
      Sharing directory savings disk (before ++ after)
  /-- The disk changes, but not the file of wallets. -/
  | elsewhere {savings : List Saving} {disk disk' : Disk} {systems : List MemorySystem}
      (shared : Sharing directory savings disk systems)
      (exists_eq : disk'.exists? (StoredWallets.file directory) = disk.exists? (StoredWallets.file directory))
      (text_eq : disk'.readText? (StoredWallets.file directory) = disk.readText? (StoredWallets.file directory)) :
      Sharing directory savings disk' systems

namespace Sharing

variable {directory : String} {savings : List Saving} {disk : Disk} {systems : List MemorySystem}
  {params : SystemParams}

theorem file_of_run {now : Instant} {c : Command} {s s' : MemorySystem} (ran : run now c s = .ok s') :
    s'.file = s.file := by
  have horigin := (turns_of_run ran).origin_eq
  exact congrArg (fun o => o.2.2) horigin

/-- All systems of the directory have its file. -/
theorem file_eq (shared : Sharing directory savings disk systems) :
    ∀ s ∈ systems, s.file = StoredWallets.file directory := by
  have hreplace {before after : List MemorySystem} (s s' : MemorySystem) (same : s'.file = s.file)
      (h : ∀ x ∈ before ++ s :: after, x.file = StoredWallets.file directory) :
      ∀ x ∈ before ++ s' :: after, x.file = StoredWallets.file directory := by
    rw [List.forall_mem_append, List.forall_mem_cons] at h ⊢
    exact ⟨h.1, same.trans h.2.1, h.2.2⟩
  induction shared with
  | start => exact fun _ hs => nomatch hs
  | created _ here new ih =>
    obtain ⟨stored, log, -, hsystem⟩ := exists_load_of_create new
    rw [List.forall_mem_append, List.forall_mem_singleton, hsystem, here]
    exact ⟨ih, rfl⟩
  | commanded _ ran _ ih => exact hreplace _ _ (file_of_run ran) ih
  | @delivered _ _ _ _ s _ jobs ih => exact hreplace s { s with queue := jobs } rfl ih
  | @saved _ _ _ _ _ s _ _ ih | @unsaved _ _ _ _ _ s _ _ _ _ ih => exact hreplace s s.disconnect rfl ih
  | dropped _ ih =>
    rw [List.forall_mem_append, List.forall_mem_cons] at ih
    rw [List.forall_mem_append]
    exact ⟨ih.1, ih.2.2⟩
  | elsewhere _ _ _ ih => exact ih

/-- **The file holds the last saving**, and there is no file as long as nothing was saved. -/
theorem holds_last (shared : Sharing directory savings disk systems) :
    match savings.getLast? with
    | none => disk.exists? (StoredWallets.file directory) = false
    | some last => disk.readText? (StoredWallets.file directory) =
        some (Encoded.encode .pretty (StoredWallets.mk last.account.uid last.wallets)) := by
  induction shared with
  | start absent => exact absent
  | created _ _ _ ih | commanded _ _ _ ih | delivered _ _ ih | dropped _ ih => exact ih
  | @saved savings disk disk' before after s shared stored ih =>
    have hfile : s.file = StoredWallets.file directory :=
      shared.file_eq s (List.mem_append_right _ List.mem_cons_self)
    rw [List.getLast?_concat, ← hfile]
    exact StoredWallets.readText?_of_save (save_of_store stored)
  | @unsaved savings disk disk' before after s entry log shared failed ih =>
    have hsame : disk' = disk := by
      unfold store at failed
      split at failed
      · exact nomatch congrArg Prod.snd failed
      · exact (Prod.mk.inj failed).1.symm
    rw [hsame]
    exact ih
  | elsewhere _ exists_eq text_eq ih =>
    rw [exists_eq, text_eq]
    exact ih

/-- Where nothing was saved a new system has no wallets. -/
theorem create_of_unsaved (shared : Sharing directory [] disk systems) (here : params.directory = directory) :
    ∃ made, create params [] disk = .ok made ∧ made.system.wallets = [] := by
  have habsent : disk.exists? (StoredWallets.file params.directory) = false := here ▸ shared.holds_last
  have hload : StoredWallets.load (StoredWallets.file params.directory) params.account.uid disk =
      .ok ([], []) := by
    rw [StoredWallets.load, habsent, if_neg Bool.false_ne_true]
  simp only [create, hload]
  exact ⟨_, rfl, rfl⟩

variable {last : Saving}

/-- What is loaded after a saving. -/
theorem load_eq (shared : Sharing directory savings disk systems) (here : params.directory = directory)
    (saved : savings.getLast? = some last) :
    StoredWallets.load (StoredWallets.file params.directory) params.account.uid disk =
      match last.wallets.mapM Wallet.reread with
      | .error fault => .error (.json fault)
      | .ok back => if last.account.uid = params.account.uid then .ok (back, [])
        else .ok ([], [.foreignFile (StoredWallets.file params.directory)]) := by
  have hholds := shared.holds_last
  rw [saved, ← here] at hholds
  exact StoredWallets.load_of_text hholds fun _ _ => rfl

/-- A new system can be created exactly if the wallets that were saved last can be read back. -/
theorem exists_create_iff (shared : Sharing directory savings disk systems) (here : params.directory = directory)
    (saved : savings.getLast? = some last) :
    (∃ made, create params [] disk = .ok made) ↔ ∀ w ∈ last.wallets, w.Legible := by
  have hload := shared.load_eq here saved
  rw [← Wallet.exists_mapM_reread_iff]
  cases hread : last.wallets.mapM Wallet.reread with
  | error fault =>
    rw [hread] at hload
    have hfails : create params [] disk = .error (.json fault) := by simp only [create, hload]
    rw [hfails]
    constructor
    · rintro ⟨made, hmade⟩
      cases hmade
    · rintro ⟨backs, hbacks⟩
      cases hbacks
  | ok backs =>
    rw [hread] at hload
    obtain ⟨stored, log, hstored⟩ : ∃ stored log, StoredWallets.load (StoredWallets.file params.directory)
        params.account.uid disk = .ok (stored, log) := by
      by_cases hown : last.account.uid = params.account.uid
      · exact ⟨_, _, hload.trans (if_pos hown)⟩
      · exact ⟨_, _, hload.trans (if_neg hown)⟩
    refine ⟨fun _ => ⟨backs, rfl⟩, fun _ => ?_⟩
    simp only [create, hstored]
    exact ⟨_, rfl⟩

/-- An account with another identifier begins anew, with a warning. -/
theorem create_of_other (shared : Sharing directory savings disk systems) (here : params.directory = directory)
    (saved : savings.getLast? = some last) (legible : ∀ w ∈ last.wallets, w.Legible)
    (other : last.account.uid ≠ params.account.uid) :
    create params [] disk = .ok ⟨⟨params.account, params.mainnet, StoredWallets.file params.directory, [], [], [],
      false, 0, 0, 0, []⟩, [.foreignFile (StoredWallets.file params.directory)]⟩ := by
  obtain ⟨backs, hread⟩ := (Wallet.exists_mapM_reread_iff _).mpr legible
  have hload := shared.load_eq here saved
  simp only [hread, if_neg other] at hload
  simp only [create, hload, List.foldl_nil]

/-- **The wallets of a new system are those of the last saving**, if they were saved under the identifier of its
account. -/
theorem wallets_of_create (shared : Sharing directory savings disk systems) (here : params.directory = directory)
    (saved : savings.getLast? = some last) {made : Created MemorySystem}
    (created : create params [] disk = .ok made) :
    made.system.wallets.map Wallet.outline =
      if last.account.uid = params.account.uid then last.wallets.map Wallet.outline else [] := by
  obtain ⟨stored, log, hload, hsystem⟩ := exists_load_of_create created
  rw [shared.load_eq here saved] at hload
  have hwallets : made.system.wallets = stored := by rw [hsystem, List.foldl_nil]
  cases hread : last.wallets.mapM Wallet.reread with
  | error fault =>
    rw [hread] at hload
    exact nomatch hload
  | ok backs =>
    rw [hread] at hload
    by_cases hown : last.account.uid = params.account.uid
    · simp only [if_pos hown, Except.ok.injEq, Prod.mk.injEq] at hload
      rw [if_pos hown, hwallets, ← hload.1]
      exact map_eq_of_mapM hread fun _ _ => Wallet.outline_of_reread
    · simp only [if_neg hown, Except.ok.injEq, Prod.mk.injEq] at hload
      rw [if_neg hown, hwallets, ← hload.1]
      rfl

/-- **An account has again what it saved, if it was the last to save**, and is not shown what another account
has saved. Whatever has happened in the directory, a system without seeds that is created there has no wallets if
nothing was ever saved. Otherwise it is created exactly if the last saving can be read back; and then it has these
wallets if the account is the same in both senses, and none if it is another one in both. -/
theorem restores (shared : Sharing directory savings disk systems) (here : params.directory = directory) :
    (savings = [] → ∃ made, create params [] disk = .ok made ∧ made.system.wallets = []) ∧
      ∀ last, savings.getLast? = some last →
        ((∃ made, create params [] disk = .ok made) ↔ ∀ w ∈ last.wallets, w.Legible) ∧
          ∀ made, create params [] disk = .ok made →
            (last.account.isSame params.account = true → last.account.uid = params.account.uid →
              made.system.wallets.map Wallet.outline = last.wallets.map Wallet.outline) ∧
            (last.account.isSame params.account = false → last.account.uid ≠ params.account.uid →
              made.system.wallets = []) := by
  refine ⟨?_, fun last saved => ⟨shared.exists_create_iff here saved, fun made created => ?_⟩⟩
  · rintro rfl
    exact shared.create_of_unsaved here
  · have hwallets := shared.wallets_of_create here saved created
    refine ⟨fun _ hown => hwallets.trans (if_pos hown), fun _ hother => ?_⟩
    rw [if_neg hother] at hwallets
    exact List.map_eq_nil_iff.mp hwallets

/-! ### Two accounts -/

/-- The first account of a directory. -/
def alice : Account := ⟨"alice", ⟨0, 0⟩, [1]⟩

/-- Another account. -/
def bob : Account := ⟨"bob", ⟨0, 0⟩, [2]⟩

/-- A system that has just been created for the account, without wallets. -/
def blank (account : Account) : MemorySystem :=
  ⟨account, false, "data/wallets.json", [], [], [], false, 0, 0, 0, []⟩

/-- The currency of Alice's wallet. -/
def bitcoin : Currency := ⟨"bitcoin", "btc", "Bitcoin", 8⟩

/-- The system of Alice when she has a wallet with a transfer. -/
def filled : MemorySystem :=
  (((blank alice).addWallet bitcoin).addTransfer "btc" (.create "t1" .zero .received)).2

/-- A disk on which nobody has saved anything. -/
def unused : Disk := .directory [("data", .directory [])]

/-- The disk when Alice has saved her wallet. -/
def used : Disk := (filled.disconnect.store unused).1

/-- Alice has a wallet, and has saved it. -/
theorem sharing_used : Sharing "data" [⟨alice, filled.disconnect.wallets⟩] used [filled.disconnect] := by
  have hcreated : create ⟨alice, false, "data"⟩ [] unused = .ok ⟨blank alice, []⟩ := by rfl
  have hadded : run ⟨0, 0⟩ (.addWallet bitcoin) (blank alice) = .ok ((blank alice).addWallet bitcoin) := rfl
  have hentered : run ⟨0, 0⟩ (.addTransfer "btc" (.create "t1" .zero .received))
      ((blank alice).addWallet bitcoin) = .ok filled := by rfl
  have hstored : filled.disconnect.store unused = (used, []) := by rfl
  have hnew : Sharing "data" [] unused ([] ++ [blank alice]) := .created (.start (by decide +kernel)) rfl hcreated
  have hadd : Sharing "data" [] unused ([] ++ [(blank alice).addWallet bitcoin]) := .commanded hnew hadded nofun
  have hfilled : Sharing "data" [] unused ([] ++ [filled]) := .commanded hadd hentered nofun
  exact .saved hfilled hstored

theorem legible_filled : ∀ w ∈ filled.disconnect.wallets, w.Legible := by
  have hwallets : filled.disconnect.wallets =
      [⟨bitcoin, .zero, .disconnected "disconnect requested", [.create "t1" .zero .received]⟩] := by rfl
  rw [hwallets, List.forall_mem_singleton]
  refine Wallet.legible_of_kept ?_ ⟨by decide +kernel, ?_⟩
  · intro t ht time htime
    rw [List.mem_singleton.mp ht] at htime
    exact nomatch htime
  · intro t ht
    rw [List.mem_singleton.mp ht]
    exact ⟨by decide +kernel, by decide +kernel⟩

/-- Alice has her wallet again. -/
theorem own_wallets_are_restored : ∃ made, create ⟨alice, false, "data"⟩ [] used = .ok made ∧
    made.system.wallets.map Wallet.outline = [(bitcoin, ["t1"])] := by
  have hhere : (SystemParams.mk alice false "data").directory = "data" := rfl
  obtain ⟨-, hsaved⟩ := sharing_used.restores hhere
  obtain ⟨hcreated, hwallets⟩ := hsaved _ rfl
  obtain ⟨made, hmade⟩ := hcreated.mpr legible_filled
  exact ⟨made, hmade, (hwallets made hmade).1 (by decide) rfl⟩

/-- When Bob, to whom nothing is shown, has saved as well, Alice has not even the wallets of her own last
saving. -/
theorem overwritten_wallets_are_lost : ∃ savings disk systems last made,
    Sharing "data" savings disk systems ∧
      (savings.filter fun saving => saving.account.isSame alice).getLast? = some last ∧
      last.wallets.map Wallet.outline = [(bitcoin, ["t1"])] ∧
      create ⟨alice, false, "data"⟩ [] disk = .ok made ∧ made.system.wallets = [] := by
  have hbob : create ⟨bob, false, "data"⟩ [] used = .ok ⟨blank bob, [.foreignFile "data/wallets.json"]⟩ :=
    sharing_used.create_of_other rfl rfl legible_filled (by decide)
  have hstored : (blank bob).disconnect.store used = (((blank bob).disconnect.store used).1, []) := by rfl
  have hnew : Sharing "data" _ used ([filled.disconnect] ++ [blank bob]) := .created sharing_used rfl hbob
  have hsaved := hnew.saved hstored
  exact ⟨_, _, _, _, _, hsaved, rfl, rfl, hsaved.create_of_other rfl rfl nofun (by decide), rfl⟩

end Sharing

end MemorySystem

end WalletHub
