import WalletHub.Proofs.Memory.Sole
import WalletHub.Proofs.Memory.Storage
import WalletHub.Proofs.World.Effect

/-!
# Where the wallets of a system come from

A system begins with the wallets of a file, and the file was written by a system before it, and so on
back to one that found no file (`Grown`). As no command makes a second wallet of a code, no such system
has two (`Grown.sole`), and none begins with a manager that is connected
(`Hub.New.unconnected`), because a system is disconnected when it writes its wallets.

## What is proved

* `load_of_absent`, `load_of_left`: where there is no file no wallets are loaded, and where some system has left
  one its wallets are loaded or none.
* `sole_of_turns`, `sole_foldl_seed`, `sole_of_load`: no command, no seed and no file of such a system brings a
  second wallet of a code about.
* `Grown.sole`: so no such system has two, by induction over its ancestors.
* `Hub.New.grown`: the new system of a hub is such a system, if the file was written by one.
* `Hub.New.unconnected`: none of its managers is connected.

That the file was written by a system is asked of the runs that need it, in one of two forms: `inherits`, of what
the system has left there, and the weaker `findsWritten`. Both speak only of the moment in which a hub is opened
for the first time.
-/

namespace WalletHub

namespace MemorySystem

/-! ### Systems after systems -/

/-- What the system writes to its file when it is disconnected. -/
def leaves (s : MemorySystem) : String :=
  Encoded.encode .pretty (StoredWallets.mk s.account.uid s.disconnect.wallets)

/-- The systems that there are where only such systems write the file of wallets. -/
inductive Grown : MemorySystem → Prop where
  /-- It was created where there was no file. -/
  | first {params : SystemParams} {seeds : List Currency} {disk : Disk} {made : Created MemorySystem}
      (absent : disk.exists? (StoredWallets.file params.directory) = false)
      (created : create params seeds disk = .ok made) : Grown made.system
  /-- It was created where a system had left its wallets. -/
  | heir {before : MemorySystem} {params : SystemParams} {seeds : List Currency} {disk : Disk}
      {made : Created MemorySystem} (grown : Grown before)
      (left : disk.readText? (StoredWallets.file params.directory) = some before.leaves)
      (created : create params seeds disk = .ok made) : Grown made.system
  | command {s s' : MemorySystem} {now : Instant} {c : Command} (grown : Grown s)
      (ran : run now c s = .ok s') : Grown s'
  /-- Some of its jobs were delivered. -/
  | deliver {s : MemorySystem} (grown : Grown s) (jobs : List Job) : Grown { s with queue := jobs }

/-- There is no file of wallets, or it is the one that a system has left. -/
def Left (disk : Disk) (file : String) : Prop :=
  disk.exists? file = false ∨ ∃ s, Grown s ∧ disk.readText? file = some s.leaves

/-- There is no file of wallets, or it is one that some system has left, wherever its wallets were from. -/
def Written (disk : Disk) (file : String) : Prop :=
  disk.exists? file = false ∨ ∃ s : MemorySystem, disk.readText? file = some s.leaves

theorem Left.written {disk : Disk} {file : String} (h : Left disk file) : Written disk file :=
  h.imp_right fun ⟨s, _, hleft⟩ => ⟨s, hleft⟩

/-! ### What comes out of the file -/

/-- Without a file there are no stored wallets. -/
theorem load_of_absent {file uid : String} {disk : Disk} {stored : List Wallet} {log : List LogEntry}
    (absent : disk.exists? file = false) (loaded : StoredWallets.load file uid disk = .ok (stored, log)) :
    stored = [] := by
  rw [StoredWallets.load, absent, if_neg Bool.false_ne_true] at loaded
  exact (Prod.mk.inj (Except.ok.inj loaded)).1.symm

/-- **Of what a system has left all wallets come back, or none**, with their currencies and the states of
their managers. -/
theorem load_of_left {s : MemorySystem} {file uid : String} {disk : Disk} {stored : List Wallet}
    {log : List LogEntry} (left : disk.readText? file = some s.leaves)
    (loaded : StoredWallets.load file uid disk = .ok (stored, log)) :
    stored = [] ∨ List.Forall₂ (fun w back => back.currency = w.currency ∧
      back.managerState = w.managerState) s.disconnect.wallets stored := by
  rw [StoredWallets.load_of_text left fun w _ => rfl] at loaded
  cases hback : s.disconnect.wallets.mapM Wallet.reread with
  | error fault => simp [hback] at loaded
  | ok back =>
    simp only [hback] at loaded
    split at loaded
    · obtain rfl := (Prod.mk.inj (Except.ok.inj loaded)).1
      refine Or.inr ((mapM_eq_ok_iff.mp hback).imp ?_)
      intro w w' hw
      exact Wallet.fields_of_ofJson (by decide) hw
    · exact Or.inl (Prod.mk.inj (Except.ok.inj loaded)).1.symm

/-! ### No two wallets of a code -/

theorem sole_nil (code : String) : Sole code [] := Nat.zero_le 1

/-- Only the currencies matter. -/
theorem sole_of_forall₂ {code : String} {ws ws' : List Wallet}
    (h : List.Forall₂ (fun w w' : Wallet => w'.currency = w.currency) ws ws') (sole : Sole code ws) :
    Sole code ws' := by
  have hlength : (ws'.filter fun w => w.currency.hasCode code).length =
      (ws.filter fun w => w.currency.hasCode code).length := by
    clear sole
    induction h with
    | nil => rfl
    | @cons w w' ws ws' same _ ih =>
      rw [List.filter_cons, List.filter_cons, same]
      split
      · rw [List.length_cons, List.length_cons, ih]
      · exact ih
  rw [Sole, hlength]
  exact sole

/-- The seeds make no second wallet of a code: to the wallets alone a seed is what a new wallet is. -/
theorem sole_foldl_seed {code : String} (seeds : List Currency) {ws : List Wallet} (sole : Sole code ws) :
    Sole code (seeds.foldl seed ws) := by
  induction seeds generalizing ws with
  | nil => exact sole
  | cons currency seeds ih =>
    rw [List.foldl_cons]
    apply ih
    unfold seed
    split
    · exact sole
    · next hnew =>
      have hadd : Edit ws [[.manager ⟨currency, "", .created⟩ .created]] (ws ++ [.create currency]) :=
        .add (.create currency) hnew rfl (tellWallets_singleton List.mem_cons_self rfl) rfl
      exact hadd.sole sole

theorem sole_of_turns {code : String} {c : Command} {s s' : MemorySystem} (h : Turns c s s')
    (sole : Sole code s.wallets) : Sole code s'.wallets := by
  induction h with
  | refl => exact sole
  | tail _ turn ih =>
    obtain ⟨jobs, -, hedit⟩ := turn.edit
    exact hedit.sole ih

theorem sole_of_load {code file uid : String} {s : MemorySystem} {disk : Disk} {stored : List Wallet}
    {log : List LogEntry} (sole : Sole code s.wallets) (left : disk.readText? file = some s.leaves)
    (loaded : StoredWallets.load file uid disk = .ok (stored, log)) : Sole code stored := by
  rcases load_of_left left loaded with rfl | hback
  · exact sole_nil code
  · have hdisconnect := sole_of_turns (turns_of_disconnect s) sole
    exact sole_of_forall₂ (hback.imp fun w w' h => h.1) hdisconnect

/-- **No system has two wallets of a code.** -/
theorem Grown.sole {s : MemorySystem} (grown : Grown s) (code : String) : Sole code s.wallets := by
  induction grown with
  | first absent created =>
    obtain ⟨stored, log, hload, hsystem⟩ := exists_load_of_create created
    rw [hsystem, load_of_absent absent hload]
    exact sole_foldl_seed _ (sole_nil code)
  | heir grown left created ih =>
    obtain ⟨stored, log, hload, hsystem⟩ := exists_load_of_create created
    rw [hsystem]
    exact sole_foldl_seed _ (sole_of_load ih left hload)
  | command grown ran ih => exact sole_of_turns (turns_of_run ran) ih
  | deliver grown jobs ih => exact ih

end MemorySystem

open MemorySystem (Grown Left Written)

/-! ### New systems -/

namespace Hub

variable {config : Config} {account : Account} {seeds : List Currency} {disk : Disk} {s : MemorySystem}

theorem New.grown (new : New config account seeds disk s)
    (left : Left disk (StoredWallets.file config.storageDirectory)) : Grown s := by
  obtain ⟨made, hmade, rfl⟩ := new
  have hmade' : Grown made.system := by
    rcases left with habsent | ⟨before, hgrown, hleft⟩
    · refine .first ?_ hmade
      exact habsent
    · refine .heir hgrown ?_ hmade
      exact hleft
  have hran : MemorySystem.run ⟨0, 0⟩ (.configure []) made.system = .ok (made.system.configure []) := rfl
  exact hmade'.command hran

theorem managerState_of_mem_disconnect {w : Wallet} (hw : w ∈ s.disconnect.wallets) :
    w.managerState = .disconnected "disconnect requested" := by
  obtain ⟨w', -, rfl⟩ := List.mem_map.mp hw
  rfl

/-- The managers of the seeds have not begun yet. -/
theorem managerState_of_mem_foldl_seed {ws : List Wallet} (seeds : List Currency) {w : Wallet}
    (hw : w ∈ seeds.foldl MemorySystem.seed ws) : w ∈ ws ∨ w.managerState = .created := by
  induction seeds generalizing ws with
  | nil => exact Or.inl hw
  | cons currency seeds ih =>
    rcases ih hw with hseed | hcreated
    · unfold MemorySystem.seed at hseed
      split at hseed
      · exact Or.inl hseed
      · rcases List.mem_append.mp hseed with hold | hnew
        · exact Or.inl hold
        · rw [List.mem_singleton.mp hnew]
          exact Or.inr rfl
    · exact Or.inr hcreated

/-- **No manager of a new system is connected.** -/
theorem New.unconnected (new : New config account seeds disk s)
    (written : Written disk (StoredWallets.file config.storageDirectory)) :
    ∀ w ∈ s.wallets, w.managerState ≠ .connected := by
  intro w hw
  obtain ⟨stored, log, hload, hwallets, -⟩ := new.fields
  rw [hwallets] at hw
  rcases managerState_of_mem_foldl_seed seeds hw with hstored | hcreated
  · rcases written with habsent | ⟨before, hleft⟩
    · rw [MemorySystem.load_of_absent habsent hload] at hstored
      exact nomatch hstored
    · rcases MemorySystem.load_of_left hleft hload with rfl | hback
      · exact nomatch hstored
      · have hleaving : List.Forall₂ (fun back w : Wallet =>
            back.managerState = .disconnected "disconnect requested" ∧ back.currency = w.currency)
            stored before.disconnect.wallets := by
          refine ((List.forall₂_and_left _ _).mpr ⟨fun _ => managerState_of_mem_disconnect, hback⟩).flip.imp ?_
          rintro back w ⟨hdisconnected, hcurrency, hstate⟩
          exact ⟨hstate.trans hdisconnected, hcurrency⟩
        rw [((List.forall₂_and_left _ _).mp hleaving).1 w hstored]
        exact nofun
  · rw [hcreated]
    exact nofun

end Hub

/-! ### Runs -/

/-- A hub that is opened for the first time finds no file of wallets in its directory, or the one that a
system has left. -/
def inherits (w : MemoryWorld) (m : Move) (_ : Reply) : Prop :=
  ∀ account h, m = .act (.openHub account) → w.hub = some h → h.handle = none →
    Left (w.surroundings.ensureDirectory h.config.storageDirectory).2.disk
      (StoredWallets.file h.config.storageDirectory)

theorem inherits_of_ne {w : MemoryWorld} {m : Move} {r : Reply}
    (other : ∀ account, m ≠ .act (.openHub account)) : inherits w m r :=
  fun account _ hm => absurd hm (other account)

/-- A hub that is opened for the first time finds no file of wallets in its directory, or one that some
system has left. -/
def findsWritten (w : MemoryWorld) (m : Move) (_ : Reply) : Prop :=
  ∀ account h, m = .act (.openHub account) → w.hub = some h → h.handle = none →
    Written (w.surroundings.ensureDirectory h.config.storageDirectory).2.disk
      (StoredWallets.file h.config.storageDirectory)

theorem findsWritten_of_inherits {w : MemoryWorld} {m : Move} {r : Reply} (h : inherits w m r) :
    findsWritten w m r :=
  fun account hub hm hhub bare => (h account hub hm hhub bare).written

/-- A hub that has a system looks for no other. -/
theorem inherits_of_held {w : MemoryWorld} {m : Move} {r : Reply}
    (held : (w.hub.bind Hub.handle).isSome = true) : inherits w m r := by
  intro account h _ hub bare
  rw [hub, Option.bind_some, bare] at held
  exact nomatch held

end WalletHub
