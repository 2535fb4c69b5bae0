import WalletHub.Proofs.Disk.Files
import WalletHub.Proofs.Hub.Refused
import WalletHub.Proofs.Memory.Incidents
import WalletHub.Proofs.World.Around
import WalletHub.Proofs.World.Effect

/-!
# Whether the storage can be used

The first opening of a hub makes the storage directory, unless something has its path already, and looks for the
wallets in it. That something can be a file: then there are no wallets in it to be found, the opening goes
through, and no closing can store any. Otherwise an opening that goes through leaves a directory, and the next
closing stores the wallets in it, whatever has happened in between (`World.storage_usable_iff`).

## What is proved

* `Disk.ready_of_load`: where wallets could be looked for no directory is in the way of their file (`Disk.Ready`).
* `MemorySystem.store_of_ready`: on such a disk storing goes through exactly if there is a directory.
* `Hub.StoresIn.change`: what every change of a hub keeps of where its system stores.
* `Hub.firstOpening_openFor`: the ends of a first opening, with what is known of the disk then.
* `World.Serves.move`: the step, kept by every move that leaves no files in the way.
* `World.Serves.close`: a closing stores the wallets exactly if the directory was usable.
* `World.storage_usable_iff`: from a first opening over any run to the next closing.
* `wallet_is_lost_to_file`: a hub whose storage path is that of a file.
-/

namespace WalletHub

theorem StoredWallets.isPlain : Path.IsPlain "wallets.json" := ⟨by decide, by decide, by decide⟩

/-! ### Loading and storing -/

/-- Where wallets could be loaded no directory is in the way of storing them. -/
theorem Disk.ready_of_load {d : Disk} {directory uid : String} {stored : List Wallet} {log : List LogEntry}
    (there : d.exists? directory = true)
    (loaded : StoredWallets.load (StoredWallets.file directory) uid d = .ok (stored, log)) :
    d.Ready directory "wallets.json" (d.namesDirectory (Path.pieces directory)) := by
  refine ⟨there, rfl, ?_⟩
  intro place hplace
  have hfind : d.find? (Path.pieces (StoredWallets.file directory)) = d.at? place := by
    rw [find?]
    exact congrArg (Option.bind · fun place => d.at? place) hplace
  unfold StoredWallets.load at loaded
  split at loaded
  · split at loaded
    · cases loaded
    · next text htext =>
      cases hat : d.at? place with
      | none => simp only [isDirectoryAt, hat]
      | some entry =>
        cases entry with
        | file content => simp only [isDirectoryAt, hat, isDirectory]
        | directory entries => simp [readText?, read?, hfind, hat] at htext
  · next habsent =>
    rw [exists?, hfind] at habsent
    cases hat : d.at? place with
    | none => simp only [isDirectoryAt, hat]
    | some entry => rw [hat] at habsent; exact absurd rfl habsent

/-- **Storing goes through exactly in a usable directory**, and leaves the directory as it is. -/
theorem MemorySystem.store_of_ready {d : Disk} {directory : String} {usable : Bool}
    (ready : d.Ready directory "wallets.json" usable) {s : MemorySystem}
    (hfile : s.file = StoredWallets.file directory) :
    (s.store d).1.Ready directory "wallets.json" usable ∧
      ((s.store d).1.readText? (StoredWallets.file directory) =
          some (Encoded.encode .pretty (StoredWallets.mk s.account.uid s.wallets)) ∧
        (s.store d).2 = [] ↔ usable = true) := by
  cases usable with
  | true =>
    obtain ⟨d', hwrite, hready⟩ := ready.write StoredWallets.isPlain
      (.text (Encoded.encode .pretty (StoredWallets.mk s.account.uid s.wallets)))
    have hstore : s.store d = (d', []) := by
      simp only [store, StoredWallets.save, hfile, StoredWallets.file, hwrite]
    rw [hstore]
    exact ⟨hready, fun _ => rfl, fun _ => ⟨Disk.readText?_of_write? hwrite, rfl⟩⟩
  | false =>
    have hwrite := ready.not_write StoredWallets.isPlain
      (.text (Encoded.encode .pretty (StoredWallets.mk s.account.uid s.wallets)))
    simp only [store, StoredWallets.save, hfile, StoredWallets.file, hwrite]
    refine ⟨ready, ?_⟩
    simp

/-! ### The system that stores -/

namespace Hub

/-- The hub's system stores its wallets in this directory, for the account of this identifier. -/
def StoresIn (directory uid : String) (h : Hub MemorySystem) : Prop :=
  ∃ s, h.handle = some s ∧ s.file = StoredWallets.file directory ∧ s.account.uid = uid

variable {directory uid : String} {h h' : Hub MemorySystem}

theorem StoresIn.of_origin {s s' : MemorySystem} (hs : h.StoresIn directory uid) (kept : h.handle = some s)
    (kept' : h'.handle = some s') (same : s'.origin = s.origin) : h'.StoresIn directory uid := by
  obtain ⟨s₀, hs₀, hfile, huid⟩ := hs
  obtain rfl := Option.some.inj (kept.symm.trans hs₀)
  simp only [MemorySystem.origin, Prod.mk.injEq] at same
  obtain ⟨haccount, -, hsame⟩ := same
  exact ⟨s', kept', hsame.trans hfile, by rw [haccount, huid]⟩

/-- Whatever happens to a hub, its system stays and stores in the same place. -/
theorem StoresIn.change {cause : Cause} (hs : h.StoresIn directory uid) (hc : h.Change cause h') :
    h'.StoresIn directory uid := by
  obtain ⟨s₀, hs₀, -⟩ := id hs
  cases hc with
  | launch session s closed kept =>
    rcases kept with hkept | ⟨hbare, -⟩
    · exact hs.of_origin hkept rfl (MemorySystem.turns_of_connect s).origin_eq
    · exact nomatch hs₀.symm.trans hbare
  | hold s closed bare => exact nomatch hs₀.symm.trans bare
  | close s isOpen kept => exact hs.of_origin kept rfl (MemorySystem.turns_of_disconnect s).origin_eq
  | closeBare isOpen bare => exact nomatch hs₀.symm.trans bare
  | command s s' now c kept run => exact hs.of_origin kept rfl (MemorySystem.turns_of_run run).origin_eq
  | finish s jobs kept queue => exact hs.of_origin kept rfl rfl
  | deliver s callback job jobs kept queue =>
    obtain ⟨-, hhandle, -⟩ :=
      receive_fields callback { h with handle := some { s with queue := job :: jobs } }
    exact hs.of_origin kept hhandle rfl
  | task p t =>
    obtain ⟨-, hhandle, -⟩ := runSession_fields p t h
    exact hs.of_origin hs₀ (hhandle.trans hs₀) rfl

theorem isOpen_close (h : Hub MemorySystem) (e : Surroundings MemoryFactory) : (h.close e).2.1.isOpen = false := by
  cases hopen : h.isOpen with
  | false => simp only [close, hopen, Bool.false_eq_true, if_false]
  | true => cases hkept : h.handle <;> simp only [close, hopen, hkept, if_true, cancelled]

/-- A new system stores in the hub's directory, for the account that it was created for. -/
theorem New.storesIn {config : Config} {account : Account} {seeds : List Currency} {disk : Disk} {s : MemorySystem}
    (new : New config account seeds disk s) :
    s.file = StoredWallets.file config.storageDirectory ∧ s.account = account := by
  obtain ⟨made, hmade, rfl⟩ := new
  obtain ⟨stored, log, -, hsystem⟩ := MemorySystem.exists_load_of_create hmade
  have horigin := (MemorySystem.turns_of_configure [] made.system).origin_eq
  rw [hsystem] at horigin
  simp only [MemorySystem.origin, Prod.mk.injEq] at horigin
  rw [hsystem]
  exact ⟨horigin.2.2, horigin.1⟩

/-- After a directory was made or found, there is one unless a file has its path. -/
theorem namesDirectory_of_ensureDirectory {path : String} {e e' : Surroundings MemoryFactory}
    (made : e.ensureDirectory path = (true, e')) :
    e'.disk.namesDirectory (Path.pieces path) = true ↔ e.disk.read? path = none := by
  unfold Surroundings.ensureDirectory at made
  cases hexists : e.disk.exists? path with
  | true =>
    rw [hexists, if_pos rfl] at made
    obtain ⟨-, rfl⟩ := Prod.mk.inj made
    exact Disk.namesDirectory_iff_read? hexists
  | false =>
    rw [hexists, if_neg Bool.false_ne_true] at made
    cases hmake : e.disk.makeDirectories path with
    | error d => simp [hmake] at made
    | ok d =>
      rw [hmake] at made
      obtain ⟨-, rfl⟩ := Prod.mk.inj made
      exact iff_of_true (Disk.namesDirectory_of_makeDirectories hmake) (Disk.read?_of_not_exists hexists)

/-- The first opening of a hub. -/
inductive FirstOpening (account : Account) (h : Hub MemorySystem) (e : Surroundings MemoryFactory) :
    Except HubError Unit → Hub MemorySystem → Surroundings MemoryFactory → Prop where
  | noDirectory (e' : Surroundings MemoryFactory) :
      FirstOpening account h e (.error (.storageDirectory h.config.storageDirectory Disk.faultMark)) h e'
  | noSystem (cause : RuntimeError) (e' : Surroundings MemoryFactory) :
      FirstOpening account h e (.error (.systemCreation cause)) h e'
  /-- The directory is ready to store in, and usable unless a file has its path. -/
  | opened {h' : Hub MemorySystem} {e' : Surroundings MemoryFactory} {usable : Bool}
      (stores : h'.StoresIn h.config.storageDirectory account.uid)
      (ready : e'.disk.Ready h.config.storageDirectory "wallets.json" usable)
      (free : usable = true ↔ e.disk.read? h.config.storageDirectory = none) :
      FirstOpening account h e (.ok ()) h' e'

theorem firstOpening_openFor {account : Account} {h : Hub MemorySystem} (closed : h.isOpen = false)
    (bare : h.handle = none) (given : account.serialized.isEmpty = false) (session : Session)
    (e : Surroundings MemoryFactory) :
    FirstOpening account h e (h.openFor account session e).1 (h.openFor account session e).2.1
      (h.openFor account session e).2.2 := by
  have hend := opening_openFor account session h e
  generalize (h.openFor account session e).1 = answer at hend ⊢
  generalize (h.openFor account session e).2.1 = h' at hend ⊢
  generalize (h.openFor account session e).2.2 = e' at hend ⊢
  have hnew {e₁ e₂ : Surroundings MemoryFactory} {s : MemorySystem} (obtained : h.obtain account e₁ = (.ok s, e₂)) :
      New h.config account e₁.factory.seeds e₁.disk s ∧ e₂.disk = e₁.disk := by
    rcases obtain_cases obtained with ⟨hkept, -⟩ | ⟨-, hmade⟩
    · exact nomatch bare.symm.trans hkept
    · obtain ⟨made, factory, -, -, rfl⟩ := around_of_createSystem hmade
      exact ⟨new_of_createSystem hmade, rfl⟩
  cases hend with
  | alreadyOpen isOpen => exact nomatch closed.symm.trans isOpen
  | emptyAccount _ empty => exact nomatch given.symm.trans empty
  | noDirectory => exact .noDirectory e'
  | notObtained => exact .noSystem _ e'
  | mismatch _ _ _ obtained other =>
    obtain ⟨-, haccount⟩ := (hnew obtained).1.storesIn
    rw [← haccount] at other
    exact nomatch other.symm.trans (beq_self_eq_true _)
  | @launched e₁ e₂ s _ _ directory obtained _ =>
    obtain ⟨new, hdisk⟩ := hnew obtained
    obtain ⟨hfile, haccount⟩ := new.storesIn
    obtain ⟨stored, log, hload, -⟩ := new.fields
    have horigin := (MemorySystem.turns_of_connect s).origin_eq
    simp only [MemorySystem.origin, Prod.mk.injEq] at horigin
    refine .opened ⟨_, rfl, horigin.2.2.trans hfile, ?_⟩ ?_ (namesDirectory_of_ensureDirectory directory)
    · exact congrArg Account.uid (horigin.1.trans haccount)
    · show e₂.disk.Ready _ _ _
      rw [hdisk]
      exact Disk.ready_of_load (Surroundings.exists?_of_ensureDirectory directory) hload

end Hub

/-! ### Runs -/

/-- The user leaves the files alone, and no opening goes through. -/
def leavesFiles (_ : MemoryWorld) (m : Move) (r : Reply) : Prop :=
  (∀ a, m = .act a → a.touchesDisk = false) ∧ ∀ account, ¬(m = .act (.openHub account) ∧ r = .ok)

namespace World

/-- As long as the hub is open its system stores in this directory, for the account of this identifier, and the
directory is ready for it. -/
def Serves (directory uid : String) (usable : Bool) (w : MemoryWorld) : Prop :=
  ∀ h, w.hub = some h → h.isOpen = true →
    h.StoresIn directory uid ∧ w.surroundings.disk.Ready directory "wallets.json" usable

/-- A hub is opened only by an opening that goes through. -/
theorem ok_of_isOpen {w : MemoryWorld} {h h' : Hub MemorySystem} {account : Account} (hub : w.hub = some h)
    (closed : h.isOpen = false) (hub' : (w.act (.openHub account)).2.hub = some h') (isOpen : h'.isOpen = true) :
    (w.act (.openHub account)).1 = .ok := by
  obtain ⟨hanswer, hhub⟩ := openFor_eq hub account
  obtain ⟨answer, k, e, hresult⟩ : ∃ answer k e, h.openFor account w.nextSession w.surroundings = (answer, k, e) :=
    ⟨_, _, _, rfl⟩
  rw [hresult] at hanswer hhub
  obtain rfl : k = h' := Option.some.inj (hhub.symm.trans hub')
  cases answer with
  | ok done => simp only [act, hanswer, lifecycleReply]
  | error error =>
    obtain ⟨kept, rfl, -⟩ := Hub.remains_of_openFor hresult
    cases closed.symm.trans isOpen

/-- A hub that is open after a move was open before it, and its system stores where it did. -/
theorem open_before {w w' : MemoryWorld} {m : Move} {r : Reply} {h' : Hub MemorySystem} (moved : w.move m = (r, w'))
    (ok : leavesFiles w m r) (hub' : w'.hub = some h') (isOpen : h'.isOpen = true) :
    ∃ h, w.hub = some h ∧ h.isOpen = true ∧
      ∀ directory uid, h.StoresIn directory uid → h'.StoresIn directory uid := by
  have hsame (hub : w'.hub = w.hub) : ∃ h, w.hub = some h ∧ h.isOpen = true ∧
      ∀ directory uid, h.StoresIn directory uid → h'.StoresIn directory uid :=
    ⟨h', hub.symm.trans hub', isOpen, fun _ _ => id⟩
  have hnew (config : Config) (hub : w'.hub = some (.create config)) : False := by
    obtain rfl := Option.some.inj (hub.symm.trans hub')
    exact nomatch isOpen
  cases Effect.effect_move moved with
  | quiet hub | unsubscribe hub | next _ _ hub | drain _ _ hub => exact hsame hub
  | subscribe _ hub hub₁ => exact hsame (hub₁.trans hub.symm)
  | subscribeAlone _ _ _ hub => exact nomatch hub.symm.trans hub'
  | @lose h s callback job jobs _ hub kept queue hub₁ =>
    obtain rfl := Option.some.inj (hub₁.symm.trans hub')
    exact ⟨h, hub, isOpen, fun _ _ hs => hs.of_origin kept rfl rfl⟩
  | drop _ hub =>
    rcases hub with hnone | ⟨config, hconfig⟩
    · exact nomatch hnone.symm.trans hub'
    · exact (hnew config hconfig).elim
  | make _ hub =>
    obtain ⟨config, hconfig⟩ := hub
    exact (hnew config hconfig).elim
  | @change h h₁ cause hub change caused hub₁ =>
    obtain rfl := Option.some.inj (hub₁.symm.trans hub')
    refine ⟨h, hub, ?_, fun _ _ hs => hs.change change⟩
    cases change with
    | launch session s closed kept =>
      cases caused with
      | opening =>
        obtain ⟨rfl, rfl⟩ := Prod.mk.inj moved
        exact absurd ⟨rfl, ok_of_isOpen hub closed hub' isOpen⟩ (ok.2 _)
    | hold s closed => exact nomatch closed.symm.trans isOpen
    | close | closeBare => exact nomatch isOpen
    | command | finish => exact isOpen
    | deliver s callback job jobs =>
      obtain ⟨hsame, -, -⟩ :=
        Hub.receive_fields callback { h with handle := some { s with queue := job :: jobs } }
      exact hsame.symm.trans isOpen
    | task p t =>
      obtain ⟨hsame, -, -⟩ := Hub.runSession_fields p t h
      exact hsame.symm.trans isOpen

/-- Closing and disconnecting leave the directory ready, and nothing else that happens to an open hub reaches the
disk. -/
theorem Serves.move {w w' : MemoryWorld} {m : Move} {r : Reply} {directory uid : String} {usable : Bool}
    (serves : w.Serves directory uid usable) (ok : leavesFiles w m r) (moved : w.move m = (r, w')) :
    w'.Serves directory uid usable := by
  intro h' hub' isOpen'
  obtain ⟨h, hub, isOpen, hstores⟩ := open_before moved ok hub' isOpen'
  obtain ⟨hs, hready⟩ := serves h hub isOpen
  refine ⟨hstores _ _ hs, ?_⟩
  obtain ⟨rfl, rfl⟩ := Prod.mk.inj moved
  cases m with
  | task =>
    have hdisk : w.runSession.surroundings.disk = w.surroundings.disk := by
      simp only [runSession, hub, report, Surroundings.report]
    exact hdisk.symm ▸ hready
  | deliver => exact (disk_deliverOne w).symm ▸ hready
  | forget => exact hready
  | act a =>
    have hend := w.handling_act a
    show (w.act a).2.surroundings.disk.Ready _ _ _
    generalize (w.act a).2.surroundings = e at hend ⊢
    cases hend with
    | steered | created => exact hready
    | touched disk touches => cases touches.symm.trans (ok.1 a rfl)
    | opening account hub₁ =>
      obtain rfl := Option.some.inj (hub.symm.trans hub₁)
      simpa only [Hub.openFor, isOpen, if_true] using hready
    | closing hub₁ =>
      obtain rfl := Option.some.inj (hub.symm.trans hub₁)
      have hclosed : (h.close w.surroundings).2.1 = h' := by
        simpa only [World.move, act, close, hub, Option.some.injEq] using hub'
      rw [← hclosed, Hub.isOpen_close] at isOpen'
      cases isOpen'
    | @stored s last =>
      obtain ⟨kept, hkept, hfile, -⟩ := hs
      obtain rfl : kept = s := by simpa [lastSystem, hub, hkept] using last
      have horigin := (MemorySystem.turns_of_disconnect kept).origin_eq
      simp only [MemorySystem.origin, Prod.mk.injEq] at horigin
      exact (MemorySystem.store_of_ready hready (horigin.2.2.trans hfile)).1

/-- The file in this directory holds the wallets of the hub's system, for the account of this identifier. -/
def Stored (directory uid : String) (w : MemoryWorld) : Prop :=
  ∃ s, w.hub.bind Hub.handle = some s ∧ w.surroundings.disk.readText? (StoredWallets.file directory) =
    some (Encoded.encode .pretty (StoredWallets.mk uid s.wallets))

/-- A closing that goes through stores the wallets without a warning exactly in a usable directory. -/
theorem Serves.close {w w' : MemoryWorld} {directory uid : String} {usable : Bool}
    (serves : w.Serves directory uid usable) (closed : w.close = (some (.ok ()), w')) :
    w'.Stored directory uid ∧ w'.surroundings.log = w.surroundings.log ↔ usable = true := by
  cases hub : w.hub with
  | none => simp [World.close, hub] at closed
  | some h =>
    cases hopen : h.isOpen with
    | false => simp [World.close, hub, Hub.close, hopen] at closed
    | true =>
      obtain ⟨⟨s, hkept, hfile, huid⟩, hready⟩ := serves h hub hopen
      have horigin := (MemorySystem.turns_of_disconnect s).origin_eq
      simp only [MemorySystem.origin, Prod.mk.injEq] at horigin
      obtain ⟨haccount, -, hsame⟩ := horigin
      obtain ⟨-, hstored⟩ := MemorySystem.store_of_ready hready (hsame.trans hfile)
      simp only [World.close, hub, Hub.close, hopen, hkept, if_true, WalletSystem.disconnect] at closed
      obtain ⟨-, rfl⟩ := Prod.mk.inj closed
      rw [haccount, huid] at hstored
      rw [← hstored]
      refine and_congr ?_ List.append_right_eq_self
      constructor
      · rintro ⟨s', hs', htext⟩
        obtain rfl : s.disconnect = s' := Option.some.inj hs'
        exact htext
      · exact fun htext => ⟨s.disconnect, rfl, htext⟩

/-- **Whether the storage can be used is settled by the first opening of a hub.** It fails without a storage
directory or a system, and the hub stays closed. Or it goes through, and then there is a storage directory, and
the next closing stores the wallets in it, exactly if no file had the path of the directory before. -/
theorem storage_usable_iff {w w₁ : MemoryWorld} {h : Hub MemorySystem} (hub : w.hub = some h)
    (closed : h.isOpen = false) (bare : h.handle = none) {account : Account}
    (given : account.serialized.isEmpty = false) {answer : Except HubError Unit}
    (opened : w.openFor account = (some answer, w₁)) :
    (∃ error, answer = .error error ∧ w₁.hub = some h ∧
        (error = .storageDirectory h.config.storageDirectory Disk.faultMark ∨ ∃ cause, error = .systemCreation cause)) ∨
      answer = .ok () ∧
        (w₁.surroundings.disk.namesDirectory (Path.pieces h.config.storageDirectory) = true ↔
          w.surroundings.disk.read? h.config.storageDirectory = none) ∧
        ∀ past w₂ w₃, Run leavesFiles w₁ past w₂ → w₂.close = (some (.ok ()), w₃) →
          (w₃.Stored h.config.storageDirectory account.uid ∧ w₃.surroundings.log = w₂.surroundings.log ↔
            w.surroundings.disk.read? h.config.storageDirectory = none) := by
  obtain ⟨hanswer, hhub⟩ := openFor_eq hub account
  have haround := surroundings_openFor w account hub
  have hend := Hub.firstOpening_openFor closed bare given w.nextSession w.surroundings
  rw [opened] at hanswer hhub haround
  rw [← Option.some.inj hanswer, ← haround] at hend
  generalize (h.openFor account w.nextSession w.surroundings).2.1 = h₁ at hend hhub
  generalize hw₁ : w₁.surroundings = e₁ at hend
  cases hend with
  | noDirectory => exact Or.inl ⟨_, rfl, hhub, Or.inl rfl⟩
  | noSystem cause => exact Or.inl ⟨_, rfl, hhub, Or.inr ⟨cause, rfl⟩⟩
  | @opened _ _ usable stores ready free =>
    have hserves : w₁.Serves h.config.storageDirectory account.uid usable := by
      intro h' hub' _
      obtain rfl := Option.some.inj (hhub.symm.trans hub')
      exact ⟨stores, hw₁ ▸ ready⟩
    refine Or.inr ⟨rfl, ?_, ?_⟩
    · rw [ready.kind, free]
    · intro past w₂ w₃ run hclose
      obtain ⟨hserves₂, -⟩ := run.strengthen _ hserves fun _ _ _ _ hs ok moved => hs.move ok moved
      rw [hserves₂.close hclose, free]

end World

/-- A hub where a file has the path of the storage directory. -/
def fileInTheWay : MemoryWorld :=
  .start (.ofDirectory "data") (.start []) (.directory [("data", .file (.text "x"))]) ⟨1600000000, 0⟩ [] true

/-- The hub after it was opened, with one wallet. -/
def openedOverFile : Past × MemoryWorld :=
  World.play (fileInTheWay.openFor ⟨"alice", ⟨0, 0⟩, [1]⟩).2
    [.act (.command (.addWallet ⟨"bitcoin", "btc", "Bitcoin", 8⟩))]

/-- The hub is opened, but there is no storage directory, and the wallet is lost when it is closed. -/
theorem wallet_is_lost_to_file :
    (fileInTheWay.openFor ⟨"alice", ⟨0, 0⟩, [1]⟩).1 = some (.ok ()) ∧
      (fileInTheWay.openFor ⟨"alice", ⟨0, 0⟩, [1]⟩).2.surroundings.disk.namesDirectory (Path.pieces "data") ≠ true ∧
      openedOverFile.2.close.1 = some (.ok ()) ∧
      ¬(openedOverFile.2.close.2.Stored "data" "alice" ∧
        openedOverFile.2.close.2.surroundings.log = openedOverFile.2.surroundings.log) := by
  have opened : fileInTheWay.openFor ⟨"alice", ⟨0, 0⟩, [1]⟩ =
      (some (.ok ()), (fileInTheWay.openFor ⟨"alice", ⟨0, 0⟩, [1]⟩).2) := Prod.ext (by rfl) rfl
  have closed : openedOverFile.2.close = (some (.ok ()), openedOverFile.2.close.2) := Prod.ext (by rfl) rfl
  have file : fileInTheWay.surroundings.disk.read? "data" ≠ none := by decide +kernel
  have run : Run leavesFiles (fileInTheWay.openFor ⟨"alice", ⟨0, 0⟩, [1]⟩).2 openedOverFile.1 openedOverFile.2 := by
    refine Run.play _ _ ⟨⟨?_, fun account h => nomatch h.1⟩, trivial⟩
    rintro a ⟨⟩
    rfl
  rcases World.storage_usable_iff (h := .create (.ofDirectory "data")) rfl rfl rfl (by rfl) opened with
    ⟨error, herror, -⟩ | ⟨-, hdirectory, hstored⟩
  · exact nomatch herror
  · exact ⟨congrArg Prod.fst opened, fun h => file (hdirectory.mp h), congrArg Prod.fst closed,
      fun h => file ((hstored _ _ _ run closed).mp h)⟩

end WalletHub
