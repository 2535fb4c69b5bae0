import WalletHub.Proofs.Hub.Opening
import WalletHub.Memory.System

/-!
# What can happen to a hub

All that can happen to a hub over systems in memory, said once (`Hub.Change`): openings, closings,
commands on its system, deliveries, and the runs of its task, each with what brought it about
(`Hub.Cause`). `change_of_openFor` and `change_of_close` find what an opening or a closing has done among
these.

A change is what later modules argue by: an invariant of a hub is kept if each constructor of `Hub.Change`
keeps it, and no proof but those here has to open the definitions of opening and closing again. Of a system
that is created in an opening it is known that it has the stored wallets and then those of the seeds, and that
nothing waits in it (`Hub.New.fields`, `Hub.New.queue`).

## What is proved

* `MemorySystem.exists_load_of_create`: a system that is created has the wallets that could be loaded, and then
  those of the seeds.
* `Hub.new_of_createSystem`, `Hub.kept_of_obtain`: an opening goes on with the system of the hub or with a new
  one.
* `Hub.change_of_openFor`: an opening launches the hub, or leaves it with a new system that is for another
  account, or changes nothing.
* `Hub.change_of_close`: a closing changes the hub in one of two ways, by whether it has a system, or changes
  nothing.
-/

namespace WalletHub

/-- A system that is created has the wallets of the file and then those of the seeds. -/
theorem MemorySystem.exists_load_of_create {params : SystemParams} {seeds : List Currency} {disk : Disk}
    {made : Created MemorySystem} (created : create params seeds disk = .ok made) :
    ∃ stored log, StoredWallets.load (StoredWallets.file params.directory) params.account.uid disk =
      .ok (stored, log) ∧ made.system = ⟨params.account, params.mainnet,
        StoredWallets.file params.directory, seeds.foldl seed stored, [], [], false, 0, 0, 0, []⟩ := by
  unfold create at created
  cases hload : StoredWallets.load (StoredWallets.file params.directory) params.account.uid disk with
  | error cause => simp [hload] at created
  | ok loaded =>
    simp only [hload] at created
    obtain rfl := Except.ok.inj created
    exact ⟨_, _, rfl, rfl⟩

namespace Hub

/-- What brings a change of a hub about. -/
inductive Cause where
  /-- It is opened for an account. A new system would have the wallets of these seeds and of this
  disk. -/
  | opening (account : Account) (session : Session) (seeds : List Currency) (disk : Disk)
  | closing
  | command (c : MemorySystem.Command)
  /-- A job has ended. -/
  | ending
  | callback (c : Callback)
  /-- Its task runs, with these enabled and managed ids to follow. -/
  | task (p : Provider) (t : Tracker)

/-- The system was just created, and told that no currency is in use. -/
def New (config : Config) (account : Account) (seeds : List Currency) (disk : Disk) (s : MemorySystem) :
    Prop :=
  ∃ made, MemorySystem.create ⟨account, config.mainnet, config.storageDirectory⟩ seeds disk = .ok made ∧
    s = made.system.configure []

/-- One thing that happens to a hub. -/
inductive Change (h : Hub MemorySystem) : Cause → Hub MemorySystem → Prop where
  /-- It is opened, with the system that it has or with a new one. -/
  | launch {account : Account} {seeds : List Currency} {disk : Disk} (session : Session) (s : MemorySystem)
      (closed : h.isOpen = false)
      (kept : h.handle = some s ∨ h.handle = none ∧ New h.config account seeds disk s) :
      Change h (.opening account session seeds disk) (h.launch session s)
  /-- A new system is kept although it is for another account. -/
  | hold {account : Account} {session : Session} {seeds : List Currency} {disk : Disk} (s : MemorySystem)
      (closed : h.isOpen = false) (bare : h.handle = none) (new : New h.config account seeds disk s) :
      Change h (.opening account session seeds disk) { h with handle := some s }
  /-- It is closed. -/
  | close (s : MemorySystem) (isOpen : h.isOpen = true) (kept : h.handle = some s) :
      Change h .closing { h.cancelled with handle := some s.disconnect }
  /-- It is closed although it has no system. -/
  | closeBare (isOpen : h.isOpen = true) (bare : h.handle = none) :
      Change h .closing h.cancelled
  /-- A command is run on its system. -/
  | command (s s' : MemorySystem) (now : Instant) (c : MemorySystem.Command) (kept : h.handle = some s)
      (run : MemorySystem.run now c s = .ok s') : Change h (.command c) { h with handle := some s' }
  /-- The oldest job has ended. -/
  | finish (s : MemorySystem) (jobs : List Job) (kept : h.handle = some s) (queue : s.queue = [] :: jobs) :
      Change h .ending { h with handle := some { s with queue := jobs } }
  /-- A callback is delivered. -/
  | deliver (s : MemorySystem) (callback : Callback) (job : Job) (jobs : List Job) (kept : h.handle = some s)
      (queue : s.queue = (callback :: job) :: jobs) :
      Change h (.callback callback)
        (receive callback { h with handle := some { s with queue := job :: jobs } })
  /-- Its task runs. -/
  | task (p : Provider) (t : Tracker) : Change h (.task p t) (h.runSession p t).1

/-! ### New systems -/

section New

variable {config : Config} {account : Account} {seeds : List Currency} {disk : Disk} {s : MemorySystem}

/-- A new system has the stored wallets and then those of the seeds, and waits for nothing. -/
theorem New.fields (h : New config account seeds disk s) :
    ∃ stored log, StoredWallets.load (StoredWallets.file config.storageDirectory) account.uid disk =
      .ok (stored, log) ∧ s.wallets = seeds.foldl MemorySystem.seed stored ∧ s.queue = [] := by
  obtain ⟨made, hmade, rfl⟩ := h
  obtain ⟨stored, log, hload, hsystem⟩ := MemorySystem.exists_load_of_create hmade
  refine ⟨stored, log, hload, ?_, ?_⟩
  all_goals
    rw [hsystem]
    rfl

theorem New.queue (h : New config account seeds disk s) : s.queue = [] := by
  obtain ⟨-, -, -, -, hqueue⟩ := h.fields
  exact hqueue

end New

/-! ### Opening and closing -/

theorem new_of_createSystem {account : Account} {config : Config} {e e' : Surroundings MemoryFactory}
    {s : MemorySystem} (h : createSystem account config e = (.ok s, e')) :
    New config account e.factory.seeds e.disk s := by
  cases hfailure : e.factory.failure with
  | some message => simp [createSystem, SystemFactory.create, hfailure] at h
  | none =>
    cases hmade : MemorySystem.create ⟨account, config.mainnet, config.storageDirectory⟩ e.factory.seeds
        e.disk with
    | error cause => simp [createSystem, SystemFactory.create, hfailure, hmade] at h
    | ok made =>
      simp only [createSystem, SystemFactory.create, hfailure, hmade] at h
      obtain ⟨hs, -⟩ := Prod.mk.inj h
      exact ⟨made, hmade, (Except.ok.inj hs).symm⟩

/-- A system that is obtained is the one that the hub has, or a new one. -/
theorem kept_of_obtain {account : Account} {h : Hub MemorySystem} {e e' : Surroundings MemoryFactory}
    {s : MemorySystem} (ho : h.obtain account e = (.ok s, e')) :
    h.handle = some s ∨ h.handle = none ∧ New h.config account e.factory.seeds e.disk s := by
  rcases obtain_cases ho with ⟨hkept, -⟩ | ⟨hbare, hmade⟩
  · exact Or.inl hkept
  · exact Or.inr ⟨hbare, new_of_createSystem hmade⟩

/-- An opening changes the hub only by launching it or by keeping a new system. -/
theorem change_of_openFor (account : Account) (session : Session) (h : Hub MemorySystem)
    (e : Surroundings MemoryFactory) :
    (h.openFor account session e).2.1 = h ∨
      Change h (.opening account session e.factory.seeds (e.ensureDirectory h.config.storageDirectory).2.disk)
        (h.openFor account session e).2.1 := by
  have hend := opening_openFor account session h e
  generalize (h.openFor account session e).1 = answer at hend
  generalize (h.openFor account session e).2.1 = h' at hend ⊢
  generalize (h.openFor account session e).2.2 = e' at hend
  cases hend with
  | alreadyOpen | emptyAccount | noDirectory | notObtained => exact Or.inl rfl
  | mismatch closed _ directory obtained _ =>
    obtain ⟨disk, rfl⟩ := Surroundings.eq_of_ensureDirectory directory
    rw [directory]
    rcases kept_of_obtain obtained with hkept | ⟨hbare, hnew⟩
    · exact Or.inl (by rw [← hkept])
    · exact Or.inr (.hold _ closed hbare hnew)
  | launched closed _ directory obtained _ =>
    obtain ⟨disk, rfl⟩ := Surroundings.eq_of_ensureDirectory directory
    rw [directory]
    exact Or.inr (.launch session _ closed (kept_of_obtain obtained))

/-- A closing that is answered closes the hub and disconnects its system. -/
theorem change_of_close (h : Hub MemorySystem) (e : Surroundings MemoryFactory) :
    (h.close e).2.1 = h ∨ Change h .closing (h.close e).2.1 := by
  cases hopen : h.isOpen with
  | false => exact Or.inl (by simp only [Hub.close, hopen, Bool.false_eq_true, if_false])
  | true =>
    right
    cases hhandle : h.handle with
    | none =>
      have hval : (h.close e).2.1 = h.cancelled := by
        simp only [Hub.close, hopen, hhandle, if_true]
      rw [hval]
      exact .closeBare hopen hhandle
    | some s =>
      simp only [Hub.close, hopen, hhandle, if_true]
      exact .close s hopen hhandle

end Hub

end WalletHub
