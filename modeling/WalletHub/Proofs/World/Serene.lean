import WalletHub.Proofs.World.Around

/-!
# What breaking off leaves behind

Something that breaks off leaves three things behind: a trap that is set or was sprung, a task that follows
nothing any more, and the record of an error. `World.serene` takes them out of a world. Nothing that the user
does looks at any of them, so that every action does the same in the serene world, with the same answer
(`World.act_serene`), and no action logs an error (`World.errors_act`).

## What is proved

* `Hub.openFor_serene`, `Hub.close_serene`: openings and closings do the same for the serene hub.
* `World.view_serene`: a subscription sees the same, and so `World.next_serene` and `World.drain_serene`.
* `World.runCommand_serene`, `World.createLoose_serene`: commands and creations of systems do the same.
* `World.act_serene`: every action does the same, with the same answer, unless it sets a trap.
* `errors_load`, `errors_store`, `World.errors_act`: what is logged by actions are warnings.
-/

namespace WalletHub

/-! ### Errors in the log -/

/-- The record tells of something that broke off. -/
def LogEntry.isError (entry : LogEntry) : Bool := entry.level = .error

/-- The records of what broke off. -/
def errors (log : List LogEntry) : List LogEntry := log.filter LogEntry.isError

/-- The other records. -/
def warnings (log : List LogEntry) : List LogEntry := log.filter fun entry => !entry.isError

theorem errors_append (log log' : List LogEntry) : errors (log ++ log') = errors log ++ errors log' :=
  List.filter_append log log'

theorem warnings_append (log log' : List LogEntry) : warnings (log ++ log') = warnings log ++ warnings log' :=
  List.filter_append log log'

/-- A log without errors has nothing but warnings. -/
theorem warnings_of_errors {log : List LogEntry} (h : errors log = []) : warnings log = log := by
  apply List.filter_eq_self.mpr
  intro entry hentry
  have hnone := List.filter_eq_nil_iff.mp h entry hentry
  rw [Bool.eq_false_iff.mpr hnone, Bool.not_false]

namespace MemorySystem

/-- To load wallets may call for a warning, and for no error. -/
theorem errors_load {file uid : String} {d : Disk} {stored : List Wallet} {log : List LogEntry}
    (h : StoredWallets.load file uid d = .ok (stored, log)) : errors log = [] := by
  unfold StoredWallets.load at h
  split at h
  · split at h
    · exact nomatch h
    · split at h
      · exact nomatch h
      · split at h
        · obtain ⟨-, rfl⟩ := Prod.mk.inj (Except.ok.inj h)
          rfl
        · obtain ⟨-, rfl⟩ := Prod.mk.inj (Except.ok.inj h)
          rfl
  · obtain ⟨-, rfl⟩ := Prod.mk.inj (Except.ok.inj h)
    rfl

theorem errors_create {params : SystemParams} {d : Disk} {f f' : MemoryFactory} {made : Created MemorySystem}
    (h : SystemFactory.create params d f = (.ok made, f')) : errors made.log = [] := by
  simp only [SystemFactory.create] at h
  split at h
  · exact nomatch h
  · split at h
    · next made' hmade =>
      obtain ⟨hsame, -⟩ := Prod.mk.inj h
      obtain rfl := Except.ok.inj hsame
      simp only [create] at hmade
      split at hmade
      · exact nomatch hmade
      · next stored log hload =>
        obtain rfl := Except.ok.inj hmade
        exact errors_load hload
    · exact nomatch h

/-- To store wallets may call for a warning, and for no error. -/
theorem errors_store (d : Disk) (s : MemorySystem) : errors (s.store d).2 = [] := by
  unfold store
  split <;> rfl

end MemorySystem

/-! ### Openings and closings -/

/-- The errand without what would make its monitor break off. -/
def Errand.serene (k : Errand) : Errand := { k with fuse := none }

/-- The task as it is if its monitor does not break off. One that has broken off waits instead. -/
def Session.serene : Session → Session
  | .following m _ => .following m none
  | .busy k => .busy k.serene
  | .broken m => .following m none

/-- The hub with tasks that do not break off. -/
def Hub.serene {σ : Type} (h : Hub σ) : Hub σ :=
  { h with session := h.session.map Session.serene, leaving := h.leaving.map Errand.serene }

namespace Surroundings

/-- The surroundings without a record of what broke off. -/
def serene {φ : Type} (e : Surroundings φ) : Surroundings φ := { e with log := warnings e.log }

variable (e : Surroundings MemoryFactory)

theorem report_serene {log : List LogEntry} (h : errors log = []) :
    e.serene.report log = (e.report log).serene := by
  simp only [serene, report, warnings_append, warnings_of_errors h]

theorem ensureDirectory_serene (path : String) :
    e.serene.ensureDirectory path = ((e.ensureDirectory path).1, (e.ensureDirectory path).2.serene) := by
  have hdisk : e.serene.disk = e.disk := rfl
  unfold ensureDirectory
  rw [hdisk]
  split
  · rfl
  · split <;> rfl

end Surroundings

namespace Hub

variable (h : Hub MemorySystem) (e : Surroundings MemoryFactory)

theorem createSystem_serene (account : Account) (config : Config) :
    createSystem account config e.serene =
      ((createSystem account config e).1, (createSystem account config e).2.serene) := by
  have hdisk : e.serene.disk = e.disk := rfl
  have hfactory : e.serene.factory = e.factory := rfl
  unfold createSystem
  rw [hdisk, hfactory]
  split
  · rfl
  · next made factory hmade =>
    have hreport := Surroundings.report_serene { e with factory := factory } (MemorySystem.errors_create hmade)
    exact congrArg (fun e' : Surroundings MemoryFactory =>
      (Except.ok (WalletSystem.configure [] made.system), (e'.called _).called (.configure 0))) hreport

theorem errors_createSystem (account : Account) (config : Config) :
    errors (createSystem account config e).2.log = errors e.log := by
  unfold createSystem
  split
  · rfl
  · next made factory hmade =>
    show errors (e.log ++ made.log) = _
    rw [errors_append, MemorySystem.errors_create hmade, List.append_nil]

theorem obtain_serene (account : Account) :
    h.serene.obtain account e.serene = ((h.obtain account e).1, (h.obtain account e).2.serene) := by
  have hhandle : h.serene.handle = h.handle := rfl
  have hconfig : h.serene.config = h.config := rfl
  unfold Hub.obtain
  rw [hhandle, hconfig]
  split
  · rfl
  · exact createSystem_serene e account h.config

theorem errors_obtain (account : Account) : errors (h.obtain account e).2.log = errors e.log := by
  unfold Hub.obtain
  split
  · rfl
  · exact errors_createSystem e account h.config

/-- An opening looks neither at the log nor at the task. -/
theorem openFor_serene (account : Account) (session : Session) :
    h.serene.openFor account session.serene e.serene =
      ((h.openFor account session e).1, (h.openFor account session e).2.1.serene,
        (h.openFor account session e).2.2.serene) := by
  have hopen : h.serene.isOpen = h.isOpen := rfl
  have hconfig : h.serene.config = h.config := rfl
  unfold openFor
  rw [hopen, hconfig, Surroundings.ensureDirectory_serene]
  split
  · rfl
  · split
    · rfl
    · obtain ⟨made, e₁, hdir⟩ : ∃ made e₁, e.ensureDirectory h.config.storageDirectory = (made, e₁) := ⟨_, _, rfl⟩
      rw [hdir]
      cases made with
      | false => rfl
      | true =>
        simp only [obtain_serene]
        obtain ⟨result, e₂, hobtain⟩ : ∃ result e₂, h.obtain account e₁ = (result, e₂) := ⟨_, _, rfl⟩
        rw [hobtain]
        cases result with
        | error cause => rfl
        | ok s =>
          simp only []
          split <;> rfl

theorem errors_openFor (account : Account) (session : Session) :
    errors (h.openFor account session e).2.2.log = errors e.log := by
  have hend := opening_openFor account session h e
  generalize (h.openFor account session e).1 = answer at hend
  generalize (h.openFor account session e).2.1 = h' at hend
  generalize (h.openFor account session e).2.2 = e' at hend ⊢
  have hdirectory {made : Bool} {e₁ : Surroundings MemoryFactory}
      (directory : e.ensureDirectory h.config.storageDirectory = (made, e₁)) : e₁.log = e.log := by
    obtain ⟨disk, rfl⟩ := Surroundings.eq_of_ensureDirectory directory
    rfl
  have hobtained {e₁ e₂ : Surroundings MemoryFactory} {result : Except RuntimeError MemorySystem}
      (obtained : h.obtain account e₁ = (result, e₂)) : errors e₂.log = errors e₁.log := by
    rw [← h.errors_obtain e₁ account, obtained]
  cases hend with
  | alreadyOpen | emptyAccount => rfl
  | noDirectory _ _ failed => rw [hdirectory failed]
  | notObtained _ _ directory failed => rw [hobtained failed, hdirectory directory]
  | mismatch _ _ directory obtained => rw [hobtained obtained, hdirectory directory]
  | launched _ _ directory obtained => exact (hobtained obtained).trans (congrArg errors (hdirectory directory))

omit e in
theorem errand_serene : h.serene.errand? = h.errand?.map Errand.serene := by
  have hsession : h.serene.session = h.session.map Session.serene := rfl
  unfold errand?
  rw [hsession]
  cases h.session with
  | none => rfl
  | some session => cases session <;> rfl

omit e in
theorem cancelled_serene : h.serene.cancelled = h.cancelled.serene := by
  have hleaving : h.leaving.map Errand.serene ++ h.serene.errand?.toList =
      (h.leaving ++ h.errand?.toList).map Errand.serene := by
    rw [errand_serene, List.map_append]
    cases h.errand? <;> rfl
  exact congrArg (fun leaving => { h.serene with isOpen := false, session := none, leaving := leaving }) hleaving

theorem close_serene : h.serene.close e.serene =
    ((h.close e).1, (h.close e).2.1.serene, (h.close e).2.2.serene) := by
  have hopen : h.serene.isOpen = h.isOpen := rfl
  have hhandle : h.serene.handle = h.handle := rfl
  unfold close
  rw [hopen, hhandle]
  split
  · cases h.handle with
    | none => exact congrArg (fun h' => (Except.ok (), h', e.serene)) h.cancelled_serene
    | some s =>
      have herrors : errors (WalletSystem.disconnect e.disk s).log = [] := MemorySystem.errors_store e.disk _
      have hreport := Surroundings.report_serene { e with disk := (WalletSystem.disconnect e.disk s).disk } herrors
      simp only [cancelled_serene]
      exact congrArg (fun e' : Surroundings MemoryFactory =>
        (Except.ok (), { h.cancelled.serene with handle := some (WalletSystem.disconnect e.disk s).system },
          e'.called .disconnect)) hreport
  · rfl

theorem errors_close : errors (h.close e).2.2.log = errors e.log := by
  unfold close
  split
  · cases h.handle with
    | none => rfl
    | some s =>
      have herrors : errors (WalletSystem.disconnect e.disk s).log = [] := MemorySystem.errors_store e.disk _
      show errors (e.log ++ (WalletSystem.disconnect e.disk s).log) = _
      rw [errors_append, herrors, List.append_nil]
  · rfl

end Hub

/-! ### Actions -/

namespace World

/-- The world without what breaking off leaves behind. -/
def serene (w : MemoryWorld) : MemoryWorld :=
  { w with surroundings := w.surroundings.serene, hub := w.hub.map Hub.serene, trap := none }

variable (w : MemoryWorld)

theorem report_serene {log : List LogEntry} (h : errors log = []) : w.serene.report log = (w.report log).serene :=
  congrArg (fun e : Surroundings MemoryFactory => { w.serene with surroundings := e })
    (w.surroundings.report_serene h)

theorem onDisk_serene (f : Disk → Disk) : w.serene.onDisk f = (w.onDisk f).serene := rfl

theorem handle_serene : w.serene.hub.bind Hub.handle = w.hub.bind Hub.handle := by
  show (w.hub.map Hub.serene).bind Hub.handle = _
  cases w.hub <;> rfl

theorem lastSystem_serene : w.serene.lastSystem = w.lastSystem := by
  simp only [lastSystem, handle_serene]
  rfl

theorem setSystem_serene (s : MemorySystem) : w.serene.setSystem s = (w.setSystem s).serene := by
  cases hnone : w.hub.bind Hub.handle with
  | none =>
    rw [setSystem_of_loose hnone, setSystem_of_loose ((handle_serene w).trans hnone)]
    rfl
  | some last =>
    obtain ⟨h, hhub, hhandle⟩ := Option.bind_eq_some_iff.mp hnone
    have hhub' : w.serene.hub = some h.serene := congrArg (Option.map Hub.serene) hhub
    rw [setSystem_of_handle hhub hhandle, setSystem_of_handle hhub' hhandle]
    rfl

theorem setMemorySystem_serene (s : MemorySystem) :
    w.serene.setMemorySystem s = (w.setMemorySystem s).serene := by
  simp only [setMemorySystem, lastSystem_serene]
  split
  · exact setSystem_serene w _
  · rfl

theorem memorySystem?_serene : w.serene.memorySystem? = w.memorySystem? := by
  simp only [memorySystem?, lastSystem_serene]

theorem view_serene (name : String) (s : Subscriber) : w.serene.view name s = w.view name s := by
  have hhub : w.serene.hub = w.hub.map Hub.serene := rfl
  unfold view
  split
  · rfl
  · rw [hhub]
    cases w.hub <;> rfl

theorem nextSession_serene : w.serene.nextSession = w.nextSession.serene := rfl

theorem monitorTaken_serene : w.serene.monitorTaken = w.monitorTaken.serene := by
  show w.serene = _
  unfold monitorTaken
  split <;> rfl

theorem openFor_serene (account : Account) :
    w.serene.openFor account = ((w.openFor account).1, (w.openFor account).2.serene) := by
  cases hhub : w.hub with
  | none =>
    have hhub' : w.serene.hub = none := congrArg (Option.map Hub.serene) hhub
    simp only [openFor, hhub, hhub']
  | some h =>
    have hhub' : w.serene.hub = some h.serene := congrArg (Option.map Hub.serene) hhub
    have hopen := h.openFor_serene w.surroundings account w.nextSession
    have hsurroundings : w.surroundings.serene = w.serene.surroundings := rfl
    rw [← nextSession_serene, hsurroundings] at hopen
    obtain ⟨answer, h', e', hresult⟩ : ∃ answer h' e',
        h.openFor account w.nextSession w.surroundings = (answer, h', e') := ⟨_, _, _, rfl⟩
    rw [hresult] at hopen
    simp only [openFor, hhub, hhub', hopen, hresult]
    cases answer with
    | error error => rfl
    | ok done => exact congrArg (Prod.mk _) (monitorTaken_serene { w with hub := some h', surroundings := e' })

theorem close_serene : w.serene.close = (w.close.1, w.close.2.serene) := by
  cases hhub : w.hub with
  | none =>
    have hhub' : w.serene.hub = none := congrArg (Option.map Hub.serene) hhub
    simp only [close, hhub, hhub']
  | some h =>
    have hhub' : w.serene.hub = some h.serene := congrArg (Option.map Hub.serene) hhub
    have hclose : h.serene.close w.serene.surroundings = _ := h.close_serene w.surroundings
    simp only [close, hhub, hhub', hclose]
    rfl

theorem dropHub_serene : w.serene.dropHub = w.dropHub.serene := by
  have hhub : w.serene.hub = w.hub.map Hub.serene := rfl
  unfold dropHub
  rw [hhub]
  cases hub : w.hub with
  | none => rfl
  | some h => rfl

theorem subscribe_serene (name : String) (topic : Topic) :
    w.serene.subscribe name topic = (w.subscribe name topic).map serene := by
  have hhub : w.serene.hub = w.hub.map Hub.serene := rfl
  unfold subscribe
  rw [hhub]
  cases hub : w.hub with
  | none =>
    simp only [Option.map_none]
    split
    · rfl
    · simp only [Option.map_some, serene, hub, Option.map_none]
  | some h =>
    simp only [Option.map_some, serene, hub]
    rfl

theorem next_serene (name : String) : w.serene.next name = ((w.next name).1, (w.next name).2.serene) := by
  have hsubs : w.serene.subscribers = w.subscribers := rfl
  simp only [next, hsubs, view_serene]
  split <;> rfl

theorem drain_serene (name : String) (count : Nat) :
    w.serene.drain name count = ((w.drain name count).1, (w.drain name count).2.serene) := by
  have hsubs : w.serene.subscribers = w.subscribers := rfl
  simp only [drain, hsubs, view_serene]
  split <;> rfl

theorem createLoose_serene (account : Account) (recorded : Bool) :
    w.serene.createLoose account recorded =
      ((w.createLoose account recorded).1, (w.createLoose account recorded).2.serene) := by
  have hdisk : w.serene.surroundings.disk = w.surroundings.disk := rfl
  have hfactory : w.serene.surroundings.factory = w.surroundings.factory := rfl
  have hconfig : w.serene.config = w.config := rfl
  simp only [createLoose, hdisk, hfactory, hconfig]
  split
  · rfl
  · next made factory hmade =>
    have hreport := Surroundings.report_serene { w.surroundings with factory := factory }
      (MemorySystem.errors_create hmade)
    exact congrArg (fun e : Surroundings MemoryFactory =>
      (Except.ok (), { w.serene with surroundings := e, loose := some ⟨made.system, recorded⟩ })) hreport

theorem runCommand_serene (c : MemorySystem.Command) :
    w.serene.runCommand c = ((w.runCommand c).1, (w.runCommand c).2.serene) := by
  have hwall : w.serene.wall = w.wall := rfl
  cases hs : w.memorySystem? with
  | none => simp only [runCommand_eq, memorySystem?_serene, hs]
  | some s =>
    cases c with
    | disconnect =>
      have hdisk : w.serene.surroundings.disk = w.surroundings.disk := rfl
      have herrors : errors (WalletSystem.disconnect w.surroundings.disk s).log = [] :=
        MemorySystem.errors_store _ _
      simp only [runCommand_eq, memorySystem?_serene, hs, hdisk, setMemorySystem_serene, onDisk_serene]
      exact congrArg (Prod.mk _) (report_serene _ herrors)
    | addWallet currency =>
      simp only [runCommand_eq, memorySystem?_serene, hs, setMemorySystem_serene]
    | _ =>
      simp only [runCommand_eq, memorySystem?_serene, hs, hwall]
      split
      · exact congrArg (Prod.mk _) (setMemorySystem_serene { w with wall := w.wall.later 1 } _)
      · rfl

/-- **Every action does the same in the serene world**, with the same answer. -/
theorem act_serene {a : Action} (unarmed : ∀ trap, a ≠ .arm trap) (untold : ∀ c, a ≠ .deliver c true) :
    w.serene.act a = ((w.act a).1, (w.act a).2.serene) := by
  have hask (f : Hub MemorySystem → Reply) (h : ∀ h, f h.serene = f h) : w.serene.askHub f = w.askHub f := by
    have hhub : w.serene.hub = w.hub.map Hub.serene := rfl
    unfold askHub
    rw [hhub]
    cases w.hub with
    | none => rfl
    | some hub => exact h hub
  have hmemory (f : MemorySystem → Reply) : w.serene.askMemory f = w.askMemory f := by
    simp only [askMemory, memorySystem?_serene]
  cases a with
  | arm trap => exact absurd rfl (unarmed trap)
  | deliver c trackerOnly =>
    cases trackerOnly with
    | true => exact absurd rfl (untold c)
    | false => rfl
  | openHub account => simp only [act, openFor_serene]
  | closeHub => simp only [act, close_serene]
  | askOpen | askSystem | askConfig => exact congrArg (Prod.mk · w.serene) (hask _ fun _ => rfl)
  | dropHub => simp only [act, dropHub_serene]
  | restart config =>
    simp only [act, restart, dropHub_serene]
    rfl
  | subscribe name topic =>
    simp only [act, subscribe_serene]
    cases w.subscribe name topic <;> rfl
  | next name =>
    obtain ⟨answer, w', hnext⟩ : ∃ answer w', w.next name = (answer, w') := ⟨_, _, rfl⟩
    simp only [act, next_serene, hnext]
    cases answer <;> rfl
  | drain name =>
    obtain ⟨answer, w', hdrain⟩ : ∃ answer w', w.drain name drainLimit = (answer, w') := ⟨_, _, rfl⟩
    simp only [act, drain_serene, hdrain]
    cases answer <;> rfl
  | create account recorded =>
    obtain ⟨answer, w', hcreate⟩ : ∃ answer w', w.createLoose account recorded = (answer, w') := ⟨_, _, rfl⟩
    simp only [act, createLoose_serene, hcreate]
    cases answer <;> rfl
  | command c => exact runCommand_serene w c
  | askNetworks | askConfigured | askSnapshot | askCounts | askStorageFile =>
    exact congrArg (Prod.mk · w.serene) (hmemory _)
  | setWallets wallets =>
    have hfactory : w.serene.onFactory (Steering.showNext wallets) =
        (w.onFactory (Steering.showNext wallets)).serene := rfl
    simp only [act, hfactory, lastSystem_serene]
    split
    · rw [setSystem_serene]
    · rfl
  | _ => rfl

/-- **No action logs an error.** -/
theorem errors_act (a : Action) : errors (w.act a).2.surroundings.log = errors w.surroundings.log := by
  have hend := w.handling_act a
  generalize (w.act a).2.surroundings = e at hend ⊢
  cases hend with
  | steered | touched => rfl
  | opening account hub => exact Hub.errors_openFor _ _ account _
  | closing hub => exact Hub.errors_close _ _
  | stored last =>
    show errors (w.surroundings.log ++ _) = _
    rw [errors_append, MemorySystem.errors_store, List.append_nil]
  | created account recorded created =>
    show errors (w.surroundings.log ++ _) = _
    rw [errors_append, MemorySystem.errors_create created, List.append_nil]

end World

end WalletHub
