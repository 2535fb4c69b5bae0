import WalletHub.Proofs.Hub.Opening
import WalletHub.Proofs.Memory.Commands
import WalletHub.Scripted

/-!
# Opening and closing, against a reference model

The reference model `Gate` knows of a hub only whether it is open and the bytes of the account that
its system belongs to. Of what is around the hub it asks two things at an opening (`Outlook`): whether
the storage directory is there or can be made, and what the factory would come to.

A `Lifecycle` is any sequence of openings and closings, with callbacks, runs of the task, commands on
the system and changes around the hub between them. The factory may fail, and its systems may belong
to another account than the one they were asked for. `Lifecycle.refines` says that every answer is the
one of the model, and that there is one system at most, created, configured, connected and
disconnected as often as the answers tell.

## The model of a system

Of a system it is only used that some mark of it never changes, and that its account is part of this
mark (`Steady`). A system is the connection for exactly one account.
-/

namespace WalletHub

/-! ### The reference model -/

/-- The state of the reference model. -/
structure Gate where
  isOpen : Bool
  /-- The bytes of the account that the hub is bound to. -/
  bound : Option (List UInt8)
  deriving DecidableEq, Repr

/-- What an opening would meet outside of the hub. -/
structure Outlook where
  /-- The storage directory is there or can be made. -/
  usable : Bool
  /-- The bytes of the account of the system that the factory would create, or the cause of its
  failure. -/
  made : Except RuntimeError (List UInt8)

/-- What a hub is asked to do. -/
inductive Request where
  | openFor (bytes : List UInt8) (outlook : Outlook)
  | close

namespace Gate

/-- Neither open nor bound. -/
def shut : Gate := ⟨false, none⟩

/-- Opens for an account with these bytes, where the hub is bound to `own`. -/
def check (own bytes : List UInt8) : Except HubError Unit × Gate :=
  if own = bytes then (.ok (), ⟨true, some own⟩) else (.error .accountMismatch, ⟨false, some own⟩)

/-- Opens for an account with these bytes. -/
def openFor (directory : String) (bytes : List UInt8) (o : Outlook) (g : Gate) :
    Except HubError Unit × Gate :=
  if g.isOpen then (.error .alreadyOpen, g)
  else if bytes = [] then (.error .emptyAccount, g)
  else if o.usable then
    match g.bound with
    | some own => check own bytes
    | none => match o.made with
      | .ok own => check own bytes
      | .error cause => (.error (.systemCreation cause), g)
  else (.error (.storageDirectory directory Disk.faultMark), g)

/-- Closes. -/
def close (g : Gate) : Except HubError Unit × Gate :=
  if g.isOpen then (.ok (), { g with isOpen := false }) else (.error .notOpen, g)

/-- Answers a request. -/
def answer (directory : String) (g : Gate) : Request → Except HubError Unit × Gate
  | .openFor bytes o => g.openFor directory bytes o
  | .close => g.close

/-- Answers one request after the other. -/
def play (directory : String) (g : Gate) : List Request → List (Except HubError Unit) × Gate
  | [] => ([], g)
  | request :: requests =>
    let (first, g) := g.answer directory request
    let (answers, g) := play directory g requests
    (first :: answers, g)

theorem play_append (directory : String) (g : Gate) (as bs : List Request) :
    g.play directory (as ++ bs) =
      ((g.play directory as).1 ++ ((g.play directory as).2.play directory bs).1,
        ((g.play directory as).2.play directory bs).2) := by
  induction as generalizing g with
  | nil => rfl
  | cons a as ih => simp [play, ih]

end Gate

/-! ### Lifecycles -/

/-- A hub and what is around it. -/
structure Situation (φ σ : Type) where
  hub : Hub σ
  around : Surroundings φ

variable {φ σ ι : Type} [WalletSystem σ] [SystemFactory φ σ]

namespace Situation

/-- What an opening for an account would meet. -/
def outlook (account : Account) (sit : Situation φ σ) : Outlook :=
  let directory := sit.hub.config.storageDirectory
  let e := (sit.around.ensureDirectory directory).2
  ⟨sit.around.disk.exists? directory || (sit.around.disk.makeDirectories directory).isOk,
    (SystemFactory.create ⟨account, sit.hub.config.mainnet, directory⟩ e.disk e.factory).1.map
      fun made => (WalletSystem.account made.system).serialized⟩

/-- What the reference model knows of it. -/
def gate (sit : Situation φ σ) : Gate :=
  ⟨sit.hub.isOpen, sit.hub.handle.map fun s => (WalletSystem.account s).serialized⟩

end Situation

/-- Nothing that a hub asks of its system changes the mark, and the account is part of the mark. -/
structure Steady (mark : σ → ι) : Prop where
  account {s s' : σ} : mark s = mark s' → WalletSystem.account s = WalletSystem.account s'
  configure (currencies : List Currency) (s : σ) : mark (WalletSystem.configure currencies s) = mark s
  connect (s : σ) : mark (WalletSystem.connect s) = mark s
  disconnect (d : Disk) (s : σ) : mark (WalletSystem.disconnect d s).system = mark s

/-- What can happen to a hub from `first` on, with the requests made and the answers to them. -/
inductive Lifecycle (mark : σ → ι) (first : Situation φ σ) :
    List (Request × Except HubError Unit) → Situation φ σ → Prop where
  | start : Lifecycle mark first [] first
  | openFor {past : List (Request × Except HubError Unit)} {sit : Situation φ σ}
      (run : Lifecycle mark first past sit) (account : Account) (session : Session)
      {answer : Except HubError Unit} {h : Hub σ} {e : Surroundings φ}
      (opened : sit.hub.openFor account session sit.around = (answer, h, e)) :
      Lifecycle mark first (past ++ [(.openFor account.serialized (sit.outlook account), answer)]) ⟨h, e⟩
  | close {past : List (Request × Except HubError Unit)} {sit : Situation φ σ}
      (run : Lifecycle mark first past sit) {answer : Except HubError Unit} {h : Hub σ} {e : Surroundings φ}
      (closed : sit.hub.close sit.around = (answer, h, e)) :
      Lifecycle mark first (past ++ [(.close, answer)]) ⟨h, e⟩
  /-- A callback is delivered. -/
  | receive {past : List (Request × Except HubError Unit)} {sit : Situation φ σ}
      (run : Lifecycle mark first past sit) (callback : Callback) :
      Lifecycle mark first past ⟨sit.hub.receive callback, sit.around⟩
  /-- The task runs. -/
  | task {past : List (Request × Except HubError Unit)} {sit : Situation φ σ}
      (run : Lifecycle mark first past sit) (p : Provider) (t : Tracker) :
      Lifecycle mark first past ⟨(sit.hub.runSession p t).1, sit.around⟩
  /-- The system is changed from outside, by a command or by taking a job out of its queue. -/
  | command {past : List (Request × Except HubError Unit)} {sit : Situation φ σ}
      (run : Lifecycle mark first past sit) (change : σ → σ) (same : ∀ s, mark (change s) = mark s) :
      Lifecycle mark first past ⟨{ sit.hub with handle := sit.hub.handle.map change }, sit.around⟩
  /-- The disk, the factory and the log change in any way. -/
  | outside {past : List (Request × Except HubError Unit)} {sit : Situation φ σ}
      (run : Lifecycle mark first past sit) (e : Surroundings φ) (calls : e.calls = sit.around.calls) :
      Lifecycle mark first past ⟨sit.hub, e⟩

/-! ### What is around an opening -/

namespace Surroundings

/-- The storage directory is usable if it is there or can be made, and nothing else is touched. -/
theorem ensureDirectory_eq (path : String) (e : Surroundings φ) :
    (e.ensureDirectory path).1 = (e.disk.exists? path || (e.disk.makeDirectories path).isOk) ∧
      (e.ensureDirectory path).2.calls = e.calls ∧ (e.ensureDirectory path).2.factory = e.factory := by
  unfold ensureDirectory
  cases hexists : e.disk.exists? path with
  | true => exact ⟨by simp, rfl, rfl⟩
  | false =>
    cases hmake : e.disk.makeDirectories path with
    | ok d => simp [Except.isOk, Except.toBool]
    | error d => simp [Except.isOk, Except.toBool]

end Surroundings

namespace Hub

/-- Where no system can be obtained the hub has none and the factory has failed. -/
theorem obtain_error {account : Account} {h : Hub σ} {e e' : Surroundings φ} {cause : RuntimeError}
    (ho : h.obtain account e = (.error cause, e')) :
    h.handle = none ∧ e'.calls = e.calls ∧
      (SystemFactory.create ⟨account, h.config.mainnet, h.config.storageDirectory⟩ e.disk e.factory).1 =
        .error cause := by
  unfold Hub.obtain at ho
  cases hhandle : h.handle with
  | some s => simp [hhandle] at ho
  | none =>
    rw [hhandle] at ho
    cases hcreate : SystemFactory.create (σ := σ) ⟨account, h.config.mainnet, h.config.storageDirectory⟩
        e.disk e.factory with
    | mk result factory =>
      simp only [createSystem, hcreate] at ho
      cases result with
      | ok made => exact nomatch congrArg Prod.fst ho
      | error cause' =>
        injection ho with hc he
        obtain rfl := Except.error.inj hc
        exact ⟨rfl, by rw [← he], rfl⟩

/-- A system that is obtained is the one that the hub has, or else one that the factory has created
and that was configured once. -/
theorem obtain_ok {account : Account} {h : Hub σ} {e e' : Surroundings φ} {s : σ}
    (ho : h.obtain account e = (.ok s, e')) :
    (h.handle = some s ∧ e' = e) ∨
      (h.handle = none ∧
        e'.calls = e.calls ++
          [.create account.uid h.config.mainnet h.config.storageDirectory, .configure 0] ∧
        ∃ made, (SystemFactory.create ⟨account, h.config.mainnet, h.config.storageDirectory⟩ e.disk
            e.factory).1 = .ok made ∧ s = WalletSystem.configure [] made.system) := by
  rcases obtain_cases ho with hkept | ⟨hbare, hmade⟩
  · exact Or.inl hkept
  · refine Or.inr ⟨hbare, ?_⟩
    cases hcreate : SystemFactory.create (σ := σ) ⟨account, h.config.mainnet, h.config.storageDirectory⟩
        e.disk e.factory with
    | mk result factory =>
      simp only [createSystem, hcreate] at hmade
      cases result with
      | error cause => exact nomatch congrArg Prod.fst hmade
      | ok made =>
        injection hmade with hs he
        refine ⟨?_, made, rfl, (Except.ok.inj hs).symm⟩
        rw [← he]
        simp [Surroundings.called, Surroundings.report]

end Hub

/-! ### Counting -/

/-- A system was created. -/
def Call.isCreate : Call → Bool
  | .create .. => true
  | _ => false

/-- A system was configured. -/
def Call.isConfigure : Call → Bool
  | .configure _ => true
  | _ => false

/-- The hub was opened. -/
def isOpened : Request × Except HubError Unit → Bool
  | (.openFor .., .ok ()) => true
  | _ => false

/-- The hub was closed. -/
def isClosed : Request × Except HubError Unit → Bool
  | (.close, .ok ()) => true
  | _ => false

/-- What holds of a hub with these settings after a lifecycle. -/
structure Accounted (config : Config) (past : List (Request × Except HubError Unit))
    (sit : Situation φ σ) : Prop where
  settings : sit.hub.config = config
  /-- The answers were those of the reference model, which is now where the hub is. -/
  played : Gate.shut.play config.storageDirectory (past.map Prod.fst) = (past.map Prod.snd, sit.gate)
  /-- One system was created if there is one, and none otherwise. -/
  creates : sit.around.calls.countP Call.isCreate = if sit.hub.handle.isSome then 1 else 0
  configures : sit.around.calls.countP Call.isConfigure = if sit.hub.handle.isSome then 1 else 0
  connects : sit.around.calls.count .connect = past.countP isOpened
  disconnects : sit.around.calls.count .disconnect = past.countP isClosed
  /-- The task runs while the hub is open. -/
  session : sit.hub.session.isSome = sit.hub.isOpen
  bound : sit.hub.isOpen = true → sit.hub.handle.isSome = true

namespace Accounted

variable {config : Config} {past : List (Request × Except HubError Unit)} {sit : Situation φ σ}

omit [SystemFactory φ σ] in
/-- One more answer of the reference model. -/
theorem play_snoc (h : Accounted config past sit) (request : Request) {answer : Except HubError Unit}
    {g : Gate} (hg : sit.gate.answer config.storageDirectory request = (answer, g)) :
    Gate.shut.play config.storageDirectory ((past ++ [(request, answer)]).map Prod.fst) =
      ((past ++ [(request, answer)]).map Prod.snd, g) := by
  rw [List.map_append, List.map_append, Gate.play_append, h.played]
  simp [Gate.play, hg]

omit [SystemFactory φ σ] in
/-- The same calls and answers, with another system of the same account in the same place. -/
theorem of_same (h : Accounted config past sit) {hub : Hub σ} {e : Surroundings φ}
    (hconfig : hub.config = sit.hub.config) (hopen : hub.isOpen = sit.hub.isOpen)
    (hhandle : hub.handle.map (fun s => (WalletSystem.account s).serialized) =
      sit.hub.handle.map fun s => (WalletSystem.account s).serialized)
    (hsession : hub.session.isSome = sit.hub.session.isSome) (hcalls : e.calls = sit.around.calls) :
    Accounted config past ⟨hub, e⟩ := by
  have hsome : hub.handle.isSome = sit.hub.handle.isSome := by
    have := congrArg Option.isSome hhandle
    simpa only [Option.isSome_map] using this
  refine ⟨hconfig.trans h.settings, ?_, ?_, ?_, ?_, ?_, ?_, ?_⟩
  · rw [h.played, Situation.gate, Situation.gate, hopen, hhandle]
  · rw [hcalls, hsome, h.creates]
  · rw [hcalls, hsome, h.configures]
  · rw [hcalls, h.connects]
  · rw [hcalls, h.disconnects]
  · rw [hsession, hopen, h.session]
  · rw [hopen, hsome]
    exact h.bound

omit [SystemFactory φ σ] in
/-- An opening that fails before a system is obtained changes nothing but the disk and the factory. -/
theorem of_refused (h : Accounted config past sit) (request : Request) (error : HubError)
    {e : Surroundings φ} (hcalls : e.calls = sit.around.calls)
    (hg : sit.gate.answer config.storageDirectory request = (.error error, sit.gate)) :
    Accounted config (past ++ [(request, .error error)]) ⟨sit.hub, e⟩ := by
  refine ⟨h.settings, ?_, ?_, ?_, ?_, ?_, h.session, h.bound⟩
  · exact h.play_snoc request hg
  · rw [hcalls, h.creates]
  · rw [hcalls, h.configures]
  · rw [hcalls, h.connects]
    cases request <;> simp [isOpened]
  · rw [hcalls, h.disconnects]
    cases request <;> simp [isClosed]

/-- Past the first checks the reference model goes by the account of the system that is obtained. -/
theorem answer_of_obtained {mark : σ → ι} (hm : Steady mark) (path : String) {account : Account}
    {e₁ e₂ : Surroundings φ} {s : σ} (closed : sit.hub.isOpen = false) (given : account.serialized ≠ [])
    (directory : sit.around.ensureDirectory sit.hub.config.storageDirectory = (true, e₁))
    (obtained : sit.hub.obtain account e₁ = (.ok s, e₂)) :
    sit.gate.answer path (.openFor account.serialized (sit.outlook account)) =
      Gate.check (WalletSystem.account s).serialized account.serialized := by
  obtain ⟨husable, -, -⟩ := Surroundings.ensureDirectory_eq sit.hub.config.storageDirectory sit.around
  rw [directory] at husable
  rcases Hub.obtain_ok obtained with ⟨hkept, -⟩ | ⟨hbare, -, made, hmade, rfl⟩
  · simp only [Gate.answer, Gate.openFor, Situation.gate, Situation.outlook, closed, given, ← husable, hkept,
      Bool.false_eq_true, if_false, if_true, Option.map_some]
  · have haccount := hm.account (hm.configure [] made.system)
    simp only [Gate.answer, Gate.openFor, Situation.gate, Situation.outlook, closed, given, ← husable, hbare,
      Bool.false_eq_true, if_false, if_true, Option.map_none, directory, hmade, Except.map, haccount]

/-- Where a system is obtained, one was created and configured in all. -/
theorem calls_of_obtained (h : Accounted config past sit) {account : Account} {e₁ e₂ : Surroundings φ}
    {s : σ} (directory : sit.around.ensureDirectory sit.hub.config.storageDirectory = (true, e₁))
    (obtained : sit.hub.obtain account e₁ = (.ok s, e₂)) :
    e₂.calls.countP Call.isCreate = 1 ∧ e₂.calls.countP Call.isConfigure = 1 ∧
      e₂.calls.count .connect = past.countP isOpened ∧ e₂.calls.count .disconnect = past.countP isClosed := by
  have hcalls : e₁.calls = sit.around.calls := by
    rw [← (Surroundings.ensureDirectory_eq sit.hub.config.storageDirectory sit.around).2.1, directory]
  rcases Hub.obtain_ok obtained with ⟨hkept, rfl⟩ | ⟨hbare, hnew, -⟩
  · rw [hcalls, h.creates, h.configures, h.connects, h.disconnects, hkept]
    exact ⟨rfl, rfl, rfl, rfl⟩
  · have hcreates := h.creates
    have hconfigures := h.configures
    rw [hbare] at hcreates hconfigures
    simp only [hnew, hcalls, List.countP_append, List.count_append, hcreates, hconfigures, h.connects,
      h.disconnects]
    exact ⟨rfl, rfl, rfl, rfl⟩

/-- **An opening is answered as by the reference model**, and accounted for. -/
theorem openFor {mark : σ → ι} (hm : Steady mark) (h : Accounted config past sit) (account : Account)
    (session : Session) :
    Accounted config
      (past ++ [(.openFor account.serialized (sit.outlook account),
        (sit.hub.openFor account session sit.around).1)])
      ⟨(sit.hub.openFor account session sit.around).2.1,
        (sit.hub.openFor account session sit.around).2.2⟩ := by
  have hend := Hub.opening_openFor account session sit.hub sit.around
  generalize (sit.hub.openFor account session sit.around).1 = answer at hend ⊢
  generalize (sit.hub.openFor account session sit.around).2.1 = hub at hend ⊢
  generalize (sit.hub.openFor account session sit.around).2.2 = e at hend ⊢
  obtain ⟨husable, hcalls, hfactory⟩ :=
    Surroundings.ensureDirectory_eq sit.hub.config.storageDirectory sit.around
  cases hend with
  | alreadyOpen isOpen =>
    apply h.of_refused _ _ rfl
    simp only [Gate.answer, Gate.openFor, Situation.gate, isOpen, if_true]
  | emptyAccount closed empty =>
    apply h.of_refused _ _ rfl
    simp only [Gate.answer, Gate.openFor, Situation.gate, closed, Bool.false_eq_true, if_false,
      List.isEmpty_iff.mp empty, if_true]
  | noDirectory closed given failed =>
    have given' : account.serialized ≠ [] := List.isEmpty_eq_false_iff.mp given
    rw [failed] at husable hcalls
    rw [h.settings]
    apply h.of_refused _ _ hcalls
    simp only [Gate.answer, Gate.openFor, Situation.gate, Situation.outlook, closed, given', ← husable,
      Bool.false_eq_true, if_false]
  | notObtained closed given directory failed =>
    have given' : account.serialized ≠ [] := List.isEmpty_eq_false_iff.mp given
    obtain ⟨hbare, hsame, hcause⟩ := Hub.obtain_error failed
    rw [directory] at husable hcalls
    apply h.of_refused _ _ (hsame.trans hcalls)
    simp only [Gate.answer, Gate.openFor, Situation.gate, Situation.outlook, closed, given', ← husable,
      hbare, Bool.false_eq_true, if_false, if_true, Option.map_none, directory, hcause, Except.map,
      RuntimeError.toHub]
  | @mismatch e₁ e₂ s closed given directory obtained other =>
    have hanswer := answer_of_obtained hm config.storageDirectory closed
      (List.isEmpty_eq_false_iff.mp given) directory obtained
    obtain ⟨hcreates, hconfigures, hconnects, hdisconnects⟩ := h.calls_of_obtained directory obtained
    have hother : (WalletSystem.account s).serialized ≠ account.serialized := by
      simpa [Account.isSame] using other
    refine ⟨h.settings, ?_, hcreates, hconfigures, ?_, ?_, h.session, fun _ => rfl⟩
    · refine h.play_snoc _ (hanswer.trans ?_)
      simp only [Gate.check, hother, if_false, Situation.gate, closed, Option.map_some]
    · rw [hconnects]
      simp [isOpened]
    · rw [hdisconnects]
      simp [isClosed]
  | @launched e₁ e₂ s closed given directory obtained same =>
    have hanswer := answer_of_obtained hm config.storageDirectory closed
      (List.isEmpty_eq_false_iff.mp given) directory obtained
    obtain ⟨hcreates, hconfigures, hconnects, hdisconnects⟩ := h.calls_of_obtained directory obtained
    have hsame : (WalletSystem.account s).serialized = account.serialized := by
      simpa [Account.isSame] using same
    refine ⟨h.settings, ?_, ?_, ?_, ?_, ?_, rfl, fun _ => rfl⟩
    · refine h.play_snoc _ (hanswer.trans ?_)
      simp only [Gate.check, hsame, if_true, Situation.gate, Hub.launch, Option.map_some,
        hm.account (hm.connect s)]
    · simp [Surroundings.called, List.countP_append, hcreates, Call.isCreate, Hub.launch]
    · simp [Surroundings.called, List.countP_append, hconfigures, Call.isConfigure, Hub.launch]
    · simp [Surroundings.called, List.count_append, hconnects, isOpened]
    · simp [Surroundings.called, List.count_append, hdisconnects, isClosed]

omit [SystemFactory φ σ] in
/-- **A closing is answered as by the reference model**, and accounted for. -/
theorem close {mark : σ → ι} (hm : Steady mark) (h : Accounted config past sit) :
    Accounted config (past ++ [(.close, (sit.hub.close sit.around).1)])
      ⟨(sit.hub.close sit.around).2.1, (sit.hub.close sit.around).2.2⟩ := by
  cases hopen : sit.hub.isOpen with
  | false =>
    simp only [Hub.close, hopen, Bool.false_eq_true, if_false]
    apply h.of_refused .close .notOpen rfl
    simp only [Gate.answer, Gate.close, Situation.gate, hopen, Bool.false_eq_true, if_false]
  | true =>
    obtain ⟨s, hhandle⟩ := Option.isSome_iff_exists.mp (h.bound hopen)
    simp only [Hub.close, hopen, hhandle, if_true]
    have haccount := hm.account (hm.disconnect sit.around.disk s)
    have hcreates := h.creates
    have hconfigures := h.configures
    rw [hhandle] at hcreates hconfigures
    refine ⟨h.settings, ?_, ?_, ?_, ?_, ?_, rfl, fun _ => rfl⟩
    · apply h.play_snoc .close
      simp only [Gate.answer, Gate.close, Situation.gate, hopen, hhandle, if_true, Option.map_some, haccount]
      rfl
    · simp [Surroundings.called, Surroundings.report, List.countP_append, hcreates, Call.isCreate]
    · simp [Surroundings.called, Surroundings.report, List.countP_append, hconfigures, Call.isConfigure]
    · simp [Surroundings.called, Surroundings.report, List.count_append, h.connects, isOpened]
    · simp [Surroundings.called, Surroundings.report, List.count_append, h.disconnects, isClosed]

end Accounted

/-! ### Whole lifecycles -/

namespace Lifecycle

variable {mark : σ → ι} {first mid last : Situation φ σ} {past past' : List (Request × Except HubError Unit)}

/-- **Every lifecycle of a new hub is accounted for.** -/
theorem accounted (hm : Steady mark) {config : Config} {e : Surroundings φ} (calls : e.calls = [])
    (run : Lifecycle mark ⟨.create config, e⟩ past last) : Accounted config past last := by
  induction run with
  | start =>
    refine ⟨rfl, rfl, ?_, ?_, ?_, ?_, rfl, fun isOpen => nomatch isOpen⟩
    all_goals rw [calls]; rfl
  | openFor _ account session opened ih =>
    have hnext := ih.openFor hm account session
    rwa [opened] at hnext
  | close _ closed ih =>
    have hnext := ih.close hm
    rwa [closed] at hnext
  | @receive _ sit _ callback ih =>
    obtain ⟨hopen, hhandle, hconfig⟩ := Hub.receive_fields callback sit.hub
    have hsession : (sit.hub.receive callback).session = sit.hub.session := by
      unfold Hub.receive
      split <;> rfl
    exact ih.of_same hconfig hopen (by rw [hhandle]) (by rw [hsession]) rfl
  | @task _ sit _ p t ih =>
    obtain ⟨hopen, hhandle, hconfig⟩ := Hub.runSession_fields p t sit.hub
    exact ih.of_same hconfig hopen (by rw [hhandle]) (Hub.session_runSession p t sit.hub) rfl
  | @command _ sit _ change same ih =>
    refine ih.of_same rfl rfl ?_ rfl rfl
    have haccount (s : σ) : WalletSystem.account (change s) = WalletSystem.account s := hm.account (same s)
    simp only [Option.map_map, Function.comp_def, haccount]
  | outside _ e calls ih => exact ih.of_same rfl rfl rfl rfl calls

/-- The system that a hub has obtained is kept, whatever happens to the hub. -/
theorem mark_eq (hm : Steady mark) (run : Lifecycle mark first past last) {s : σ}
    (hs : first.hub.handle = some s) : ∃ s', last.hub.handle = some s' ∧ mark s' = mark s := by
  induction run with
  | start => exact ⟨s, hs, rfl⟩
  | @openFor _ sit _ account session answer h e opened ih =>
    obtain ⟨s', hs', hmark⟩ := ih
    have hend := Hub.opening_openFor account session sit.hub sit.around
    rw [opened] at hend
    have hkept {e₁ e₂ : Surroundings φ} {s₁ : σ} (obtained : sit.hub.obtain account e₁ = (.ok s₁, e₂)) :
        s₁ = s' := by
      rcases Hub.obtain_ok obtained with ⟨hkept, -⟩ | ⟨hbare, -⟩
      · exact Option.some.inj (hkept.symm.trans hs')
      · exact nomatch hbare.symm.trans hs'
    cases hend with
    | alreadyOpen | emptyAccount | noDirectory | notObtained => exact ⟨s', hs', hmark⟩
    | mismatch _ _ _ obtained _ =>
      obtain rfl := hkept obtained
      exact ⟨_, rfl, hmark⟩
    | launched _ _ _ obtained _ =>
      obtain rfl := hkept obtained
      exact ⟨_, rfl, (hm.connect _).trans hmark⟩
  | @close _ sit _ answer h e closed ih =>
    obtain ⟨s', hs', hmark⟩ := ih
    cases hopen : sit.hub.isOpen with
    | false =>
      simp only [Hub.close, hopen, Bool.false_eq_true, if_false] at closed
      injection closed with _ hrest
      injection hrest with hhub _
      exact ⟨s', by rw [← hhub, hs'], hmark⟩
    | true =>
      simp only [Hub.close, hopen, hs', if_true] at closed
      injection closed with _ hrest
      injection hrest with hhub _
      exact ⟨_, by rw [← hhub], (hm.disconnect _ s').trans hmark⟩
  | receive _ callback ih =>
    obtain ⟨s', hs', hmark⟩ := ih
    exact ⟨s', (Hub.receive_fields callback _).2.1.trans hs', hmark⟩
  | task _ p t ih =>
    obtain ⟨s', hs', hmark⟩ := ih
    exact ⟨s', (Hub.runSession_fields p t _).2.1.trans hs', hmark⟩
  | command _ change same ih =>
    obtain ⟨s', hs', hmark⟩ := ih
    exact ⟨change s', congrArg (Option.map change) hs', (same s').trans hmark⟩
  | outside _ e calls ih => exact ih

theorem trans (run : Lifecycle mark first past mid) (run' : Lifecycle mark mid past' last) :
    Lifecycle mark first (past ++ past') last := by
  induction run' with
  | start => rwa [List.append_nil]
  | openFor _ account session opened ih =>
    rw [← List.append_assoc]
    exact ih.openFor account session opened
  | close _ closed ih =>
    rw [← List.append_assoc]
    exact ih.close closed
  | receive _ callback ih => exact ih.receive callback
  | task _ p t ih => exact ih.task p t
  | command _ change same ih => exact ih.command change same
  | outside _ e calls ih => exact ih.outside e calls

/-- **Opening and closing refine the reference model.** Of a new hub over any factory: the answers to
all openings and closings are those of the model, which ends where the hub ends. The factory was asked
for at most one system with success, which was configured once, is connected once per successful
opening and disconnected once per successful closing, and is the same from the moment on from which
there is one. The task is there exactly while the hub is open. -/
theorem refines (hm : Steady mark) (config : Config) (e : Surroundings φ) (calls : e.calls = [])
    (before : Lifecycle mark ⟨.create config, e⟩ past mid) (after : Lifecycle mark mid past' last) :
    Gate.shut.play config.storageDirectory ((past ++ past').map Prod.fst) =
        ((past ++ past').map Prod.snd, last.gate) ∧
      last.around.calls.countP Call.isCreate = (if last.hub.handle.isSome then 1 else 0) ∧
      last.around.calls.countP Call.isConfigure = (if last.hub.handle.isSome then 1 else 0) ∧
      last.around.calls.count .connect = (past ++ past').countP isOpened ∧
      last.around.calls.count .disconnect = (past ++ past').countP isClosed ∧
      last.hub.session.isSome = last.hub.isOpen ∧
      ∀ s, mid.hub.handle = some s → ∃ s', last.hub.handle = some s' ∧ mark s' = mark s := by
  have h := accounted hm calls (before.trans after)
  exact ⟨h.played, h.creates, h.configures, h.connects, h.disconnects, h.session, fun s hs =>
    after.mark_eq hm hs⟩

/-- The owner of the system in the lifecycle below. -/
def holder : Account := ⟨"alice", ⟨0, 0⟩, [1]⟩

/-- Somebody else, for whom the hub is opened first. -/
def stranger : Account := ⟨"bob", ⟨0, 0⟩, [2]⟩

/-- A hub over systems by script that all belong to one account. -/
def holderOnly : Situation ScriptedFactory ScriptedSystem :=
  ⟨.create (.ofDirectory "data"), ⟨.empty, ⟨some holder, [], none⟩, [], []⟩⟩

/-- A hub that is opened for the wrong account keeps the system, and opens for its account then. -/
theorem opens_for_holder_only :
    ∃ past last, Lifecycle ScriptedSystem.account holderOnly past last ∧
      past.map Prod.snd = [.error .accountMismatch, .ok (), .ok ()] ∧
      last.around.calls.countP Call.isCreate = 1 ∧ last.around.calls.count .connect = 1 ∧
      last.around.calls.count .disconnect = 1 := by
  have steady : Steady ScriptedSystem.account := ⟨id, fun _ _ => rfl, fun _ => rfl, fun _ _ => rfl⟩
  have before : Lifecycle ScriptedSystem.account holderOnly [] holderOnly := .start
  have opened := (before.openFor stranger (.following .start none) rfl).openFor holder (.following .start none) rfl
  have after := opened.close rfl
  obtain ⟨-, hcreates, -, hconnects, hdisconnects, -⟩ :=
    refines steady (.ofDirectory "data") holderOnly.around rfl before after
  exact ⟨_, _, after, rfl, hcreates, hconnects, hdisconnects⟩

end Lifecycle

/-! ### Systems in memory -/

namespace MemorySystem

/-- A system in memory is of the account for which it was created. -/
theorem steady : Steady origin where
  account h := congrArg Prod.fst h
  configure currencies s := (turns_of_configure currencies s).origin_eq
  connect s := (turns_of_connect s).origin_eq
  disconnect _ s := (turns_of_disconnect s).origin_eq

/-- Every command on the system of a hub is part of some lifecycle. -/
theorem lifecycle_command {first sit : Situation MemoryFactory MemorySystem}
    {past : List (Request × Except HubError Unit)} (run : Lifecycle origin first past sit) (now : Instant)
    (c : Command) : Lifecycle origin first past
      ⟨{ sit.hub with handle := sit.hub.handle.map fun s => (MemorySystem.run now c s).toOption.getD s },
        sit.around⟩ := by
  apply run.command
  intro s
  cases hrun : MemorySystem.run now c s with
  | error e => rfl
  | ok s' => exact (turns_of_run hrun).origin_eq

end MemorySystem

end WalletHub
