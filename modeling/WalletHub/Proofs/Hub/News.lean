import WalletHub.Proofs.Hub.Reconciling
import WalletHub.Proofs.Memory.Sole
import WalletHub.Proofs.World.Effect

/-!
# News of a wallet

What a hub publishes for each currency (`News`) reaches the channel late: callbacks that tell of it wait in
the queue of the system, those that come while the hub is closed are dropped, and an opening makes up for
them. An `Accord` says which values may be published while the system has this wallet or none, and which
the newest may be. Where every command that is allowed keeps an accord between the wallet and what is told
of it (`Accord.Sound`), it holds between the wallet and the channel in every run (`Run.accord`).

The induction is done here once and for all kinds of news. Who wants to know of a kind what stands on its
channel says which values fit which wallet, and proves `Accord.Sound`: one case for each thing that a command
can do to the wallet (`MemorySystem.Glimpse`), and one for an opening. Progress, transfers and updates are three
such kinds.

## What is proved

* `Accord.Told.trans`, `Accord.Told.current`: what is told while a wallet becomes another can be put together,
  and leaves a newest value that fits the wallet.
* `Accord.tells_of_run`: a command lines up jobs that keep the accord.
* `Accord.Holds.change`: every change of a hub keeps the accord, with one lemma for each kind of change
  (`Accord.Holds.launch`, `Accord.Holds.tells`, `Accord.Holds.finish`, `Accord.Holds.deliver`,
  `Accord.Holds.task`).
* `Run.accord`: the channel is in accord with the wallet in every run in which only allowed commands are run.
* `Run.keeping`: it is enough to allow no removal of the wallet, which the past of the run tells.
-/

namespace WalletHub

open MemorySystem (Command Sole Glimpse Incident Turn Turns)

/-! ### What callbacks tell -/

/-- Values of one kind that a hub publishes by currency. -/
structure News (α : Type) where
  /-- What a hub that receives a callback publishes, each with its code. -/
  told : Callback → List (String × α)
  /-- Where it is published. -/
  channels : Board → Channels α
  own : ∀ c, ∀ u ∈ told c, c.code? = some u.1
  received : ∀ ws b c, channels (b.receive ws c) =
    (told c).foldl (fun cs u => cs.offer u.1 u.2) (channels b)
  unlisted : ∀ b c, channels { b with wallets := c } = channels b

namespace News

variable {α : Type} (n : News α) (code : String)

/-- What the callbacks of some jobs tell of a code, the oldest first. -/
def of (jobs : List Job) : List α :=
  ((jobs.flatten.flatMap n.told).filter fun u => Currency.key u.1 == Currency.key code).map Prod.snd

/-- The newest value on the channel of the code. -/
def latest (b : Board) : Option α := ((n.channels b).get code).latest

/-- What will be the newest value on the channel when all jobs of the system were delivered. -/
def coming (s : MemorySystem) (b : Board) : Option α := (n.of code s.queue).getLast?.or (n.latest code b)

theorem of_append (jobs jobs' : List Job) : n.of code (jobs ++ jobs') = n.of code jobs ++ n.of code jobs' := by
  simp only [of, List.flatten_append, List.flatMap_append, List.filter_append, List.map_append]

/-- What is told is what the first callback tells, and then the others. -/
theorem of_cons (c : Callback) (job : Job) (jobs : List Job) :
    n.of code ((c :: job) :: jobs) = n.of code [[c]] ++ n.of code (job :: jobs) := by
  simp only [of, List.flatten_cons, List.flatten_nil, List.cons_append, List.append_nil,
    List.flatMap_cons, List.flatMap_nil, List.filter_append, List.map_append]

/-- Callbacks about other codes tell nothing of this one. -/
theorem of_aside {job : Job}
    (others : ∀ c ∈ job, ∀ other, c.code? = some other → Currency.key other ≠ Currency.key code) :
    n.of code [job] = [] := by
  rw [of, List.map_eq_nil_iff, List.filter_eq_nil_iff]
  intro u hu
  simp only [List.flatten_cons, List.flatten_nil, List.append_nil, List.mem_flatMap] at hu
  obtain ⟨c, hc, hu⟩ := hu
  rw [beq_iff_eq]
  exact others c hc u.1 (n.own c u hu)

theorem latest_foldl_offer (us : List (String × α)) (cs : Channels α) :
    ((us.foldl (fun cs u => cs.offer u.1 u.2) cs).get code).latest =
      ((us.filter fun u => Currency.key u.1 == Currency.key code).map Prod.snd).getLast?.or
        (cs.get code).latest := by
  induction us generalizing cs with
  | nil => rfl
  | cons u us ih =>
    rw [List.foldl_cons, ih, Channels.get_offer]
    by_cases hcode : Currency.key u.1 = Currency.key code
    · rw [if_pos hcode.symm, List.filter_cons_of_pos (by simpa using hcode), List.map_cons, List.getLast?_cons]
      cases ((us.filter fun u => Currency.key u.1 == Currency.key code).map Prod.snd).getLast? <;> rfl
    · rw [if_neg (Ne.symm hcode), List.filter_cons_of_neg (by simpa using hcode)]

/-- A callback that is received leaves what it tells on the channel. -/
theorem latest_receive (ws : List Wallet) (b : Board) (c : Callback) :
    n.latest code (b.receive ws c) = (n.of code [[c]]).getLast?.or (n.latest code b) := by
  rw [latest, n.received, latest_foldl_offer]
  simp only [of, List.flatten_cons, List.flatten_nil, List.append_nil, List.flatMap_cons, List.flatMap_nil,
    latest]

end News

/-- The system of the hub has no two wallets of the code. -/
def Hub.Sole (code : String) (h : Hub MemorySystem) : Prop :=
  ∀ s, h.handle = some s → MemorySystem.Sole code s.wallets

/-! ### Accords -/

/-- What may be published for a code while the system has this wallet of the code, or none. -/
structure Accord (α : Type) where
  /-- The value may be published, or wait to be. -/
  possible : Option Wallet → α → Prop
  /-- The newest value may be this one, or there may be none. -/
  current : Option Wallet → Option α → Prop

namespace Accord

variable {α : Type} {a : Accord α} {n : News α} {code : String} {allows : Command → Option Wallet → Prop}

/-- While the wallet becomes another, what is told keeps the accord. -/
structure Told (a : Accord α) (x x' : Option Wallet) (us : List α) : Prop where
  kept : ∀ u, a.possible x u → a.possible x' u
  told : ∀ u ∈ us, a.possible x' u
  last : ∀ u, us.getLast? = some u → a.current x' (some u)
  silent : us = [] → ∀ v, a.current x v → a.current x' v

namespace Told

variable {x x' x'' : Option Wallet} {us us' : List α}

theorem refl (x : Option Wallet) : a.Told x x [] :=
  ⟨fun _ h => h, nofun, nofun, fun _ _ h => h⟩

theorem trans (h : a.Told x x' us) (h' : a.Told x' x'' us') : a.Told x x'' (us ++ us') := by
  constructor
  · intro u hu
    exact h'.kept u (h.kept u hu)
  · intro u hu
    rcases List.mem_append.mp hu with hu | hu
    · exact h'.kept u (h.told u hu)
    · exact h'.told u hu
  · intro u hu
    cases hlast : us'.getLast? with
    | some u' =>
      rw [List.getLast?_append, hlast, Option.some_or] at hu
      exact h'.last u (hlast.trans hu)
    | none =>
      rw [List.getLast?_append, hlast, Option.none_or] at hu
      exact h'.silent (List.getLast?_eq_none_iff.mp hlast) _ (h.last u hu)
  · intro hnil v hv
    obtain ⟨hus, hus'⟩ := List.append_eq_nil_iff.mp hnil
    exact h'.silent hus' v (h.silent hus v hv)

/-- The newest value after what is told is in accord with the wallet. -/
theorem current (h : a.Told x x' us) {v : Option α} (hv : a.current x v) : a.current x' (us.getLast?.or v) := by
  cases hlast : us.getLast? with
  | some u =>
    rw [Option.some_or]
    exact h.last u hlast
  | none =>
    rw [Option.none_or]
    exact h.silent (List.getLast?_eq_none_iff.mp hlast) v hv

end Told

/-- Every allowed command keeps the accord, and an opening restores it. -/
structure Sound (a : Accord α) (n : News α) (code : String) (allows : Command → Option Wallet → Prop) :
    Prop where
  glimpse {c : Command} {x x' : Option Wallet} {job : Job} : Glimpse code c x job x' → allows c x →
    a.Told x x' (n.of code [job])
  /-- Only reports of progress are allowed for some wallets and not for others. -/
  steady {c : Command} {x : Option Wallet} (x' : Option Wallet) :
    (∀ code' percent time, c ≠ .syncProgress code' percent time) → allows c x → allows c x'
  connect (x : Option Wallet) : allows .connect x
  disconnect (x : Option Wallet) : allows .disconnect x
  opened {x : Option Wallet} {b b' : Board} : (x = none → b.Untouched b' code) →
    (∀ w, x = some w → b.Refreshed b' w code) → (∀ u, n.latest code b = some u → a.possible x u) →
    (∀ u, n.latest code b' = some u → a.possible x u) ∧ a.current x (n.latest code b')

/-! ### Systems -/

/-- What waits in the system is in accord with its wallet of the code. -/
structure Waits (a : Accord α) (n : News α) (code : String) (s : MemorySystem) : Prop where
  sole : Sole code s.wallets
  possible : ∀ u ∈ n.of code s.queue, a.possible (Wallet.find? s.wallets code) u
  last : ∀ u, (n.of code s.queue).getLast? = some u → a.current (Wallet.find? s.wallets code) (some u)

/-- While the system becomes another, it lines up jobs that keep the accord. -/
def Tells (a : Accord α) (n : News α) (code : String) (s s' : MemorySystem) : Prop :=
  Sole code s'.wallets ∧ ∃ jobs, s'.queue = s.queue ++ jobs ∧
    a.Told (Wallet.find? s.wallets code) (Wallet.find? s'.wallets code) (n.of code jobs)

theorem tells_of_turn (sound : a.Sound n code allows) {c : Command} {s s' : MemorySystem} (h : Turn c s s')
    (sole : Sole code s.wallets) (allowed : allows c (Wallet.find? s.wallets code)) : a.Tells n code s s' := by
  rcases h.happened with ⟨hwallets, hqueue⟩ | ⟨job, hqueue, hincident⟩
  · refine ⟨hwallets ▸ sole, [], by rw [hqueue, List.append_nil], ?_⟩
    rw [hwallets]
    exact .refl _
  · exact ⟨hincident.edit.sole sole, [job], hqueue, sound.glimpse (hincident.glimpse sole) allowed⟩

theorem tells_of_turns (sound : a.Sound n code allows) {c : Command} {s s' : MemorySystem} (h : Turns c s s')
    (steady : ∀ code' percent time, c ≠ .syncProgress code' percent time) (sole : Sole code s.wallets)
    (allowed : allows c (Wallet.find? s.wallets code)) : a.Tells n code s s' := by
  induction h with
  | refl => exact ⟨sole, [], (List.append_nil _).symm, .refl _⟩
  | tail _ turn ih =>
    obtain ⟨hsole, jobs, hqueue, htold⟩ := ih
    obtain ⟨hsole', more, hmore, htold'⟩ := tells_of_turn sound turn hsole (sound.steady _ steady allowed)
    refine ⟨hsole', jobs ++ more, by rw [hmore, hqueue, List.append_assoc], ?_⟩
    rw [n.of_append]
    exact htold.trans htold'

theorem tells_of_run (sound : a.Sound n code allows) {now : Instant} {c : Command} {s s' : MemorySystem}
    (h : MemorySystem.run now c s = .ok s') (sole : Sole code s.wallets)
    (allowed : allows c (Wallet.find? s.wallets code)) : a.Tells n code s s' := by
  cases c with
  | syncProgress => exact tells_of_turn sound (MemorySystem.turn_of_syncProgress h) sole allowed
  | _ => exact tells_of_turns sound (MemorySystem.turns_of_run h) nofun sole allowed

theorem Waits.tells {s s' : MemorySystem} (hs : a.Waits n code s) (h : a.Tells n code s s') :
    a.Waits n code s' := by
  obtain ⟨hsole, jobs, hqueue, htold⟩ := h
  refine ⟨hsole, ?_, ?_⟩
  · intro u hu
    rw [hqueue, n.of_append] at hu
    rcases List.mem_append.mp hu with hu | hu
    · exact htold.kept u (hs.possible u hu)
    · exact htold.told u hu
  · intro u hu
    rw [hqueue, n.of_append, List.getLast?_append] at hu
    cases hlast : (n.of code jobs).getLast? with
    | some u' =>
      rw [hlast, Option.some_or] at hu
      exact htold.last u (hlast.trans hu)
    | none =>
      rw [hlast, Option.none_or] at hu
      exact htold.silent (List.getLast?_eq_none_iff.mp hlast) _ (hs.last u hu)

/-- With fewer jobs at the front the last value stays the last. -/
theorem Waits.suffix {s : MemorySystem} (hs : a.Waits n code s) {jobs : List Job} {us : List α}
    (h : n.of code s.queue = us ++ n.of code jobs) : a.Waits n code { s with queue := jobs } := by
  refine ⟨hs.sole, ?_, ?_⟩
  · intro u hu
    exact hs.possible u (by rw [h]; exact List.mem_append_right us hu)
  · intro u hu
    apply hs.last u
    rw [h, List.getLast?_append, hu, Option.some_or]

/-! ### Hubs -/

/-- The channel of the code is in accord with the wallet that the hub's system has of the code, once all
that waits was delivered. -/
structure Holds (a : Accord α) (n : News α) (code : String) (h : Hub MemorySystem) : Prop where
  /-- Nothing was published before there was a system. -/
  bare : h.handle = none → n.latest code h.board = none
  waits : ∀ s, h.handle = some s → a.Waits n code s
  possible : ∀ s, h.handle = some s → ∀ u, n.latest code h.board = some u →
    a.possible (Wallet.find? s.wallets code) u
  current : h.isOpen = true → ∀ s, h.handle = some s →
    a.current (Wallet.find? s.wallets code) (n.coming code s h.board)

/-- A hub that was never open has published nothing. -/
theorem holds_create (a : Accord α) (n : News α) (code : String) (config : Config)
    (h : n.latest code .empty = none) : a.Holds n code (.create config) :=
  ⟨fun _ => h, nofun, nofun, nofun⟩

/-- What an opening leaves on the channel is in accord with the wallets. -/
theorem Sound.reconcile (sound : a.Sound n code allows) (owner : Account) {ws : List Wallet} {b : Board}
    (sole : Sole code ws) (possible : ∀ u, n.latest code b = some u → a.possible (Wallet.find? ws code) u) :
    (∀ u, n.latest code (b.reconcile owner ws) = some u → a.possible (Wallet.find? ws code) u) ∧
      a.current (Wallet.find? ws code) (n.latest code (b.reconcile owner ws)) := by
  refine sound.opened ?_ ?_ possible
  · intro hnone
    refine Board.untouched_reconcile owner b ?_
    intro w hw
    rw [← Bool.not_eq_true]
    exact List.find?_eq_none.mp hnone w hw
  · intro w hfound
    have hcode := MemorySystem.hasCode_of_find? hfound
    obtain ⟨before, after, rfl⟩ := List.append_of_mem (List.mem_of_find?_eq_some hfound)
    exact Board.refreshed_reconcile owner b hcode (MemorySystem.others_of_sole sole hcode)

theorem Holds.launch (sound : a.Sound n code allows) {h : Hub MemorySystem} {session : Session}
    {s : MemorySystem} (waits : a.Waits n code s)
    (possible : ∀ u, n.latest code h.board = some u → a.possible (Wallet.find? s.wallets code) u) :
    a.Holds n code (h.launch session s) := by
  have htells : a.Tells n code s s.connect :=
    tells_of_turns sound (MemorySystem.turns_of_connect s) nofun waits.sole (sound.connect _)
  obtain ⟨hsole, jobs, hqueue, htold⟩ := htells
  have hwaits : a.Waits n code s.connect := waits.tells ⟨hsole, jobs, hqueue, htold⟩
  obtain ⟨hpossible, hcurrent⟩ := sound.reconcile (WalletSystem.account (WalletSystem.connect s)) hsole
    fun u hu => htold.kept u (possible u hu)
  refine ⟨nofun, ?_, ?_, ?_⟩
  · intro s' hs'
    obtain rfl := Option.some.inj hs'
    exact hwaits
  · intro s' hs'
    obtain rfl := Option.some.inj hs'
    exact hpossible
  · intro _ s' hs'
    obtain rfl := Option.some.inj hs'
    rw [News.coming]
    cases hlast : (n.of code (WalletSystem.connect s).queue).getLast? with
    | some u =>
      rw [Option.some_or]
      exact hwaits.last u hlast
    | none =>
      rw [Option.none_or]
      exact hcurrent

/-- What a system does while it is held keeps the accord with the channel. -/
theorem Holds.tells {h : Hub MemorySystem} {s s' : MemorySystem} (hh : a.Holds n code h)
    (kept : h.handle = some s) (htells : a.Tells n code s s') :
    a.Holds n code { h with handle := some s' } := by
  obtain ⟨hsole, jobs, hqueue, htold⟩ := htells
  refine ⟨nofun, ?_, ?_, ?_⟩
  · intro s'' hs''
    obtain rfl := Option.some.inj hs''
    exact (hh.waits s kept).tells ⟨hsole, jobs, hqueue, htold⟩
  · intro s'' hs'' u hu
    obtain rfl := Option.some.inj hs''
    exact htold.kept u (hh.possible s kept u hu)
  · intro hopen s'' hs''
    obtain rfl := Option.some.inj hs''
    have hnext := htold.current (hh.current hopen s kept)
    rwa [News.coming, ← Option.or_assoc, ← List.getLast?_append, ← n.of_append, ← hqueue] at hnext

/-- A job that ends has told all. -/
theorem Holds.finish {h : Hub MemorySystem} {s : MemorySystem} {jobs : List Job} (hh : a.Holds n code h)
    (kept : h.handle = some s) (queue : s.queue = [] :: jobs) :
    a.Holds n code { h with handle := some { s with queue := jobs } } := by
  have hof : n.of code s.queue = n.of code jobs := by
    rw [queue]
    rfl
  refine ⟨nofun, ?_, ?_, ?_⟩
  · intro s' hs'
    obtain rfl := Option.some.inj hs'
    exact (hh.waits s kept).suffix (hof.trans (List.nil_append _).symm)
  · intro s' hs'
    obtain rfl := Option.some.inj hs'
    exact hh.possible s kept
  · intro hopen s' hs'
    obtain rfl := Option.some.inj hs'
    have hcurrent := hh.current hopen s kept
    rwa [News.coming, hof] at hcurrent

/-- A callback that is delivered is published by an open hub, and dropped by a closed one. -/
theorem Holds.deliver {h : Hub MemorySystem} {s : MemorySystem} {callback : Callback} {job : Job}
    {jobs : List Job} (hh : a.Holds n code h) (kept : h.handle = some s)
    (queue : s.queue = (callback :: job) :: jobs) :
    a.Holds n code (Hub.receive callback { h with handle := some { s with queue := job :: jobs } }) := by
  have hof : n.of code s.queue = n.of code [[callback]] ++ n.of code (job :: jobs) := by
    rw [queue, n.of_cons]
  obtain ⟨hopen', hhandle, -⟩ :=
    Hub.receive_fields callback { h with handle := some { s with queue := job :: jobs } }
  have hboard := Hub.board_receive callback
    (h := { h with handle := some { s with queue := job :: jobs } }) (s := { s with queue := job :: jobs }) rfl
  have hlatest : n.latest code (Hub.receive callback
      { h with handle := some { s with queue := job :: jobs } }).board =
      if h.isOpen then (n.of code [[callback]]).getLast?.or (n.latest code h.board)
      else n.latest code h.board := by
    rw [hboard]
    split
    · exact n.latest_receive code _ _ _
    · rfl
  refine ⟨?_, ?_, ?_, ?_⟩
  · intro hbare
    exact nomatch hhandle.symm.trans hbare
  · intro s' hs'
    obtain rfl := Option.some.inj (hhandle.symm.trans hs')
    exact (hh.waits s kept).suffix hof
  · intro s' hs' u hu
    obtain rfl := Option.some.inj (hhandle.symm.trans hs')
    rw [hlatest] at hu
    split at hu
    · rcases Option.or_eq_some_iff.mp hu with hu | ⟨-, hu⟩
      · refine (hh.waits s kept).possible u ?_
        rw [hof]
        exact List.mem_append_left _ (List.mem_of_getLast? hu)
      · exact hh.possible s kept u hu
    · exact hh.possible s kept u hu
  · intro hopen s' hs'
    obtain rfl := Option.some.inj (hhandle.symm.trans hs')
    rw [hopen'] at hopen
    have hcurrent := hh.current hopen s kept
    rwa [News.coming, hof, List.getLast?_append, Option.or_assoc, ← if_pos hopen (α := Option α)
      (t := (n.of code [[callback]]).getLast?.or (n.latest code h.board)) (e := n.latest code h.board),
      ← hlatest] at hcurrent

/-- The task publishes the wallets alone. -/
theorem Holds.task {h : Hub MemorySystem} (hh : a.Holds n code h) (p : Provider) (t : Tracker) :
    a.Holds n code (h.runSession p t).1 := by
  obtain ⟨hopen, hhandle, -⟩ := Hub.runSession_fields p t h
  have hlatest : n.latest code (h.runSession p t).1.board = n.latest code h.board := by
    rcases Hub.board_runSession p t h with hsame | ⟨s, c, -, -, hboard⟩
    · rw [hsame]
    · rw [hboard, News.latest, n.unlisted]
      rfl
  constructor
  · rw [hhandle, hlatest]
    exact hh.bare
  · rw [hhandle]
    exact hh.waits
  · rw [hhandle, hlatest]
    exact hh.possible
  · rw [hhandle, hopen]
    simp only [News.coming, hlatest]
    exact hh.current

/-- **Every change keeps the accord** if the commands that it may run are allowed and a new system has no
two wallets of the code. -/
theorem Holds.change (sound : a.Sound n code allows) {h h' : Hub MemorySystem} {cause : Hub.Cause}
    (hh : a.Holds n code h) (new : h.handle = none → h'.Sole code)
    (allowed : ∀ c now s s', cause = .command c → h.handle = some s → MemorySystem.run now c s = .ok s' →
      allows c (Wallet.find? s.wallets code)) (hc : h.Change cause h') : a.Holds n code h' := by
  have hnew {s : MemorySystem} (hsole : Sole code s.wallets) (hqueue : s.queue = []) : a.Waits n code s := by
    refine ⟨hsole, ?_, ?_⟩
    all_goals
      intro u hu
      rw [hqueue] at hu
      exact nomatch hu
  cases hc with
  | launch session s closed kept =>
    rcases kept with hkept | ⟨hbare, hmade⟩
    · exact .launch sound (hh.waits s hkept) (hh.possible s hkept)
    · have hsole : Sole code s.wallets := MemorySystem.sole_connect.mp (new hbare _ rfl)
      refine .launch sound (hnew hsole hmade.queue) ?_
      intro u hu
      exact nomatch (hh.bare hbare).symm.trans hu
  | hold s closed bare made =>
    refine ⟨nofun, ?_, ?_, fun hopen => nomatch closed.symm.trans hopen⟩
    · intro s' hs'
      obtain rfl := Option.some.inj hs'
      exact hnew (new bare _ rfl) made.queue
    · intro s' _ u hu
      exact nomatch (hh.bare bare).symm.trans hu
  | close s isOpen kept =>
    have htells : a.Tells n code s s.disconnect :=
      tells_of_turns sound (MemorySystem.turns_of_disconnect s) nofun (hh.waits s kept).sole
        (sound.disconnect _)
    have hheld := hh.tells kept htells
    exact ⟨nofun, hheld.waits, hheld.possible, nofun⟩
  | closeBare isOpen bare => exact ⟨hh.bare, hh.waits, hh.possible, nofun⟩
  | command s s' now c kept run =>
    exact hh.tells kept (tells_of_run sound run (hh.waits s kept).sole (allowed c now s s' rfl kept run))
  | finish s jobs kept queue => exact hh.finish kept queue
  | deliver s callback job jobs kept queue => exact hh.deliver kept queue
  | task p t => exact hh.task p t

end Accord

/-! ### Runs -/

/-- No system comes with two wallets of the code. -/
def bringsSole (code : String) (w : MemoryWorld) (m : Move) : Prop :=
  ∀ h h', w.hub = some h → h.handle = none → (w.move m).2.hub = some h' → h'.Sole code

/-- The move runs only commands that are allowed. -/
def Commands (code : String) (allows : Command → Option Wallet → Prop) (w : MemoryWorld) (m : Move) : Prop :=
  ∀ c now h s s', m = .act (.command c) → w.hub = some h → h.handle = some s →
    MemorySystem.run now c s = .ok s' → allows c (Wallet.find? s.wallets code)

/-- **In every run in which the commands are allowed the channel is in accord with the wallet**, if no
delivery breaks off and no system comes with two wallets of the code. -/
theorem Run.accord {α : Type} {a : Accord α} {n : News α} {code : String}
    {allows : Command → Option Wallet → Prop} {allowed : MemoryWorld → Move → Reply → Prop}
    {start w : MemoryWorld} {past : Past} (sound : a.Sound n code allows) (run : Run allowed start past w)
    (restricts : ∀ w m r, allowed w m r → w.move m = (r, (w.move m).2) →
      unbroken w m r ∧ bringsSole code w m ∧ Commands code allows w m)
    (hempty : n.latest code .empty = none) (hstart : ∀ h, start.hub = some h → a.Holds n code h) :
    ∀ h, w.hub = some h → a.Holds n code h := by
  intro h hh
  refine run.scene_invariant (fun x => a.Holds n code x.hub) ?_
    (fun config _ _ => Accord.holds_create a n code config hempty) ?_ _ (World.scene_of_hub hh)
  · intro x hx
    obtain ⟨h', hh', rfl⟩ := Option.map_eq_some_iff.mp hx
    exact hstart h' hh'
  · intro w m r w' x x' hallowed hmove hx hx' hholds hc
    obtain ⟨h, hh, rfl⟩ := Option.map_eq_some_iff.mp hx
    obtain ⟨h', hh', rfl⟩ := Option.map_eq_some_iff.mp hx'
    obtain rfl : (w.move m).2 = w' := congrArg Prod.snd hmove
    obtain ⟨hunbroken, hbrings, hcommands⟩ := restricts w m r hallowed hmove
    generalize (w.move m).2.tracker = t at hc
    generalize (w.move m).2.provider = p at hc
    cases hc with
    | ids => exact hholds
    | hub _ change caused =>
      refine hholds.change sound (fun hbare => hbrings h h' hh hbare hh') ?_ change
      rintro c now s s' rfl kept run
      cases caused with
      | command => exact hcommands c now h s s' rfl hh kept run
    | lose broke => exact absurd broke hunbroken

/-! ### Wallets that are never removed -/

/-- No wallet of the code is removed. -/
def keepsWallet (code : String) (c : Command) (_ : Option Wallet) : Prop :=
  ∀ other, c = .removeWallet other → Currency.key other ≠ Currency.key code

/-- A wallet of the code was removed. -/
def Removed (code : String) (past : Past) : Prop :=
  ∃ other, Currency.key other = Currency.key code ∧
    (Move.act (.command (.removeWallet other)), Reply.ok) ∈ past

/-- A removal that is done is answered. -/
theorem World.reply_of_removeWallet {w : MemoryWorld} {h : Hub MemorySystem} {s s' : MemorySystem}
    {now : Instant} {code : String} (hub : w.hub = some h) (kept : h.handle = some s)
    (run : MemorySystem.run now (.removeWallet code) s = .ok s') :
    (w.move (.act (.command (.removeWallet code)))).1 = .ok := by
  have hlast : w.memorySystem? = some s := by
    simp only [World.memorySystem?, World.lastSystem, hub, Option.bind_some, kept, Steering.memory?]
  have hrun : MemorySystem.run w.wall (.removeWallet code) s = .ok s' := run
  simp only [World.move, World.act, World.runCommand_eq, hlast, hrun]

/-- No removal of a wallet of the code is answered. -/
def Keeping (code : String) (m : Move) (r : Reply) : Prop :=
  ∀ other, m = .act (.command (.removeWallet other)) → r = .ok → Currency.key other ≠ Currency.key code

theorem Keeping.commands {code : String} {w : MemoryWorld} {m : Move} {r : Reply} (h : Keeping code m r)
    (moved : w.move m = (r, (w.move m).2)) : Commands code (keepsWallet code) w m := by
  rintro c now hub s s' rfl hhub kept hrun other rfl
  refine h other rfl ?_
  rw [← World.reply_of_removeWallet hhub kept hrun, moved]

/-- A run in which no wallet of the code was removed is one in which no move does. -/
theorem Run.keeping {allowed : MemoryWorld → Move → Reply → Prop} {start w : MemoryWorld} {past : Past}
    {code : String} (run : Run allowed start past w) (kept : ¬Removed code past) :
    Run (fun w m r => allowed w m r ∧ Keeping code m r) start past w := by
  apply run.restrict
  rintro m r hm other rfl rfl hequal
  exact kept ⟨other, hequal, hm⟩

end WalletHub
