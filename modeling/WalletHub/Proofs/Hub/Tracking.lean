import WalletHub.Proofs.Memory.Lineage
import WalletHub.Proofs.Tracker.Tidy
import WalletHub.Proofs.World.Attending
import WalletHub.Proofs.World.Calm

/-!
# Following the tracked wallets

The task of an open hub reads the enabled and the managed ids, and publishes the wallets whenever the
tracked ids have changed. For this to be of use the tracker has to know of every wallet of the hub once all
callbacks are delivered, and the task must have read nothing that the lists do not say.

## What is proved

* `Session.Sound`, `Errand.sound_step`: the state of a task whose monitor holds what it has read; a step of the
  task keeps it.
* `Hub.abreast_stepTask`, `Scene.Tracking.task`: by its steps the task finds nothing new (`Hub.found?`) unless
  it publishes the wallets.
* `Scene.Tracking.change`, `Scene.Tracking.stride`: what the tracker and the task know is kept by whatever happens
  where nothing breaks off.
* `Threads.tracking`: it is so in the whole run, with tasks beside all else.
* `Scene.Tracking.found_eq`: where all has settled the task has found just those of the wallets that are enabled.
-/

namespace WalletHub

open MemorySystem (Apart)

/-! ### Listed wallets -/

namespace Wallet

/-- Lists that say the same of the wallets keep the same of them. -/
theorem keepListed_congr {ws : List Wallet} {ids ids' : List String}
    (h : ∀ w ∈ ws, Provider.lists ids w.id = Provider.lists ids' w.id) :
    keepListed ws ids = keepListed ws ids' := by
  have hlists (ids : List String) (w : Wallet) :
      (ids.any fun id => w.currency.hasId id) = Provider.lists ids w.id := by
    rw [Bool.eq_iff_iff, Provider.lists_iff, List.any_eq_true, List.mem_map]
    simp only [Currency.hasId_iff]
    exact exists_congr fun id => and_congr_right fun _ => eq_comm
  apply List.filter_congr
  intro w hw
  rw [hlists, hlists, h w hw]

/-- Of wallets that are all managed the tracked ids keep those that are enabled. -/
theorem keepListed_tracked {ws : List Wallet} {managed : List String}
    (known : ∀ w ∈ ws, Text.fold w.id ∈ managed) (enabled : List String) :
    keepListed ws (Tracker.tracked managed enabled) = keepListed ws enabled := by
  apply keepListed_congr
  intro w hw
  rw [Bool.eq_iff_iff, Provider.lists_iff, Provider.lists_iff]
  constructor
  · intro htracked
    obtain ⟨id, hid, hfold⟩ := List.mem_map.mp htracked
    obtain ⟨-, henabled⟩ := (Tracker.mem_tracked _ _ _).mp hid
    obtain ⟨id', hid', rfl⟩ := List.mem_map.mp henabled
    exact List.mem_map.mpr ⟨id', hid', (Text.fold_fold id').symm.trans hfold⟩
  · intro henabled
    exact List.mem_map.mpr ⟨_, (Tracker.mem_tracked _ _ _).mpr ⟨known w hw, henabled⟩, Text.fold_fold w.id⟩

end Wallet

/-! ### Steps of the task -/

/-- The monitor of the task holds what it has read, and does not break off. -/
inductive Session.Sound (p : Provider) (t : Tracker) : Session → Prop where
  | following {m : Monitor} (sound : m.Sound p t) : Sound p t (.following m none)
  | busy {m : Monitor} (stage : Stage) (sound : m.Sound p t) : Sound p t (.busy ⟨m, none, stage⟩)

theorem Session.Sound.newer {p p' : Provider} {t t' : Tracker} {session : Session} (h : session.Sound p t)
    (enabled : p.enabled.Newer p'.enabled) (managed : t.managed.Newer t'.managed) : session.Sound p' t' := by
  cases h with
  | following sound => exact .following (sound.newer enabled managed)
  | busy stage sound => exact .busy stage (sound.newer enabled managed)

/-- A step on an errand keeps the monitor sound. -/
theorem Errand.sound_step {p : Provider} {t : Tracker} {m : Monitor} (stage : Stage)
    (wallets : Option (List Wallet)) (sound : m.Sound p t) :
    (Errand.step p t wallets ⟨m, none, stage⟩).1.Sound p t := by
  cases stage with
  | told =>
    cases wallets with
    | none => exact .busy .asking sound
    | some ws => exact .busy (.holding ws) sound
  | holding ws => exact .busy .asking sound
  | asking =>
    have hpolled := Monitor.polled_poll sound
    simp only [step]
    generalize m.poll p t = result at hpolled
    cases hpolled with
    | item ids sound' => exact .busy .told sound'
    | pending sound' => exact .following sound'

namespace Hub

/-- The tracked ids that the task has found, if it has published the wallets since. -/
def found? {σ : Type} (h : Hub σ) : Option (List String) :=
  match h.session with
  | some (.following m _) | some (.busy ⟨m, _, .asking⟩) => m.last
  | some (.busy ⟨_, _, .told⟩) | some (.busy ⟨_, _, .holding _⟩) | some (.broken _) | none => none

variable {p : Provider} {t : Tracker} {h h' h'' : Hub MemorySystem}

/-- Wallets were published, or the task has found nothing new. -/
structure Abreast (h h' : Hub MemorySystem) : Prop where
  grown : h.board.wallets.Grown h'.board.wallets
  found : h'.board.wallets = h.board.wallets → ∀ ids, h'.found? = some ids → h.found? = some ids

namespace Abreast

theorem of_session (session : h'.session = h.session) (grown : h.board.wallets.Grown h'.board.wallets) :
    h.Abreast h' := by
  refine ⟨grown, fun _ ids hids => ?_⟩
  rwa [found?, session] at hids

/-- A task that is gone has found nothing. -/
theorem of_none (session : h'.session = none) (grown : h.board.wallets.Grown h'.board.wallets) : h.Abreast h' := by
  refine ⟨grown, fun _ ids hids => ?_⟩
  rw [found?, session] at hids
  exact nomatch hids

theorem trans (first : h.Abreast h') (second : h'.Abreast h'') : h.Abreast h'' := by
  refine ⟨first.grown.trans second.grown, fun same ids hids => ?_⟩
  have hmiddle : h'.board.wallets = h.board.wallets := by
    apply first.grown.eq_of_version_le
    rw [← same]
    exact second.grown.version_le
  exact first.found hmiddle ids (second.found (same.trans hmiddle.symm) ids hids)

end Abreast

theorem Abreast.refl (h : Hub MemorySystem) : h.Abreast h := .of_session rfl .same

/-- A step of a task leaves a sound task. -/
theorem Stride.sound {b : Tick} {session : Session} (stride : h.Stride p t b h') (running : h.session = some session)
    (sound : session.Sound p t) : ∃ next, h'.session = some next ∧ next.Sound p t := by
  cases stride with
  | leaving i =>
    obtain ⟨leaving, -, hstep⟩ := h.exists_stepLeaving p t i
    obtain ⟨-, -, -, hsession, -⟩ := publish_fields (h.release (.leaving i)) h
    rw [hstep]
    exact ⟨session, hsession.trans running, sound⟩
  | task =>
    rw [stepTask, running]
    cases sound with
    | following sound => exact ⟨_, rfl, .busy .asking sound⟩
    | busy stage sound =>
      obtain ⟨-, -, -, hsession, -⟩ := publish_fields (Errand.step p t (h.handle.map WalletSystem.wallets)
        ⟨_, none, stage⟩).2.1 { h with session := some (Errand.step p t _ ⟨_, none, stage⟩).1 }
      exact ⟨_, hsession, Errand.sound_step stage _ sound⟩

/-- **By a step the task finds nothing new** unless it publishes the wallets. -/
theorem abreast_stepTask {session : Session} (running : h.session = some session) (sound : session.Sound p t)
    (held : h.handle.isSome = true) : h.Abreast (h.stepTask p t).1 := by
  have hgrown : h.board.wallets.Grown (h.stepTask p t).1.board.wallets :=
    (Stride.task (p := p) (t := t) (h := h)).grown.wallets
  refine ⟨hgrown, fun same ids hids => ?_⟩
  cases sound with
  | following sound =>
    rw [stepTask, running] at hids
    rwa [found?, running]
  | @busy m stage sound =>
    cases stage with
    | told =>
      obtain ⟨s, hs⟩ := Option.isSome_iff_exists.mp held
      rw [stepTask, running] at hids
      simp only [Errand.step, hs, Option.map_some, publish, found?, reduceCtorEq] at hids
    | holding ws =>
      rw [stepTask, running] at same
      have hversion : h.board.wallets.version + 1 = h.board.wallets.version := congrArg Watch.version same
      omega
    | asking =>
      have hpolled := Monitor.polled_poll sound
      rw [stepTask, running] at hids
      simp only [Errand.step, publish] at hids
      generalize m.poll p t = result at hpolled hids
      cases hpolled with
      | item ids' => cases hids
      | pending _ _ last =>
        rw [found?, running]
        exact last.symm.trans hids

theorem session_receive (callback : Callback) (h : Hub MemorySystem) :
    (h.receive callback).session = h.session := by
  unfold receive
  split <;> rfl

end Hub

/-! ### What the tracker and the task know -/

/-- The moves by which no callback reaches the tracker alone. -/
def untold (_ : MemoryWorld) (m : Move) (_ : Reply) : Prop := ∀ c, m ≠ .act (.deliver c true)

/-- A wallet is removed only where no two wallets of the hub are of the same currency. -/
def keepsApart (w : MemoryWorld) (m : Move) (_ : Reply) : Prop :=
  ∀ code h s, m = .act (.command (.removeWallet code)) → w.hub = some h → h.handle = some s → Apart s.wallets

theorem keepsApart_of_ne {w : MemoryWorld} {m : Move} {r : Reply}
    (other : ∀ code, m ≠ .act (.command (.removeWallet code))) : keepsApart w m r :=
  fun code _ _ hm => absurd hm (other code)

theorem keepsApart_of_apart {w : MemoryWorld} {m : Move} {r : Reply}
    (apart : (w.hub.bind Hub.handle).all (fun s => decide (Apart s.wallets)) = true) : keepsApart w m r := by
  intro _ h s _ hub kept
  rw [hub, Option.bind_some, kept] at apart
  exact of_decide_eq_true apart

theorem Enables.newer {p p' : Provider} {m : Move} (h : Enables p m p') : p.enabled.Newer p'.enabled := by
  cases h with
  | enable id => exact p.newer_enable id
  | disable id => exact p.newer_disable id
  | set ids => exact p.newer_set ids

namespace Scene

/-- The tracker will know of the wallets of the hub. While the hub is open it has a system and a task with a sound
monitor. -/
structure Tracking (x : Scene) : Prop where
  holds : x.hub.isOpen = true → x.hub.handle.isSome = true
  knows : ∀ s, x.hub.handle = some s → x.tracker.Knows x.hub.isOpen s
  follows : x.hub.isOpen = true → ∃ session, x.hub.session = some session ∧ session.Sound x.provider x.tracker
  rests : x.hub.isOpen = false → x.hub.session = none

/-- The task waits, if there is one, and has read the newest of both lists. -/
def Quiet (x : Scene) : Prop :=
  x.hub.errand? = none ∧ ∀ m fuse, x.hub.session = some (.following m fuse) → m.UpToDate x.provider x.tracker

namespace Tracking

variable {hub hub' : Hub MemorySystem} {p p' : Provider} {t t' : Tracker} {s : MemorySystem} {b : Tick}

theorem create (config : Config) (p : Provider) (t : Tracker) : Tracking ⟨.create config, p, t⟩ :=
  ⟨fun hopen => (nomatch hopen), nofun, fun hopen => (nomatch hopen), fun _ => rfl⟩

/-- What does not touch the task keeps the tracking, if the tracker goes on to know of the wallets. -/
theorem of_frame (h : Tracking ⟨hub, p, t⟩) (isOpen : hub'.isOpen = hub.isOpen)
    (handle : hub'.handle.isSome = hub.handle.isSome) (session : hub'.session = hub.session)
    (knows : ∀ s, hub'.handle = some s → t'.Knows hub.isOpen s) (enabled : p.enabled.Newer p'.enabled)
    (managed : t.managed.Newer t'.managed) : Tracking ⟨hub', p', t'⟩ := by
  constructor
  · intro hopen
    exact handle.trans (h.holds (isOpen.symm.trans hopen))
  · intro s hs
    rw [isOpen]
    exact knows s hs
  · intro hopen
    obtain ⟨task, htask, hsound⟩ := h.follows (isOpen.symm.trans hopen)
    exact ⟨task, session.trans htask, hsound.newer enabled managed⟩
  · intro hclosed
    exact session.trans (h.rests (isOpen.symm.trans hclosed))

/-- An opening connects all managers and starts a task that has read nothing. -/
theorem launch (knows : t.Knows false s) : Tracking ⟨hub.launch (.following .start none) s, p, t⟩ := by
  constructor
  · exact fun _ => rfl
  · intro s' hs'
    obtain rfl := Option.some.inj hs'
    exact knows.connect
  · exact fun _ => ⟨_, rfl, .following (Monitor.sound_start _ _)⟩
  · exact fun hclosed => nomatch hclosed

theorem close (h : Tracking ⟨hub, p, t⟩) (isOpen : hub.isOpen = true) (kept : hub.handle = some s) :
    Tracking ⟨{ hub.cancelled with handle := some s.disconnect }, p, t⟩ := by
  constructor
  · exact fun hopen => nomatch hopen
  · intro s' hs'
    obtain rfl := Option.some.inj hs'
    have hknows := h.knows s kept
    rw [isOpen] at hknows
    exact hknows.disconnect
  · exact fun hopen => nomatch hopen
  · exact fun _ => rfl

theorem closeBare (bare : hub.handle = none) : Tracking ⟨hub.cancelled, p, t⟩ := by
  constructor
  · exact fun hopen => nomatch hopen
  · exact fun s hs => nomatch bare.symm.trans hs
  · exact fun hopen => nomatch hopen
  · exact fun _ => rfl

/-- **A step of a task keeps the tracking.** -/
theorem stride (h : Tracking ⟨hub, p, t⟩) (stride : hub.Stride p t b hub') : Tracking ⟨hub', p, t⟩ := by
  obtain ⟨hopen, hhandle, -, hsome, -⟩ := stride.fields
  constructor
  · intro isOpen
    exact (congrArg Option.isSome hhandle).trans (h.holds (hopen.symm.trans isOpen))
  · intro s hs
    rw [hopen]
    exact h.knows s (hhandle.symm.trans hs)
  · intro isOpen
    obtain ⟨session, hsession, hsound⟩ := h.follows (hopen.symm.trans isOpen)
    exact stride.sound hsession hsound
  · intro closed
    have hnone : hub.session = none := h.rests (hopen.symm.trans closed)
    rw [hnone, Option.isSome_none] at hsome
    exact Option.not_isSome_iff_eq_none.mp (Bool.eq_false_iff.mp hsome)

/-- A step of a task finds nothing new unless wallets are published. -/
theorem abreast (h : Tracking ⟨hub, p, t⟩) (stride : hub.Stride p t b hub') : hub.Abreast hub' := by
  cases stride with
  | leaving i =>
    obtain ⟨leaving, -, hstep⟩ := hub.exists_stepLeaving p t i
    obtain ⟨-, -, -, hsession, -⟩ := Hub.publish_fields (hub.release (.leaving i)) hub
    refine .of_session ?_ (Hub.Stride.leaving i).grown.wallets
    rw [hstep]
    exact hsession
  | task =>
    cases hopen : hub.isOpen with
    | true =>
      obtain ⟨session, hsession, hsound⟩ := h.follows hopen
      exact Hub.abreast_stepTask hsession hsound (h.holds hopen)
    | false =>
      have hnone : hub.session = none := h.rests hopen
      have hstill : (hub.stepTask p t).1 = hub := by simp only [Hub.stepTask, hnone]
      rw [hstill]
      exact .refl hub

/-- It is so of a run of the task as well. -/
theorem task (h : Tracking ⟨hub, p, t⟩) :
    Tracking ⟨(hub.runSession p t).1, p, t⟩ ∧ hub.Abreast (hub.runSession p t).1 := by
  have hstep (hub' : Hub MemorySystem) : Tracking ⟨hub', p, t⟩ ∧ hub.Abreast hub' →
      Tracking ⟨(hub'.stepTask p t).1, p, t⟩ ∧ hub.Abreast (hub'.stepTask p t).1 := by
    rintro ⟨htracking, habreast⟩
    exact ⟨htracking.stride .task, habreast.trans (htracking.abreast .task)⟩
  have htask := Hub.kept_runSession hstep ⟨h, .refl hub⟩
  exact htask

/-- **Every change keeps the tracking**, where nothing breaks off. -/
theorem change {x x' : Scene} {w w' : MemoryWorld} {m : Move} {r : Reply} (h : x.Tracking)
    (hx : w.scene = some x) (hc : x.Change w m r w' x') (calm : w.trap = none) (ok : unbroken w m r)
    (found : findsWritten w m r) (apart : keepsApart w m r) (alone : untold w m r) : x'.Tracking := by
  obtain ⟨hub, hhub, rfl⟩ := Option.map_eq_some_iff.mp hx
  cases hc with
  | lose broke => exact absurd broke ok
  | ids p t provider tracker =>
    obtain rfl : t = w.tracker := tracker.resolve_right fun ⟨c, hm⟩ => alone c hm
    refine h.of_frame rfl rfl rfl h.knows ?_ (Or.inl rfl)
    rcases provider with rfl | henables
    · exact Or.inl rfl
    · exact henables.newer
  | @hub h' cause t change caused tracker =>
    subst tracker
    have hnew {account : Account} {s : MemorySystem} (hm : m = .act (.openHub account))
        (bare : hub.handle = none) (new : Hub.New hub.config account w.surroundings.factory.seeds
          (w.surroundings.ensureDirectory hub.config.storageDirectory).2.disk s) : w.tracker.Knows false s :=
      fun wallet hwallet => Or.inr ⟨rfl, new.unconnected (found _ _ hm hhub bare) wallet hwallet⟩
    cases change with
    | launch session s closed kept =>
      cases caused with
      | opening account tracker =>
        rw [tracker, World.nextSession_of_calm calm]
        apply launch
        rcases kept with hkept | ⟨hbare, new⟩
        · rw [← closed]
          exact h.knows s hkept
        · exact hnew rfl hbare new
    | hold s closed bare new =>
      cases caused with
      | opening account tracker =>
        rw [tracker]
        constructor
        · exact fun _ => rfl
        · intro s' hs'
          obtain rfl := Option.some.inj hs'
          rw [closed]
          exact hnew rfl bare new
        · exact h.follows
        · exact h.rests
    | close s isOpen kept =>
      cases caused with
      | closing tracker =>
        rw [tracker]
        exact h.close isOpen kept
    | closeBare isOpen bare => exact closeBare bare
    | command s s' now c kept run =>
      cases caused with
      | command _ tracker =>
        rw [tracker]
        refine h.of_frame rfl (congrArg Option.isSome kept).symm rfl ?_ (Or.inl rfl) (Or.inl rfl)
        intro last hlast
        obtain rfl := Option.some.inj hlast
        refine (h.knows s kept).run run ?_
        rintro code rfl
        exact apart code hub s rfl hhub kept
    | finish s jobs kept queue =>
      cases caused with
      | ending tracker =>
        rw [tracker]
        refine h.of_frame rfl (congrArg Option.isSome kept).symm rfl ?_ (Or.inl rfl) (Or.inl rfl)
        intro last hlast
        obtain rfl := Option.some.inj hlast
        exact (h.knows s kept).ended queue
    | deliver s callback job jobs kept queue =>
      cases caused with
      | callback _ tracker =>
        rw [tracker]
        obtain ⟨hopen, hhandle, -⟩ :=
          Hub.receive_fields callback { hub with handle := some { s with queue := job :: jobs } }
        have hheld := congrArg Option.isSome (hhandle.trans (congrArg (Option.map fun _ => _) kept).symm)
        rw [Option.isSome_map] at hheld
        refine h.of_frame hopen hheld (Hub.session_receive callback _) ?_ (Or.inl rfl)
          (w.tracker.newer_learn callback)
        intro last hlast
        obtain rfl := Option.some.inj (hhandle.symm.trans hlast)
        exact (h.knows s kept).learn queue
    | task p t =>
      cases caused with
      | task tracker =>
        rw [tracker]
        exact h.task.1

/-- **By a change the task finds nothing new** unless wallets are published. -/
theorem abreast_of_change {x x' : Scene} {w w' : MemoryWorld} {m : Move} {r : Reply} (h : x.Tracking)
    (hx : w.scene = some x) (hc : x.Change w m r w' x') : x.hub.Abreast x'.hub := by
  cases hc with
  | lose | ids => exact .of_session rfl .same
  | hub t change caused =>
    have hgrown := Hub.grown_of_change change
    cases change with
    | launch session s =>
      cases caused with
      | opening account => exact ⟨hgrown, fun _ ids hids => nomatch hids⟩
    | close | closeBare => exact .of_none rfl hgrown
    | hold | command | finish => exact .of_session rfl hgrown
    | deliver s callback => exact .of_session (Hub.session_receive callback _) hgrown
    | task p t =>
      obtain ⟨hub, hhub, rfl⟩ := Option.map_eq_some_iff.mp hx
      cases caused with
      | task => exact h.task.2

/-- **Where all has settled the task has found the enabled ids**, as far as the wallets of the open hub are
concerned. -/
theorem found_eq (h : Tracking ⟨hub, p, t⟩) (isOpen : hub.isOpen = true) (kept : hub.handle = some s)
    (queue : s.queue = []) (quiet : Quiet ⟨hub, p, t⟩) :
    ∃ found, hub.found? = some found ∧ Wallet.keepListed s.wallets found = Wallet.keepListed s.wallets p.ids := by
  obtain ⟨session, hsession, hsound⟩ := h.follows isOpen
  have hknows := h.knows s kept
  rw [isOpen] at hknows
  obtain ⟨hidle, hupToDate⟩ := quiet
  cases hsound with
  | busy stage sound =>
    have hbusy := Hub.errand?_eq_some_iff.mpr hsession
    exact nomatch hidle.symm.trans hbusy
  | @following m sound =>
    refine ⟨Tracker.tracked t.ids p.ids, ?_, ?_⟩
    · rw [Hub.found?, hsession]
      exact Monitor.last_of_upToDate sound (hupToDate m none hsession)
    · exact Wallet.keepListed_tracked (fun y hy => hknows.mem_ids queue hy) p.ids

end Tracking

end Scene

/-! ### Runs -/

/-- Nothing is made to break off, no callback is told to the tracker alone, no wallets are found but those
that systems have left, and wallets are removed where no two are of the same currency. -/
def undisturbed (w : MemoryWorld) (m : Move) (r : Reply) : Prop :=
  peaceful w m r ∧ untold w m r ∧ findsWritten w m r ∧ keepsApart w m r

/-- Wallets are found by openings only. -/
theorem undisturbed_of_apart {w : MemoryWorld} {m : Move} {r : Reply} (hpeace : ∀ trap, m ≠ .act (.arm trap))
    (halone : ∀ c, m ≠ .act (.deliver c true)) (hopen : ∀ account, m ≠ .act (.openHub account))
    (hapart : keepsApart w m r) : undisturbed w m r :=
  ⟨hpeace, halone, findsWritten_of_inherits (inherits_of_ne hopen), hapart⟩

/-- Only the user disturbs. -/
theorem undisturbed_of_ne (w : MemoryWorld) (m : Move) (r : Reply) (h : ∀ a, m ≠ .act a) : undisturbed w m r :=
  undisturbed_of_apart (fun _ => h _) (fun _ => h _) (fun _ => h _) (keepsApart_of_ne fun _ => h _)

/-- The move is of a kind that is never restricted in an undisturbed run. -/
def Move.harmless : Move → Bool
  | .act (.arm _) | .act (.deliver _ true) | .act (.openHub _) | .act (.command (.removeWallet _)) => false
  | _ => true

theorem undisturbed_of_harmless {w : MemoryWorld} {m : Move} {r : Reply} (harmless : m.harmless = true) :
    undisturbed w m r := by
  refine undisturbed_of_apart ?_ ?_ ?_ (keepsApart_of_ne ?_) <;>
  · rintro _ rfl
    cases harmless

theorem undisturbed_openHub {w : MemoryWorld} {account : Account} {r : Reply}
    (found : findsWritten w (.act (.openHub account)) r) : undisturbed w (.act (.openHub account)) r := by
  refine ⟨?_, ?_, found, keepsApart_of_ne ?_⟩ <;>
  · rintro _ hm
    cases hm

namespace Threads

variable {allowed : MemoryWorld → Move → Reply → Prop} {start w : MemoryWorld} {ticks : List Tick} {past : Past}

/-- A run of peaceful moves is calm throughout, and unbroken, also with tasks beside all else. -/
theorem calm (threads : Threads allowed start ticks past w) (calm : start.trap = none)
    (peace : ∀ w m r, allowed w m r → peaceful w m r) :
    w.trap = none ∧ Threads (fun w m r => allowed w m r ∧ w.trap = none ∧ unbroken w m r) start ticks past w := by
  induction threads with
  | start => exact ⟨calm, .start⟩
  | move _ moved ok ih =>
    obtain ⟨hw, hthreads⟩ := ih
    obtain ⟨hw', hunbroken⟩ := World.trap_move hw (peace _ _ _ ok) ((World.go_eq_move _ _).symm.trans moved)
    exact ⟨hw', hthreads.move moved ⟨ok, hw, hunbroken⟩⟩
  | stride _ taken ih =>
    obtain ⟨hw, hthreads⟩ := ih
    refine ⟨?_, hthreads.stride taken⟩
    rcases taken.cases with ⟨-, rfl⟩ | ⟨h, h', log, -, -, rfl⟩
    · exact hw
    · exact hw

/-- **Whatever happens, the tracker will know of the wallets**, and the task has read nothing that the lists
do not say. -/
theorem tracking (threads : Threads undisturbed start ticks past w) (calm : start.trap = none)
    (first : ∀ h, start.hub = some h → ∃ config, h = .create config) : ∀ x, w.scene = some x → x.Tracking := by
  obtain ⟨-, hcalm⟩ := threads.calm calm fun w m r ok => ok.1
  refine hcalm.scene_invariant Scene.Tracking ?_ Scene.Tracking.create ?_ fun h stride => h.stride stride
  · intro x hx
    obtain ⟨hub, hhub, rfl⟩ := Option.map_eq_some_iff.mp hx
    obtain ⟨config, rfl⟩ := first hub hhub
    exact .create _ _ _
  · rintro w m r w' x x' ⟨⟨-, halone, hfinds, hapart⟩, htrap, hunbroken⟩ - hx htracking hc
    exact htracking.change hx hc htrap hunbroken hfinds hapart halone

end Threads

end WalletHub
