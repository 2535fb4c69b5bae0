import WalletHub.Proofs.Hub.Change
import WalletHub.Proofs.World.Moves

/-!
# What a move can do

A move leaves the hub and the subscriptions alone, or it changes the hub in one of the ways of
`Hub.Change`, or it drops the hub or makes one, or it changes one subscription. `Effect` lists these,
each together with what is heard of it, and `effect_move` finds the effect of every move. All that is
proved of runs goes through this list.

## What is proved

* `Effect.effect_move`: every move has one of the effects. The commands, openings and closings come first
  (`Effect.of_runCommand`, `Effect.of_openFor`, `Effect.of_close`), then the subscriptions and the deliveries.
* `Effect.scene_cases`: a move leads from one scene to the next by a `Scene.Change`, unless the hub is new.
* `Run.scene_invariant`, `Run.hub_invariant`: what is true of every new hub and kept by every change is true in
  the whole run, of the hub with the ids that it follows or of the hub alone.

An invariant of a run is thus proved with one case for each constructor of `Hub.Change`.
-/

namespace WalletHub

/-- The move is not one in which a subscription is made or asked. -/
def Unheard (m : Move) (r : Reply) : Prop := ∀ name x, Heard.after name x (m, r) = x

/-- Time stands still, and neither the enabled nor the managed ids change. -/
structure Still (w w' : MemoryWorld) : Prop where
  now : w'.now = w.now
  provider : w'.provider = w.provider
  tracker : w'.tracker = w.tracker

/-- The moves by which the user changes the enabled ids, and what becomes of them. -/
inductive Enables (p : Provider) : Move → Provider → Prop where
  | enable (id : String) : Enables p (.act (.enable id)) (p.enable id)
  | disable (id : String) : Enables p (.act (.disable id)) (p.disable id)
  | set (ids : List String) : Enables p (.act (.setEnabled ids)) (p.set ids)

/-- The move, and what it does to the tracker, where it changes the hub `h` for some cause. -/
inductive Caused (w : MemoryWorld) (h : Hub MemorySystem) (w' : MemoryWorld) : Move → Hub.Cause → Prop where
  | opening (account : Account) (tracker : w'.tracker = w.tracker) :
      Caused w h w' (.act (.openHub account)) (.opening account w.nextSession w.surroundings.factory.seeds
        (w.surroundings.ensureDirectory h.config.storageDirectory).2.disk)
  | closing (tracker : w'.tracker = w.tracker) : Caused w h w' (.act .closeHub) .closing
  | command (c : MemorySystem.Command) (tracker : w'.tracker = w.tracker) :
      Caused w h w' (.act (.command c)) (.command c)
  | ending (tracker : w'.tracker = w.tracker) : Caused w h w' .deliver .ending
  | callback (c : Callback) (tracker : w'.tracker = w.tracker.learn c) : Caused w h w' .deliver (.callback c)
  | task (tracker : w'.tracker = w.tracker) : Caused w h w' .task (.task w.provider w.tracker)

/-- The effect of a move on the hub and the subscriptions. -/
inductive Effect (w : MemoryWorld) (m : Move) (r : Reply) (w' : MemoryWorld) : Prop where
  /-- Time may pass. The user may change the enabled ids, or tell the tracker of a callback. -/
  | quiet (hub : w'.hub = w.hub) (subscribers : w'.subscribers = w.subscribers) (now : w.now ≤ w'.now)
      (provider : w'.provider = w.provider ∨ Enables w.provider m w'.provider)
      (tracker : w'.tracker = w.tracker ∨ ∃ c, m = .act (.deliver c true)) (unheard : Unheard m r)
  | change {h h' : Hub MemorySystem} {cause : Hub.Cause} (hub : w.hub = some h) (change : h.Change cause h')
      (caused : Caused w h w' m cause) (hub' : w'.hub = some h') (subscribers : w'.subscribers = w.subscribers)
      (now : w'.now = w.now) (provider : w'.provider = w.provider) (unheard : Unheard m r)
  /-- A callback breaks off, and the rest of its job is lost. -/
  | lose {h : Hub MemorySystem} {s : MemorySystem} {callback : Callback} {job : Job} {jobs : List Job}
      (broke : m = .deliver ∧ r = .broke) (hub : w.hub = some h) (kept : h.handle = some s)
      (queue : s.queue = (callback :: job) :: jobs)
      (hub' : w'.hub = some { h with handle := some { s with queue := jobs } })
      (subscribers : w'.subscribers = w.subscribers) (still : Still w w') (unheard : Unheard m r)
  /-- The hub is dropped, and maybe another one is made. -/
  | drop {h : Hub MemorySystem} (hub : w.hub = some h)
      (hub' : w'.hub = none ∨ ∃ config, w'.hub = some (.create config))
      (frozen : ∀ name s, w'.subscribers.lookup name = some s → s.frozen.isSome = true)
      (unheard : Unheard m r) (dropped : w'.dropped = w.dropped + 1)
  /-- A hub is made where there was none. -/
  | make (hub : w.hub = none) (hub' : ∃ config, w'.hub = some (.create config))
      (subscribers : w'.subscribers = w.subscribers) (unheard : Unheard m r)
  | subscribe {h : Hub MemorySystem} {name : String} {topic : Topic}
      (made : m = .act (.subscribe name topic) ∧ r = .nothing) (hub : w.hub = some h)
      (hub' : w'.hub = some h) (still : Still w w')
      (subscribers : w'.subscribers = Entries.put name
        ⟨.create h.config.throttle h.config.transferThrottle topic, w.dropped, none⟩ w.subscribers)
  /-- A subscription is made that needs no hub. -/
  | subscribeAlone {name : String} {topic : Topic}
      (made : m = .act (.subscribe name topic) ∧ r = .nothing) (alone : topic.needsHub = false)
      (hub : w.hub = none) (hub' : w'.hub = none)
      (subscribers : w'.subscribers = Entries.put name ⟨.create 0 0 topic, w.dropped, none⟩ w.subscribers)
  | unsubscribe {name : String} (hub' : w'.hub = w.hub) (still : Still w w')
      (subscribers : w'.subscribers = Entries.drop name w.subscribers) (unheard : Unheard m r)
  /-- A subscription is asked for an item. -/
  | next {name : String} {s : Subscriber} (made : w.subscribers.lookup name = some s)
      (asked : m = .act (.next name) ∧ r = .polled (s.subscription.poll (w.view name s)).1)
      (hub' : w'.hub = w.hub) (still : Still w w')
      (subscribers : w'.subscribers = Entries.put name
        { s with subscription := (s.subscription.poll (w.view name s)).2 } w.subscribers)
  /-- A subscription is asked for items until there is none. -/
  | drain {name : String} {s : Subscriber} (made : w.subscribers.lookup name = some s)
      (asked : m = .act (.drain name) ∧
        r = .drained (s.subscription.drain (w.view name s) drainLimit).1
          (s.subscription.drain (w.view name s) drainLimit).2.1)
      (hub' : w'.hub = w.hub) (still : Still w w')
      (subscribers : w'.subscribers = Entries.put name
        { s with subscription := (s.subscription.drain (w.view name s) drainLimit).2.2 } w.subscribers)

namespace Effect

/-- Nothing but the surroundings of a hub and its subscriptions has changed. -/
theorem same {w w' : MemoryWorld} {m : Move} {r : Reply} (hhub : w'.hub = w.hub)
    (hsubs : w'.subscribers = w.subscribers) (hstill : Still w w') (hheard : Unheard m r) :
    Effect w m r w' :=
  .quiet hhub hsubs (Nat.le_of_eq hstill.now.symm) (Or.inl hstill.provider) (Or.inl hstill.tracker) hheard

/-! ### Single actions -/

/-- Replacing the system changes the hub that has it, and no subscription. -/
theorem setSystem_fields (w : MemoryWorld) (s : MemorySystem) :
    (w.setSystem s).hub = w.hub.map (fun h => { h with handle := h.handle.map fun _ => s }) ∧
      (w.setSystem s).subscribers = w.subscribers ∧ Still w (w.setSystem s) := by
  cases hnone : w.hub.bind Hub.handle with
  | none =>
    rw [World.setSystem_of_loose hnone]
    refine ⟨?_, rfl, ⟨rfl, rfl, rfl⟩⟩
    cases hhub : w.hub with
    | none => rfl
    | some h =>
      obtain ⟨config, isOpen, handle, session, board⟩ := h
      obtain rfl : handle = none := by simpa [hhub] using hnone
      rfl
  | some last =>
    obtain ⟨h, hhub, hhandle⟩ := Option.bind_eq_some_iff.mp hnone
    rw [World.setSystem_of_handle hhub hhandle]
    exact ⟨by rw [hhub, Option.map_some, hhandle, Option.map_some], rfl, ⟨rfl, rfl, rfl⟩⟩

theorem hub_setSystem_self {w : MemoryWorld} {s : MemorySystem} (hs : w.lastSystem = some s) :
    (w.setSystem s).hub = w.hub := by
  cases hnone : w.hub.bind Hub.handle with
  | none => rw [World.setSystem_of_loose hnone]
  | some last =>
    obtain ⟨h, hhub, hhandle⟩ := Option.bind_eq_some_iff.mp hnone
    obtain rfl : last = s := by simpa [World.lastSystem, hnone] using hs
    rw [World.setSystem_of_handle hhub hhandle, hhub, ← hhandle]

/-- A command on the last system changes the hub that has it, or no hub. -/
theorem of_command {w w' : MemoryWorld} {s s' : MemorySystem} (now : Instant) (c : MemorySystem.Command)
    {r : Reply} (hs : w.lastSystem = some s) (hrun : MemorySystem.run now c s = .ok s')
    (hhub : w'.hub = (w.setSystem s').hub) (hsubs : w'.subscribers = w.subscribers) (hstill : Still w w')
    (hheard : Unheard (.act (.command c)) r) : Effect w (.act (.command c)) r w' := by
  cases hnone : w.hub.bind Hub.handle with
  | none =>
    refine same ?_ hsubs hstill hheard
    rw [hhub, World.setSystem_of_loose hnone]
  | some last =>
    obtain ⟨h, hhub', hhandle⟩ := Option.bind_eq_some_iff.mp hnone
    obtain rfl : last = s := by simpa [World.lastSystem, hnone] using hs
    refine .change hhub' (.command last s' now c hhandle hrun) (.command c hstill.tracker) ?_ hsubs hstill.now
      hstill.provider hheard
    rw [hhub, World.setSystem_of_handle hhub' hhandle]

theorem of_runCommand (w : MemoryWorld) (c : MemorySystem.Command) :
    Effect w (.act (.command c)) (w.runCommand c).1 (w.runCommand c).2 := by
  have hheard (r : Reply) : Unheard (.act (.command c)) r := fun _ _ => rfl
  cases hs : w.lastSystem with
  | none =>
    have hnone : w.memorySystem? = none := by simp [World.memorySystem?, hs]
    simp only [World.runCommand_eq, hnone]
    exact same rfl rfl ⟨rfl, rfl, rfl⟩ (hheard _)
  | some s =>
    have hsome : w.memorySystem? = some s := by simp [World.memorySystem?, hs, Steering.memory?]
    have hset (w' : MemoryWorld) (h : w'.lastSystem = some s) (s' : MemorySystem) :
        w'.setMemorySystem s' = w'.setSystem s' := by
      simp only [World.setMemorySystem, h, Steering.ofMemory]
    cases c with
    | disconnect =>
      obtain ⟨-, hsubs, hstill⟩ := setSystem_fields w s.disconnect
      simp only [World.runCommand_eq, hsome, hset w hs]
      exact of_command w.wall .disconnect hs rfl rfl hsubs ⟨hstill.now, hstill.provider, hstill.tracker⟩
        (hheard _)
    | addWallet currency =>
      obtain ⟨-, hsubs, hstill⟩ := setSystem_fields w (s.addWallet currency)
      simp only [World.runCommand_eq, hsome, hset w hs]
      exact of_command w.wall (.addWallet currency) hs rfl rfl hsubs hstill (hheard _)
    | _ =>
      simp only [World.runCommand_eq, hsome]
      split
      · next s' hrun =>
        obtain ⟨hhub, hsubs, hstill⟩ := setSystem_fields { w with wall := w.wall.later 1 } s'
        rw [hset { w with wall := w.wall.later 1 } hs]
        exact of_command w.wall _ hs hrun (hhub.trans (setSystem_fields w s').1.symm) hsubs
          ⟨hstill.now, hstill.provider, hstill.tracker⟩ (hheard _)
      · exact same rfl rfl ⟨rfl, rfl, rfl⟩ (hheard _)

theorem of_openFor (w : MemoryWorld) (account : Account) :
    Effect w (.act (.openHub account)) (w.act (.openHub account)).1 (w.act (.openHub account)).2 := by
  have hheard (r : Reply) : Unheard (.act (.openHub account)) r := fun _ _ => rfl
  cases hhub : w.hub with
  | none =>
    simp only [World.act, World.openFor, hhub]
    exact same rfl rfl ⟨rfl, rfl, rfl⟩ (hheard _)
  | some h =>
    have hchange := h.change_of_openFor account w.nextSession w.surroundings
    obtain ⟨answer, h', e', hopen⟩ : ∃ answer h' e',
        h.openFor account w.nextSession w.surroundings = (answer, h', e') := ⟨_, _, _, rfl⟩
    rw [hopen] at hchange
    obtain ⟨hhub', hsubs, hstill⟩ : (w.act (.openHub account)).2.hub = some h' ∧
        (w.act (.openHub account)).2.subscribers = w.subscribers ∧
        Still w (w.act (.openHub account)).2 := by
      simp only [World.act, World.openFor, hhub, hopen]
      cases answer with
      | error error => exact ⟨rfl, rfl, ⟨rfl, rfl, rfl⟩⟩
      | ok done =>
        simp only [World.monitorTaken]
        split <;> exact ⟨rfl, rfl, ⟨rfl, rfl, rfl⟩⟩
    rcases hchange with rfl | hchange
    · exact same (hhub'.trans hhub.symm) hsubs hstill (hheard _)
    · exact .change hhub hchange (.opening account hstill.tracker) hhub' hsubs hstill.now hstill.provider
        (hheard _)

theorem of_close (w : MemoryWorld) :
    Effect w (.act .closeHub) (w.act .closeHub).1 (w.act .closeHub).2 := by
  have hheard (r : Reply) : Unheard (.act .closeHub) r := fun _ _ => rfl
  cases hhub : w.hub with
  | none =>
    simp only [World.act, World.close, hhub]
    exact same rfl rfl ⟨rfl, rfl, rfl⟩ (hheard _)
  | some h =>
    have hhub' : (w.act .closeHub).2.hub = some (h.close w.surroundings).2.1 := by
      simp only [World.act, World.close, hhub]
    obtain ⟨hsubs, hstill⟩ : (w.act .closeHub).2.subscribers = w.subscribers ∧
        Still w (w.act .closeHub).2 := by
      simp only [World.act, World.close, hhub]
      exact ⟨trivial, ⟨rfl, rfl, rfl⟩⟩
    rcases h.change_of_close w.surroundings with hsame | hchange
    · exact same (by rw [hhub', hsame, hhub]) hsubs hstill (hheard _)
    · exact .change hhub hchange (.closing hstill.tracker) hhub' hsubs hstill.now hstill.provider (hheard _)

/-- All subscriptions keep the channels as they were when the hub was dropped. -/
theorem frozen_of_dropHub {w : MemoryWorld} {h : Hub MemorySystem} (hhub : w.hub = some h) (name : String)
    (s : Subscriber) (hs : w.dropHub.subscribers.lookup name = some s) : s.frozen.isSome = true := by
  simp only [World.dropHub, hhub] at hs
  generalize w.subscribers = subscribers at hs
  induction subscribers with
  | nil => simp at hs
  | cons entry rest ih =>
    obtain ⟨other, s'⟩ := entry
    rw [List.map_cons, Entries.lookup_cons] at hs
    by_cases hname : name = other
    · rw [if_pos hname] at hs
      obtain rfl := Option.some.inj hs
      show (s'.frozen.or (some h.board)).isSome = true
      cases s'.frozen <;> rfl
    · rw [if_neg hname] at hs
      exact ih hs

theorem of_dropHub (w : MemoryWorld) : Effect w (.act .dropHub) (w.act .dropHub).1 (w.act .dropHub).2 := by
  cases hhub : w.hub with
  | none =>
    simp only [World.act, World.dropHub, hhub]
    exact same rfl rfl ⟨rfl, rfl, rfl⟩ fun _ _ => rfl
  | some h =>
    refine .drop hhub (Or.inl ?_) (frozen_of_dropHub hhub) (fun _ _ => rfl) ?_
    all_goals simp only [World.act, World.dropHub, hhub]

theorem of_restart (w : MemoryWorld) (config : Option Config) :
    Effect w (.act (.restart config)) (w.act (.restart config)).1 (w.act (.restart config)).2 := by
  cases hhub : w.hub with
  | none =>
    refine .make hhub ⟨_, rfl⟩ ?_ fun _ _ => rfl
    simp only [World.act, World.restart, World.dropHub, hhub]
  | some h =>
    refine .drop hhub (Or.inr ⟨_, rfl⟩) (frozen_of_dropHub hhub) (fun _ _ => rfl) ?_
    simp only [World.act, World.restart, World.dropHub, hhub]

/-! ### Subscriptions -/

theorem of_subscribe (w : MemoryWorld) (name : String) (topic : Topic) :
    Effect w (.act (.subscribe name topic)) (w.act (.subscribe name topic)).1
      (w.act (.subscribe name topic)).2 := by
  cases hhub : w.hub with
  | some h =>
    have hact : w.act (.subscribe name topic) = (.nothing, { w with
        subscribers := Entries.put name
          ⟨.create h.config.throttle h.config.transferThrottle topic, w.dropped, none⟩ w.subscribers }) := by
      simp only [World.act, World.subscribe, hhub]
    rw [hact]
    exact .subscribe ⟨rfl, rfl⟩ hhub hhub ⟨rfl, rfl, rfl⟩ rfl
  | none =>
    cases hneeds : topic.needsHub with
    | true =>
      have hact : w.act (.subscribe name topic) = (.noHub, w) := by
        simp only [World.act, World.subscribe, hhub, hneeds, if_true]
      rw [hact]
      exact same rfl rfl ⟨rfl, rfl, rfl⟩ fun _ _ => rfl
    | false =>
      have hact : w.act (.subscribe name topic) = (.nothing, { w with
          subscribers := Entries.put name ⟨.create 0 0 topic, w.dropped, none⟩ w.subscribers }) := by
        simp only [World.act, World.subscribe, hhub, hneeds, Bool.false_eq_true, if_false]
      rw [hact]
      exact .subscribeAlone ⟨rfl, rfl⟩ hneeds hhub hhub rfl

theorem of_next (w : MemoryWorld) (name : String) :
    Effect w (.act (.next name)) (w.act (.next name)).1 (w.act (.next name)).2 := by
  cases hlookup : w.subscribers.lookup name with
  | none =>
    have hact : w.act (.next name) = (.noStream, w) := by
      simp only [World.act, World.next, hlookup]
    rw [hact]
    exact same rfl rfl ⟨rfl, rfl, rfl⟩ fun _ _ => rfl
  | some s =>
    have hact : w.act (.next name) = (.polled (s.subscription.poll (w.view name s)).1, { w with
        subscribers := Entries.put name
          { s with subscription := (s.subscription.poll (w.view name s)).2 } w.subscribers }) := by
      simp only [World.act, World.next, hlookup]
    rw [hact]
    exact .next hlookup ⟨rfl, rfl⟩ rfl ⟨rfl, rfl, rfl⟩ rfl

theorem of_drain (w : MemoryWorld) (name : String) :
    Effect w (.act (.drain name)) (w.act (.drain name)).1 (w.act (.drain name)).2 := by
  cases hlookup : w.subscribers.lookup name with
  | none =>
    have hact : w.act (.drain name) = (.noStream, w) := by
      simp only [World.act, World.drain, hlookup]
    rw [hact]
    exact same rfl rfl ⟨rfl, rfl, rfl⟩ fun _ _ => rfl
  | some s =>
    have hact : w.act (.drain name) = (.drained (s.subscription.drain (w.view name s) drainLimit).1
        (s.subscription.drain (w.view name s) drainLimit).2.1, { w with
          subscribers := Entries.put name
            { s with subscription := (s.subscription.drain (w.view name s) drainLimit).2.2 }
            w.subscribers }) := by
      simp only [World.act, World.drain, hlookup]
    rw [hact]
    exact .drain hlookup ⟨rfl, rfl⟩ rfl ⟨rfl, rfl, rfl⟩ rfl

/-! ### All moves -/

theorem of_act (w : MemoryWorld) (a : Action) : Effect w (.act a) (w.act a).1 (w.act a).2 := by
  cases a with
  | openHub account => exact of_openFor w account
  | closeHub => exact of_close w
  | dropHub => exact of_dropHub w
  | restart config => exact of_restart w config
  | subscribe name topic => exact of_subscribe w name topic
  | unsubscribe name => exact .unsubscribe rfl ⟨rfl, rfl, rfl⟩ rfl fun _ _ => rfl
  | next name => exact of_next w name
  | drain name => exact of_drain w name
  | advance ms =>
    exact .quiet rfl rfl (Nat.le_add_right _ _) (Or.inl rfl) (Or.inl rfl) fun _ _ => rfl
  | enable id => exact .quiet rfl rfl (Nat.le_refl _) (Or.inr (.enable id)) (Or.inl rfl) fun _ _ => rfl
  | disable id => exact .quiet rfl rfl (Nat.le_refl _) (Or.inr (.disable id)) (Or.inl rfl) fun _ _ => rfl
  | setEnabled ids => exact .quiet rfl rfl (Nat.le_refl _) (Or.inr (.set ids)) (Or.inl rfl) fun _ _ => rfl
  | command c => exact of_runCommand w c
  | setWallets wallets =>
    have hheard (r : Reply) : Unheard (.act (.setWallets wallets)) r := fun _ _ => rfl
    cases hs : w.lastSystem with
    | none =>
      have hs' : (w.onFactory (Steering.showNext wallets)).lastSystem = none := hs
      simp only [World.act, hs']
      exact same rfl rfl ⟨rfl, rfl, rfl⟩ (hheard _)
    | some s =>
      have hs' : (w.onFactory (Steering.showNext wallets)).lastSystem = some s := hs
      obtain ⟨-, hsubs, hstill⟩ := setSystem_fields (w.onFactory (Steering.showNext wallets)) s
      simp only [World.act, hs', Steering.showNow]
      exact same (hub_setSystem_self hs') hsubs ⟨hstill.now, hstill.provider, hstill.tracker⟩ (hheard _)
  | create account recorded =>
    obtain ⟨hhub, hsubs, hstill⟩ : (w.createLoose account recorded).2.hub = w.hub ∧
        (w.createLoose account recorded).2.subscribers = w.subscribers ∧
        Still w (w.createLoose account recorded).2 := by
      simp only [World.createLoose]
      split <;> exact ⟨rfl, rfl, ⟨rfl, rfl, rfl⟩⟩
    have hact : (w.act (.create account recorded)).2 = (w.createLoose account recorded).2 := by
      simp only [World.act]
      split <;> next heq => rw [heq]
    rw [← hact] at hhub hsubs hstill
    exact same hhub hsubs hstill fun _ _ => rfl
  | deliver callback trackerOnly =>
    have hheard (r : Reply) : Unheard (.act (.deliver callback trackerOnly)) r := fun _ _ => rfl
    cases trackerOnly with
    | true =>
      simp only [World.act, World.deliverScripted, if_true]
      rw [World.toTracker_eq]
      cases w.snag callback with
      | some reason => exact same rfl rfl ⟨rfl, rfl, rfl⟩ (hheard _)
      | none => exact .quiet rfl rfl (Nat.le_refl _) (Or.inl rfl) (Or.inr ⟨callback, rfl⟩) (hheard _)
    | false => exact same rfl rfl ⟨rfl, rfl, rfl⟩ (hheard _)
  | _ => exact same rfl rfl ⟨rfl, rfl, rfl⟩ fun _ _ => rfl

theorem of_deliver (w : MemoryWorld) : Effect w .deliver (w.move .deliver).1 (w.move .deliver).2 := by
  have hheard (r : Reply) : Unheard .deliver r := fun _ _ => rfl
  cases hs : w.lastSystem with
  | none =>
    simp only [World.move, World.deliverOne, hs]
    exact same rfl rfl ⟨rfl, rfl, rfl⟩ (hheard _)
  | some s =>
    cases hqueue : s.queue with
    | nil =>
      simp only [World.move, World.deliverOne, hs, hqueue]
      exact same rfl rfl ⟨rfl, rfl, rfl⟩ (hheard _)
    | cons job jobs =>
      cases job with
      | nil =>
        obtain ⟨-, hsubs, hstill⟩ := setSystem_fields w { s with queue := jobs }
        simp only [World.move, World.deliverOne, hs, hqueue]
        cases hnone : w.hub.bind Hub.handle with
        | none =>
          refine same ?_ hsubs hstill (hheard _)
          rw [World.setSystem_of_loose hnone]
        | some last =>
          obtain ⟨h, hhub, hhandle⟩ := Option.bind_eq_some_iff.mp hnone
          obtain rfl : last = s := by simpa [World.lastSystem, hnone] using hs
          refine .change hhub (.finish last jobs hhandle hqueue) (.ending hstill.tracker) ?_ hsubs hstill.now
            hstill.provider (hheard _)
          rw [World.setSystem_of_handle hhub hhandle]
      | cons callback job =>
        cases hnone : w.hub.bind Hub.handle with
        | none =>
          have hset := World.setSystem_of_loose hnone { s with queue := job :: jobs }
          generalize hw' : w.setSystem { s with queue := job :: jobs } = w' at hset
          have hhub : w'.hub = w.hub := by rw [hset]
          have hsubs : w'.subscribers = w.subscribers := by rw [hset]
          have hstill : Still w w' := by rw [hset]; exact ⟨rfl, rfl, rfl⟩
          have hdeliver := World.deliver_of_loose (hhub ▸ hnone) callback
          have hmove : w.move .deliver = w.deliverOne := rfl
          rw [hmove]
          simp only [World.deliverOne, hs, hqueue, hw', hdeliver, World.note_eq]
          cases w'.loose.any Loose.recorded with
          | false => exact same hhub hsubs hstill (hheard _)
          | true =>
            cases w'.snag callback with
            | none => exact same hhub hsubs ⟨hstill.now, hstill.provider, hstill.tracker⟩ (hheard _)
            | some reason =>
              obtain ⟨-, hsubs', hstill'⟩ := setSystem_fields { w' with trap := none } { s with queue := jobs }
              have hloose := World.setSystem_of_loose (w := { w' with trap := none }) (hhub ▸ hnone)
                { s with queue := jobs }
              refine same ?_ (hsubs'.trans hsubs) ⟨hstill'.now.trans hstill.now,
                hstill'.provider.trans hstill.provider, hstill'.tracker.trans hstill.tracker⟩ (hheard _)
              exact (congrArg World.hub hloose).trans hhub
        | some last =>
          obtain ⟨h, hhub, hhandle⟩ := Option.bind_eq_some_iff.mp hnone
          obtain rfl : last = s := by simpa [World.lastSystem, hnone] using hs
          have hset (s' : MemorySystem) := World.setSystem_of_handle hhub hhandle s'
          have hdeliver := World.deliver_of_handle
            (w := { w with hub := some { h with handle := some { last with queue := job :: jobs } } })
            rfl rfl callback
          have hmove : w.move .deliver = w.deliverOne := rfl
          rw [hmove]
          simp only [World.deliverOne, hs, hqueue, hset, hdeliver]
          cases World.snag callback
            { w with hub := some { h with handle := some { last with queue := job :: jobs } } } with
          | none =>
            exact .change hhub (.deliver last callback job jobs hhandle hqueue) (.callback callback rfl) rfl rfl
              rfl rfl (hheard _)
          | some reason => exact .lose ⟨rfl, rfl⟩ hhub hhandle hqueue rfl rfl ⟨rfl, rfl, rfl⟩ (hheard _)

/-- **Every move has one of these effects.** -/
theorem effect_move {w w' : MemoryWorld} {m : Move} {r : Reply} (h : w.move m = (r, w')) :
    Effect w m r w' := by
  obtain ⟨rfl, rfl⟩ : r = (w.move m).1 ∧ w' = (w.move m).2 := by rw [h]; exact ⟨rfl, rfl⟩
  cases m with
  | act a => exact of_act w a
  | deliver => exact of_deliver w
  | task =>
    cases hhub : w.hub with
    | none =>
      simp only [World.move, World.runSession, hhub]
      exact same rfl rfl ⟨rfl, rfl, rfl⟩ fun _ _ => rfl
    | some hub =>
      refine .change hhub (.task w.provider w.tracker) (.task ?_) ?_ ?_ ?_ ?_ fun _ _ => rfl
      all_goals simp only [World.move, World.runSession, hhub, World.report]
  | forget => exact same rfl rfl ⟨rfl, rfl, rfl⟩ fun _ _ => rfl

end Effect

/-! ### What stays true of a hub -/

/-- A hub, and the ids that it follows. -/
structure Scene where
  hub : Hub MemorySystem
  provider : Provider
  tracker : Tracker

/-- The hub of a world, with the ids. -/
def World.scene (w : MemoryWorld) : Option Scene := w.hub.map fun h => ⟨h, w.provider, w.tracker⟩

theorem World.scene_of_hub {w : MemoryWorld} {h : Hub MemorySystem} (hhub : w.hub = some h) :
    w.scene = some ⟨h, w.provider, w.tracker⟩ := by
  rw [World.scene, hhub, Option.map_some]

/-- What a move does to a hub that stays, and to the ids. -/
inductive Scene.Change (w : MemoryWorld) (m : Move) (r : Reply) (w' : MemoryWorld) (x : Scene) :
    Scene → Prop where
  | ids (p : Provider) (t : Tracker) (provider : p = x.provider ∨ Enables x.provider m p)
      (tracker : t = x.tracker ∨ ∃ c, m = .act (.deliver c true)) : Change w m r w' x ⟨x.hub, p, t⟩
  | hub {h' : Hub MemorySystem} {cause : Hub.Cause} (t : Tracker) (change : x.hub.Change cause h')
      (caused : Caused w x.hub w' m cause) (tracker : t = w'.tracker) : Change w m r w' x ⟨h', x.provider, t⟩
  | lose {s : MemorySystem} {callback : Callback} {job : Job} {jobs : List Job}
      (broke : m = .deliver ∧ r = .broke) (kept : x.hub.handle = some s)
      (queue : s.queue = (callback :: job) :: jobs) :
      Change w m r w' x { x with hub := { x.hub with handle := some { s with queue := jobs } } }

/-- **A move leads from one scene to the next**, unless there was no hub or it was dropped, and then a hub that
is there is new. -/
theorem Effect.scene_cases {w w' : MemoryWorld} {m : Move} {r : Reply} (h : Effect w m r w') :
    (∃ x x', w.scene = some x ∧ w'.scene = some x' ∧ x.Change w m r w' x') ∨
      (w.scene = none ∨ w'.dropped = w.dropped + 1) ∧
        ∀ x', w'.scene = some x' → ∃ config p t, x' = ⟨.create config, p, t⟩ := by
  have hchange {hub : Hub MemorySystem} {x' : Scene} (before : w.hub = some hub) (after : w'.scene = some x')
      (change : Scene.Change w m r w' ⟨hub, w.provider, w.tracker⟩ x') :
      ∃ x x', w.scene = some x ∧ w'.scene = some x' ∧ x.Change w m r w' x' :=
    ⟨_, x', World.scene_of_hub before, after, change⟩
  have hnone (before : w.hub = none) : w.scene = none := by rw [World.scene, before, Option.map_none]
  have hfresh (hub' : w'.hub = none ∨ ∃ config, w'.hub = some (.create config)) (x' : Scene)
      (hx' : w'.scene = some x') : ∃ config p t, x' = ⟨.create config, p, t⟩ := by
    obtain ⟨h', hh', rfl⟩ := Option.map_eq_some_iff.mp hx'
    rcases hub' with hgone | ⟨config, hconfig⟩
    · exact nomatch hgone.symm.trans hh'
    · obtain rfl := Option.some.inj (hconfig.symm.trans hh')
      exact ⟨config, _, _, rfl⟩
  have hids (hub' : w'.hub = w.hub) (provider : w'.provider = w.provider ∨ Enables w.provider m w'.provider)
      (tracker : w'.tracker = w.tracker ∨ ∃ c, m = .act (.deliver c true)) :
      (∃ x x', w.scene = some x ∧ w'.scene = some x' ∧ x.Change w m r w' x') ∨
        (w.scene = none ∨ w'.dropped = w.dropped + 1) ∧
          ∀ x', w'.scene = some x' → ∃ config p t, x' = ⟨.create config, p, t⟩ := by
    cases hhub : w.hub with
    | none => exact Or.inr ⟨Or.inl (hnone hhub), hfresh (Or.inl (hub'.trans hhub))⟩
    | some hub => exact Or.inl (hchange hhub (World.scene_of_hub (hub'.trans hhub)) (.ids _ _ provider tracker))
  cases h with
  | quiet hub' _ _ provider tracker => exact hids hub' provider tracker
  | change hub change caused hub' _ _ provider =>
    exact Or.inl (hchange hub (World.scene_of_hub hub') (provider ▸ .hub _ change caused rfl))
  | lose broke hub handle queue hub' _ still =>
    refine Or.inl (hchange hub (World.scene_of_hub hub') ?_)
    rw [still.provider, still.tracker]
    exact .lose broke handle queue
  | drop _ hub' _ _ dropped => exact Or.inr ⟨Or.inr dropped, hfresh hub'⟩
  | make hub hub' => exact Or.inr ⟨Or.inl (hnone hub), hfresh (Or.inr hub')⟩
  | subscribe _ hub hub' still => exact hids (hub'.trans hub.symm) (Or.inl still.provider) (Or.inl still.tracker)
  | subscribeAlone _ _ hub hub' => exact Or.inr ⟨Or.inl (hnone hub), hfresh (Or.inl hub')⟩
  | unsubscribe hub' still | next _ _ hub' still | drain _ _ hub' still =>
    exact hids hub' (Or.inl still.provider) (Or.inl still.tracker)

/-- **What holds of every new hub and is kept by every change holds in the whole run**, of the hub and
the ids that it follows. -/
theorem Run.scene_invariant {allowed : MemoryWorld → Move → Reply → Prop} {start w : MemoryWorld}
    {past : Past} (run : Run allowed start past w) (holds : Scene → Prop)
    (hstart : ∀ x, start.scene = some x → holds x)
    (hcreate : ∀ config p t, holds ⟨.create config, p, t⟩)
    (hchange : ∀ {w m r w' x x'}, allowed w m r → w.move m = (r, w') → w.scene = some x →
      w'.scene = some x' → holds x → x.Change w m r w' x' → holds x') :
    ∀ x, w.scene = some x → holds x := by
  refine (run.strengthen (fun w => ∀ x, w.scene = some x → holds x) hstart ?_).1
  intro w m r w' hw hallowed hmove x' hx'
  rcases (Effect.effect_move hmove).scene_cases with ⟨x, x'', hx, hx'', hstep⟩ | ⟨-, hnew⟩
  · obtain rfl := Option.some.inj (hx''.symm.trans hx')
    exact hchange hallowed hmove hx hx' (hw x hx) hstep
  · obtain ⟨config, p, t, rfl⟩ := hnew x' hx'
    exact hcreate config p t

/-- **What holds of every new hub and is kept by every change holds of the hub in the whole run.** -/
theorem Run.hub_invariant {allowed : MemoryWorld → Move → Reply → Prop} {start w : MemoryWorld}
    {past : Past} (run : Run allowed start past w) (holds : Hub MemorySystem → Prop)
    (hstart : ∀ h, start.hub = some h → holds h) (hcreate : ∀ config, holds (.create config))
    (hchange : ∀ {w m r h h' cause}, allowed w m r → w.hub = some h → (w.move m).2.hub = some h' → holds h →
      h.Change cause h' → holds h')
    (hlose : ∀ {w m r h s} {callback : Callback} {job : Job} {jobs : List Job}, allowed w m r →
      m = .deliver ∧ r = .broke → w.hub = some h → h.handle = some s → s.queue = (callback :: job) :: jobs →
      holds h → holds { h with handle := some { s with queue := jobs } }) :
    ∀ h, w.hub = some h → holds h := by
  intro h hh
  refine run.scene_invariant (fun x => holds x.hub) ?_ (fun config _ _ => hcreate config) ?_ _
    (World.scene_of_hub hh)
  · intro x hx
    obtain ⟨h', hh', rfl⟩ := Option.map_eq_some_iff.mp hx
    exact hstart h' hh'
  · intro w m r w' x x' hallowed hmove hx hx' hholds hc
    obtain ⟨h, hh, rfl⟩ := Option.map_eq_some_iff.mp hx
    obtain ⟨h', hh', rfl⟩ := Option.map_eq_some_iff.mp hx'
    generalize w'.tracker = t at hc
    generalize w'.provider = p at hc
    cases hc with
    | ids => exact hholds
    | hub _ change => exact hchange hallowed hh (by rw [hmove, hh']) hholds change
    | lose broke kept queue => exact hlose hallowed broke hh kept queue hholds

end WalletHub
