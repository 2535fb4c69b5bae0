import WalletHub.Proofs.Hub.Step
import WalletHub.Proofs.World.Effect

/-!
# Runs over systems of any kind

A `Run` is about systems in memory. A `Course` is the same for systems of every kind, moves and answers
included: the runs over systems in memory are courses (`Run.course`), and so are the steps of a run over
systems by script (`World.exists_course_step`), whose callbacks all come from outside.

What a move does to the hub and to the subscriptions is said once, in `Upshot`, and what it tells the
tracker in `Told`. All that is proved of courses goes through these two.

## What is proved

* `delivery_deliver`: how the delivery of a callback ends, for a hub that has the system, for a hub that has none,
  and where the tracker breaks off.
* `Upshot.upshot_go`: every move has one of the upshots of `Upshot`: it leaves the hub and the subscriptions alone,
  takes one step of the hub (`Hub.Step`), drops the hub or makes one, or changes one subscription.
* `Upshot.step_of_kept`, `Upshot.hub_kept`: so what is true of new hubs and kept by the steps of a hub stays true.
* `Course.keeps`: the same of one hub that is never dropped, in view of the moves of the course.
* `Course.eq_after`: a world is what its moves have made of the first one.
-/

namespace WalletHub

variable {φ σ : Type}

/-! ### The hub and the subscriptions -/

/-- Replacing the last system changes the hub that has it, or the system beside the hub. -/
theorem World.exists_setSystem (w : World φ σ) (s : σ) : ∃ loose, w.setSystem s =
    { w with hub := w.hub.map fun h => { h with handle := h.handle.map fun _ => s }, loose := loose } := by
  cases hhub : w.hub with
  | none =>
    simp only [setSystem, hhub, Option.map_none]
    exact ⟨_, rfl⟩
  | some h =>
    cases hhandle : h.handle with
    | none =>
      have hsame : { h with handle := none } = h := by rw [← hhandle]
      simp only [setSystem, hhub, hhandle, Option.map_some, Option.map_none, hsame]
      exact ⟨_, rfl⟩
    | some last =>
      simp only [setSystem, hhub, hhandle, Option.map_some]
      exact ⟨_, rfl⟩

/-- All subscriptions keep the board of the hub that is dropped, if they do not keep an older one. -/
theorem World.lookup_dropHub {w : World φ σ} {h : Hub σ} (hhub : w.hub = some h) (name : String) :
    w.dropHub.subscribers.lookup name =
      (w.subscribers.lookup name).map fun s => { s with frozen := s.frozen.or (some h.board) } := by
  simp only [dropHub, hhub]
  generalize w.subscribers = subscribers
  induction subscribers with
  | nil => rfl
  | cons entry rest ih =>
    obtain ⟨other, s'⟩ := entry
    rw [List.map_cons, Entries.lookup_cons, Entries.lookup_cons]
    by_cases hname : name = other
    · rw [if_pos hname, if_pos hname, Option.map_some]
    · rw [if_neg hname, if_neg hname, ih]

/-! ### Deliveries -/

namespace World

/-- The tracker breaks off when it is handed the callback. -/
def breaksAt (c : Callback) (w : World φ σ) : Bool := w.trap.any fun trap => trap.target = .callback c.family

variable [WalletSystem σ]

/-- How the delivery of a callback ends: the answer, and the world. -/
inductive Delivery (c : Callback) (w : World φ σ) : Except String Unit → World φ σ → Prop where
  | broke (reason : String) (breaks : w.breaksAt c = true) : Delivery c w (.error reason) { w with trap := none }
  /-- The hub has the system. -/
  | received {h : Hub σ} {s : σ} (hub : w.hub = some h) (kept : h.handle = some s) (whole : w.breaksAt c = false) :
      Delivery c w (.ok ()) { w with
        seen := w.seen ++ [c], tracker := w.tracker.learn c, hub := some (h.receive c) }
  /-- It is noted at most. -/
  | aside (bare : w.hub.bind Hub.handle = none) (seen : List Callback) :
      Delivery c w (.ok ()) { w with seen := seen }

omit [WalletSystem σ] in
theorem note_cases (c : Callback) (w : World φ σ) :
    w.breaksAt c = true ∧ (∃ reason, w.note c = (.error reason, { w with trap := none })) ∨
      w.breaksAt c = false ∧ w.note c = (.ok (), { w with seen := w.seen ++ [c] }) := by
  unfold note breaksAt
  cases w.trap with
  | none => exact Or.inr ⟨rfl, rfl⟩
  | some trap =>
    by_cases h : trap.target = .callback c.family
    · simp only [if_pos h]
      exact Or.inl ⟨decide_eq_true h, trap.reason, rfl⟩
    · simp only [if_neg h]
      exact Or.inr ⟨decide_eq_false h, trivial⟩

omit [WalletSystem σ] in
theorem toTracker_cases (c : Callback) (w : World φ σ) :
    w.breaksAt c = true ∧ (∃ reason, w.toTracker c = (.error reason, { w with trap := none })) ∨
      w.breaksAt c = false ∧
        w.toTracker c = (.ok (), { w with seen := w.seen ++ [c], tracker := w.tracker.learn c }) := by
  unfold toTracker
  rcases w.note_cases c with ⟨hbreaks, reason, hnote⟩ | ⟨hwhole, hnote⟩
  · exact Or.inl ⟨hbreaks, reason, by rw [hnote]⟩
  · exact Or.inr ⟨hwhole, by rw [hnote]⟩

/-- **Every delivery ends in one of these ways.** -/
theorem delivery_deliver (c : Callback) (w : World φ σ) : w.Delivery c (w.deliver c).1 (w.deliver c).2 := by
  cases hnone : w.hub.bind Hub.handle with
  | none =>
    simp only [deliver, hnone]
    split
    · rcases w.note_cases c with ⟨hbreaks, reason, hnote⟩ | ⟨-, hnote⟩
      · rw [hnote]
        exact .broke reason hbreaks
      · rw [hnote]
        exact .aside hnone _
    · exact .aside hnone w.seen
  | some s =>
    obtain ⟨h, hhub, hhandle⟩ := Option.bind_eq_some_iff.mp hnone
    simp only [deliver, hnone]
    rcases w.toTracker_cases c with ⟨hbreaks, reason, htracker⟩ | ⟨hwhole, htracker⟩
    · rw [htracker]
      exact .broke reason hbreaks
    · simp only [htracker, hhub, Option.map_some]
      exact .received hhub hhandle hwhole

end World

/-! ### What a move does -/

/-- Nothing has happened but to the subscriptions. -/
structure Undisturbed (w w' : World φ σ) : Prop where
  hub : w'.hub = w.hub
  dropped : w'.dropped = w.dropped
  now : w'.now = w.now

section

variable [WalletSystem σ]

/-- What a move does to the hub and the subscriptions. -/
inductive Upshot (w : World φ σ) (m : Move) (r : Reply) (w' : World φ σ) : Prop where
  /-- They stay as they are. Time may pass. -/
  | stay (hub : w'.hub = w.hub) (dropped : w'.dropped = w.dropped) (subscribers : w'.subscribers = w.subscribers)
      (now : w.now ≤ w'.now) (unheard : Unheard m r)
  | change {h h' : Hub σ} (hub : w.hub = some h) (step : h.Step m r h') (hub' : w'.hub = some h')
      (dropped : w'.dropped = w.dropped) (subscribers : w'.subscribers = w.subscribers) (now : w'.now = w.now)
      (unheard : Unheard m r)
  /-- The hub is dropped, and maybe another one is made. The subscriptions keep its board. -/
  | drop {h : Hub σ} (hub : w.hub = some h) (hub' : w'.hub = none ∨ ∃ config, w'.hub = some (.create config))
      (dropped : w'.dropped = w.dropped + 1)
      (frozen : ∀ name, w'.subscribers.lookup name =
        (w.subscribers.lookup name).map fun s => { s with frozen := s.frozen.or (some h.board) })
      (now : w'.now = w.now) (unheard : Unheard m r)
  /-- A hub is made where there was none. -/
  | make (hub : w.hub = none) (hub' : ∃ config, w'.hub = some (.create config)) (dropped : w'.dropped = w.dropped)
      (subscribers : w'.subscribers = w.subscribers) (now : w'.now = w.now) (unheard : Unheard m r)
  | subscribe {h : Hub σ} {name : String} {topic : Topic} (made : m = .act (.subscribe name topic) ∧ r = .nothing)
      (hub : w.hub = some h) (still : Undisturbed w w')
      (subscribers : w'.subscribers = Entries.put name
        ⟨.create h.config.throttle h.config.transferThrottle topic, w.dropped, none⟩ w.subscribers)
  /-- A subscription is made that needs no hub. -/
  | subscribeAlone {name : String} {topic : Topic} (made : m = .act (.subscribe name topic) ∧ r = .nothing)
      (alone : topic.needsHub = false) (hub : w.hub = none) (still : Undisturbed w w')
      (subscribers : w'.subscribers = Entries.put name ⟨.create 0 0 topic, w.dropped, none⟩ w.subscribers)
  | unsubscribe {name : String} (still : Undisturbed w w')
      (subscribers : w'.subscribers = Entries.drop name w.subscribers) (unheard : Unheard m r)
  /-- A subscription is asked for an item. -/
  | next {name : String} {s : Subscriber} (made : w.subscribers.lookup name = some s)
      (asked : m = .act (.next name) ∧ r = .polled (s.subscription.poll (w.view name s)).1)
      (still : Undisturbed w w')
      (subscribers : w'.subscribers = Entries.put name
        { s with subscription := (s.subscription.poll (w.view name s)).2 } w.subscribers)
  /-- A subscription is asked for items until there is none. -/
  | drain {name : String} {s : Subscriber} (made : w.subscribers.lookup name = some s)
      (asked : m = .act (.drain name) ∧
        r = .drained (s.subscription.drain (w.view name s) drainLimit).1
          (s.subscription.drain (w.view name s) drainLimit).2.1)
      (still : Undisturbed w w')
      (subscribers : w'.subscribers = Entries.put name
        { s with subscription := (s.subscription.drain (w.view name s) drainLimit).2.2 } w.subscribers)

namespace Upshot

variable {w w' : World φ σ} {m : Move} {r : Reply}

/-- Nothing has happened to the hub and the subscriptions. -/
theorem same (hub : w'.hub = w.hub) (dropped : w'.dropped = w.dropped)
    (subscribers : w'.subscribers = w.subscribers) (now : w'.now = w.now) (unheard : Unheard m r) :
    Upshot w m r w' :=
  .stay hub dropped subscribers (Nat.le_of_eq now.symm) unheard

/-- The system of the hub, if it has one, is another one. -/
theorem of_hold (s : σ) (hub : w'.hub = w.hub.map fun h => { h with handle := h.handle.map fun _ => s })
    (dropped : w'.dropped = w.dropped) (subscribers : w'.subscribers = w.subscribers) (now : w'.now = w.now)
    (unheard : Unheard m r) : Upshot w m r w' := by
  cases hhub : w.hub with
  | none => exact same (by rw [hub, hhub]; rfl) dropped subscribers now unheard
  | some h =>
    rw [hhub, Option.map_some] at hub
    cases hhandle : h.handle with
    | none =>
      have hsame : { h with handle := none } = h := by rw [← hhandle]
      rw [hhandle, Option.map_none, hsame] at hub
      exact same (hub.trans hhub.symm) dropped subscribers now unheard
    | some last =>
      rw [hhandle, Option.map_some] at hub
      exact .change hhub (.hold s) hub dropped subscribers now unheard

theorem of_setSystem (s : σ) (unheard : Unheard m r) : Upshot w m r (w.setSystem s) := by
  obtain ⟨loose, hset⟩ := w.exists_setSystem s
  rw [hset]
  exact of_hold s rfl rfl rfl rfl unheard

end Upshot

end

variable [WalletSystem σ] [SystemFactory φ σ] [Steering φ σ]

/-! ### Moves -/

namespace World

/-- Delivers the next callback of the oldest job. Where it breaks off the rest of the job is lost. -/
def deliverFirst (w : World φ σ) : Reply × World φ σ :=
  match w.lastSystem with
  | none => (.nothing, w)
  | some s => match WalletSystem.queue s with
    | [] => (.nothing, w)
    | [] :: jobs => (.nothing, w.setSystem (WalletSystem.withQueue jobs s))
    | (callback :: job) :: jobs =>
      match (w.setSystem (WalletSystem.withQueue (job :: jobs) s)).deliver callback with
      | (.ok (), w) => (.ok, w)
      | (.error reason, w) =>
        (.broke, (w.setSystem (WalletSystem.withQueue jobs s)).report [.callbackBroke reason])

/-- Makes a move, whatever the systems are. -/
def go (w : World φ σ) : Move → Reply × World φ σ
  | .act a => w.act a
  | .deliver => w.deliverFirst
  | .task => (.nothing, w.runSession)
  | .forget => (.nothing, { w with seen := [], surroundings := { w.surroundings with log := [] } })

/-- Of systems in memory it is the move that was meant before. -/
theorem go_eq_move (w : MemoryWorld) (m : Move) : w.go m = w.move m := by
  cases m with
  | deliver =>
    show w.deliverFirst = w.deliverOne
    cases hs : w.lastSystem with
    | none => simp only [deliverFirst, deliverOne, hs]
    | some s =>
      have hqueue : WalletSystem.queue s = s.queue := rfl
      have hwith (jobs : List Job) : WalletSystem.withQueue jobs s = { s with queue := jobs } := rfl
      cases hjobs : s.queue with
      | nil => simp only [deliverFirst, deliverOne, hs, hqueue, hjobs]
      | cons job jobs =>
        cases job with
        | nil => simp only [deliverFirst, deliverOne, hs, hqueue, hjobs, hwith]
        | cons callback job =>
          simp only [deliverFirst, deliverOne, hs, hqueue, hjobs, hwith]
          generalize (w.setSystem { s with queue := job :: jobs }).deliver callback = delivered
          obtain ⟨answer, w'⟩ := delivered
          cases answer <;> rfl
  | act | task | forget => rfl

/-- The world after some moves. -/
def after (w : World φ σ) : List Move → World φ σ
  | [] => w
  | m :: moves => (w.go m).2.after moves

theorem after_append (w : World φ σ) (moves moves' : List Move) :
    w.after (moves ++ moves') = (w.after moves).after moves' := by
  induction moves generalizing w with
  | nil => rfl
  | cons m moves ih => exact ih (w.go m).2

end World

/-- What can happen in a world from `start` on, with the answers. -/
inductive Course (start : World φ σ) : Past → World φ σ → Prop where
  | start : Course start [] start
  | move {past : Past} {w w' : World φ σ} (course : Course start past w) {m : Move} {r : Reply}
      (moved : w.go m = (r, w')) : Course start (past ++ [(m, r)]) w'

namespace Course

variable {start w w' : World φ σ} {past past' : Past}

theorem trans (course : Course start past w) (course' : Course w past' w') :
    Course start (past ++ past') w' := by
  induction course' with
  | start => rwa [List.append_nil]
  | move _ moved ih =>
    rw [← List.append_assoc]
    exact ih.move moved

/-- A world is what its moves have made of the first one. -/
theorem eq_after (course : Course start past w) : w = start.after (past.map Prod.fst) := by
  induction course with
  | start => rfl
  | move _ moved ih =>
    rw [List.map_append, World.after_append, ← ih, List.map_singleton, World.after, moved, World.after]

end Course

/-- **A run over systems in memory is a course.** -/
theorem Run.course {allowed : MemoryWorld → Move → Reply → Prop} {start w : MemoryWorld} {past : Past}
    (run : Run allowed start past w) : Course start past w := by
  induction run with
  | start => exact .start
  | move _ moved _ ih => exact ih.move ((World.go_eq_move _ _).trans moved)

/-- **A step of a run over systems by script is a course**: nothing waits for delivery in it. -/
theorem World.exists_course_step (w : World ScriptedFactory ScriptedSystem) (a : Action) :
    ∃ past, Course w past (w.step a).2 := by
  have hsettle (w' : World ScriptedFactory ScriptedSystem) : w'.settle = w'.runSession := by
    have hwaiting : w'.waiting = 0 := by
      unfold waiting
      split <;> rfl
    rw [settle, hwaiting, deliverCount]
  have hmove (w' : World ScriptedFactory ScriptedSystem) (m : Move) : Course w' [(m, (w'.go m).1)] (w'.go m).2 :=
    .move .start rfl
  have hstep : (w.step a).2 = (((w.go .forget).2.go (.act a)).2.go .task).2 := hsettle _
  rw [hstep]
  exact ⟨_, ((hmove w .forget).trans (hmove _ (.act a))).trans (hmove _ .task)⟩

/-! ### Opening and closing -/

/-- An opening leaves the hub as it comes to an end, and takes the monitor's trap at most. -/
theorem World.exists_opening {w : World φ σ} {h : Hub σ} (hub : w.hub = some h) (account : Account) :
    ∃ answer h' around trap, Hub.Opening account w.nextSession h w.surroundings answer h' around ∧
      w.act (.openHub account) = (lifecycleReply (some answer),
        { w with surroundings := around, hub := some h', trap := trap }) := by
  have hend := Hub.opening_openFor account w.nextSession h w.surroundings
  obtain ⟨answer, h', around, hopen⟩ : ∃ answer h' around,
      h.openFor account w.nextSession w.surroundings = (answer, h', around) := ⟨_, _, _, rfl⟩
  rw [hopen] at hend
  simp only [act, openFor, hub, hopen]
  cases answer with
  | error error => exact ⟨_, h', around, w.trap, hend, rfl⟩
  | ok done =>
    simp only [monitorTaken]
    split
    · exact ⟨_, h', around, none, hend, rfl⟩
    · exact ⟨_, h', around, w.trap, hend, rfl⟩

namespace Upshot

variable {w w' : World φ σ} {m : Move} {r : Reply}

theorem of_openFor (w : World φ σ) (account : Account) :
    Upshot w (.act (.openHub account)) (w.act (.openHub account)).1 (w.act (.openHub account)).2 := by
  have hheard (r : Reply) : Unheard (.act (.openHub account)) r := fun _ _ => rfl
  cases hhub : w.hub with
  | none =>
    simp only [World.act, World.openFor, hhub]
    exact same rfl rfl rfl rfl (hheard _)
  | some h =>
    obtain ⟨answer, h', around, trap, hend, hact⟩ := World.exists_opening hhub account
    rw [hact]
    cases hend with
    | alreadyOpen | emptyAccount | noDirectory | notObtained => exact same hhub.symm rfl rfl rfl (hheard _)
    | mismatch => exact .change hhub (.hold _) rfl rfl rfl rfl (hheard _)
    | launched => exact .change hhub (.launch _ _ ⟨account, rfl⟩ rfl) rfl rfl rfl rfl (hheard _)

theorem of_close (w : World φ σ) :
    Upshot w (.act .closeHub) (w.act .closeHub).1 (w.act .closeHub).2 := by
  have hheard (r : Reply) : Unheard (.act .closeHub) r := fun _ _ => rfl
  cases hhub : w.hub with
  | none =>
    simp only [World.act, World.close, hhub]
    exact same rfl rfl rfl rfl (hheard _)
  | some h =>
    simp only [World.act, World.close, hhub]
    cases hopen : h.isOpen with
    | false =>
      simp only [Hub.close, hopen, Bool.false_eq_true, if_false]
      exact same hhub.symm rfl rfl rfl (hheard _)
    | true =>
      cases hhandle : h.handle with
      | none =>
        simp only [Hub.close, hopen, hhandle, if_true]
        have hbare : h.cancelled = { h.cancelled with handle := none } := by rw [← hhandle]; rfl
        rw [hbare]
        exact .change hhub (.close none (by rw [hhandle]; exact id)) rfl rfl rfl rfl (hheard _)
      | some s =>
        simp only [Hub.close, hopen, hhandle, if_true]
        exact .change hhub (.close (some _) fun _ => rfl) rfl rfl rfl rfl (hheard _)

theorem of_dropHub (w : World φ σ) : Upshot w (.act .dropHub) (w.act .dropHub).1 (w.act .dropHub).2 := by
  cases hhub : w.hub with
  | none =>
    simp only [World.act, World.dropHub, hhub]
    exact same rfl rfl rfl rfl fun _ _ => rfl
  | some h =>
    have hfrozen := World.lookup_dropHub hhub
    refine .drop hhub (Or.inl ?_) ?_ hfrozen ?_ fun _ _ => rfl
    all_goals simp only [World.act, World.dropHub, hhub]

theorem of_restart (w : World φ σ) (config : Option Config) :
    Upshot w (.act (.restart config)) (w.act (.restart config)).1 (w.act (.restart config)).2 := by
  cases hhub : w.hub with
  | none =>
    refine .make hhub ⟨_, rfl⟩ ?_ ?_ ?_ fun _ _ => rfl
    all_goals simp only [World.act, World.restart, World.dropHub, hhub]
  | some h =>
    have hfrozen := World.lookup_dropHub hhub
    refine .drop hhub (Or.inr ⟨_, rfl⟩) ?_ hfrozen ?_ fun _ _ => rfl
    all_goals simp only [World.act, World.restart, World.dropHub, hhub]

/-! ### Subscriptions -/

theorem of_subscribe (w : World φ σ) (name : String) (topic : Topic) :
    Upshot w (.act (.subscribe name topic)) (w.act (.subscribe name topic)).1
      (w.act (.subscribe name topic)).2 := by
  cases hhub : w.hub with
  | some h =>
    simp only [World.act, World.subscribe, hhub]
    exact .subscribe ⟨rfl, rfl⟩ hhub ⟨hhub.symm, rfl, rfl⟩ rfl
  | none =>
    cases hneeds : topic.needsHub with
    | true =>
      simp only [World.act, World.subscribe, hhub, hneeds, if_true]
      exact same rfl rfl rfl rfl fun _ _ => rfl
    | false =>
      simp only [World.act, World.subscribe, hhub, hneeds, Bool.false_eq_true, if_false]
      exact .subscribeAlone ⟨rfl, rfl⟩ hneeds hhub ⟨hhub.symm, rfl, rfl⟩ rfl

theorem of_next (w : World φ σ) (name : String) :
    Upshot w (.act (.next name)) (w.act (.next name)).1 (w.act (.next name)).2 := by
  cases hlookup : w.subscribers.lookup name with
  | none =>
    simp only [World.act, World.next, hlookup]
    exact same rfl rfl rfl rfl fun _ _ => rfl
  | some s =>
    simp only [World.act, World.next, hlookup]
    exact .next hlookup ⟨rfl, rfl⟩ ⟨rfl, rfl, rfl⟩ rfl

theorem of_drain (w : World φ σ) (name : String) :
    Upshot w (.act (.drain name)) (w.act (.drain name)).1 (w.act (.drain name)).2 := by
  cases hlookup : w.subscribers.lookup name with
  | none =>
    simp only [World.act, World.drain, hlookup]
    exact same rfl rfl rfl rfl fun _ _ => rfl
  | some s =>
    simp only [World.act, World.drain, hlookup]
    exact .drain hlookup ⟨rfl, rfl⟩ ⟨rfl, rfl, rfl⟩ rfl

/-! ### Commands and deliveries -/

omit [SystemFactory φ σ] in
/-- A command changes the last system at most. -/
theorem of_setMemorySystem {x : World φ σ} (s : MemorySystem) (still : Undisturbed w x)
    (kept : x.subscribers = w.subscribers) (hub : w'.hub = (x.setMemorySystem s).hub)
    (dropped : w'.dropped = (x.setMemorySystem s).dropped)
    (subscribers : w'.subscribers = (x.setMemorySystem s).subscribers)
    (now : w'.now = (x.setMemorySystem s).now) (unheard : Unheard m r) : Upshot w m r w' := by
  unfold World.setMemorySystem at hub dropped subscribers now
  split at hub
  · next last hlast =>
    obtain ⟨loose, hset⟩ := x.exists_setSystem (Steering.ofMemory φ s last)
    simp only [hlast, hset] at hub dropped subscribers now
    rw [still.hub] at hub
    exact of_hold _ hub (dropped.trans still.dropped) (subscribers.trans kept) (now.trans still.now) unheard
  · next hlast =>
    simp only [hlast] at dropped subscribers now
    exact same (hub.trans still.hub) (dropped.trans still.dropped) (subscribers.trans kept)
      (now.trans still.now) unheard

omit [SystemFactory φ σ] in
theorem of_runCommand (w : World φ σ) (c : MemorySystem.Command) :
    Upshot w (.act (.command c)) (w.runCommand c).1 (w.runCommand c).2 := by
  have hheard (r : Reply) : Unheard (.act (.command c)) r := fun _ _ => rfl
  cases hs : w.memorySystem? with
  | none =>
    simp only [World.runCommand, hs]
    exact same rfl rfl rfl rfl (hheard _)
  | some s =>
    cases c with
    | disconnect =>
      simp only [World.runCommand, hs]
      exact of_setMemorySystem _ ⟨rfl, rfl, rfl⟩ rfl rfl rfl rfl rfl (hheard _)
    | addWallet currency =>
      simp only [World.runCommand, hs]
      exact of_setMemorySystem _ ⟨rfl, rfl, rfl⟩ rfl rfl rfl rfl rfl (hheard _)
    | _ =>
      simp only [World.runCommand, hs]
      split
      · exact of_setMemorySystem (x := { w with wall := w.wall.later 1 }) _ ⟨rfl, rfl, rfl⟩ rfl rfl rfl rfl rfl
          (hheard _)
      · exact of_setMemorySystem _ ⟨rfl, rfl, rfl⟩ rfl rfl rfl rfl rfl (hheard _)

omit [SystemFactory φ σ] [Steering φ σ] in
/-- A delivery, maybe after the last system has changed, is received by the hub or by no hub. -/
theorem of_deliver {w₁ : World φ σ}
    (before : w₁.hub = w.hub ∨ ∃ s, w₁.hub = w.hub.map fun h => { h with handle := h.handle.map fun _ => s })
    (dropped : w₁.dropped = w.dropped) (subscribers : w₁.subscribers = w.subscribers) (now : w₁.now = w.now)
    (c : Callback) (unheard : Unheard m r) : Upshot w m r (w₁.deliver c).2 := by
  have hend := w₁.delivery_deliver c
  generalize (w₁.deliver c).1 = answer at hend
  generalize (w₁.deliver c).2 = w₂ at hend ⊢
  rcases before with hsame | ⟨s, hheld⟩
  · cases hend with
    | broke | aside => exact same hsame dropped subscribers now unheard
    | @received h s hhub hkept =>
      have hsystem : { h with handle := some s } = h := by rw [← hkept]
      refine .change (hsame.symm.trans hhub) (.receive c s) ?_ dropped subscribers now unheard
      rw [hsystem]
  · cases hend with
    | broke | aside => exact of_hold s hheld dropped subscribers now unheard
    | @received h₁ s₁ hhub₁ hkept =>
      obtain ⟨h, hhub, rfl⟩ := Option.map_eq_some_iff.mp (hheld.symm.trans hhub₁)
      obtain ⟨last, hhandle, rfl⟩ := Option.map_eq_some_iff.mp hkept
      rw [hhandle, Option.map_some]
      exact .change hhub (.receive c s) rfl dropped subscribers now unheard

omit [SystemFactory φ σ] [Steering φ σ] in
theorem of_deliverFirst (w : World φ σ) : Upshot w .deliver w.deliverFirst.1 w.deliverFirst.2 := by
  have hheard (r : Reply) : Unheard .deliver r := fun _ _ => rfl
  unfold World.deliverFirst
  split
  · exact same rfl rfl rfl rfl (hheard _)
  · next s _ =>
    split
    · exact same rfl rfl rfl rfl (hheard _)
    · exact of_setSystem _ (hheard _)
    · next c job jobs _ =>
      obtain ⟨loose, hset⟩ := w.exists_setSystem (WalletSystem.withQueue (job :: jobs) s)
      have hdeliver (r : Reply) : Upshot w .deliver r
          ((w.setSystem (WalletSystem.withQueue (job :: jobs) s)).deliver c).2 := by
        refine of_deliver (Or.inr ⟨WalletSystem.withQueue (job :: jobs) s, ?_⟩) ?_ ?_ ?_ c (hheard r)
        all_goals rw [hset]
      have hend := (w.setSystem (WalletSystem.withQueue (job :: jobs) s)).delivery_deliver c
      split
      · next w₂ heq =>
        rw [heq] at hdeliver
        exact hdeliver _
      · next reason w₂ heq =>
        rw [heq] at hend
        cases hend with
        | broke _ hbreaks =>
          obtain ⟨loose', hset'⟩ := World.exists_setSystem
            { w.setSystem (WalletSystem.withQueue (job :: jobs) s) with trap := none } (WalletSystem.withQueue jobs s)
          rw [hset', hset]
          refine of_hold (WalletSystem.withQueue jobs s) ?_ rfl rfl rfl (hheard _)
          cases w.hub with
          | none => rfl
          | some h => cases hhandle : h.handle <;> simp [World.report, hhandle]

/-! ### All moves -/

theorem of_act (w : World φ σ) (a : Action) : Upshot w (.act a) (w.act a).1 (w.act a).2 := by
  cases a with
  | openHub account => exact of_openFor w account
  | closeHub => exact of_close w
  | dropHub => exact of_dropHub w
  | restart config => exact of_restart w config
  | subscribe name topic => exact of_subscribe w name topic
  | unsubscribe name => exact .unsubscribe ⟨rfl, rfl, rfl⟩ rfl fun _ _ => rfl
  | next name => exact of_next w name
  | drain name => exact of_drain w name
  | advance ms => exact .stay rfl rfl rfl (Nat.le_add_right _ _) fun _ _ => rfl
  | command c => exact of_runCommand w c
  | setWallets wallets =>
    have hheard (r : Reply) : Unheard (.act (.setWallets wallets)) r := fun _ _ => rfl
    simp only [World.act]
    split
    · next s _ =>
      obtain ⟨loose, hset⟩ := (w.onFactory (Steering.showNext wallets)).exists_setSystem
        (Steering.showNow φ wallets s)
      rw [hset]
      exact of_hold _ rfl rfl rfl rfl (hheard _)
    · exact same rfl rfl rfl rfl (hheard _)
  | create account recorded =>
    have hheard (r : Reply) : Unheard (.act (.create account recorded)) r := fun _ _ => rfl
    have hact : (w.act (.create account recorded)).2 = (w.createLoose account recorded).2 := by
      simp only [World.act]
      split <;> next heq => rw [heq]
    rw [hact]
    simp only [World.createLoose]
    split <;> exact same rfl rfl rfl rfl (hheard _)
  | deliver callback trackerOnly =>
    have hheard (r : Reply) : Unheard (.act (.deliver callback trackerOnly)) r := fun _ _ => rfl
    simp only [World.act, World.deliverScripted]
    split
    · rcases w.toTracker_cases callback with ⟨-, reason, htracker⟩ | ⟨-, htracker⟩
      · rw [htracker]
        exact same rfl rfl rfl rfl (hheard _)
      · rw [htracker]
        exact same rfl rfl rfl rfl (hheard _)
    · split
      · exact of_deliver (Or.inl rfl) rfl rfl rfl callback (hheard _)
      · exact same rfl rfl rfl rfl (hheard _)
  | askCalls =>
    simp only [World.act, World.takeCalls]
    split <;> exact same rfl rfl rfl rfl fun _ _ => rfl
  | _ => exact same rfl rfl rfl rfl fun _ _ => rfl

/-- **Every move has one of these upshots.** -/
theorem upshot_go {w w' : World φ σ} {m : Move} {r : Reply} (h : w.go m = (r, w')) : Upshot w m r w' := by
  obtain ⟨rfl, rfl⟩ : r = (w.go m).1 ∧ w' = (w.go m).2 := by rw [h]; exact ⟨rfl, rfl⟩
  cases m with
  | act a => exact of_act w a
  | deliver => exact of_deliverFirst w
  | task =>
    cases hhub : w.hub with
    | none =>
      simp only [World.go, World.runSession, hhub]
      exact same rfl rfl rfl rfl fun _ _ => rfl
    | some h =>
      simp only [World.go, World.runSession, hhub]
      exact .change hhub (.task w.provider w.tracker) rfl rfl rfl rfl fun _ _ => rfl
  | forget => exact same rfl rfl rfl rfl fun _ _ => rfl

omit [SystemFactory φ σ] [Steering φ σ] in
/-- No hub that was dropped comes back. -/
theorem dropped_le {w w' : World φ σ} {m : Move} {r : Reply} (h : Upshot w m r w') : w.dropped ≤ w'.dropped := by
  cases h with
  | stay _ dropped | change _ _ _ dropped | make _ _ dropped => exact Nat.le_of_eq dropped.symm
  | drop _ _ dropped => exact dropped ▸ Nat.le_succ _
  | subscribe _ _ still | subscribeAlone _ _ _ still | unsubscribe still | next _ _ still | drain _ _ still =>
    exact Nat.le_of_eq still.dropped.symm

omit [SystemFactory φ σ] [Steering φ σ] in
/-- Time does not run backwards. -/
theorem now_le {w w' : World φ σ} {m : Move} {r : Reply} (h : Upshot w m r w') : w.now ≤ w'.now := by
  cases h with
  | stay _ _ _ now => exact now
  | change _ _ _ _ _ now | drop _ _ _ _ now | make _ _ _ _ now => exact Nat.le_of_eq now.symm
  | subscribe _ _ still | subscribeAlone _ _ _ still | unsubscribe still | next _ _ still | drain _ _ still =>
    exact Nat.le_of_eq still.now.symm

omit [SystemFactory φ σ] [Steering φ σ] in
/-- As long as no hub is dropped the hub stays as it is, or makes a step. -/
theorem step_of_kept {w w' : World φ σ} {m : Move} {r : Reply} (h : Upshot w m r w')
    (kept : w'.dropped = w.dropped) {hub : Hub σ} (hhub : w.hub = some hub) :
    ∃ hub', w'.hub = some hub' ∧ (hub' = hub ∨ hub.Step m r hub') := by
  cases h with
  | stay same => exact ⟨hub, same.trans hhub, Or.inl rfl⟩
  | change hub₁ step hub' =>
    obtain rfl := Option.some.inj (hub₁.symm.trans hhub)
    exact ⟨_, hub', Or.inr step⟩
  | drop _ _ dropped => exact absurd (dropped.symm.trans kept) (Nat.succ_ne_self _)
  | make hub₁ => exact nomatch hub₁.symm.trans hhub
  | subscribeAlone _ _ hub₁ => exact nomatch hub₁.symm.trans hhub
  | subscribe _ _ still | unsubscribe still | next _ _ still | drain _ _ still =>
    exact ⟨hub, still.hub.trans hhub, Or.inl rfl⟩

omit [SystemFactory φ σ] [Steering φ σ] in
/-- What holds of every new hub and is kept by every step is kept by the move. -/
theorem hub_kept {w w' : World φ σ} {m : Move} {r : Reply} (h : Upshot w m r w') {holds : Hub σ → Prop}
    (create : ∀ config, holds (.create config)) (keep : ∀ h h', holds h → h.Step m r h' → holds h')
    (before : ∀ h, w.hub = some h → holds h) : ∀ h', w'.hub = some h' → holds h' := by
  intro h' hh'
  have hsame (hub : w'.hub = w.hub) : holds h' := before h' (hub ▸ hh')
  have hnew (made : ∃ config, w'.hub = some (.create config)) : holds h' := by
    obtain ⟨config, hconfig⟩ := made
    obtain rfl := Option.some.inj (hconfig.symm.trans hh')
    exact create config
  cases h with
  | stay hub => exact hsame hub
  | change hub step hub' =>
    obtain rfl := Option.some.inj (hub'.symm.trans hh')
    exact keep _ _ (before _ hub) step
  | drop hub hub' =>
    rcases hub' with hnone | hmade
    · exact nomatch hnone.symm.trans hh'
    · exact hnew hmade
  | make hub hub' => exact hnew hub'
  | subscribe _ _ still | subscribeAlone _ _ _ still | unsubscribe still | next _ _ still | drain _ _ still =>
    exact hsame still.hub

end Upshot

/-! ### Hubs in a course -/

namespace Course

variable {start w w' : World φ σ} {past : Past}

theorem dropped_le (course : Course start past w) : start.dropped ≤ w.dropped := by
  induction course with
  | start => exact Nat.le_refl _
  | move _ moved ih => exact Nat.le_trans ih (Upshot.upshot_go moved).dropped_le

/-- **What every step of a hub keeps holds of it as long as it is there**, in view of the moves. -/
theorem keeps (course : Course start past w) (kept : w.dropped = start.dropped) {hub : Hub σ}
    (hhub : start.hub = some hub) (holds : Hub σ → Prop) (first : holds hub)
    (keep : ∀ h h' m r, (m, r) ∈ past → holds h → h.Step m r h' → holds h') :
    ∃ hub', w.hub = some hub' ∧ holds hub' := by
  induction course with
  | start => exact ⟨hub, hhub, first⟩
  | @move past w w' course m r moved ih =>
    have hupshot := Upshot.upshot_go moved
    have hbefore : w.dropped = start.dropped :=
      Nat.le_antisymm (kept ▸ hupshot.dropped_le) course.dropped_le
    obtain ⟨h, hh, hholds⟩ := ih hbefore fun h h' m r hm => keep h h' m r (List.mem_append_left _ hm)
    obtain ⟨h', hh', hsame | hstep⟩ := hupshot.step_of_kept (kept.trans hbefore.symm) hh
    · exact ⟨h', hh', hsame ▸ hholds⟩
    · exact ⟨h', hh', keep h h' m r (List.mem_append_right _ List.mem_cons_self) hholds hstep⟩

end Course

end WalletHub
