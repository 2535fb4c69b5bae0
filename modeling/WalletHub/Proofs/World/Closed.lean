import WalletHub.Proofs.World.Threads

/-!
# Closed hubs

A closed hub still has its system, and the system goes on lining up callbacks, the ones of its own
disconnection among them. All of them reach the listener of the hub, which hands them to the tracker
whether or not the hub is open. What is handed over in a run is said by `World.learned` for moves and by
`World.overheard` where tasks run beside them, and `Course.tracker_eq` and `Threads.tracker_eq` say that the
tracker learns just this, in this order.

The hub is meant to publish nothing before it is opened again, and as far as callbacks, commands and failing
openings go this is so (`Hub.Step.silent`). But the task of a hub is only told to stop by a closing. If it
is on an errand it reads the wallets and publishes them without asking whether the hub is still open, and it
stops where it would wait next. `Threads.closed_board_eq` says what is published on a closed hub in the end:
the lists that such tasks release (`World.releases`), one after the other, and nothing else. It follows when
a closed hub is silent: exactly if no cancelled task has anything to release, and so in particular if none
was on an errand at the closing. `late_release` is a run in which one was.
-/

namespace WalletHub

theorem Action.eq_deliver_or (a : Action) :
    (∃ c alone, a = .deliver c alone) ∨ ∀ c alone, a ≠ .deliver c alone := by
  cases a with
  | deliver c alone => exact Or.inl ⟨c, alone, rfl⟩
  | _ =>
    refine Or.inr fun c alone h => ?_
    cases h

variable {φ σ : Type} [WalletSystem σ] [SystemFactory φ σ] [Steering φ σ]

/-! ### What the tracker is told -/

namespace World

/-- The callback that a move delivers to the listener of the hub. -/
def listened (w : World φ σ) : Move → List Callback
  | .deliver => match w.hub.bind Hub.handle with
    | some s => ((WalletSystem.queue s).headD []).take 1
    | none => []
  | .act (.deliver c false) =>
    if Steering.scripted w.surroundings.factory && (w.hub.bind Hub.handle).isSome then [c] else []
  | _ => []

/-- The callback that a move hands to the tracker: the one that is delivered to the listener of the hub, or
one that the user hands to the tracker himself. -/
def handed (w : World φ σ) : Move → List Callback
  | .act (.deliver c true) => [c]
  | m => w.listened m

/-- The callbacks that are handed to the tracker in a number of moves, the oldest first, but for those at
which it breaks off. -/
def learned (w : World φ σ) : List Move → List Callback
  | [] => []
  | m :: moves => ((w.handed m).filter fun c => !w.breaksAt c) ++ (w.go m).2.learned moves

/-- What the tracker knows, and the callbacks that were noted. -/
def told (w : World φ σ) : Tracker × List Callback := (w.tracker, w.seen)

omit [WalletSystem σ] [SystemFactory φ σ] [Steering φ σ] in
theorem told_setSystem (w : World φ σ) (s : σ) : (w.setSystem s).told = w.told := by
  obtain ⟨loose, hset⟩ := w.exists_setSystem s
  rw [hset]
  rfl

omit [WalletSystem σ] [SystemFactory φ σ] in
/-- Running a command changes the last system, the clock on the wall, and what is around the hub, at most. -/
theorem exists_runCommand (w : World φ σ) (c : MemorySystem.Command) : ∃ (change : σ → σ) (loose : Option (Loose σ))
    (wall : Instant) (around : Surroundings φ), (w.runCommand c).2 = { w with
      surroundings := around, wall := wall, loose := loose,
      hub := w.hub.map fun h => { h with handle := h.handle.map change } } := by
  have hsame : w.hub.map (fun h => { h with handle := h.handle.map id }) = w.hub := by
    cases hhub : w.hub with
    | none => rfl
    | some h => rw [Option.map_some, Option.map_id_apply]
  have hset (x : World φ σ) (s : MemorySystem) (hub : x.hub = w.hub) : ∃ (change : σ → σ) (loose : Option (Loose σ)),
      x.setMemorySystem s = { x with
        loose := loose, hub := w.hub.map fun h => { h with handle := h.handle.map change } } := by
    unfold setMemorySystem
    split
    · next last _ =>
      obtain ⟨loose, hset⟩ := x.exists_setSystem (Steering.ofMemory φ s last)
      exact ⟨_, loose, by rw [hset, hub]⟩
    · exact ⟨id, x.loose, by rw [hsame, ← hub]⟩
  cases hs : w.memorySystem? with
  | none =>
    simp only [runCommand, hs]
    exact ⟨id, w.loose, w.wall, w.surroundings, by rw [hsame]⟩
  | some s =>
    cases c with
    | disconnect =>
      obtain ⟨change, loose, heq⟩ := hset w (WalletSystem.disconnect w.surroundings.disk s).system rfl
      simp only [runCommand, hs, heq]
      exact ⟨change, loose, _, _, rfl⟩
    | addWallet currency =>
      obtain ⟨change, loose, heq⟩ := hset w (s.addWallet currency) rfl
      simp only [runCommand, hs, heq]
      exact ⟨change, loose, _, _, rfl⟩
    | _ =>
      simp only [runCommand, hs]
      split
      · next s' _ =>
        obtain ⟨change, loose, heq⟩ := hset { w with wall := w.wall.later 1 } s' rfl
        rw [heq]
        exact ⟨change, loose, _, _, rfl⟩
      · next s' _ =>
        obtain ⟨change, loose, heq⟩ := hset w s' rfl
        rw [heq]
        exact ⟨change, loose, _, _, rfl⟩

/-- Only deliveries tell anything, and only the user changes the enabled ids. -/
theorem quiet_act (w : World φ σ) {a : Action} (other : ∀ c alone, a ≠ .deliver c alone) :
    (w.act a).2.told = w.told ∧ ((w.act a).2.provider = w.provider ∨
      Enables w.provider (.act a) (w.act a).2.provider) := by
  cases a with
  | deliver c alone => exact absurd rfl (other c alone)
  | enable id => exact ⟨rfl, Or.inr (.enable id)⟩
  | disable id => exact ⟨rfl, Or.inr (.disable id)⟩
  | setEnabled ids => exact ⟨rfl, Or.inr (.set ids)⟩
  | command c =>
    obtain ⟨change, loose, wall, around, hcommand⟩ := w.exists_runCommand c
    rw [act, hcommand]
    exact ⟨rfl, Or.inl rfl⟩
  | openHub account =>
    cases hhub : w.hub with
    | none =>
      have hact : (w.act (.openHub account)).2 = w := by simp only [act, openFor, hhub]
      rw [hact]
      exact ⟨rfl, Or.inl rfl⟩
    | some h =>
      obtain ⟨answer, h', around, trap, -, hact⟩ := exists_opening hhub account
      rw [hact]
      exact ⟨rfl, Or.inl rfl⟩
  | closeHub =>
    simp only [act, close]
    split <;> exact ⟨rfl, Or.inl rfl⟩
  | dropHub =>
    simp only [act, dropHub]
    split <;> exact ⟨rfl, Or.inl rfl⟩
  | restart config =>
    simp only [act, restart, dropHub]
    split <;> exact ⟨rfl, Or.inl rfl⟩
  | subscribe name topic =>
    simp only [act, subscribe]
    cases w.hub with
    | some h => exact ⟨rfl, Or.inl rfl⟩
    | none => cases topic.needsHub <;> exact ⟨rfl, Or.inl rfl⟩
  | next name =>
    simp only [act, next]
    cases w.subscribers.lookup name <;> exact ⟨rfl, Or.inl rfl⟩
  | drain name =>
    simp only [act, drain]
    cases w.subscribers.lookup name <;> exact ⟨rfl, Or.inl rfl⟩
  | create account recorded =>
    have hact : (w.act (.create account recorded)).2 = (w.createLoose account recorded).2 := by
      simp only [act]
      split <;> next heq => rw [heq]
    rw [hact]
    simp only [createLoose]
    split <;> exact ⟨rfl, Or.inl rfl⟩
  | setWallets wallets =>
    simp only [act]
    split
    · next s _ =>
      obtain ⟨loose, hset⟩ := (w.onFactory (Steering.showNext wallets)).exists_setSystem (Steering.showNow φ wallets s)
      rw [hset]
      exact ⟨rfl, Or.inl rfl⟩
    · exact ⟨rfl, Or.inl rfl⟩
  | askCalls =>
    simp only [act, takeCalls]
    split <;> exact ⟨rfl, Or.inl rfl⟩
  | _ => exact ⟨rfl, Or.inl rfl⟩

/-- The tracker has learned some callbacks in going from one world to another, and as long as the hub has a
system they are the ones that were noted. -/
structure Learns (cs : List Callback) (w w' : World φ σ) : Prop where
  tracker : w'.tracker = cs.foldl (fun t c => t.learn c) w.tracker
  seen : (w.hub.bind Hub.handle).isSome = true → w'.seen = w.seen ++ cs

omit [WalletSystem σ] [SystemFactory φ σ] [Steering φ σ] in
theorem Learns.of_told {w w' : World φ σ} (h : w'.told = w.told) : Learns [] w w' := by
  obtain ⟨htracker, hseen⟩ := Prod.mk.inj h
  exact ⟨htracker, fun _ => by rw [hseen, List.append_nil]⟩

omit [SystemFactory φ σ] [Steering φ σ] in
/-- A delivery tells the tracker if the hub has the system. -/
theorem learns_deliver (c : Callback) (w : World φ σ) :
    Learns ((if (w.hub.bind Hub.handle).isSome then [c] else []).filter fun c => !w.breaksAt c) w
      (w.deliver c).2 := by
  have hend := w.delivery_deliver c
  generalize (w.deliver c).1 = answer at hend
  generalize (w.deliver c).2 = w' at hend ⊢
  cases hend with
  | broke reason hbreaks =>
    have hnone : ((if (w.hub.bind Hub.handle).isSome then [c] else []).filter fun c => !w.breaksAt c) = [] := by
      split <;> simp [hbreaks]
    rw [hnone]
    exact .of_told rfl
  | received hhub hkept hwhole =>
    have hone : ((if (w.hub.bind Hub.handle).isSome then [c] else []).filter fun c => !w.breaksAt c) = [c] := by
      simp [hhub, hkept, hwhole]
    rw [hone]
    exact ⟨rfl, fun _ => rfl⟩
  | aside hbare seen =>
    have hnone : ((if (w.hub.bind Hub.handle).isSome then [c] else []).filter fun c => !w.breaksAt c) = [] := by
      simp [hbare]
    rw [hnone]
    exact ⟨rfl, fun hsome => by rw [hbare] at hsome; exact nomatch hsome⟩

omit [WalletSystem σ] [SystemFactory φ σ] [Steering φ σ] in
/-- What is noted and learned does not depend on the system. -/
theorem Learns.congr {cs : List Callback} {w x w' x' : World φ σ} (h : Learns cs x x') (first : x.told = w.told)
    (last : w'.told = x'.told) (kept : (w.hub.bind Hub.handle).isSome = true → (x.hub.bind Hub.handle).isSome = true) :
    Learns cs w w' := by
  obtain ⟨htracker, hseen⟩ := Prod.mk.inj first
  obtain ⟨htracker', hseen'⟩ := Prod.mk.inj last
  refine ⟨?_, fun hsome => ?_⟩
  · rw [htracker', h.tracker, htracker]
  · rw [hseen', h.seen (kept hsome), hseen]

omit [WalletSystem σ] [SystemFactory φ σ] [Steering φ σ] in
/-- Where there is no system the hub has none. -/
theorem bare_of_lastSystem {w : World φ σ} (h : w.lastSystem = none) : w.hub.bind Hub.handle = none := by
  unfold lastSystem at h
  split at h
  · exact nomatch h
  · assumption

omit [SystemFactory φ σ] in
/-- The first callback of the oldest job is delivered to the listener, if the hub has the system. -/
theorem listened_deliver {w : World φ σ} {s : σ} (hlast : w.lastSystem = some s) : w.listened .deliver =
    if (w.hub.bind Hub.handle).isSome then ((WalletSystem.queue s).headD []).take 1 else [] := by
  unfold lastSystem at hlast
  simp only [listened]
  split
  · next s' hs' =>
    rw [hs'] at hlast ⊢
    obtain rfl := Option.some.inj hlast
    rfl
  · next hnone => rw [hnone]; rfl

omit [WalletSystem σ] [SystemFactory φ σ] [Steering φ σ] in
/-- Another system in the place of the last one is held by the hub if the last one was. -/
theorem isSome_setSystem (w : World φ σ) (s : σ) :
    ((w.setSystem s).hub.bind Hub.handle).isSome = (w.hub.bind Hub.handle).isSome := by
  obtain ⟨loose, hset⟩ := w.exists_setSystem s
  rw [hset]
  cases w.hub with
  | none => rfl
  | some h => cases hhandle : h.handle <;> simp [hhandle]

omit [SystemFactory φ σ] in
theorem learns_deliverFirst (w : World φ σ) :
    Learns ((w.listened .deliver).filter fun c => !w.breaksAt c) w w.deliverFirst.2 := by
  cases hlast : w.lastSystem with
  | none =>
    have hnone := bare_of_lastSystem hlast
    simp only [listened, hnone, deliverFirst, hlast, List.filter_nil]
    exact .of_told rfl
  | some s =>
    rw [listened_deliver hlast]
    cases hqueue : WalletSystem.queue s with
    | nil =>
      simp only [deliverFirst, hlast, hqueue, List.headD_nil, List.take_nil, ite_self, List.filter_nil]
      exact .of_told rfl
    | cons job jobs =>
      cases job with
      | nil =>
        simp only [deliverFirst, hlast, hqueue, List.headD_cons, List.take_nil, ite_self, List.filter_nil]
        exact .of_told (told_setSystem w _)
      | cons c job =>
        obtain ⟨loose, hset⟩ := w.exists_setSystem (WalletSystem.withQueue (job :: jobs) s)
        have hsystem := w.isSome_setSystem (WalletSystem.withQueue (job :: jobs) s)
        have hbreaks (c : Callback) : (w.setSystem (WalletSystem.withQueue (job :: jobs) s)).breaksAt c =
            w.breaksAt c := by rw [hset]; rfl
        have hlearns := learns_deliver c (w.setSystem (WalletSystem.withQueue (job :: jobs) s))
        simp only [hsystem, hbreaks] at hlearns
        refine hlearns.congr (told_setSystem w _) ?_ fun hsome => hsystem.trans hsome
        simp only [deliverFirst, hlast, hqueue]
        split
        · next heq => rw [heq]
        · next heq =>
          rw [heq]
          exact told_setSystem _ _

theorem learns_act (w : World φ σ) {a : Action} (other : ∀ c alone, a ≠ .deliver c alone) :
    Learns ((w.handed (.act a)).filter fun c => !w.breaksAt c) w (w.act a).2 := by
  have hnone : w.handed (.act a) = [] := by
    cases a with
    | deliver c alone => exact absurd rfl (other c alone)
    | _ => rfl
  rw [hnone]
  exact .of_told (w.quiet_act other).1

omit [SystemFactory φ σ] in
theorem learns_deliverScripted (w : World φ σ) (c : Callback) (alone : Bool) :
    Learns ((w.handed (.act (.deliver c alone))).filter fun c => !w.breaksAt c) w (w.deliverScripted c alone).2 := by
  cases alone with
  | true =>
    simp only [handed, deliverScripted, if_true]
    rcases w.toTracker_cases c with ⟨hbreaks, reason, htracker⟩ | ⟨hwhole, htracker⟩
    · rw [htracker, List.filter_cons_of_neg (by simp [hbreaks]), List.filter_nil]
      exact .of_told rfl
    · rw [htracker, List.filter_cons_of_pos (by simp [hwhole]), List.filter_nil]
      exact ⟨rfl, fun _ => rfl⟩
  | false =>
    simp only [handed, listened, deliverScripted, Bool.false_eq_true, if_false]
    cases hscripted : Steering.scripted w.surroundings.factory with
    | false =>
      simp only [Bool.false_and, Bool.false_eq_true, if_false, List.filter_nil]
      exact .of_told rfl
    | true =>
      simp only [Bool.true_and]
      cases hlast : w.lastSystem with
      | some s => exact learns_deliver c w
      | none =>
        rw [bare_of_lastSystem hlast]
        exact .of_told rfl

/-- **What a move tells the tracker** is what it hands to it, unless the tracker breaks off. -/
theorem learns_go (w : World φ σ) {m : Move} (kept : m ≠ .forget) :
    Learns ((w.handed m).filter fun c => !w.breaksAt c) w (w.go m).2 := by
  cases m with
  | forget => exact absurd rfl kept
  | deliver => exact learns_deliverFirst w
  | task =>
    refine .of_told ?_
    simp only [go, runSession]
    split <;> rfl
  | act a =>
    rcases a.eq_deliver_or with ⟨c, alone, rfl⟩ | hother
    · exact learns_deliverScripted w c alone
    · exact learns_act w hother

/-- What a tick hands to the tracker, but for a callback at which it breaks off. -/
def overhears (w : World φ σ) : Tick → List Callback
  | .move m => (w.handed m).filter fun c => !w.breaksAt c
  | .task | .leaving _ => []

/-- The callbacks that are handed to the tracker in a number of ticks, the oldest first, but for those at
which it breaks off. -/
def overheard (w : World φ σ) : List Tick → List Callback
  | [] => []
  | b :: ticks => w.overhears b ++ (w.tick b).overheard ticks

theorem overheard_append (w : World φ σ) (ticks ticks' : List Tick) :
    w.overheard (ticks ++ ticks') = w.overheard ticks ++ (w.through ticks).overheard ticks' := by
  induction ticks generalizing w with
  | nil => rfl
  | cons b ticks ih => rw [List.cons_append, overheard, overheard, ih, List.append_assoc, through]

theorem overheard_move (w : World φ σ) (moves : List Move) :
    w.overheard (moves.map .move) = w.learned moves := by
  induction moves generalizing w with
  | nil => rfl
  | cons m moves ih => rw [List.map_cons, overheard, learned, tick, ih, overhears]

omit [SystemFactory φ σ] [Steering φ σ] in
/-- A step of a task tells the tracker nothing. -/
theorem Stride.told {w w' : World φ σ} {b : Tick} (stride : w.Stride b w') : w'.told = w.told := by
  rcases stride.cases with ⟨-, rfl⟩ | ⟨h, h', log, -, -, rfl⟩
  · rfl
  · rfl

/-- **What a tick tells the tracker** is what it hands to it, unless the tracker breaks off. -/
theorem learns_tick (w : World φ σ) {b : Tick} (kept : b ≠ .move .forget) :
    Learns (w.overhears b) w (w.tick b) := by
  cases b with
  | move m => exact w.learns_go fun hm => kept (congrArg Tick.move hm)
  | task => exact .of_told (Stride.task (w := w)).told
  | leaving i => exact .of_told (Stride.leaving (w := w) i).told

/-- The lists of wallets that tasks publish in a number of ticks, the oldest first. -/
def releases (w : World φ σ) : List Tick → List (List Wallet)
  | [] => []
  | b :: ticks => (w.release b).toList ++ (w.tick b).releases ticks

theorem releases_append (w : World φ σ) (ticks ticks' : List Tick) :
    w.releases (ticks ++ ticks') = w.releases ticks ++ (w.through ticks).releases ticks' := by
  induction ticks generalizing w with
  | nil => rfl
  | cons b ticks ih => rw [List.cons_append, releases, releases, ih, List.append_assoc, through]

end World

namespace Threads

variable {allowed allowed' : World φ σ → Move → Reply → Prop} {start w w' : World φ σ}
  {ticks ticks' : List Tick} {past past' : Past}

/-! ### What is told in a run -/

theorem overheard_snoc (threads : Threads allowed start ticks past w) (b : Tick) :
    start.overheard (ticks ++ [b]) = start.overheard ticks ++ w.overhears b := by
  rw [World.overheard_append, ← threads.eq_through, World.overheard, World.overheard, List.append_nil]

theorem releases_snoc (threads : Threads allowed start ticks past w) (b : Tick) :
    start.releases (ticks ++ [b]) = start.releases ticks ++ (w.release b).toList := by
  rw [World.releases_append, ← threads.eq_through, World.releases, World.releases, List.append_nil]

/-- **The tracker learns every callback that it is handed**, in the order of the deliveries. -/
theorem tracker_eq (threads : Threads allowed start ticks past w) :
    w.tracker = (start.overheard ticks).foldl (fun t c => t.learn c) start.tracker := by
  induction threads with
  | start => rfl
  | @move ticks past w w' threads m r moved _ ih =>
    obtain rfl : w' = w.tick (.move m) := by rw [World.tick, moved]
    rw [threads.overheard_snoc, List.foldl_append, ← ih]
    by_cases hforget : m = .forget
    · subst hforget
      rfl
    · exact (w.learns_tick fun hb => hforget (Tick.move.inj hb)).tracker
  | @stride ticks past w w' threads b stride ih =>
    have htold := congrArg Prod.fst stride.told
    have hnothing : w.overhears b = [] := by cases stride <;> rfl
    rw [threads.overheard_snoc, hnothing, List.append_nil, ← ih]
    exact htold

/-- As long as nothing is forgotten and the hub keeps a system just these callbacks are noted. -/
theorem seen_eq (threads : Threads allowed start ticks past w) (kept : w.dropped = start.dropped) {h : Hub σ}
    (hub : start.hub = some h) (system : h.handle.isSome = true) (noted : ∀ r, (.forget, r) ∉ past) :
    w.seen = start.seen ++ start.overheard ticks := by
  induction threads with
  | start => rw [World.overheard, List.append_nil]
  | @move ticks past w w' threads m r moved ok ih =>
    have hbefore : w.dropped = start.dropped :=
      Nat.le_antisymm (kept ▸ (Upshot.upshot_go moved).dropped_le) threads.dropped_le
    obtain ⟨h', hh', hsystem⟩ := threads.keeps hbefore hub (fun h => h.handle.isSome = true) system
      (fun _ _ _ _ _ hsome step => step.handle_isSome hsome)
      fun _ _ _ _ _ hsome stride => stride.fields.2.1 ▸ hsome
    obtain rfl : w' = w.tick (.move m) := by rw [World.tick, moved]
    have hforget : Tick.move m ≠ .move .forget := by
      intro hb
      obtain rfl := Tick.move.inj hb
      exact noted r (List.mem_append_right _ List.mem_cons_self)
    rw [threads.overheard_snoc, ← List.append_assoc, ← ih hbefore fun r hr => noted r (List.mem_append_left _ hr)]
    exact (w.learns_tick hforget).seen (by rw [hh', Option.bind_some, hsystem])
  | @stride ticks past w w' threads b stride ih =>
    have htold := congrArg Prod.snd stride.told
    have hnothing : w.overhears b = [] := by cases stride <;> rfl
    rw [threads.overheard_snoc, hnothing, List.append_nil, ← ih (stride.dropped.symm.trans kept) noted]
    exact htold

/-- The task of a hub is there as long as the hub is open. -/
theorem session_eq {config : Config} {factory : φ} {disk : Disk} {wall : Instant} {enabled : List String}
    {withHub : Bool} (threads : Threads allowed (.start config factory disk wall enabled withHub) ticks past w)
    {h : Hub σ} (hub : w.hub = some h) : h.session.isSome = h.isOpen := by
  refine threads.hub_invariant (fun h => h.session.isSome = h.isOpen) ?_ (fun _ => rfl)
    (fun _ _ _ _ paired step => step.session_eq paired) (fun _ _ _ _ _ paired stride => stride.session_eq paired) h hub
  intro h hh
  cases withHub with
  | false => exact nomatch hh
  | true =>
    obtain rfl := Option.some.inj hh
    rfl

/-! ### What a closed hub publishes -/

/-- **As long as a hub is closed it publishes what its cancelled tasks release**, and nothing else. Their
number does not grow. -/
theorem board_of_closed (threads : Threads allowed w ticks past w') (kept : w'.dropped = w.dropped)
    (unopened : ∀ account, (.act (.openHub account), .ok) ∉ past) {h : Hub σ} (hub : w.hub = some h)
    (closed : h.isOpen = false) (idle : h.session = none) :
    ∃ h', w'.hub = some h' ∧ h'.isOpen = false ∧ h'.session = none ∧
      h'.board = (w.releases ticks).foldl (fun b ws => b.offerWallets ws) h.board ∧
      h'.leaving.length ≤ h.leaving.length ∧ (h.leaving = [] → w.releases ticks = []) := by
  induction threads with
  | start => exact ⟨h, hub, closed, idle, rfl, Nat.le_refl _, fun _ => rfl⟩
  | @move ticks past w₁ w' threads m r moved ok ih =>
    have hupshot := Upshot.upshot_go moved
    have hbefore : w₁.dropped = w.dropped :=
      Nat.le_antisymm (kept ▸ hupshot.dropped_le) threads.dropped_le
    obtain ⟨h₁, hh₁, hclosed₁, hidle₁, hboard₁, hleaving₁, hnone₁⟩ :=
      ih hbefore fun account hm => unopened account (List.mem_append_left _ hm)
    have hnothing : w₁.release (.move m) = none := by
      rw [World.release, hh₁]
      rfl
    rw [threads.releases_snoc, hnothing, Option.toList_none, List.append_nil]
    obtain ⟨h', hh', rfl | hstep⟩ := hupshot.step_of_kept (kept.trans hbefore.symm) hh₁
    · exact ⟨h', hh', hclosed₁, hidle₁, hboard₁, hleaving₁, hnone₁⟩
    · have hunasked (account : Account) : ¬(m = .act (.openHub account) ∧ r = .ok) := by
        rintro ⟨rfl, rfl⟩
        exact unopened account (List.mem_append_right _ List.mem_cons_self)
      obtain ⟨hclosed', hidle', hboard', hleaving'⟩ := hstep.silent hclosed₁ hidle₁ hunasked
      exact ⟨h', hh', hclosed', hidle', hboard'.trans hboard₁, hleaving' ▸ hleaving₁, hnone₁⟩
  | @stride ticks past w₁ w' threads b stride ih =>
    obtain ⟨h₁, hh₁, hclosed₁, hidle₁, hboard₁, hleaving₁, hnone₁⟩ := ih (stride.dropped.symm.trans kept) unopened
    have hrelease : w₁.release b = h₁.release b := by rw [World.release, hh₁, Option.bind_some]
    rw [threads.releases_snoc, hrelease, List.foldl_append, ← hboard₁]
    rcases stride.cases with ⟨hnone, -⟩ | ⟨h₂, h', log, hh₂, hstride, rfl⟩
    · exact nomatch hnone.symm.trans hh₁
    obtain rfl := Option.some.inj (hh₂.symm.trans hh₁)
    obtain ⟨hopen', -, -, hsession', hle⟩ := hstride.fields
    refine ⟨h', rfl, hopen'.trans hclosed₁, ?_, ?_, Nat.le_trans hle hleaving₁, ?_⟩
    · rw [hidle₁] at hsession'
      exact Option.not_isSome_iff_eq_none.mp (by rw [hsession']; exact Bool.false_ne_true)
    · rw [hstride.board, Hub.board_publish]
    · intro hempty
      rw [hnone₁ hempty, List.nil_append]
      have hgone : h₂.leaving = [] := List.eq_nil_of_length_eq_zero (by rw [hempty] at hleaving₁; simpa using hleaving₁)
      cases hstride with
      | task => simp only [Hub.release, Hub.errand?, hidle₁, Option.bind_none, Option.toList_none]
      | leaving i => simp only [Hub.release, hgone, List.getElem?_nil, Option.bind_none, Option.toList_none]

/-- **What is published on a closed hub**, wherever a run has come to, whatever happens from there on and
however its tasks run, as long as the hub is not dropped: if the hub is closed and no opening succeeds then
the lists that cancelled tasks release are published, and nothing else on any channel. So the hub is silent
exactly if none is released. Open or closed, the tracker learns the callbacks that the listener is given. -/
theorem closed_board_eq {config : Config} {factory : φ} {disk : Disk} {wall : Instant} {enabled : List String}
    {withHub : Bool} (before : Threads allowed (.start config factory disk wall enabled withHub) ticks past w)
    (threads : Threads allowed' w ticks' past' w') {h : Hub σ} (hub : w.hub = some h)
    (kept : w'.dropped = w.dropped) :
    ∃ h', w'.hub = some h' ∧
      (h.isOpen = false → (∀ account, (.act (.openHub account), .ok) ∉ past') →
        h'.isOpen = false ∧ h'.board = (w.releases ticks').foldl (fun b ws => b.offerWallets ws) h.board ∧
        (h'.board = h.board ↔ w.releases ticks' = []) ∧ (h.leaving = [] → h'.board = h.board)) ∧
      w'.tracker = (w.overheard ticks').foldl (fun t c => t.learn c) w.tracker ∧
      (h.handle.isSome = true → (∀ r, (.forget, r) ∉ past') → w'.seen = w.seen ++ w.overheard ticks') := by
  obtain ⟨h', hh', -⟩ := threads.grown kept hub
  refine ⟨h', hh', ?_, threads.tracker_eq, fun hsystem hnoted => threads.seen_eq kept hub hsystem hnoted⟩
  intro hclosed hunopened
  have hidle : h.session = none := by
    have hpaired := before.session_eq hub
    rw [hclosed] at hpaired
    exact Option.not_isSome_iff_eq_none.mp (by rw [hpaired]; exact Bool.false_ne_true)
  obtain ⟨h₁, hh₁, hclosed', -, hboard, -, hnone⟩ := threads.board_of_closed kept hunopened hub hclosed hidle
  obtain rfl := Option.some.inj (hh₁.symm.trans hh')
  have hsilent : h₁.board = h.board ↔ w.releases ticks' = [] := by
    constructor
    · intro hsame
      have hversion := Board.version_foldl_offerWallets (w.releases ticks') h.board
      rw [← hboard, hsame] at hversion
      exact List.eq_nil_of_length_eq_zero (by omega)
    · intro hempty
      rw [hboard, hempty]
      rfl
  exact ⟨hclosed', hboard, hsilent, fun hempty => hsilent.mpr (hnone hempty)⟩

end Threads

/-- **The tracker learns every callback that it is handed**, in the order of the deliveries. -/
theorem Course.tracker_eq {start w : World φ σ} {past : Past} (course : Course start past w) :
    w.tracker = (start.learned (past.map Prod.fst)).foldl (fun t c => t.learn c) start.tracker := by
  have hmoves : (past.map fun entry => Tick.move entry.1) = (past.map Prod.fst).map .move := by
    rw [List.map_map]
    rfl
  rw [← World.overheard_move, ← hmoves]
  exact course.threads.tracker_eq

/-- A hub that was closed when its task had read the wallets, of which there were none, and had not yet
published them. -/
def closedAmid : List Tick :=
  [.move (.act (.openHub ⟨"alice", ⟨0, 0⟩, [1]⟩)), .task, .task, .task,
    .move (.act (.command (.addWallet ⟨"bitcoin", "btc", "Bitcoin", 8⟩))), .move (.act .closeHub)]

/-- What happens then: the task goes on, and all that waits is delivered. -/
def afterClosing : List Tick :=
  [.leaving 0, .move .deliver, .move .deliver, .move .deliver, .move .deliver, .move .deliver, .move .deliver,
    .leaving 0]

/-- The closed hub publishes the list of no wallets, although it has a wallet. -/
theorem late_release : ∃ h h', (neverOpen.through closedAmid).hub = some h ∧
    ((neverOpen.through closedAmid).through afterClosing).hub = some h' ∧
    h.isOpen = false ∧ h'.isOpen = false ∧ h'.board = h.board.offerWallets [] ∧ h'.board ≠ h.board ∧
    h'.leaving = [] ∧ h'.wallets.map Wallet.code = ["btc"] ∧
    (((neverOpen.through closedAmid).overheard afterClosing).map Callback.label) =
      ["system:manager_added", "manager:btc:created", "wallet:btc:created", "manager:btc:wallet_added",
        "manager:btc:changed"] := by
  have before := Threads.through neverOpen closedAmid (World.possible_of_forall (fun _ _ _ => trivial) _ _)
  have rest := Threads.through (neverOpen.through closedAmid) afterClosing
    (World.possible_of_forall (fun _ _ _ => trivial) _ _)
  obtain ⟨h, hh⟩ : ∃ h, (neverOpen.through closedAmid).hub = some h := Option.isSome_iff_exists.mp (by rfl)
  have hclosed : (neverOpen.through closedAmid).hub.map Hub.isOpen = some false := by rfl
  rw [hh, Option.map_some] at hclosed
  have hpast : (neverOpen.through closedAmid).past afterClosing = [(.deliver, .ok), (.deliver, .ok), (.deliver, .ok),
      (.deliver, .ok), (.deliver, .nothing), (.deliver, .ok)] := by rfl
  have hunopened : ∀ account, (Move.act (.openHub account), Reply.ok) ∉
      (neverOpen.through closedAmid).past afterClosing := by
    rw [hpast]
    intro account hmem
    simp at hmem
  obtain ⟨h', hh', hboard, -⟩ := before.closed_board_eq rest hh rfl
  obtain ⟨hclosed', hboard, hsilent, -⟩ := hboard (Option.some.inj hclosed) hunopened
  have hreleases : (neverOpen.through closedAmid).releases afterClosing = [[]] := by rfl
  rw [hreleases] at hboard hsilent
  have hend : ((neverOpen.through closedAmid).through afterClosing).hub.map
      (fun h => (h.leaving.length, h.wallets.map Wallet.code)) = some (0, ["btc"]) := by rfl
  rw [hh', Option.map_some, Option.some.injEq, Prod.mk.injEq] at hend
  obtain ⟨hleaving, hwallets⟩ := hend
  exact ⟨h, h', hh, hh', Option.some.inj hclosed, hclosed', hboard, fun hsame => (nomatch hsilent.mp hsame),
    List.eq_nil_of_length_eq_zero hleaving, hwallets, rfl⟩

end WalletHub
