import WalletHub.Proofs.Hub.Opening
import WalletHub.Proofs.Memory.Incidents
import WalletHub.World.Action

/-!
# Runs, move by move

`World.step` does something and then delivers all that waits, so that its runs only ever pause where
everything has settled. Here a run is taken apart further: the single callbacks of a job, the runs of
the hub's task and the actions of the user are moves of their own, in any order (`Run`). A run carries its
past, the moves with what was answered to them, and `heard` says what a subscription has given so far.

## What is proved

* `Run.play`: moves make a run as far as they are allowed (`World.Playable`).
* `Run.trans`, `Run.mono`, `Run.restrict`: runs can be put together, and their restrictions weakened.
* `Run.strengthen`: what holds at the start and is kept by every move holds in the whole run, and can be assumed
  of it from then on.
* `heard_snoc`, `heard_append`: what was heard, move by move.
* `World.deliver_of_handle`, `World.deliver_of_loose`, `World.runCommand_eq`: what deliveries and commands come to,
  with the probe's trap taken out of them (`World.snag`).
-/

namespace WalletHub

/-- A run over systems in memory. -/
abbrev MemoryWorld := World MemoryFactory MemorySystem

/-- The hub of a world in which nothing has happened was never open. -/
theorem World.eq_create_of_start {config : Config} {factory : MemoryFactory} {disk : Disk} {wall : Instant}
    {enabled : List String} {withHub : Bool} {h : Hub MemorySystem}
    (hub : (World.start config factory disk wall enabled withHub : MemoryWorld).hub = some h) :
    h = .create config := by
  cases withHub with
  | false => exact nomatch hub
  | true => exact (Option.some.inj hub).symm

/-- A hub that was never open. -/
def neverOpen : MemoryWorld :=
  .start (.ofDirectory "data") (.start []) .empty ⟨1600000000, 0⟩ [] true

/-! ### Commands -/

theorem World.setMemorySystem_last {w : MemoryWorld} {s : MemorySystem} (last : w.lastSystem = some s) :
    w.setMemorySystem s = w := by
  simp only [setMemorySystem, last, setSystem, Steering.ofMemory]
  unfold lastSystem at last
  split at last
  · next kept hkept =>
    obtain ⟨h, hhub, hhandle⟩ := Option.bind_eq_some_iff.mp hkept
    obtain rfl := Option.some.inj last
    simp only [hhub, hhandle]
    rw [← hhandle, ← hhub]
  · next hnone =>
    obtain ⟨l, hloose, rfl⟩ := Option.map_eq_some_iff.mp last
    cases hhub : w.hub with
    | none =>
      simp only [hloose, Option.map_some]
      rw [← hloose, ← hhub]
    | some h =>
      have hhandle : h.handle = none := by simpa [hhub] using hnone
      simp only [hhandle, hloose, Option.map_some]
      rw [← hloose, ← hhub]

/-- A command that fails changes nothing in the world, since it leaves the system as it was. -/
theorem World.runCommand_eq (w : MemoryWorld) (c : MemorySystem.Command) :
    w.runCommand c = match w.memorySystem? with
      | none => (.noSystem, w)
      | some s => match c with
        | .disconnect =>
          let done := WalletSystem.disconnect w.surroundings.disk s
          (.ok, ((w.setMemorySystem done.system).onDisk fun _ => done.disk).report done.log)
        | .addWallet currency =>
          let s := s.addWallet currency
          (((Wallet.find? s.wallets currency.code).map Reply.wallet).getD .ok, w.setMemorySystem s)
        | c => match MemorySystem.run w.wall c s with
          | .ok s => (.ok, { w with wall := w.wall.later 1 }.setMemorySystem s)
          | .error e => (.runtimeError e, w) := by
  unfold runCommand
  cases hmemory : w.memorySystem? with
  | none => rfl
  | some s =>
    have hlast : w.lastSystem = some s := by
      cases hlast : w.lastSystem with
      | none => simp [memorySystem?, hlast] at hmemory
      | some last => simpa [memorySystem?, hlast, Steering.memory?] using hmemory
    have hcarried := MemorySystem.carryOut_eq w.wall c s
    cases hrun : MemorySystem.run w.wall c s with
    | ok s' =>
      rw [hrun] at hcarried
      cases c with
      | disconnect | addWallet => rfl
      | _ => simp only [hcarried, hrun]
    | error e =>
      rw [hrun] at hcarried
      cases c with
      | disconnect | addWallet => rfl
      | _ => simp only [hcarried, hrun, setMemorySystem_last hlast]

/-! ### Moves -/

/-- The least that can happen in a run. -/
inductive Move where
  /-- The user does something. -/
  | act (action : Action)
  /-- The next callback of the oldest job is delivered, or the job ends. -/
  | deliver
  /-- The hub's task runs. -/
  | task
  /-- What was noted and logged is forgotten. -/
  | forget

/-- The moves of a run with the answers to them, the oldest first. -/
abbrev Past := List (Move × Reply)

namespace World

/-- Delivers the next callback of the oldest job. Where it breaks off the rest of the job is lost. -/
def deliverOne (w : MemoryWorld) : Reply × MemoryWorld :=
  match w.lastSystem with
  | none => (.nothing, w)
  | some s => match s.queue with
    | [] => (.nothing, w)
    | [] :: jobs => (.nothing, w.setSystem { s with queue := jobs })
    | (callback :: job) :: jobs =>
      match (w.setSystem { s with queue := job :: jobs }).deliver callback with
      | (.ok (), w) => (.ok, w)
      | (.error reason, w) =>
        (.broke, (w.setSystem { s with queue := jobs }).report [.callbackBroke reason])

/-- Makes a move. -/
def move (w : MemoryWorld) : Move → Reply × MemoryWorld
  | .act a => w.act a
  | .deliver => w.deliverOne
  | .task => (.nothing, w.runSession)
  | .forget => (.nothing, { w with seen := [], surroundings := { w.surroundings with log := [] } })

end World

/-- The runs from a world on in which every move is allowed, in view of the world before it and the
answer to it. -/
inductive Run (allowed : MemoryWorld → Move → Reply → Prop) (start : MemoryWorld) :
    Past → MemoryWorld → Prop where
  | start : Run allowed start [] start
  | move {past : Past} {w w' : MemoryWorld} (run : Run allowed start past w) {m : Move} {r : Reply}
      (moved : w.move m = (r, w')) (ok : allowed w m r) : Run allowed start (past ++ [(m, r)]) w'

/-- Every move is allowed. -/
def anyMove (_ : MemoryWorld) (_ : Move) (_ : Reply) : Prop := True

/-- No delivery breaks off. -/
def unbroken (_ : MemoryWorld) (m : Move) (r : Reply) : Prop := ¬(m = .deliver ∧ r = .broke)

theorem unbroken_act (w : MemoryWorld) (a : Action) (r : Reply) : unbroken w (.act a) r :=
  fun h => nomatch h.1

/-- A callback has been delivered. -/
theorem unbroken_ok (w : MemoryWorld) (m : Move) : unbroken w m .ok := fun h => nomatch h.2

/-- A job has ended. -/
theorem unbroken_nothing (w : MemoryWorld) (m : Move) : unbroken w m .nothing := fun h => nomatch h.2

/-- Makes one move after the other. -/
def World.play (w : MemoryWorld) : List Move → Past × MemoryWorld
  | [] => ([], w)
  | m :: moves =>
    let (past, last) := World.play (w.move m).2 moves
    ((m, (w.move m).1) :: past, last)

/-- The past of such a run has just these moves. -/
theorem World.map_fst_play (w : MemoryWorld) (moves : List Move) : (w.play moves).1.map Prod.fst = moves := by
  induction moves generalizing w with
  | nil => rfl
  | cons m moves ih => exact congrArg (m :: ·) (ih (w.move m).2)

/-- All these moves are allowed, one after the other. -/
def World.Playable (allowed : MemoryWorld → Move → Reply → Prop) (w : MemoryWorld) : List Move → Prop
  | [] => True
  | m :: moves => allowed w m (w.move m).1 ∧ World.Playable allowed (w.move m).2 moves

namespace Run

variable {allowed : MemoryWorld → Move → Reply → Prop} {start w w' : MemoryWorld} {past past' : Past}

theorem trans (run : Run allowed start past w) (run' : Run allowed w past' w') :
    Run allowed start (past ++ past') w' := by
  induction run' with
  | start => rwa [List.append_nil]
  | move _ moved ok ih =>
    rw [← List.append_assoc]
    exact ih.move moved ok

theorem play (w : MemoryWorld) (moves : List Move) (h : w.Playable allowed moves) :
    Run allowed w (w.play moves).1 (w.play moves).2 := by
  induction moves generalizing w with
  | nil => exact .start
  | cons m moves ih =>
    obtain ⟨hm, hrest⟩ := h
    have hfirst : Run allowed w [(m, (w.move m).1)] (w.move m).2 := Run.start.move rfl hm
    exact hfirst.trans (ih (w.move m).2 hrest)

theorem play_any (w : MemoryWorld) (moves : List Move) : Run anyMove w (w.play moves).1 (w.play moves).2 := by
  refine play w moves ?_
  induction moves generalizing w with
  | nil => trivial
  | cons m moves ih => exact ⟨trivial, ih (w.move m).2⟩

/-- **What holds at the start and is kept by every move that is allowed holds in the whole run**, so
that the run is also one with this further restriction. -/
theorem strengthen (run : Run allowed start past w) (holds : MemoryWorld → Prop) (h : holds start)
    (keep : ∀ w m r w', holds w → allowed w m r → World.move w m = (r, w') → holds w') :
    holds w ∧ Run (fun w m r => holds w ∧ allowed w m r) start past w := by
  induction run with
  | start => exact ⟨h, .start⟩
  | move _ moved ok ih =>
    obtain ⟨hw, hrun⟩ := ih
    exact ⟨keep _ _ _ _ hw ok moved, hrun.move moved ⟨hw, ok⟩⟩

/-- A run is also one with a further restriction that its moves and answers obey. -/
theorem restrict {allowed' : Move → Reply → Prop} (run : Run allowed start past w)
    (h : ∀ m r, (m, r) ∈ past → allowed' m r) : Run (fun w m r => allowed w m r ∧ allowed' m r) start past w := by
  induction run with
  | start => exact .start
  | @move past w w' _ m r moved ok ih =>
    have hlast := h m r (List.mem_append_right past List.mem_cons_self)
    exact (ih fun m r hm => h m r (List.mem_append_left _ hm)).move moved ⟨ok, hlast⟩

theorem mono {allowed' : MemoryWorld → Move → Reply → Prop} (run : Run allowed start past w)
    (h : ∀ w m r, allowed w m r → allowed' w m r) : Run allowed' start past w := by
  induction run with
  | start => exact .start
  | move _ moved ok ih => exact ih.move moved (h _ _ _ ok)

end Run

/-! ### What a subscription has given -/

/-- What is known of the subscription of a name since it was made. -/
structure Heard where
  /-- It was asked for an item. -/
  asked : Bool
  /-- The items it gave. -/
  items : List Item

namespace Heard

/-- Nothing was heard. -/
def silence : Heard := ⟨false, []⟩

/-- It gave some items. -/
def hear (items : List Item) (x : Heard) : Heard := ⟨true, x.items ++ items⟩

/-- What is known after one more move. -/
def after (name : String) (x : Heard) : Move × Reply → Heard
  | (.act (.subscribe other _), .nothing) => if other = name then silence else x
  | (.act (.next other), .polled answer) => if other = name then x.hear answer.item?.toList else x
  | (.act (.drain other), .drained items _) => if other = name then x.hear items else x
  | _ => x

end Heard

/-- What the subscription of a name has given in a run. -/
def heard (name : String) (past : Past) : Heard := past.foldl (Heard.after name) .silence

theorem heard_snoc (name : String) (past : Past) (m : Move) (r : Reply) :
    heard name (past ++ [(m, r)]) = (heard name past).after name (m, r) := by
  simp [heard]

/-- What is heard goes on from what was heard before. -/
theorem heard_append (name : String) (past past' : Past) :
    heard name (past ++ past') = past'.foldl (Heard.after name) (heard name past) := by
  rw [heard, List.foldl_append, heard]

/-! ### Systems and deliveries -/

namespace World

theorem setSystem_of_handle {w : MemoryWorld} {h : Hub MemorySystem} {s : MemorySystem}
    (hhub : w.hub = some h) (hhandle : h.handle = some s) (s' : MemorySystem) :
    w.setSystem s' = { w with hub := some { h with handle := some s' } } := by
  simp only [setSystem, hhub, hhandle]

theorem setSystem_of_loose {w : MemoryWorld} (hnone : w.hub.bind Hub.handle = none) (s' : MemorySystem) :
    w.setSystem s' = { w with loose := w.loose.map fun l => { l with system := s' } } := by
  cases hhub : w.hub with
  | none => simp only [setSystem, hhub]
  | some h =>
    have hhandle : h.handle = none := by rwa [hhub] at hnone
    simp only [setSystem, hhub, hhandle]

theorem setSystem_setSystem (w : MemoryWorld) (s s' : MemorySystem) :
    (w.setSystem s).setSystem s' = w.setSystem s' := by
  cases hnone : w.hub.bind Hub.handle with
  | none =>
    have hnone' : (w.setSystem s).hub.bind Hub.handle = none := by rwa [setSystem_of_loose hnone]
    rw [setSystem_of_loose hnone', setSystem_of_loose hnone, setSystem_of_loose hnone]
    cases w.loose <;> rfl
  | some last =>
    obtain ⟨h, hhub, hhandle⟩ := Option.bind_eq_some_iff.mp hnone
    rw [setSystem_of_handle hhub hhandle, setSystem_of_handle hhub hhandle]
    rfl

theorem surroundings_setSystem (w : MemoryWorld) (s : MemorySystem) :
    (w.setSystem s).surroundings = w.surroundings := by
  cases hnone : w.hub.bind Hub.handle with
  | none => rw [setSystem_of_loose hnone]
  | some last =>
    obtain ⟨h, hhub, hhandle⟩ := Option.bind_eq_some_iff.mp hnone
    rw [setSystem_of_handle hhub hhandle]

theorem lastSystem_setSystem {w : MemoryWorld} {s : MemorySystem} (hs : w.lastSystem = some s)
    (s' : MemorySystem) : (w.setSystem s').lastSystem = some s' := by
  cases hnone : w.hub.bind Hub.handle with
  | none =>
    rw [setSystem_of_loose hnone]
    simp only [lastSystem, hnone] at hs ⊢
    obtain ⟨l, hl, -⟩ := Option.map_eq_some_iff.mp hs
    simp [hl]
  | some last =>
    obtain ⟨h, hhub, hhandle⟩ := Option.bind_eq_some_iff.mp hnone
    rw [setSystem_of_handle hhub hhandle]
    rfl

/-- The reason for which the probe will break off at a callback, if it will. -/
def snag (callback : Callback) (w : MemoryWorld) : Option String :=
  match w.trap with
  | some trap => if trap.target = .callback callback.family then some trap.reason else none
  | none => none

theorem note_eq (w : MemoryWorld) (callback : Callback) :
    w.note callback = match w.snag callback with
      | some reason => (.error reason, { w with trap := none })
      | none => (.ok (), { w with seen := w.seen ++ [callback] }) := by
  unfold note snag
  cases w.trap with
  | none => rfl
  | some trap =>
    by_cases h : trap.target = .callback callback.family
    · simp only [if_pos h]
    · simp only [if_neg h]

/-- A callback for the tracker is noted and learned, unless the probe breaks off. -/
theorem toTracker_eq (w : MemoryWorld) (callback : Callback) :
    w.toTracker callback = match w.snag callback with
      | some reason => (.error reason, { w with trap := none })
      | none => (.ok (), { w with
          seen := w.seen ++ [callback], tracker := w.tracker.learn callback }) := by
  simp only [toTracker, note_eq]
  cases w.snag callback <;> rfl

/-- A callback for the hub is noted, learned and received, unless the probe breaks off. -/
theorem deliver_of_handle {w : MemoryWorld} {h : Hub MemorySystem} {s : MemorySystem}
    (hhub : w.hub = some h) (hhandle : h.handle = some s) (callback : Callback) :
    w.deliver callback = match w.snag callback with
      | some reason => (.error reason, { w with trap := none })
      | none => (.ok (), { w with
          seen := w.seen ++ [callback], tracker := w.tracker.learn callback
          hub := some (h.receive callback) }) := by
  have hsome : w.hub.bind Hub.handle = some s := by rw [hhub, Option.bind_some, hhandle]
  simp only [deliver, hsome, toTracker_eq]
  cases w.snag callback with
  | some reason => rfl
  | none => simp only [hhub, Option.map_some]

/-- A callback that no hub receives is noted at most. -/
theorem deliver_of_loose {w : MemoryWorld} (hnone : w.hub.bind Hub.handle = none) (callback : Callback) :
    w.deliver callback =
      if w.loose.any Loose.recorded then w.note callback else (.ok (), w) := by
  simp only [deliver, hnone]

/-- The queue of the last system can be changed before a delivery as well as after it. -/
theorem deliver_setSystem {w : MemoryWorld} {s : MemorySystem} (hs : w.lastSystem = some s)
    (s' : MemorySystem) (hwallets : s'.wallets = s.wallets) (callback : Callback) :
    (w.setSystem s').deliver callback =
      ((w.deliver callback).1, (w.deliver callback).2.setSystem s') := by
  cases hnone : w.hub.bind Hub.handle with
  | none =>
    have hloose : (w.loose.map fun l => { l with system := s' }).any Loose.recorded =
        w.loose.any Loose.recorded := by
      cases w.loose <;> rfl
    have hset (w' : MemoryWorld) (h : w'.hub = w.hub) (hl : w'.loose = w.loose) : w'.setSystem s' =
        { w' with loose := w.loose.map fun l => { l with system := s' } } := by
      rw [setSystem_of_loose (by rw [h, hnone]), hl]
    rw [hset w rfl rfl, deliver_of_loose hnone,
      deliver_of_loose (w := { w with loose := w.loose.map fun l => { l with system := s' } }) hnone, hloose]
    split
    · rw [note_eq, note_eq]
      show (match w.snag callback with | some reason => _ | none => _) = _
      cases w.snag callback with
      | some reason => exact congrArg (Prod.mk _) (hset { w with trap := none } rfl rfl).symm
      | none => exact congrArg (Prod.mk _) (hset { w with seen := w.seen ++ [callback] } rfl rfl).symm
    · exact congrArg (Prod.mk _) (hset w rfl rfl).symm
  | some last =>
    obtain ⟨h, hhub, hhandle⟩ := Option.bind_eq_some_iff.mp hnone
    obtain rfl : last = s := by simpa [lastSystem, hnone] using hs
    have hreceive : Hub.receive callback { h with handle := some s' } =
        { h.receive callback with handle := some s' } := by
      have hsame : Hub.wallets { h with handle := some s' } = h.wallets := by
        simp only [Hub.wallets, hhandle, Option.map_some, Option.getD_some]
        exact hwallets
      simp only [Hub.receive, hsame]
      split <;> rfl
    rw [setSystem_of_handle hhub hhandle, deliver_of_handle rfl rfl, deliver_of_handle hhub hhandle]
    show (match w.snag callback with | some reason => _ | none => _) = _
    cases w.snag callback with
    | some reason =>
      exact congrArg (Prod.mk _) (setSystem_of_handle (w := { w with trap := none }) hhub hhandle s').symm
    | none =>
      have hset := setSystem_of_handle (h := h.receive callback)
        (w := { w with
          seen := w.seen ++ [callback], tracker := w.tracker.learn callback
          hub := some (h.receive callback) })
        rfl ((Hub.receive_fields callback h).2.1.trans hhandle) s'
      rw [hreceive]
      exact congrArg (Prod.mk _) hset.symm

theorem lastSystem_deliver (w : MemoryWorld) (callback : Callback) :
    (w.deliver callback).2.lastSystem = w.lastSystem := by
  cases hnone : w.hub.bind Hub.handle with
  | none =>
    rw [deliver_of_loose hnone]
    split
    · rw [note_eq]
      cases w.snag callback <;> rfl
    · rfl
  | some s =>
    obtain ⟨h, hhub, hhandle⟩ := Option.bind_eq_some_iff.mp hnone
    rw [deliver_of_handle hhub hhandle]
    cases w.snag callback with
    | some reason => rfl
    | none => simp only [lastSystem, hhub, Option.bind_some, (Hub.receive_fields callback h).2.1]

end World

end WalletHub
