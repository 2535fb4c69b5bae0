import WalletHub.Proofs.World.Moves

/-!
# What an action does around the hub

The hub and its systems share the disk, the factory and the log with all that the user does. `Handling` lists what
an action can make of them, and `handling_act` finds it for every action. Only three kinds of actions reach the
disk: openings, which make the storage directory, actions by which a system is disconnected, and those by which
the user changes files.

## What is proved

* `World.handling_act`: every action makes one of the things of `World.Handling` of what is around the hub. There
  is one constructor for each way in which the disk, the factory or the log can change.
* `World.handling_runCommand`, `World.surroundings_openFor`: the cases that are not read off the action.
* `World.surroundings_deliver`, `World.disk_deliverOne`: a delivery leaves the disk alone.

What is stored, what can be restored and where the storage directory comes from is proved of whole runs by going
through these cases.
-/

namespace WalletHub

/-- The user changes what is on the disk. -/
def Action.touchesDisk : Action → Bool
  | .putFile .. | .putDirectory _ | .removePath _ => true
  | _ => false

namespace World

/-- What an action makes of what is around the hub. -/
inductive Handling (w : MemoryWorld) : Action → Surroundings MemoryFactory → Prop where
  /-- Nothing has happened but to the factory, if to anything. -/
  | steered (a : Action) (factory : MemoryFactory) : Handling w a { w.surroundings with factory := factory }
  | opening {h : Hub MemorySystem} (account : Account) (hub : w.hub = some h) :
      Handling w (.openHub account) (h.openFor account w.nextSession w.surroundings).2.2
  | closing {h : Hub MemorySystem} (hub : w.hub = some h) : Handling w .closeHub (h.close w.surroundings).2.2
  /-- The last system is disconnected and stores its wallets. -/
  | stored {s : MemorySystem} (last : w.lastSystem = some s) :
      Handling w (.command .disconnect)
        ({ w.surroundings with disk := (s.disconnect.store w.surroundings.disk).1 }.report
          (s.disconnect.store w.surroundings.disk).2)
  /-- A system is created without the hub. -/
  | created {params : SystemParams} {made : Created MemorySystem} {factory : MemoryFactory} (account : Account)
      (recorded : Bool)
      (created : SystemFactory.create params w.surroundings.disk w.surroundings.factory = (.ok made, factory)) :
      Handling w (.create account recorded) ({ w.surroundings with factory := factory }.report made.log)
  | touched {a : Action} (disk : Disk) (touches : a.touchesDisk = true) :
      Handling w a { w.surroundings with disk := disk }

namespace Handling

variable {w : MemoryWorld}

/-- Nothing has happened. -/
theorem of_eq {a : Action} {e : Surroundings MemoryFactory} (same : e = w.surroundings) : Handling w a e := by
  rw [same]
  exact .steered a w.surroundings.factory

end Handling

variable (w : MemoryWorld)

theorem surroundings_openFor (account : Account) {h : Hub MemorySystem} (hub : w.hub = some h) :
    (w.openFor account).2.surroundings = (h.openFor account w.nextSession w.surroundings).2.2 := by
  obtain ⟨answer, h', e', hresult⟩ : ∃ answer h' e',
      h.openFor account w.nextSession w.surroundings = (answer, h', e') := ⟨_, _, _, rfl⟩
  simp only [openFor, hub, hresult]
  cases answer with
  | error error => rfl
  | ok done =>
    simp only [monitorTaken]
    split <;> rfl

theorem handling_runCommand (c : MemorySystem.Command) :
    Handling w (.command c) (w.runCommand c).2.surroundings := by
  have hset (w : MemoryWorld) (s : MemorySystem) : (w.setMemorySystem s).surroundings = w.surroundings := by
    unfold setMemorySystem
    split
    · exact surroundings_setSystem w _
    · rfl
  cases hlast : w.lastSystem with
  | none =>
    have hnone : w.memorySystem? = none := by simp [memorySystem?, hlast]
    simp only [runCommand_eq, hnone]
    exact .of_eq rfl
  | some s =>
    have hsome : w.memorySystem? = some s := by simp [memorySystem?, hlast, Steering.memory?]
    cases c with
    | disconnect =>
      simp only [runCommand_eq, hsome, report, onDisk, hset]
      exact .stored hlast
    | addWallet currency =>
      simp only [runCommand_eq, hsome]
      exact .of_eq (hset w _)
    | _ =>
      simp only [runCommand_eq, hsome]
      split
      · exact .of_eq (hset { w with wall := w.wall.later 1 } _)
      · exact .of_eq rfl

/-- **Every action makes one of these things of what is around the hub.** -/
theorem handling_act (a : Action) : Handling w a (w.act a).2.surroundings := by
  cases a with
  | openHub account =>
    cases hub : w.hub with
    | none =>
      simp only [act, openFor, hub]
      exact .of_eq rfl
    | some h =>
      simp only [act]
      rw [surroundings_openFor w account hub]
      exact .opening account hub
  | closeHub =>
    cases hub : w.hub with
    | none =>
      simp only [act, close, hub]
      exact .of_eq rfl
    | some h =>
      simp only [act, close, hub]
      exact .closing hub
  | dropHub | restart =>
    refine .of_eq ?_
    simp only [act, restart, dropHub]
    cases w.hub <;> rfl
  | subscribe name topic =>
    refine .of_eq ?_
    cases hub : w.hub with
    | some h => simp only [act, subscribe, hub]
    | none => cases hneeds : topic.needsHub <;> simp only [act, subscribe, hub, hneeds] <;> rfl
  | next name =>
    refine .of_eq ?_
    simp only [act, World.next]
    cases w.subscribers.lookup name <;> rfl
  | drain name =>
    refine .of_eq ?_
    simp only [act, World.drain]
    cases w.subscribers.lookup name <;> rfl
  | create account recorded =>
    have hcreate : Handling w (.create account recorded) (w.createLoose account recorded).2.surroundings := by
      simp only [createLoose]
      split
      · exact .steered _ _
      · next made factory hmade => exact .created account recorded hmade
    obtain ⟨answer, w', heq⟩ : ∃ answer w', w.createLoose account recorded = (answer, w') := ⟨_, _, rfl⟩
    rw [heq] at hcreate
    simp only [act, heq]
    cases answer <;> exact hcreate
  | command c => exact handling_runCommand w c
  | setWallets wallets =>
    simp only [act]
    split
    · rw [surroundings_setSystem]
      exact .steered _ _
    · exact .steered _ _
  | deliver c trackerOnly =>
    refine .of_eq ?_
    cases trackerOnly with
    | true =>
      simp only [act, deliverScripted, if_true, toTracker_eq]
      cases w.snag c <;> rfl
    | false => rfl
  | failNext => exact .steered _ _
  | putFile | putDirectory | removePath => exact .touched _ rfl
  | _ => exact .of_eq rfl

/-! ### Deliveries -/

theorem surroundings_deliver (c : Callback) : (w.deliver c).2.surroundings = w.surroundings := by
  cases hnone : w.hub.bind Hub.handle with
  | none =>
    rw [deliver_of_loose hnone]
    split
    · rw [note_eq]
      cases w.snag c <;> rfl
    · rfl
  | some s =>
    obtain ⟨h, hhub, hhandle⟩ := Option.bind_eq_some_iff.mp hnone
    rw [deliver_of_handle hhub hhandle]
    cases w.snag c <;> rfl

/-- A delivery leaves the disk alone. -/
theorem disk_deliverOne : w.deliverOne.2.surroundings.disk = w.surroundings.disk := by
  cases hlast : w.lastSystem with
  | none => simp only [deliverOne, hlast]
  | some s =>
    cases hqueue : s.queue with
    | nil => simp only [deliverOne, hlast, hqueue]
    | cons job jobs =>
      cases job with
      | nil => simp only [deliverOne, hlast, hqueue, surroundings_setSystem]
      | cons callback job =>
        have hdeliver := surroundings_deliver (w.setSystem { s with queue := job :: jobs }) callback
        rw [surroundings_setSystem] at hdeliver
        simp only [deliverOne, hlast, hqueue]
        split
        · next heq =>
          rw [heq] at hdeliver
          rw [hdeliver]
        · next reason w' heq =>
          rw [heq] at hdeliver
          show (w'.setSystem _).surroundings.disk = _
          rw [surroundings_setSystem, hdeliver]

end World

end WalletHub
