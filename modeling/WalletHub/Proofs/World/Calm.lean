import WalletHub.Proofs.World.Moves

/-!
# Calm runs

A run in which the probe is never told to break off is calm: no trap is ever set
(`World.trap_move`), so that every delivery goes through and every task that an opening starts follows the
tracked wallets (`Run.calm`).

## What is proved

* `World.snag_of_calm`, `World.deliver_of_calm`: where no trap is set a delivery goes through.
* `World.nextSession_of_calm`: where none is set the monitor of the next task does not break off.
* `World.trap_act`, `World.trap_move`: no move but the setting of a trap sets one.
* `Run.calm`: a run of such moves is calm at every move of it, and unbroken.
-/

namespace WalletHub

/-- The move sets no trap. -/
def peaceful (_ : MemoryWorld) (m : Move) (_ : Reply) : Prop := ∀ trap, m ≠ .act (.arm trap)

namespace World

variable {w : MemoryWorld}

theorem trap_setSystem (w : MemoryWorld) (s : MemorySystem) : (w.setSystem s).trap = w.trap := by
  cases hnone : w.hub.bind Hub.handle with
  | none => rw [setSystem_of_loose hnone]
  | some last =>
    obtain ⟨h, hhub, hhandle⟩ := Option.bind_eq_some_iff.mp hnone
    rw [setSystem_of_handle hhub hhandle]

/-- Where there is no trap the probe does not break off. -/
theorem snag_of_calm (calm : w.trap = none) (callback : Callback) : w.snag callback = none := by
  rw [snag, calm]

theorem deliver_of_calm (calm : w.trap = none) (callback : Callback) :
    ∃ w', w.deliver callback = (.ok (), w') ∧ w'.trap = none := by
  cases hnone : w.hub.bind Hub.handle with
  | none =>
    rw [deliver_of_loose hnone, note_eq, snag_of_calm calm]
    split
    · exact ⟨_, rfl, calm⟩
    · exact ⟨_, rfl, calm⟩
  | some last =>
    obtain ⟨h, hhub, hhandle⟩ := Option.bind_eq_some_iff.mp hnone
    rw [deliver_of_handle hhub hhandle, snag_of_calm calm]
    exact ⟨_, rfl, calm⟩

/-- Without a trap the monitor of an opening does not break off. -/
theorem nextSession_of_calm (calm : w.trap = none) : w.nextSession = .following .start none := by
  rw [nextSession, nextFuse, calm]
  rfl

theorem trap_openFor (calm : w.trap = none) (account : Account) : (w.openFor account).2.trap = none := by
  cases hub : w.hub with
  | none => simp only [openFor, hub, calm]
  | some h =>
    simp only [openFor, hub]
    split
    · rw [monitorTaken]
      split
      · rfl
      · exact calm
    · exact calm

theorem trap_runCommand (calm : w.trap = none) (c : MemorySystem.Command) :
    (w.runCommand c).2.trap = none := by
  cases hs : w.lastSystem with
  | none =>
    have hnone : w.memorySystem? = none := by simp [memorySystem?, hs]
    simp only [runCommand_eq, hnone, calm]
  | some s =>
    have hsome : w.memorySystem? = some s := by simp [memorySystem?, hs, Steering.memory?]
    have hset (w' : MemoryWorld) (h : w'.lastSystem = some s) (s' : MemorySystem) :
        w'.setMemorySystem s' = w'.setSystem s' := by
      simp only [setMemorySystem, h, Steering.ofMemory]
    cases c with
    | disconnect =>
      simp only [runCommand_eq, hsome, hset w hs, report, onDisk]
      rw [trap_setSystem, calm]
    | addWallet currency =>
      simp only [runCommand_eq, hsome, hset w hs]
      rw [trap_setSystem, calm]
    | _ =>
      simp only [runCommand_eq, hsome]
      split
      · rw [hset { w with wall := w.wall.later 1 } hs, trap_setSystem]
        exact calm
      · exact calm

/-- Only the user sets traps. -/
theorem trap_act (calm : w.trap = none) {a : Action} (peace : ∀ trap, a ≠ .arm trap) :
    (w.act a).2.trap = none := by
  cases a with
  | arm trap => exact absurd rfl (peace trap)
  | openHub account => exact trap_openFor calm account
  | closeHub =>
    cases hub : w.hub with
    | none => simp only [act, close, hub, calm]
    | some h => simp only [act, close, hub, calm]
  | dropHub =>
    cases hub : w.hub with
    | none => simp only [act, dropHub, hub, calm]
    | some h => simp only [act, dropHub, hub, calm]
  | restart config =>
    cases hub : w.hub with
    | none => simp only [act, restart, dropHub, hub, calm]
    | some h => simp only [act, restart, dropHub, hub, calm]
  | subscribe name topic =>
    simp only [act, subscribe]
    split
    · next w' hw' =>
      split at hw'
      · rw [← Option.some.inj hw']
        exact calm
      · split at hw'
        · exact nomatch hw'
        · rw [← Option.some.inj hw']
          exact calm
    · exact calm
  | next name =>
    cases hs : w.subscribers.lookup name with
    | none => simp only [act, World.next, hs, calm]
    | some s => simp only [act, World.next, hs, calm]
  | drain name =>
    cases hs : w.subscribers.lookup name with
    | none => simp only [act, World.drain, hs, calm]
    | some s => simp only [act, World.drain, hs, calm]
  | create account recorded =>
    have hcreate : (w.createLoose account recorded).2.trap = none := by
      simp only [createLoose]
      split <;> exact calm
    simp only [act]
    split
    · next heq =>
      rw [heq] at hcreate
      exact hcreate
    · next heq =>
      rw [heq] at hcreate
      exact hcreate
  | command c => exact trap_runCommand calm c
  | setWallets wallets =>
    simp only [act]
    split
    · rw [trap_setSystem]
      exact calm
    · exact calm
  | deliver callback trackerOnly =>
    cases trackerOnly with
    | true =>
      simp only [act, deliverScripted, if_true]
      rw [toTracker_eq, snag_of_calm calm]
      exact calm
    | false => exact calm
  | _ => exact calm

/-- **Where no trap is set every delivery goes through**, and no trap is set by a peaceful move. -/
theorem trap_move {w' : MemoryWorld} {m : Move} {r : Reply} (calm : w.trap = none) (peace : peaceful w m r)
    (moved : w.move m = (r, w')) : w'.trap = none ∧ unbroken w m r := by
  obtain ⟨rfl, rfl⟩ : r = (w.move m).1 ∧ w' = (w.move m).2 := by rw [moved]; exact ⟨rfl, rfl⟩
  cases m with
  | act a => exact ⟨trap_act calm fun trap ha => peace trap (congrArg Move.act ha), unbroken_act _ _ _⟩
  | task =>
    refine ⟨?_, unbroken_nothing _ _⟩
    cases hub : w.hub with
    | none => simp only [move, runSession, hub, calm]
    | some h => simp only [move, runSession, hub, report, calm]
  | forget => exact ⟨calm, unbroken_nothing _ _⟩
  | deliver =>
    cases hs : w.lastSystem with
    | none =>
      simp only [move, deliverOne, hs]
      exact ⟨calm, unbroken_nothing _ _⟩
    | some s =>
      cases hqueue : s.queue with
      | nil =>
        simp only [move, deliverOne, hs, hqueue]
        exact ⟨calm, unbroken_nothing _ _⟩
      | cons job jobs =>
        cases job with
        | nil =>
          simp only [move, deliverOne, hs, hqueue]
          exact ⟨(trap_setSystem _ _).trans calm, unbroken_nothing _ _⟩
        | cons callback job =>
          obtain ⟨w', hdeliver, htrap⟩ :=
            deliver_of_calm ((trap_setSystem w { s with queue := job :: jobs }).trans calm) callback
          simp only [move, deliverOne, hs, hqueue, hdeliver]
          exact ⟨htrap, unbroken_ok _ _⟩

end World

/-- **A run of peaceful moves is calm throughout**, and unbroken. -/
theorem Run.calm {allowed : MemoryWorld → Move → Reply → Prop} {start w : MemoryWorld} {past : Past}
    (run : Run allowed start past w) (calm : start.trap = none)
    (peace : ∀ w m r, allowed w m r → peaceful w m r) :
    w.trap = none ∧ Run (fun w m r => allowed w m r ∧ w.trap = none ∧ unbroken w m r) start past w := by
  induction run with
  | start => exact ⟨calm, .start⟩
  | move _ moved ok ih =>
    obtain ⟨hw, hrun⟩ := ih
    obtain ⟨hw', hunbroken⟩ := World.trap_move hw (peace _ _ _ ok) moved
    exact ⟨hw', hrun.move moved ⟨ok, hw, hunbroken⟩⟩

end WalletHub
