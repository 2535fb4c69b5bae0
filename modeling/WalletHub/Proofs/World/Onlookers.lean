import WalletHub.Proofs.World.Course

/-!
# Subscriptions look on

Subscriptions are asked, and nobody asks them anything else: whatever else happens in a world happens in
the same way with other subscriptions. `World.amid` is a world with others in the place of its own.
Everything but the subscribing itself and the dropping of a hub does the same in it, with the same answer
(`World.go_amid`), and an action for a subscription changes nothing but the subscriptions
(`World.go_of_subscriber`).

## What is proved

* `World.act_amid`, `World.deliverFirst_amid`, `World.runSession_amid`: actions, deliveries and runs of the task
  do the same amid other subscriptions.
* `World.go_amid`: so does every move that is not done to the subscriptions.
* `World.go_of_other`, `World.go_of_drops`: what becomes of the subscriptions themselves by these moves.
* `World.go_of_subscriber`: a move for a subscription leaves all but the subscriptions as it was.
-/

namespace WalletHub

/-! ### Moves for subscriptions -/

/-- The name of the subscription that a move is for. -/
def Move.subscriber? : Move → Option String
  | .act (.subscribe name _) | .act (.unsubscribe name) | .act (.next name) | .act (.drain name) => some name
  | _ => none

/-- The move drops the hub. -/
def Move.drops : Move → Bool
  | .act .dropHub | .act (.restart _) => true
  | _ => false

/-- The subscription as it is left when its hub is dropped. -/
def Subscriber.freezeBy (keep : Option Board → Option Board) (s : Subscriber) : Subscriber :=
  { s with frozen := keep s.frozen }

variable {φ σ : Type}

namespace World

/-- The world with other subscriptions, and with another number of its hub, which is there for new
subscriptions only. -/
def amid (n : Nat) (l : List (String × Subscriber)) (w : World φ σ) : World φ σ :=
  { w with dropped := n, subscribers := l }

theorem amid_self (w : World φ σ) : w.amid w.dropped w.subscribers = w := rfl

variable (n : Nat) (l : List (String × Subscriber)) (w : World φ σ)

@[simp] theorem subscribers_amid : (w.amid n l).subscribers = l := rfl

@[simp] theorem dropped_amid : (w.amid n l).dropped = n := rfl

@[simp] theorem hub_amid : (w.amid n l).hub = w.hub := rfl

/-! ### Systems -/

theorem setSystem_amid (s : σ) : (w.amid n l).setSystem s = (w.setSystem s).amid n l := by
  simp only [setSystem, hub_amid]
  split
  · split <;> rfl
  · rfl

theorem setMemorySystem_amid [Steering φ σ] (s : MemorySystem) :
    (w.amid n l).setMemorySystem s = (w.setMemorySystem s).amid n l := by
  have hlast : (w.amid n l).lastSystem = w.lastSystem := rfl
  simp only [setMemorySystem, hlast]
  split
  · exact setSystem_amid n l w _
  · rfl

theorem monitorTaken_amid : (w.amid n l).monitorTaken = w.monitorTaken.amid n l := by
  have hfuse : (w.amid n l).nextFuse = w.nextFuse := rfl
  simp only [monitorTaken, hfuse]
  split <;> rfl

theorem note_amid (c : Callback) : (w.amid n l).note c = ((w.note c).1, (w.note c).2.amid n l) := by
  have htrap : (w.amid n l).trap = w.trap := rfl
  simp only [note, htrap]
  split
  · split <;> rfl
  · rfl

theorem toTracker_amid (c : Callback) :
    (w.amid n l).toTracker c = ((w.toTracker c).1, (w.toTracker c).2.amid n l) := by
  obtain ⟨answer, w', hnote⟩ : ∃ answer w', w.note c = (answer, w') := ⟨_, _, rfl⟩
  simp only [toTracker, note_amid, hnote]
  cases answer <;> rfl

variable [WalletSystem σ]

theorem deliver_amid (c : Callback) :
    (w.amid n l).deliver c = ((w.deliver c).1, (w.deliver c).2.amid n l) := by
  have hloose : (w.amid n l).loose = w.loose := rfl
  simp only [deliver, hub_amid, hloose]
  split
  · obtain ⟨answer, w', htracker⟩ : ∃ answer w', w.toTracker c = (answer, w') := ⟨_, _, rfl⟩
    simp only [toTracker_amid, htracker]
    cases answer <;> rfl
  · split
    · exact note_amid n l w c
    · rfl

theorem deliverFirst_amid :
    (w.amid n l).deliverFirst = (w.deliverFirst.1, w.deliverFirst.2.amid n l) := by
  have hlast : (w.amid n l).lastSystem = w.lastSystem := rfl
  unfold deliverFirst
  rw [hlast]
  split
  · rfl
  · next s _ =>
    split
    · rfl
    · exact congrArg (Prod.mk _) (setSystem_amid n l w _)
    · next c job jobs _ =>
      rw [setSystem_amid, deliver_amid]
      obtain ⟨answer, w', hdeliver⟩ : ∃ answer w',
          (w.setSystem (WalletSystem.withQueue (job :: jobs) s)).deliver c = (answer, w') := ⟨_, _, rfl⟩
      rw [hdeliver]
      cases answer with
      | ok => rfl
      | error reason =>
        have hset := setSystem_amid n l w' (WalletSystem.withQueue jobs s)
        exact congrArg (fun x : World φ σ => (Reply.broke, x.report [.callbackBroke reason])) hset

theorem runSession_amid : (w.amid n l).runSession = w.runSession.amid n l := by
  simp only [runSession, hub_amid]
  split <;> rfl

/-! ### The hub -/

variable [SystemFactory φ σ]

theorem openFor_amid (account : Account) :
    (w.amid n l).openFor account = ((w.openFor account).1, (w.openFor account).2.amid n l) := by
  cases hhub : w.hub with
  | none => simp only [openFor, hub_amid, hhub]
  | some h =>
    obtain ⟨answer, h', e', hresult⟩ : ∃ answer h' e',
        h.openFor account w.nextSession w.surroundings = (answer, h', e') := ⟨_, _, _, rfl⟩
    have hresult' : h.openFor account (w.amid n l).nextSession (w.amid n l).surroundings =
        (answer, h', e') := hresult
    simp only [openFor, hub_amid, hhub, hresult, hresult']
    cases answer with
    | error error => rfl
    | ok done =>
      exact congrArg (Prod.mk _) (monitorTaken_amid n l { w with hub := some h', surroundings := e' })

omit [SystemFactory φ σ] in
theorem close_amid : (w.amid n l).close = (w.close.1, w.close.2.amid n l) := by
  simp only [close, hub_amid]
  split <;> rfl

omit [WalletSystem σ] in
theorem createLoose_amid (account : Account) (recorded : Bool) :
    (w.amid n l).createLoose account recorded =
      ((w.createLoose account recorded).1, (w.createLoose account recorded).2.amid n l) := by
  have hsurroundings : (w.amid n l).surroundings = w.surroundings := rfl
  have hconfig : (w.amid n l).config = w.config := rfl
  simp only [createLoose, hsurroundings, hconfig]
  split <;> rfl

/-! ### Moves -/

variable [Steering φ σ]

omit [WalletSystem σ] [SystemFactory φ σ] in
theorem runCommand_amid (c : MemorySystem.Command) :
    (w.amid n l).runCommand c = ((w.runCommand c).1, (w.runCommand c).2.amid n l) := by
  have hmemory : (w.amid n l).memorySystem? = w.memorySystem? := rfl
  have hsurroundings : (w.amid n l).surroundings = w.surroundings := rfl
  have hwall : (w.amid n l).wall = w.wall := rfl
  cases hs : w.memorySystem? with
  | none => simp only [runCommand, hmemory, hs]
  | some s =>
    cases c with
    | disconnect =>
      simp only [runCommand, hmemory, hs, hsurroundings, setMemorySystem_amid]
      rfl
    | addWallet currency => simp only [runCommand, hmemory, hs, setMemorySystem_amid]
    | _ =>
      simp only [runCommand, hmemory, hs, hwall]
      split
      · exact congrArg (Prod.mk _) (setMemorySystem_amid n l { w with wall := w.wall.later 1 } _)
      · exact congrArg (Prod.mk _) (setMemorySystem_amid n l w _)

omit [SystemFactory φ σ] in
theorem deliverScripted_amid (c : Callback) (trackerOnly : Bool) :
    (w.amid n l).deliverScripted c trackerOnly =
      ((w.deliverScripted c trackerOnly).1, (w.deliverScripted c trackerOnly).2.amid n l) := by
  have hfactory : (w.amid n l).surroundings.factory = w.surroundings.factory := rfl
  have hlast : (w.amid n l).lastSystem = w.lastSystem := rfl
  simp only [deliverScripted, hfactory, hlast, toTracker_amid, deliver_amid]
  split
  · rfl
  · split <;> rfl

omit [WalletSystem σ] [SystemFactory φ σ] in
theorem takeCalls_amid : (w.amid n l).takeCalls = (w.takeCalls.1, w.takeCalls.2.amid n l) := by
  have hsurroundings : (w.amid n l).surroundings = w.surroundings := rfl
  simp only [takeCalls, hsurroundings]
  split <;> rfl

theorem act_amid {a : Action} (other : (Move.act a).subscriber? = none) (kept : (Move.act a).drops = false) :
    (w.amid n l).act a = ((w.act a).1, (w.act a).2.amid n l) := by
  cases a with
  | subscribe | unsubscribe | next | drain => cases other
  | dropHub | restart => cases kept
  | openHub account => simp only [act, openFor_amid]
  | closeHub => simp only [act, close_amid]
  | create account recorded =>
    obtain ⟨answer, w', hcreate⟩ : ∃ answer w', w.createLoose account recorded = (answer, w') := ⟨_, _, rfl⟩
    simp only [act, createLoose_amid, hcreate]
    cases answer <;> rfl
  | command c => exact runCommand_amid n l w c
  | setWallets wallets =>
    have hfactory : (w.amid n l).onFactory (Steering.showNext wallets) =
        (w.onFactory (Steering.showNext wallets)).amid n l := rfl
    have hlast (w : World φ σ) : (w.amid n l).lastSystem = w.lastSystem := rfl
    simp only [act, hfactory, hlast]
    split
    · rw [setSystem_amid]
    · rfl
  | askCalls => exact takeCalls_amid n l w
  | deliver c trackerOnly => exact deliverScripted_amid n l w c trackerOnly
  | _ => rfl

/-- **Whatever is not done to the subscriptions happens in the same way with others**, with the same
answer. -/
theorem go_amid {m : Move} (other : m.subscriber? = none) (kept : m.drops = false) :
    (w.amid n l).go m = ((w.go m).1, (w.go m).2.amid n l) := by
  cases m with
  | act a => exact act_amid n l w other kept
  | deliver => exact deliverFirst_amid n l w
  | task => exact congrArg (Prod.mk _) (runSession_amid n l w)
  | forget => rfl

/-- It leaves the subscriptions alone, and the hub is not dropped. -/
theorem go_of_other {m : Move} (other : m.subscriber? = none) (kept : m.drops = false) :
    (w.go m).2.subscribers = w.subscribers ∧ (w.go m).2.dropped = w.dropped := by
  have h := go_amid w.dropped w.subscribers w other kept
  rw [amid_self] at h
  exact ⟨congrArg (fun x => x.2.subscribers) h, congrArg (fun x => x.2.dropped) h⟩

/-- A move that drops the hub leaves every subscription what was published, whichever there are. -/
theorem go_of_drops {m : Move} (drops : m.drops = true) : ∃ (keep : Option Board → Option Board) (k : Nat),
    ∀ n l, (w.amid n l).go m = ((w.go m).1,
      (w.go m).2.amid (n + k) (l.map fun e => (e.1, e.2.freezeBy keep))) := by
  obtain ⟨keep, k, hdrop⟩ : ∃ (keep : Option Board → Option Board) (k : Nat), ∀ n l, (w.amid n l).dropHub =
      w.dropHub.amid (n + k) (l.map fun e => (e.1, e.2.freezeBy keep)) := by
    cases hhub : w.hub with
    | none =>
      refine ⟨id, 0, fun n l => ?_⟩
      have hsame : l.map (fun e : String × Subscriber => (e.1, e.2.freezeBy id)) = l :=
        List.map_id' l
      simp only [dropHub, hub_amid, hhub, hsame]
      rfl
    | some h =>
      refine ⟨fun frozen => frozen.or (some h.board), 1, fun n l => ?_⟩
      simp only [dropHub, hub_amid, hhub]
      rfl
  refine ⟨keep, k, fun n l => ?_⟩
  cases m with
  | act a =>
    cases a with
    | dropHub => exact congrArg (Prod.mk Reply.nothing) (hdrop n l)
    | restart config =>
      have hrestart : (w.amid n l).restart config = (w.restart config).amid (n + k)
          (l.map fun e => (e.1, e.2.freezeBy keep)) := by
        simp only [restart, hdrop]
        rfl
      exact congrArg (Prod.mk Reply.nothing) hrestart
    | _ => cases drops
  | deliver | task | forget => cases drops

/-- **An action for a subscription changes nothing but the subscriptions.** -/
theorem go_of_subscriber {m : Move} (h : m.subscriber?.isSome = true) :
    (w.go m).2 = w.amid w.dropped (w.go m).2.subscribers := by
  cases m with
  | act a =>
    cases a with
    | subscribe name topic =>
      cases hhub : w.hub with
      | some h => simp only [go, act, subscribe, hhub, amid]
      | none =>
        cases hneeds : topic.needsHub with
        | true =>
          simp only [go, act, subscribe, hhub, hneeds, if_true]
          exact (amid_self w).symm
        | false => simp only [go, act, subscribe, hhub, hneeds, Bool.false_eq_true, if_false, amid]
    | unsubscribe name => rfl
    | next name =>
      cases hlookup : w.subscribers.lookup name with
      | none => simp only [go, act, next, hlookup, amid_self]
      | some s => simp only [go, act, next, hlookup, amid]
    | drain name =>
      cases hlookup : w.subscribers.lookup name with
      | none => simp only [go, act, drain, hlookup, amid_self]
      | some s => simp only [go, act, drain, hlookup, amid]
    | _ => cases h
  | deliver | task | forget => cases h

end World

end WalletHub
