import WalletHub.Proofs.Hub.Tracking
import WalletHub.Proofs.World.Serene
import WalletHub.Proofs.World.Steps

/-!
# What breaks off

A callback that breaks off in the tracker takes the rest of its job with it, and a task that breaks off follows
nothing any more. Nothing else comes of it. To say so a run in which things break off is compared with one in
which nothing does. `World.insteadOf` makes of the moves of the first the steps of the second: no trap is set, a
job is cut short before the callback that breaks off, and the task runs only up to the poll at which it breaks
off (`CalmStep`). A task may have published wallets before it breaks off, and does so in both runs.

Both runs lead to the same world, with the same answers, but for what breaking off leaves behind
(`World.serene`): the trap, the task that follows nothing any more, and the errors that were logged.

## What is proved

* `World.deliverOne_cases`: a delivery breaks off, or does the same in the serene world.
* `World.errand_cases`, `World.stepTask_cases`, `World.stepsTask_cases`, `World.runSession_cases`: so do the steps
  of a task and its runs.
* `World.calmly_insteadOf`: what takes the place of some moves has the same outcome.
* `World.errors_move`: one error is logged for everything that breaks off, and none for anything else.
* `World.session_of_open`: the next opening starts a task that follows the tracked wallets.
* `Run.panics_are_contained`: all this for every run.

`mishaps_are_contained` is a run in which a callback breaks off and two others of its job are lost.
-/

namespace WalletHub

/-! ### Runs in which nothing breaks off -/

/-- A step of a run in which nothing breaks off. -/
inductive CalmStep where
  | move (m : Move)
  /-- The oldest job ends where it is. -/
  | cut
  /-- The hub's task takes so many steps, and then waits wherever it is. -/
  | part (steps : Nat)

/-- What the user has done, with the answers. To set a trap is not counted. -/
def answers (past : Past) : Past :=
  past.filter fun (m, _) => match m with
    | .act (.arm _) => false
    | .act _ => true
    | .deliver | .task | .forget => false

theorem answers_append (past past' : Past) : answers (past ++ past') = answers past ++ answers past' :=
  List.filter_append past past'

/-- Takes so many steps of the task, which waits then. -/
def Hub.runPart {σ : Type} [WalletSystem σ] (p : Provider) (t : Tracker) (steps : Nat) (h : Hub σ) : Hub σ :=
  let h := (h.stepsTask p t steps).1
  match h.errand? with
  | some k => { h with session := some (.following k.monitor k.fuse) }
  | none => h

/-- How many steps the task takes before its monitor breaks off, if that happens within so many. -/
def Hub.stepsToBreak {σ : Type} [WalletSystem σ] (p : Provider) (t : Tracker) : Nat → Hub σ → Option Nat
  | 0, _ => none
  | steps + 1, h => match h.stepTask p t with
    | (_, _ :: _) => some 0
    | (h, []) => if h.errand?.isSome then (stepsToBreak p t steps h).map (· + 1) else none

/-- The task has broken off. -/
def Hub.hasBroken {σ : Type} (h : Hub σ) : Bool :=
  match h.session with
  | some (.broken _) => true
  | some (.following ..) | some (.busy _) | none => false

/-- How many steps the task takes before it breaks off, if it does so in its next run. -/
def Hub.breaks {σ : Type} [WalletSystem σ] (p : Provider) (t : Tracker) (h : Hub σ) : Option Nat :=
  match h.session with
  | some (.following ..) => h.stepsToBreak p t 8
  | some (.busy _) | some (.broken _) | none => none

/-- What will make the monitor of a task break off. -/
def Session.fuse? : Session → Option Fuse
  | .following _ fuse => fuse
  | .busy k => k.fuse
  | .broken _ => none

/-- The reason for which the monitor of the task will break off. -/
def Hub.reason? {σ : Type} (h : Hub σ) : Option String := (h.session.bind Session.fuse?).map Fuse.reason

namespace World

/-- Ends the oldest job, whatever is left of it. -/
def cutShort (w : MemoryWorld) : MemoryWorld :=
  match w.lastSystem with
  | some s => w.setSystem { s with queue := s.queue.tail }
  | none => w

/-- The hub's task takes so many steps, and then waits. -/
def runPart (w : MemoryWorld) (steps : Nat) : MemoryWorld :=
  { w with hub := w.hub.map (Hub.runPart w.provider w.tracker steps) }

/-- Takes one step after the other. -/
def calmly (w : MemoryWorld) : List CalmStep → Past × MemoryWorld
  | [] => ([], w)
  | .cut :: steps => w.cutShort.calmly steps
  | .part count :: steps => (w.runPart count).calmly steps
  | .move m :: steps =>
    let (past, last) := World.calmly (w.move m).2 steps
    ((m, (w.move m).1) :: past, last)

/-- The delivery of the next callback breaks off. -/
def deliveryBreaks (w : MemoryWorld) : Bool :=
  match w.deliverOne.1 with
  | .broke => true
  | _ => false

/-- How many steps the hub's task takes before it breaks off, if it does so in its next run. -/
def taskBreaks (w : MemoryWorld) : Option Nat := w.hub.bind (Hub.breaks w.provider w.tracker)

/-- What takes the place of a move where nothing breaks off. -/
def instead (w : MemoryWorld) : Move → List CalmStep
  | .act (.arm _) => []
  | .act a => [.move (.act a)]
  | .deliver => if w.deliveryBreaks then [.cut] else [.move .deliver]
  | .task =>
    if w.hub.any Hub.hasBroken then []
    else match w.taskBreaks with
      | some steps => [.part steps]
      | none => [.move .task]
  | .forget => [.move .forget]

/-- What takes the place of some moves where nothing breaks off: no trap is set, a job of which a callback
breaks off is cut short before it, a run of the task in which it breaks off ends before that, and the task does
not run after it. -/
def insteadOf (w : MemoryWorld) : List Move → List CalmStep
  | [] => []
  | m :: moves => w.instead m ++ World.insteadOf (w.move m).2 moves

/-- The errors to be logged for what breaks off in a move. -/
def panics (w : MemoryWorld) : Move → List LogEntry
  | .deliver => if w.deliveryBreaks then [.callbackBroke ((w.trap.map Trap.reason).getD "")] else []
  | .task =>
    if w.taskBreaks.isSome then [.taskBroke ((w.hub.bind Hub.reason?).getD "")] else []
  | .act _ | .forget => []

/-! ### Deliveries -/

theorem snag_eq_some {w : MemoryWorld} {callback : Callback} {reason : String} (h : w.snag callback = some reason) :
    ∃ trap, w.trap = some trap ∧ trap.reason = reason := by
  unfold snag at h
  split at h
  · next trap htrap =>
    split at h
    · exact ⟨trap, htrap, Option.some.inj h⟩
    · exact nomatch h
  · exact nomatch h

theorem receive_serene (callback : Callback) (h : Hub MemorySystem) :
    h.serene.receive callback = (h.receive callback).serene := by
  have hopen : h.serene.isOpen = h.isOpen := rfl
  unfold Hub.receive
  rw [hopen]
  split <;> rfl

/-- A delivery springs the trap and changes nothing else, or it does the same in the serene world. -/
theorem deliver_cases (w : MemoryWorld) (callback : Callback) :
    (∃ trap, w.trap = some trap ∧ w.deliver callback = (.error trap.reason, { w with trap := none })) ∨
      ∃ w', w.deliver callback = (.ok (), w') ∧ w.serene.deliver callback = (.ok (), w'.serene) ∧
        w'.surroundings = w.surroundings := by
  have hwhole : w.serene.snag callback = none := snag_of_calm rfl callback
  cases hnone : w.hub.bind Hub.handle with
  | none =>
    have hnone' : w.serene.hub.bind Hub.handle = none := (handle_serene w).trans hnone
    have hloose : w.serene.loose = w.loose := rfl
    rw [deliver_of_loose hnone, deliver_of_loose hnone', hloose, note_eq, note_eq, hwhole]
    cases w.loose.any Loose.recorded with
    | false => exact Or.inr ⟨w, rfl, rfl, rfl⟩
    | true =>
      cases hsnag : w.snag callback with
      | none => exact Or.inr ⟨_, rfl, rfl, rfl⟩
      | some reason =>
        obtain ⟨trap, htrap, rfl⟩ := snag_eq_some hsnag
        exact Or.inl ⟨trap, htrap, rfl⟩
  | some s =>
    obtain ⟨h, hub, kept⟩ := Option.bind_eq_some_iff.mp hnone
    have hub' : w.serene.hub = some h.serene := congrArg (Option.map Hub.serene) hub
    rw [deliver_of_handle hub kept, deliver_of_handle hub' kept, hwhole]
    cases hsnag : w.snag callback with
    | none =>
      refine Or.inr ⟨_, rfl, ?_, rfl⟩
      rw [receive_serene]
      rfl
    | some reason =>
      obtain ⟨trap, htrap, rfl⟩ := snag_eq_some hsnag
      exact Or.inl ⟨trap, htrap, rfl⟩

/-- An error that is logged leaves no trace in the serene world. -/
theorem serene_report_error {entry : LogEntry} (h : entry.isError = true) (w : MemoryWorld) :
    (w.report [entry]).serene = w.serene := by
  have hnone : warnings [entry] = [] := by simp [warnings, h]
  simp only [serene, report, Surroundings.serene, Surroundings.report, warnings_append, hnone, List.append_nil]

/-- **What a delivery comes to.** It breaks off, which costs the rest of the job and springs the trap, or it does
the same in the serene world. -/
theorem deliverOne_cases (w : MemoryWorld) :
    (w.deliveryBreaks = true ∧ w.deliverOne.2.serene = w.serene.cutShort ∧
        ∃ trap, w.trap = some trap ∧ w.deliverOne.2.surroundings = w.surroundings.report [.callbackBroke trap.reason]) ∨
      w.deliveryBreaks = false ∧ w.serene.deliverOne = (w.deliverOne.1, w.deliverOne.2.serene) ∧
        w.deliverOne.2.surroundings = w.surroundings := by
  have hlast := lastSystem_serene w
  cases hs : w.lastSystem with
  | none =>
    rw [hs] at hlast
    simp only [deliveryBreaks, deliverOne, hs, hlast]
    exact Or.inr ⟨trivial, trivial, trivial⟩
  | some s =>
    rw [hs] at hlast
    cases hqueue : s.queue with
    | nil =>
      simp only [deliveryBreaks, deliverOne, hs, hlast, hqueue]
      exact Or.inr ⟨trivial, trivial, trivial⟩
    | cons job jobs =>
      cases job with
      | nil =>
        simp only [deliveryBreaks, deliverOne, hs, hlast, hqueue, setSystem_serene, surroundings_setSystem]
        exact Or.inr ⟨trivial, trivial, trivial⟩
      | cons callback job =>
        obtain ⟨rest, hrest⟩ : ∃ rest, w.setSystem { s with queue := job :: jobs } = rest := ⟨_, rfl⟩
        have hsurroundings : rest.surroundings = w.surroundings := hrest ▸ surroundings_setSystem w _
        simp only [deliveryBreaks, deliverOne, hs, hlast, hqueue, setSystem_serene, hrest]
        rcases deliver_cases rest callback with ⟨trap, htrap, hdeliver⟩ | ⟨w', hdeliver, hserene, hsame⟩
        · left
          simp only [hdeliver]
          have hset (s' : MemorySystem) : ({ rest with trap := none }.setSystem s').serene = w.serene.setSystem s' := by
            have hrest' : { rest with trap := none }.serene = w.serene.setSystem { s with queue := job :: jobs } := by
              rw [setSystem_serene, hrest]
              rfl
            rw [← setSystem_serene, hrest', setSystem_setSystem]
          refine ⟨trivial, ?_, trap, ?_, ?_⟩
          · have hcut : w.serene.cutShort = w.serene.setSystem { s with queue := jobs } := by
              simp only [cutShort, hlast, hqueue, List.tail_cons]
            rw [serene_report_error rfl, hset, hcut]
          · rw [← htrap, ← hrest, trap_setSystem]
          · show Surroundings.report _ (World.setSystem _ _).surroundings = _
            rw [surroundings_setSystem, ← hsurroundings]
        · right
          simp only [hdeliver, hserene]
          exact ⟨trivial, trivial, hsame.trans hsurroundings⟩

/-! ### The task -/

section Task

variable {p : Provider} {t : Tracker} {h h' : Hub MemorySystem}

theorem afterPoll_serene (fuse : Option Fuse) (polled : Poll (List String) × Monitor) :
    Session.afterPoll none polled = (Session.afterPoll fuse polled).serene := by
  obtain ⟨answer, m⟩ := polled
  cases answer <;> rfl

theorem fuse?_afterPoll (fuse : Option Fuse) (polled : Poll (List String) × Monitor) :
    (Session.afterPoll fuse polled).fuse? = fuse := by
  obtain ⟨answer, m⟩ := polled
  cases answer <;> rfl

/-- A step on an errand breaks off, or the errand without its fuse takes the same step. -/
theorem errand_cases (wallets : Option (List Wallet)) (k : Errand) :
    (∃ m reason, k = ⟨m, some ⟨0, reason⟩, .asking⟩) ∨
      ∃ session published, k.step p t wallets = (session, published, []) ∧
        k.serene.step p t wallets = (session.serene, published, []) ∧
        session.fuse?.map Fuse.reason = k.fuse.map Fuse.reason := by
  obtain ⟨m, fuse, stage⟩ := k
  cases stage with
  | holding ws => exact Or.inr ⟨_, _, rfl, rfl, rfl⟩
  | told =>
    right
    cases wallets with
    | none => exact ⟨_, _, rfl, rfl, rfl⟩
    | some ws => exact ⟨_, _, rfl, rfl, rfl⟩
  | asking =>
    have hpolled (fuse' : Option Fuse) : (Errand.mk m fuse .asking).serene.step p t wallets =
        ((Session.afterPoll fuse' (m.poll p t)).serene, none, []) := by
      rw [← afterPoll_serene]
      rfl
    rcases fuse with _ | ⟨_ | polls, reason⟩
    · exact Or.inr ⟨_, _, rfl, hpolled none, by rw [fuse?_afterPoll]⟩
    · exact Or.inl ⟨m, reason, rfl⟩
    · exact Or.inr ⟨_, _, rfl, hpolled (some ⟨polls, reason⟩), by rw [fuse?_afterPoll]; rfl⟩

/-- **A step of a task breaks off, or it does the same in the serene world.** -/
theorem stepTask_cases (whole : ∀ m, h.session ≠ some (.broken m)) :
    (∃ m reason, h.session = some (.busy ⟨m, some ⟨0, reason⟩, .asking⟩) ∧
        h.stepTask p t = ({ h with session := some (.broken m) }, [.taskBroke reason])) ∨
      ∃ h', h.stepTask p t = (h', []) ∧ h.serene.stepTask p t = (h'.serene, []) ∧ h'.reason? = h.reason? := by
  cases hsession : h.session with
  | none =>
    have hserene : h.serene.session = none := congrArg (Option.map Session.serene) hsession
    refine Or.inr ⟨h, ?_, ?_, rfl⟩
    · simp only [Hub.stepTask, hsession]
    · simp only [Hub.stepTask, hserene]
  | some session =>
    have hserene : h.serene.session = some session.serene := congrArg (Option.map Session.serene) hsession
    cases session with
    | broken m => exact absurd hsession (whole m)
    | following m fuse =>
      refine Or.inr ⟨{ h with session := some (.busy ⟨m, fuse, .asking⟩) }, ?_, ?_, ?_⟩
      · simp only [Hub.stepTask, hsession]
      · simp only [Hub.stepTask, hserene]
        rfl
      · rw [Hub.reason?, Hub.reason?, hsession]
        rfl
    | busy k =>
      have hhandle : h.serene.handle = h.handle := rfl
      rcases errand_cases (p := p) (t := t) (h.handle.map WalletSystem.wallets) k with
        ⟨m, reason, rfl⟩ | ⟨session, published, hstep, hsame, hreason⟩
      · exact Or.inl ⟨m, reason, rfl, by simp only [Hub.stepTask, hsession, Errand.step, Hub.publish]⟩
      · refine Or.inr ⟨Hub.publish published { h with session := some session }, ?_, ?_, ?_⟩
        · simp only [Hub.stepTask, hsession, hstep]
        · simp only [Hub.stepTask, hserene, Session.serene, hhandle, hsame]
          cases published <;> rfl
        · obtain ⟨-, -, -, hsession', -⟩ := Hub.publish_fields published { h with session := some session }
          rw [Hub.reason?, Hub.reason?, hsession', hsession]
          exact hreason

/-- **The steps of a task break off at some step, or they do the same in the serene world.** Where they break
off, those before do the same there. -/
theorem stepsTask_cases (steps : Nat) (whole : ∀ m, h.session ≠ some (.broken m)) :
    (∃ n reason, h.stepsToBreak p t steps = some n ∧ h.reason? = some reason ∧
        (h.stepsTask p t steps).2 = [.taskBroke reason] ∧
        h.serene.runPart p t n = (h.stepsTask p t steps).1.serene) ∨
      h.stepsToBreak p t steps = none ∧ (h.stepsTask p t steps).2 = [] ∧
        h.serene.stepsTask p t steps = ((h.stepsTask p t steps).1.serene, []) := by
  induction steps generalizing h with
  | zero => exact Or.inr ⟨rfl, rfl, rfl⟩
  | succ steps ih =>
    rcases stepTask_cases (p := p) (t := t) whole with ⟨m, reason, hsession, hstep⟩ | ⟨h', hstep, hserene, hreason⟩
    · left
      refine ⟨0, reason, ?_, ?_, ?_, ?_⟩
      · simp only [Hub.stepsToBreak, hstep]
      · rw [Hub.reason?, hsession]
        rfl
      · rw [Hub.stepsTask_of_resting steps hstep rfl]
      · have herrand : h.serene.errand? = some ⟨m, none, .asking⟩ := by
          rw [Hub.errand_serene, Hub.errand?_eq_some_iff.mpr hsession]
          rfl
        rw [Hub.stepsTask_of_resting steps hstep rfl]
        simp only [Hub.runPart, Hub.stepsTask, herrand]
        rfl
    · cases herrand : h'.errand? with
      | none =>
        have herrand' : h'.serene.errand? = none := by rw [Hub.errand_serene, herrand]; rfl
        rw [Hub.stepsTask_of_resting steps hstep herrand, Hub.stepsTask_of_resting steps hserene herrand']
        refine Or.inr ⟨?_, rfl, rfl⟩
        simp only [Hub.stepsToBreak, hstep, herrand, Option.isSome_none, Bool.false_eq_true, if_false]
      | some k =>
        have hbusy := Hub.errand?_eq_some_iff.mp herrand
        have hbusy' : h'.serene.session = some (.busy k.serene) := congrArg (Option.map Session.serene) hbusy
        have hmore (n : Nat) : h.serene.stepsTask p t (n + 1) = h'.serene.stepsTask p t n :=
          Hub.stepsTask_of_busy n hserene hbusy'
        have hcount : h.stepsToBreak p t (steps + 1) = (h'.stepsToBreak p t steps).map (· + 1) := by
          simp only [Hub.stepsToBreak, hstep, herrand, Option.isSome_some, if_true]
        rw [Hub.stepsTask_of_busy steps hstep hbusy, hcount, hmore, ← hreason]
        have hwhole (m : Monitor) : h'.session ≠ some (.broken m) := by
          rw [hbusy]
          intro hbroken
          cases hbroken
        rcases ih hwhole with ⟨n, reason, hn, hreason', hlog, hpart⟩ | ⟨hnone, hlog, hsame⟩
        · refine Or.inl ⟨n + 1, reason, by rw [hn]; rfl, hreason', hlog, ?_⟩
          rw [← hpart]
          simp only [Hub.runPart, hmore]
        · exact Or.inr ⟨by rw [hnone]; rfl, hlog, hsame⟩

/-- A task that has broken off is not run. A run of another breaks off, and the steps before that do the same in
the serene world, or all of it does the same there. -/
theorem hub_runSession_cases (p : Provider) (t : Tracker) (h : Hub MemorySystem) :
    (h.hasBroken = true ∧ h.breaks p t = none ∧ h.runSession p t = (h, [])) ∨
      (∃ n reason, h.hasBroken = false ∧ h.breaks p t = some n ∧ h.reason? = some reason ∧
        (h.runSession p t).2 = [.taskBroke reason] ∧ h.serene.runPart p t n = (h.runSession p t).1.serene) ∨
      h.hasBroken = false ∧ h.breaks p t = none ∧ (h.runSession p t).2 = [] ∧
        h.serene.runSession p t = ((h.runSession p t).1.serene, []) := by
  cases hsession : h.session with
  | none =>
    have hserene : h.serene.session = none := congrArg (Option.map Session.serene) hsession
    simp only [Hub.hasBroken, Hub.breaks, Hub.runSession, hsession, hserene]
    exact Or.inr (Or.inr ⟨trivial, trivial, trivial, trivial⟩)
  | some session =>
    have hserene : h.serene.session = some session.serene := congrArg (Option.map Session.serene) hsession
    cases session with
    | broken m =>
      simp only [Hub.hasBroken, Hub.breaks, Hub.runSession, hsession]
      exact Or.inl ⟨trivial, trivial, trivial⟩
    | busy k =>
      simp only [Hub.hasBroken, Hub.breaks, Hub.runSession, hsession, hserene, Session.serene]
      exact Or.inr (Or.inr ⟨trivial, trivial, trivial, trivial⟩)
    | following m fuse =>
      simp only [Hub.hasBroken, Hub.breaks, Hub.runSession, hsession, hserene, Session.serene]
      have hwhole (m : Monitor) : h.session ≠ some (.broken m) := by
        rw [hsession]
        intro hbroken
        cases hbroken
      rcases stepsTask_cases (p := p) (t := t) 8 hwhole with ⟨n, reason, hends⟩ | hends
      · exact Or.inr (Or.inl ⟨n, reason, trivial, hends⟩)
      · exact Or.inr (Or.inr ⟨trivial, hends⟩)

/-- **What a run of the task comes to.** It has broken off before and does nothing, it breaks off, and the steps
before that do the same in the serene world, or all of it does the same there. -/
theorem runSession_cases (w : MemoryWorld) :
    (w.hub.any Hub.hasBroken = true ∧ w.taskBreaks = none ∧ w.runSession = w) ∨
      (∃ n reason, w.hub.any Hub.hasBroken = false ∧ w.taskBreaks = some n ∧ w.hub.bind Hub.reason? = some reason ∧
        w.serene.runPart n = w.runSession.serene ∧
        w.runSession.surroundings = w.surroundings.report [.taskBroke reason]) ∨
      w.hub.any Hub.hasBroken = false ∧ w.taskBreaks = none ∧ w.serene.runSession = w.runSession.serene ∧
        w.runSession.surroundings = w.surroundings := by
  have hreport (w : MemoryWorld) : w.report [] = w := by
    simp only [report, Surroundings.report, List.append_nil]
  have hids : w.serene.provider = w.provider ∧ w.serene.tracker = w.tracker := ⟨rfl, rfl⟩
  cases hub : w.hub with
  | none =>
    have hub' : w.serene.hub = none := congrArg (Option.map Hub.serene) hub
    simp only [taskBreaks, runSession, hub, hub', Option.any_none, Option.bind_none]
    exact Or.inr (Or.inr ⟨trivial, trivial, trivial, trivial⟩)
  | some h =>
    have hub' : w.serene.hub = some h.serene := congrArg (Option.map Hub.serene) hub
    simp only [taskBreaks, runSession, runPart, hub, hub', hids, Option.any_some, Option.bind_some, Option.map_some]
    rcases hub_runSession_cases w.provider w.tracker h with
      ⟨hbroken, hnone, hidle⟩ | ⟨n, reason, hwhole, hn, hreason, hlog, hpart⟩ | ⟨hwhole, hnone, hlog, hsame⟩
    · refine Or.inl ⟨hbroken, hnone, ?_⟩
      rw [hidle, hreport, ← hub]
    · refine Or.inr (Or.inl ⟨n, reason, hwhole, hn, hreason, ?_, by rw [hlog]; rfl⟩)
      rw [hpart, hlog, serene_report_error rfl]
      rfl
    · refine Or.inr (Or.inr ⟨hwhole, hnone, ?_, by rw [hlog, hreport]⟩)
      rw [hsame, hlog, hreport, hreport]
      rfl

end Task

/-! ### Whole runs -/

/-- Where nothing breaks off a move is made, or what takes its place, with the same outcome. -/
theorem calmly_instead (w : MemoryWorld) {m : Move} (untold : ∀ c, m ≠ .act (.deliver c true)) :
    (w.serene.calmly (w.instead m)).2 = (w.move m).2.serene ∧
      answers (w.serene.calmly (w.instead m)).1 = answers [(m, (w.move m).1)] := by
  cases m with
  | act a =>
    by_cases harm : ∃ trap, a = .arm trap
    · obtain ⟨trap, rfl⟩ := harm
      exact ⟨rfl, rfl⟩
    · have hinstead : w.instead (.act a) = [.move (.act a)] := by
        cases a with
        | arm trap => exact absurd ⟨trap, rfl⟩ harm
        | _ => rfl
      have hsame := act_serene w (fun trap ha => harm ⟨trap, ha⟩) fun c ha => untold c (congrArg Move.act ha)
      rw [hinstead]
      refine ⟨congrArg Prod.snd hsame, ?_⟩
      show answers [(_, (w.serene.act a).1)] = answers [(_, (w.act a).1)]
      rw [hsame]
  | deliver =>
    rcases w.deliverOne_cases with ⟨hbroke, hcut, -⟩ | ⟨hwhole, hsame, -⟩
    · simp only [instead, hbroke, if_true]
      exact ⟨hcut.symm, rfl⟩
    · simp only [instead, hwhole, Bool.false_eq_true, if_false]
      exact ⟨congrArg Prod.snd hsame, rfl⟩
  | task =>
    rcases w.runSession_cases with ⟨hbroken, -, hidle⟩ | ⟨n, _, hwhole, hn, -, hpart, -⟩ | ⟨hwhole, hnone, hsame, -⟩
    · simp only [instead, hbroken, if_true]
      exact ⟨congrArg serene hidle.symm, rfl⟩
    · simp only [instead, hwhole, hn, Bool.false_eq_true, if_false]
      exact ⟨hpart, rfl⟩
    · simp only [instead, hwhole, hnone, Bool.false_eq_true, if_false]
      exact ⟨hsame, rfl⟩
  | forget => exact ⟨rfl, rfl⟩

theorem calmly_append (w : MemoryWorld) (steps steps' : List CalmStep) :
    w.calmly (steps ++ steps') =
      ((w.calmly steps).1 ++ ((w.calmly steps).2.calmly steps').1, ((w.calmly steps).2.calmly steps').2) := by
  induction steps generalizing w with
  | nil => rfl
  | cons step steps ih =>
    cases step with
    | cut => exact ih w.cutShort
    | part count => exact ih (w.runPart count)
    | move m => simp only [List.cons_append, calmly, ih]

/-- **What takes the place of some moves has the same outcome.** -/
theorem calmly_insteadOf (w : MemoryWorld) {moves : List Move} (untold : ∀ c, .act (.deliver c true) ∉ moves) :
    (w.serene.calmly (w.insteadOf moves)).2 = (w.play moves).2.serene ∧
      answers (w.serene.calmly (w.insteadOf moves)).1 = answers (w.play moves).1 := by
  induction moves generalizing w with
  | nil => exact ⟨rfl, rfl⟩
  | cons m moves ih =>
    obtain ⟨hworld, hanswers⟩ := w.calmly_instead (m := m) fun c hm => untold c (hm ▸ List.mem_cons_self)
    obtain ⟨hworld', hanswers'⟩ := ih (w.move m).2 fun c hm => untold c (List.mem_cons_of_mem _ hm)
    rw [insteadOf, calmly_append, hworld]
    refine ⟨hworld', ?_⟩
    have hplay : (w.play (m :: moves)).1 = [(m, (w.move m).1)] ++ ((w.move m).2.play moves).1 := rfl
    rw [answers_append, hplay, answers_append, hanswers, hanswers']

/-- No trap is set in what takes the place of some moves. -/
theorem arm_not_mem_insteadOf (w : MemoryWorld) (trap : Trap) (moves : List Move) :
    .move (.act (.arm trap)) ∉ w.insteadOf moves := by
  induction moves generalizing w with
  | nil => exact nofun
  | cons m moves ih =>
    intro hmem
    rcases List.mem_append.mp hmem with hfirst | hrest
    · cases m with
      | act a => cases a <;> simp [instead] at hfirst
      | deliver =>
        simp only [instead] at hfirst
        split at hfirst <;> simp at hfirst
      | task =>
        simp only [instead] at hfirst
        split at hfirst
        · simp at hfirst
        · split at hfirst <;> simp at hfirst
      | forget => simp [instead] at hfirst
    · exact ih _ hrest

/-- Where no trap is set and none is there, nothing breaks off. -/
theorem unbroken_calmly {w : MemoryWorld} (calm : w.trap = none) {steps : List CalmStep}
    (peace : ∀ trap, .move (.act (.arm trap)) ∉ steps) {m : Move} {r : Reply} (h : (m, r) ∈ (w.calmly steps).1) :
    ¬(m = .deliver ∧ r = .broke) := by
  induction steps generalizing w with
  | nil => exact nomatch h
  | cons step steps ih =>
    have hrest : ∀ trap, .move (.act (.arm trap)) ∉ steps := fun trap hm => peace trap (List.mem_cons_of_mem _ hm)
    cases step with
    | cut =>
      refine ih (w := w.cutShort) ?_ hrest h
      unfold cutShort
      split
      · rw [trap_setSystem, calm]
      · exact calm
    | part count => exact ih (w := w.runPart count) calm hrest h
    | move m' =>
      have hpeace : peaceful w m' (w.move m').1 := fun trap hm => peace trap (hm ▸ List.mem_cons_self)
      obtain ⟨hcalm, hunbroken⟩ := trap_move calm hpeace rfl
      rcases List.mem_cons.mp h with hfirst | hlater
      · obtain ⟨rfl, rfl⟩ := Prod.mk.inj hfirst
        exact hunbroken
      · exact ih hcalm hrest hlater

/-! ### The log and the task -/

/-- **One error is logged for everything that breaks off**, and none for anything else. -/
theorem errors_move (w : MemoryWorld) {m : Move} (kept : m ≠ .forget) :
    errors (w.move m).2.surroundings.log = errors w.surroundings.log ++ w.panics m := by
  cases m with
  | forget => exact absurd rfl kept
  | act a => exact (errors_act w a).trans (List.append_nil _).symm
  | deliver =>
    show errors w.deliverOne.2.surroundings.log = _
    rcases w.deliverOne_cases with ⟨hbroke, -, trap, htrap, hsurroundings⟩ | ⟨hwhole, -, hsurroundings⟩
    · simp only [panics, hbroke, if_true, htrap, Option.map_some, Option.getD_some, hsurroundings,
        Surroundings.report, errors_append]
      rfl
    · simp only [panics, hwhole, Bool.false_eq_true, if_false, hsurroundings, List.append_nil]
  | task =>
    show errors w.runSession.surroundings.log = _
    rcases w.runSession_cases with ⟨-, hnone, hidle⟩ | ⟨n, reason, -, hn, hreason, -, hlog⟩ | ⟨-, hnone, -, hlog⟩
    · simp only [panics, hnone, hidle, Option.isSome_none, Bool.false_eq_true, if_false, List.append_nil]
    · simp only [panics, hn, hreason, hlog, Option.isSome_some, if_true, Option.getD_some, Surroundings.report,
        errors_append]
      rfl
    · simp only [panics, hnone, hlog, Option.isSome_none, Bool.false_eq_true, if_false, List.append_nil]

/-- After an opening for which no trap was set the task follows the tracked wallets. -/
theorem session_of_open {w : MemoryWorld} {account : Account} (opened : (w.act (.openHub account)).1 = .ok)
    (free : ∀ trap, w.trap = some trap → trap.target.polls? = none) :
    ∃ h, (w.act (.openHub account)).2.hub = some h ∧ h.session = some (.following .start none) := by
  have hnext : w.nextSession = .following .start none := by
    unfold nextSession nextFuse
    cases htrap : w.trap with
    | none => rfl
    | some trap => rw [Option.bind_some, free trap htrap, Option.map_none]
  cases hub : w.hub with
  | none =>
    simp only [act, openFor, hub, lifecycleReply] at opened
    cases opened
  | some h =>
    have hend := Hub.opening_openFor account w.nextSession h w.surroundings
    obtain ⟨answer, h', e', hresult⟩ : ∃ answer h' e',
        h.openFor account w.nextSession w.surroundings = (answer, h', e') := ⟨_, _, _, rfl⟩
    simp only [hresult] at hend
    simp only [act, openFor, hub, hresult] at opened ⊢
    cases hend with
    | alreadyOpen | emptyAccount | noDirectory | notObtained | mismatch => cases opened
    | @launched _ _ s =>
      refine ⟨h.launch w.nextSession s, ?_, congrArg some hnext⟩
      simp only [monitorTaken]
      split <;> rfl

/-! ### Runs -/

theorem play_append (w : MemoryWorld) (moves moves' : List Move) :
    w.play (moves ++ moves') =
      ((w.play moves).1 ++ ((w.play moves).2.play moves').1, ((w.play moves).2.play moves').2) := by
  induction moves generalizing w with
  | nil => rfl
  | cons m moves ih => simp only [List.cons_append, play, ih]

end World

/-- Moves by which no callback reaches the tracker alone can be made anywhere. -/
theorem World.playable_untold (w : MemoryWorld) {moves : List Move}
    (h : ∀ m ∈ moves, ∀ c, m ≠ .act (.deliver c true)) : w.Playable untold moves := by
  induction moves generalizing w with
  | nil => trivial
  | cons m moves ih =>
    exact ⟨h m List.mem_cons_self, ih (w.move m).2 fun m hm => h m (List.mem_cons_of_mem _ hm)⟩

/-- A run is what its moves come to. -/
theorem Run.eq_play {allowed : MemoryWorld → Move → Reply → Prop} {start w : MemoryWorld} {past : Past}
    (run : Run allowed start past w) : start.play (past.map Prod.fst) = (past, w) := by
  induction run with
  | start => rfl
  | move _ moved _ ih =>
    rw [List.map_append, World.play_append, ih]
    simp only [List.map_cons, List.map_nil, World.play, moved]

/-- **What breaks off is contained.** In the run where nothing breaks off, but the jobs concerned are cut short
before the callback and the task does not run where it has broken off, all answers to the user are the same, and so
is the world in the end but for what breaking off leaves behind. In the run itself each move logs one error if
something breaks off in it, and the next successful opening starts a task that follows the tracked wallets. -/
theorem Run.panics_are_contained {config : Config} {factory : MemoryFactory} {disk : Disk} {wall : Instant}
    {enabled : List String} {withHub : Bool} {past : Past} {w : MemoryWorld}
    (run : Run untold (.start config factory disk wall enabled withHub) past w) :
    ∃ calm : Past,
      (World.start config factory disk wall enabled withHub : MemoryWorld).calmly
          (World.insteadOf (.start config factory disk wall enabled withHub) (past.map Prod.fst)) =
        (calm, w.serene) ∧
      answers calm = answers past ∧ (∀ m r, (m, r) ∈ calm → ¬(m = .deliver ∧ r = .broke)) ∧
      (∀ m, m ≠ .forget →
        errors (w.move m).2.surroundings.log = errors w.surroundings.log ++ w.panics m) ∧
      ∀ account, (w.act (.openHub account)).1 = .ok → (∀ trap, w.trap = some trap → trap.target.polls? = none) →
        ∃ h, (w.act (.openHub account)).2.hub = some h ∧ h.session = some (.following .start none) := by
  have hplay := run.eq_play
  have huntold (c : Callback) : .act (.deliver c true) ∉ past.map Prod.fst := by
    intro hm
    obtain ⟨⟨m, r⟩, hmem, rfl⟩ := List.mem_map.mp hm
    exact run.moves_of (fun m => ∀ c, m ≠ .act (.deliver c true)) (fun _ _ _ h => h) _ r hmem c rfl
  have hserene : (World.start config factory disk wall enabled withHub : MemoryWorld).serene =
      .start config factory disk wall enabled withHub := by
    cases withHub <;> rfl
  generalize hstart : (World.start config factory disk wall enabled withHub : MemoryWorld) = start at *
  obtain ⟨hworld, hanswers⟩ := start.calmly_insteadOf huntold
  rw [hplay, hserene] at hworld hanswers
  refine ⟨_, Prod.ext rfl hworld, hanswers, ?_, fun m hm => w.errors_move hm,
    fun account opened free => World.session_of_open opened free⟩
  intro m r hm
  have htrap : start.trap = none := hstart ▸ rfl
  exact World.unbroken_calmly htrap (fun trap => start.arm_not_mem_insteadOf trap _) hm

/-- A run in which a callback breaks off, so that two callbacks of its job are lost. Later two tasks break off,
one before it has done anything, and one when it has just published the wallets. -/
def mishaps : Past × MemoryWorld :=
  World.play neverOpen
    [.act (.openHub ⟨"alice", ⟨0, 0⟩, [1]⟩), .task, .act (.command (.addWallet ⟨"bitcoin", "btc", "Bitcoin", 8⟩)),
      .deliver, .act (.arm ⟨.callback .manager, .made⟩), .deliver, .act (.subscribe "mine" (.wallets false)),
      .act (.command (.submitTransfer "btc" (.create "t1" .zero .sent))), .deliver, .deliver, .act (.next "mine"),
      .act .closeHub, .act (.arm ⟨.monitor, .fixed⟩), .act (.openHub ⟨"alice", ⟨0, 0⟩, [1]⟩), .task,
      .act (.enable "bitcoin"), .task, .act .closeHub, .act (.arm ⟨.laterPoll 3, .made⟩),
      .act (.openHub ⟨"alice", ⟨0, 0⟩, [1]⟩), .task, .act (.disable "bitcoin"), .task, .act (.enable "bitcoin"), .task,
      .act .askOpen]

/-- Three errors are logged, and the user is told nothing else than if nothing had broken off. -/
theorem mishaps_are_contained :
    (∃ calm : Past, neverOpen.calmly (neverOpen.insteadOf (mishaps.1.map Prod.fst)) = (calm, mishaps.2.serene) ∧
        answers calm = answers mishaps.1) ∧
      errors mishaps.2.surroundings.log =
        [.callbackBroke "manager blew up", .taskBroke "listener blew up", .taskBroke "monitor blew up"] := by
  have run : Run untold _ mishaps.1 mishaps.2 := Run.play _ _ (World.playable_untold _ (by simp))
  obtain ⟨calm, hcalm, hanswers, -⟩ := run.panics_are_contained
  exact ⟨⟨calm, hcalm, hanswers⟩, by decide +kernel⟩

end WalletHub
