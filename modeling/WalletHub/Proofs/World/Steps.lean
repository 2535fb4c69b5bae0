import WalletHub.Proofs.World.Effect

/-!
# Settled steps

A step of `World.run` does something, delivers all that waits and lets the hub's task run. Nothing of this is
new: what is proved of runs of single moves is true of steps as well.

## What is proved

* `World.exists_run_deliverCount`: any number of deliveries of whole jobs is a run of deliveries of callbacks.
* `World.waiting_step`: after a step nothing waits.
* `World.exists_run`: whatever happens in steps also happens move by move. The run has the same end, and every
  subscription has given the same items.
-/

namespace WalletHub

/-- The move delivers. -/
def delivering (_ : MemoryWorld) (m : Move) (_ : Reply) : Prop := m = .deliver

namespace World

/-! ### Deliveries -/

/-- The job at the head of the queue is delivered callback by callback. -/
theorem exists_run_job {w : MemoryWorld} {s : MemorySystem} (hs : w.lastSystem = some s) (job : Job)
    {jobs : List Job} (hqueue : s.queue = job :: jobs) :
    ∃ past, Run delivering w past (deliverJob job (w.setSystem { s with queue := jobs })) := by
  induction job generalizing w s with
  | nil =>
    have hmove : w.move .deliver = (.nothing, w.setSystem { s with queue := jobs }) := by
      simp only [move, deliverOne, hs, hqueue]
    exact ⟨_, Run.start.move hmove rfl⟩
  | cons callback job ih =>
    have hrest := deliver_setSystem hs { s with queue := job :: jobs } rfl callback
    have hwhole := deliver_setSystem hs { s with queue := jobs } rfl callback
    cases hdeliver : w.deliver callback with
    | mk answer w' =>
      rw [hdeliver] at hrest hwhole
      cases answer with
      | error reason =>
        refine ⟨_, Run.start.move (m := .deliver) (r := .broke) ?_ rfl⟩
        simp only [move, deliverOne, hs, hqueue, hrest, setSystem_setSystem, deliverJob, hwhole]
      | ok done =>
        have hmove : w.move .deliver = (.ok, w'.setSystem { s with queue := job :: jobs }) := by
          simp only [move, deliverOne, hs, hqueue, hrest]
        have hs' : w'.lastSystem = some s := by
          rw [← hs, ← lastSystem_deliver w callback, hdeliver]
        obtain ⟨past, hpast⟩ := ih (lastSystem_setSystem hs' { s with queue := job :: jobs }) rfl
        rw [setSystem_setSystem] at hpast
        have hjob : deliverJob (callback :: job) (w.setSystem { s with queue := jobs }) =
            deliverJob job (w'.setSystem { s with queue := jobs }) := by
          simp only [deliverJob, hwhole]
        rw [hjob]
        exact ⟨_, (Run.start.move hmove rfl).trans hpast⟩

theorem exists_run_deliverCount (count : Nat) (w : MemoryWorld) :
    ∃ past, Run delivering w past (deliverCount count w) := by
  induction count generalizing w with
  | zero => exact ⟨[], .start⟩
  | succ count ih =>
    have hnext : ∃ past, Run delivering w past w.deliverNext := by
      cases hs : w.lastSystem with
      | none =>
        rw [deliverNext, hs]
        exact ⟨[], .start⟩
      | some s =>
        cases hqueue : WalletSystem.queue s with
        | nil =>
          simp only [deliverNext, hs, hqueue]
          exact ⟨[], .start⟩
        | cons job jobs =>
          simp only [deliverNext, hs, hqueue]
          exact exists_run_job hs job hqueue
    obtain ⟨past, hpast⟩ := hnext
    obtain ⟨past', hpast'⟩ := ih w.deliverNext
    exact ⟨_, hpast.trans hpast'⟩

/-! ### Nothing waits after a step -/

theorem lastSystem_deliverJob (job : Job) (w : MemoryWorld) : (deliverJob job w).lastSystem = w.lastSystem := by
  induction job generalizing w with
  | nil => rfl
  | cons callback job ih =>
    have hsame := lastSystem_deliver w callback
    rw [deliverJob]
    split
    · next w' hdeliver =>
      rw [hdeliver] at hsame
      exact (ih w').trans hsame
    · next reason w' hdeliver =>
      rw [hdeliver] at hsame
      exact hsame

theorem waiting_deliverNext (w : MemoryWorld) : w.deliverNext.waiting = w.waiting - 1 := by
  cases hs : w.lastSystem with
  | none => simp only [deliverNext, waiting, hs]
  | some s =>
    cases hqueue : WalletSystem.queue s with
    | nil => simp only [deliverNext, waiting, hs, hqueue, List.length_nil]
    | cons job jobs =>
      simp only [deliverNext, waiting, hs, hqueue, lastSystem_deliverJob, lastSystem_setSystem hs]
      rfl

theorem waiting_deliverCount (count : Nat) (w : MemoryWorld) :
    (deliverCount count w).waiting = w.waiting - count := by
  induction count generalizing w with
  | zero => rfl
  | succ count ih =>
    rw [deliverCount, ih, waiting_deliverNext]
    omega

theorem lastSystem_runSession (w : MemoryWorld) : w.runSession.lastSystem = w.lastSystem := by
  cases hub : w.hub with
  | none => simp only [runSession, hub]
  | some h =>
    obtain ⟨-, hhandle, -⟩ := Hub.runSession_fields w.provider w.tracker h
    simp only [runSession, hub, lastSystem, report, Option.bind_some, hhandle]

/-- A step does something with what was noted forgotten, and then settles. -/
theorem step_of_act {w w' : MemoryWorld} {a : Action} {r : Reply} (h : (move w .forget).2.act a = (r, w')) :
    (w.step a).1.reply = r ∧ (w.step a).2 = w'.settle := by
  have hreply : (w.step a).1.reply = ((move w .forget).2.act a).1 := rfl
  have hworld : (w.step a).2 = ((move w .forget).2.act a).2.settle := rfl
  rw [hreply, hworld, h]
  exact ⟨rfl, rfl⟩

theorem waiting_settle (w : MemoryWorld) : w.settle.waiting = 0 := by
  rw [settle, waiting, lastSystem_runSession, ← waiting, waiting_deliverCount, Nat.sub_self]

/-- **After a step nothing waits.** -/
theorem waiting_step (w : MemoryWorld) (a : Action) : (w.step a).2.waiting = 0 := waiting_settle _

/-! ### Runs of steps -/

/-- What the user has done in steps, with the answers. -/
def story (w : MemoryWorld) (actions : List Action) : Past :=
  (actions.zip (w.run actions).1).map fun (a, outcome) => (.act a, outcome.reply)

theorem story_cons (w : MemoryWorld) (a : Action) (actions : List Action) :
    w.story (a :: actions) = (.act a, (w.step a).1.reply) :: (w.step a).2.story actions := rfl

end World

theorem heard_append_of_unheard (name : String) {past past' : Past} (h : ∀ m r, (m, r) ∈ past' → Unheard m r) :
    heard name (past ++ past') = heard name past := by
  rw [heard_append]
  generalize heard name past = x
  induction past' generalizing x with
  | nil => rfl
  | cons entry past' ih =>
    obtain ⟨m, r⟩ := entry
    rw [List.foldl_cons, h m r List.mem_cons_self name x]
    exact ih (fun m r hm => h m r (List.mem_cons_of_mem _ hm)) x

namespace Run

variable {allowed : MemoryWorld → Move → Reply → Prop} {start w : MemoryWorld} {past : Past}

theorem moves_of (run : Run allowed start past w) (holds : Move → Prop)
    (h : ∀ w m r, allowed w m r → holds m) : ∀ m r, (m, r) ∈ past → holds m := by
  induction run with
  | start => exact fun m r hm => nomatch hm
  | move _ _ ok ih =>
    intro m r hm
    rcases List.mem_append.mp hm with hbefore | hlast
    · exact ih m r hbefore
    · obtain ⟨rfl, rfl⟩ := Prod.mk.inj (List.mem_singleton.mp hlast)
      exact h _ _ _ ok

end Run

namespace World

/-- A step is a run, and of what is heard in it only the action matters. -/
theorem exists_run_step (w : MemoryWorld) (a : Action) :
    ∃ past, Run anyMove w past (w.step a).2 ∧
      ∀ before name, heard name (before ++ past) = heard name (before ++ [(.act a, (w.step a).1.reply)]) := by
  obtain ⟨r, w', hact⟩ : ∃ r w', (move w .forget).2.act a = (r, w') := ⟨_, _, rfl⟩
  obtain ⟨hreply, hstep⟩ := step_of_act hact
  obtain ⟨delivered, hdelivered⟩ := exists_run_deliverCount w'.waiting w'
  have hforget : Run anyMove w [(.forget, .nothing)] (move w .forget).2 := Run.start.move rfl trivial
  have hacted := hforget.move (m := .act a) hact trivial
  have hrun := (hacted.trans (hdelivered.mono fun _ _ _ _ => trivial)).move (m := .task) rfl trivial
  rw [hreply, hstep]
  refine ⟨_, hrun, fun before name => ?_⟩
  have hdelivers : ∀ m r, (m, r) ∈ delivered → Unheard m r := by
    intro m r hm
    obtain rfl := hdelivered.moves_of (· = .deliver) (fun _ _ _ h => h) m r hm
    exact fun _ _ => rfl
  rw [← List.append_assoc, heard_snoc, ← List.append_assoc, heard_append_of_unheard name hdelivers,
    ← List.append_assoc, heard_snoc, heard_snoc, heard_snoc]
  rfl

/-- **Whatever happens in steps also happens move by move**, and every subscription gives the same items. -/
theorem exists_run (w : MemoryWorld) (actions : List Action) :
    ∃ past, Run anyMove w past (w.run actions).2 ∧
      ∀ before name, heard name (before ++ past) = heard name (before ++ w.story actions) := by
  induction actions generalizing w with
  | nil => exact ⟨[], .start, fun _ _ => rfl⟩
  | cons a actions ih =>
    obtain ⟨past, hstep, hheard⟩ := w.exists_run_step a
    obtain ⟨past', hrest, hheard'⟩ := ih (w.step a).2
    refine ⟨past ++ past', hstep.trans hrest, fun before name => ?_⟩
    rw [← List.append_assoc, hheard', heard_append, hheard, ← heard_append, story_cons, List.append_assoc,
      List.singleton_append]

end World

end WalletHub
