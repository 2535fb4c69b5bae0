import WalletHub.Hub
import WalletHub.Proofs.Tracker.Monitor

/-!
# What a run of the hub's task comes to

The task takes its steps one at a time: it polls its monitor, reads the wallets when it is told of a
change, publishes what it has read, and polls again. Here such steps are put together into a run from
one waiting to the next. A run in which nothing comes in between is described by `Pursuit`, which
leaves out how the steps are counted: so many times the monitor tells of a change, and then it gives
nothing or breaks off. The wallets are published once for each change (`Hub.republish`), and nothing
else happens to the hub.

`Hub.runSession_of_following` says that every run of a task that waits is such a pursuit, and
`Hub.runSession_of_resting` that a task that does not wait is not run. All that later modules know of
a run comes from these two. What holds before a run and is kept by each publication holds after it
(`Hub.kept_republish`).
-/

namespace WalletHub

/-- A poll goes well, and the fuse is shorter by it. -/
inductive Fuse.Burns : Option Fuse → Option Fuse → Prop where
  | safe : Burns none none
  | shorter (polls : Nat) (reason : String) : Burns (some ⟨polls + 1, reason⟩) (some ⟨polls, reason⟩)

/-- A run of a task that follows a monitor: how many changes it is told of, what becomes of it, and
what is reported. -/
inductive Pursuit (p : Provider) (t : Tracker) : Monitor → Option Fuse → Nat → Session → List LogEntry → Prop where
  /-- The monitor breaks off. -/
  | breaks (m : Monitor) (reason : String) :
      Pursuit p t m (some ⟨0, reason⟩) 0 (.broken m) [.taskBroke reason]
  /-- The monitor gives nothing, and the task waits. -/
  | waits {m m' : Monitor} {fuse fuse' : Option Fuse} (burns : Fuse.Burns fuse fuse')
      (nothing : m.poll p t = (.pending, m')) : Pursuit p t m fuse 0 (.following m' fuse') []
  /-- The monitor tells of a change. -/
  | told {m m' : Monitor} {fuse fuse' : Option Fuse} {ids : List String} {changes : Nat} {next : Session}
      {log : List LogEntry} (burns : Fuse.Burns fuse fuse') (item : m.poll p t = (.item ids, m'))
      (rest : Pursuit p t m' fuse' changes next log) : Pursuit p t m fuse (changes + 1) next log

namespace Hub

variable {σ : Type} {p : Provider} {t : Tracker} {h h' : Hub σ}

theorem errand?_eq_some_iff {k : Errand} : h.errand? = some k ↔ h.session = some (.busy k) := by
  unfold errand?
  cases h.session with
  | none => simp
  | some session => cases session <;> simp

/-! ### Publishing again -/

/-- A hub publishes wallets into its channels alone. -/
theorem publish_fields (wallets : Option (List Wallet)) (h : Hub σ) :
    (h.publish wallets).isOpen = h.isOpen ∧ (h.publish wallets).handle = h.handle ∧
      (h.publish wallets).config = h.config ∧ (h.publish wallets).session = h.session ∧
      (h.publish wallets).leaving = h.leaving := by
  cases wallets with
  | none => exact ⟨rfl, rfl, rfl, rfl, rfl⟩
  | some ws => exact ⟨rfl, rfl, rfl, rfl, rfl⟩

theorem publish_session (wallets : Option (List Wallet)) (session : Option Session) (h : Hub σ) :
    { h with session := session }.publish wallets = { h.publish wallets with session := session } := by
  cases wallets with
  | none => rfl
  | some ws => rfl

theorem board_publish (wallets : Option (List Wallet)) (h : Hub σ) :
    (h.publish wallets).board = wallets.toList.foldl (fun b ws => b.offerWallets ws) h.board := by
  cases wallets <;> rfl

variable [WalletSystem σ]

/-- Publishes the wallets so many times. -/
def republish : Nat → Hub σ → Hub σ
  | 0, h => h
  | changes + 1, h => republish changes (h.publish (h.handle.map WalletSystem.wallets))

/-- **What each publication keeps is kept by any number of them.** -/
theorem kept_republish {Kept : Hub σ → Prop}
    (keeps : ∀ h : Hub σ, Kept h → Kept (h.publish (h.handle.map WalletSystem.wallets))) (changes : Nat)
    (kept : Kept h) : Kept (h.republish changes) := by
  induction changes generalizing h with
  | zero => exact kept
  | succ changes ih => exact ih (keeps h kept)

theorem republish_fields (changes : Nat) (h : Hub σ) :
    (h.republish changes).isOpen = h.isOpen ∧ (h.republish changes).handle = h.handle ∧
      (h.republish changes).config = h.config := by
  induction changes generalizing h with
  | zero => exact ⟨rfl, rfl, rfl⟩
  | succ changes ih =>
    obtain ⟨hopen, hhandle, hconfig, -, -⟩ := publish_fields (h.handle.map WalletSystem.wallets) h
    obtain ⟨hopen', hhandle', hconfig'⟩ := ih (h.publish (h.handle.map WalletSystem.wallets))
    exact ⟨hopen'.trans hopen, hhandle'.trans hhandle, hconfig'.trans hconfig⟩

theorem republish_session (changes : Nat) (session : Option Session) (h : Hub σ) :
    { h with session := session }.republish changes = { h.republish changes with session := session } := by
  induction changes generalizing h with
  | zero => rfl
  | succ changes ih =>
    rw [republish, republish, publish_session]
    exact ih _

/-! ### Steps put together -/

/-- **What each step of the task keeps is kept by a run of it.** -/
theorem kept_runSession {Kept : Hub σ → Prop} (keeps : ∀ h : Hub σ, Kept h → Kept (h.stepTask p t).1)
    (kept : Kept h) : Kept (h.runSession p t).1 := by
  have hsteps (steps : Nat) (h : Hub σ) (hkept : Kept h) : Kept (stepsTask p t steps h).1 := by
    induction steps generalizing h with
    | zero => exact hkept
    | succ steps ih =>
      have hstep := keeps h hkept
      cases hbusy : (h.stepTask p t).1.errand?.isSome with
      | true =>
        simp only [stepsTask, hbusy, if_true]
        exact ih _ hstep
      | false =>
        simp only [stepsTask, hbusy, Bool.false_eq_true, if_false]
        exact hstep
  unfold runSession
  split
  · exact hsteps 8 h kept
  all_goals exact kept

/-- After a step the task goes on as long as it is on an errand. -/
theorem stepsTask_of_busy {k : Errand} (steps : Nat) (step : h.stepTask p t = (h', []))
    (busy : h'.session = some (.busy k)) : stepsTask p t (steps + 1) h = stepsTask p t steps h' := by
  rw [stepsTask, step]
  simp only [errand?_eq_some_iff.mpr busy, Option.isSome_some, if_true, List.nil_append]

theorem stepsTask_of_resting {log : List LogEntry} (steps : Nat) (step : h.stepTask p t = (h', log))
    (rests : h'.errand? = none) : stepsTask p t (steps + 1) h = (h', log) := by
  rw [stepsTask, step]
  simp only [rests, Option.isSome_none, Bool.false_eq_true, if_false]

/-- A task that was told of a change has published the wallets within two steps, and polls again. -/
theorem stepsTask_of_told {m : Monitor} {fuse : Option Fuse} (steps : Nat)
    (told : h.session = some (.busy ⟨m, fuse, .told⟩)) :
    ∃ left, steps ≤ left ∧ left ≤ steps + 1 ∧ stepsTask p t (steps + 2) h = stepsTask p t left
      { h.publish (h.handle.map WalletSystem.wallets) with session := some (.busy ⟨m, fuse, .asking⟩) } := by
  cases hhandle : h.handle with
  | none =>
    have hasks : h.stepTask p t = ({ h with session := some (.busy ⟨m, fuse, .asking⟩) }, []) := by
      simp only [stepTask, told, Errand.step, hhandle, Option.map_none, publish]
    exact ⟨steps + 1, Nat.le_succ steps, Nat.le_refl _, stepsTask_of_busy (steps + 1) hasks rfl⟩
  | some s =>
    let held : Hub σ := { h with session := some (.busy ⟨m, fuse, .holding (WalletSystem.wallets s)⟩) }
    have hreads : h.stepTask p t = (held, []) := by
      simp only [stepTask, told, Errand.step, hhandle, Option.map_some, publish, held]
    refine ⟨steps, Nat.le_refl steps, Nat.le_succ steps, ?_⟩
    rw [stepsTask_of_busy (steps + 1) hreads rfl]
    exact stepsTask_of_busy steps rfl rfl

/-- **A task that polls its monitor goes on until it waits or breaks off**, given three steps for each
list that is new and one more. -/
theorem stepsTask_of_asking {m : Monitor} {fuse : Option Fuse} {steps : Nat}
    (asking : h.session = some (.busy ⟨m, fuse, .asking⟩)) (enough : 3 * m.unread p t < steps) :
    ∃ changes next log, Pursuit p t m fuse changes next log ∧
      stepsTask p t steps h = ({ h.republish changes with session := some next }, log) := by
  induction steps using Nat.strongRecOn generalizing h m fuse with
  | _ steps ih =>
    obtain ⟨steps, rfl⟩ : ∃ more, steps = more + 1 := ⟨steps - 1, by omega⟩
    have hfuses : (∃ reason, fuse = some ⟨0, reason⟩) ∨ ∃ fuse', Fuse.Burns fuse fuse' := by
      match fuse with
      | none => exact Or.inr ⟨none, .safe⟩
      | some ⟨0, reason⟩ => exact Or.inl ⟨reason, rfl⟩
      | some ⟨polls + 1, reason⟩ => exact Or.inr ⟨_, .shorter polls reason⟩
    rcases hfuses with ⟨reason, rfl⟩ | ⟨fuse', burns⟩
    · have hstep : h.stepTask p t = ({ h with session := some (.broken m) }, [.taskBroke reason]) := by
        simp only [stepTask, asking, Errand.step, publish]
      exact ⟨0, _, _, .breaks m reason, stepsTask_of_resting steps hstep rfl⟩
    have hstep : h.stepTask p t = ({ h with session := some (.afterPoll fuse' (m.poll p t)) }, []) := by
      cases burns with
      | safe => simp only [stepTask, asking, Errand.step, publish]
      | shorter polls reason => simp only [stepTask, asking, Errand.step, publish]
    rcases m.poll_cases p t with ⟨ids, m', hitem, hless⟩ | ⟨m', hpending⟩
    · rw [hitem] at hstep
      obtain ⟨more, rfl⟩ : ∃ more, steps = more + 2 := ⟨steps - 2, by omega⟩
      let told : Hub σ := { h with session := some (.busy ⟨m', fuse', .told⟩) }
      obtain ⟨left, henough, hleft, hround⟩ := stepsTask_of_told (p := p) (t := t) (h := told) more rfl
      let asks : Hub σ := { told.publish (told.handle.map WalletSystem.wallets) with
        session := some (.busy ⟨m', fuse', .asking⟩) }
      obtain ⟨changes, next, log, hrest, hend⟩ := ih left (by omega) (h := asks) rfl (by omega)
      refine ⟨changes + 1, next, log, .told burns hitem hrest, ?_⟩
      rw [stepsTask_of_busy (more + 2) hstep rfl]
      have hasks : asks = { h.publish (h.handle.map WalletSystem.wallets) with
          session := some (.busy ⟨m', fuse', .asking⟩) } := by
        simp only [asks, told, publish_session]
      refine hround.trans (hend.trans ?_)
      rw [hasks, republish_session]
      rfl
    · rw [hpending] at hstep
      exact ⟨0, _, _, .waits burns hpending, stepsTask_of_resting steps hstep rfl⟩

/-! ### Runs -/

/-- **Every run of a task that waits is a pursuit**, with the wallets published for each change. -/
theorem runSession_of_following {m : Monitor} {fuse : Option Fuse}
    (session : h.session = some (.following m fuse)) :
    ∃ changes next log, Pursuit p t m fuse changes next log ∧
      h.runSession p t = ({ h.republish changes with session := some next }, log) := by
  have hwakes : h.stepTask p t = ({ h with session := some (.busy ⟨m, fuse, .asking⟩) }, []) := by
    simp only [stepTask, session]
  have henough := m.unread_le p t
  let woken : Hub σ := { h with session := some (.busy ⟨m, fuse, .asking⟩) }
  have hseven : 3 * m.unread p t < 7 := by omega
  obtain ⟨changes, next, log, hpursuit, hend⟩ := stepsTask_of_asking (h := woken) rfl hseven
  refine ⟨changes, next, log, hpursuit, ?_⟩
  rw [runSession, session]
  refine (stepsTask_of_busy 7 hwakes rfl).trans ?_
  rw [hend, republish_session]

/-- A task that does not wait is not run. -/
theorem runSession_of_resting (rests : ∀ m fuse, h.session ≠ some (.following m fuse)) :
    h.runSession p t = (h, []) := by
  unfold runSession
  split
  · next m fuse hsession => exact absurd hsession (rests m fuse)
  all_goals rfl

theorem runSession_cases (p : Provider) (t : Tracker) (h : Hub σ) :
    ((∀ m fuse, h.session ≠ some (.following m fuse)) ∧ h.runSession p t = (h, [])) ∨
      ∃ m fuse changes next log, h.session = some (.following m fuse) ∧ Pursuit p t m fuse changes next log ∧
        h.runSession p t = ({ h.republish changes with session := some next }, log) := by
  by_cases hwaits : ∃ m fuse, h.session = some (.following m fuse)
  · obtain ⟨m, fuse, hsession⟩ := hwaits
    obtain ⟨changes, next, log, hpursuit, hend⟩ := runSession_of_following (p := p) (t := t) hsession
    exact Or.inr ⟨m, fuse, changes, next, log, hsession, hpursuit, hend⟩
  · have hrests (m : Monitor) (fuse : Option Fuse) : h.session ≠ some (.following m fuse) :=
      fun hsession => hwaits ⟨m, fuse, hsession⟩
    exact Or.inl ⟨hrests, runSession_of_resting hrests⟩

end Hub

end WalletHub
