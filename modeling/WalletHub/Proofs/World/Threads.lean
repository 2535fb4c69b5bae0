import WalletHub.Proofs.World.Course

/-!
# Tasks that run beside all else

A `Course` lets the task of a hub run from one waiting to the next with nothing in between. A real task is
a thread of its own. It holds no lock while it reads the wallets and publishes them, so that between two of
its steps anything can happen: callbacks, commands, a closing, another opening. A closing cancels it, but a
cancelled task that is on an errand goes on until it would wait. `Threads` are the runs in which this is so:
besides the moves there are the single steps of the hub's task and of those that were cancelled (`Tick`).
The courses are among them (`Course.threads`), with their tasks run as units.

A step of a task does little to its hub (`Hub.Stride`): it changes the state of the task, and publishes the
list of wallets that the task has read before, if it holds one (`Hub.release`). So whatever a move keeps and
such publications keep holds in all these runs (`Threads.keeps`), and nothing that was published is taken
back in them (`Threads.grown`). A list that is released may be an old one, and the hub may be closed by
then. What comes of it is the subject of `WalletHub.Proofs.World.Closed` for closed hubs and of
`WalletHub.Proofs.Subscription.Wallets` for open ones.
-/

namespace WalletHub

variable {φ σ : Type}

/-! ### Steps of tasks -/

/-- The least that can happen where tasks run beside all else. -/
inductive Tick where
  | move (m : Move)
  /-- The task of the hub takes a step. -/
  | task
  /-- A cancelled task takes a step. -/
  | leaving (i : Nat)

/-- The list that a task has read and has still to publish. -/
def Errand.held (k : Errand) : Option (List Wallet) :=
  match k.stage with
  | .asking | .told => none
  | .holding ws => some ws

theorem Errand.published_step (p : Provider) (t : Tracker) (wallets : Option (List Wallet)) (k : Errand) :
    (k.step p t wallets).2.1 = k.held := by
  obtain ⟨m, fuse, stage⟩ := k
  cases stage with
  | asking =>
    match fuse with
    | none => rfl
    | some ⟨0, reason⟩ => rfl
    | some ⟨polls + 1, reason⟩ => rfl
  | told => cases wallets <;> rfl
  | holding ws => rfl

namespace Hub

/-- The list of wallets that a task publishes by the tick. -/
def release (h : Hub σ) : Tick → Option (List Wallet)
  | .move _ => none
  | .task => h.errand?.bind Errand.held
  | .leaving i => h.leaving[i]?.bind Errand.held

variable [WalletSystem σ]

/-- What a step of a task makes of its hub. -/
inductive Stride (p : Provider) (t : Tracker) (h : Hub σ) : Tick → Hub σ → Prop where
  | task : Stride p t h .task (h.stepTask p t).1
  | leaving (i : Nat) : Stride p t h (.leaving i) (h.stepLeaving p t i).1

variable {p : Provider} {t : Tracker} {h h' : Hub σ} {b : Tick}

/-- The task is there after a step as it was before. -/
theorem exists_stepTask (p : Provider) (t : Tracker) (h : Hub σ) :
    ∃ session, session.isSome = h.session.isSome ∧
      (h.stepTask p t).1 = { h.publish (h.release .task) with session := session } := by
  have hidle (rests : h.errand? = none) : h.publish (h.release .task) = h := by
    rw [release, rests]
    rfl
  cases hsession : h.session with
  | none =>
    rw [hidle (by rw [errand?, hsession])]
    refine ⟨none, rfl, ?_⟩
    simp only [stepTask, hsession]
    rw [← hsession]
  | some session =>
    cases session with
    | following m fuse =>
      rw [hidle (by rw [errand?, hsession])]
      exact ⟨some (.busy ⟨m, fuse, .asking⟩), rfl, by simp only [stepTask, hsession]⟩
    | broken m =>
      rw [hidle (by rw [errand?, hsession])]
      refine ⟨some (.broken m), rfl, ?_⟩
      simp only [stepTask, hsession]
      rw [← hsession]
    | busy k =>
      refine ⟨some (k.step p t (h.handle.map WalletSystem.wallets)).1, rfl, ?_⟩
      rw [release, errand?_eq_some_iff.mpr hsession, Option.bind_some, ← k.published_step p t]
      simp only [stepTask, hsession]
      exact publish_session _ _ h

/-- The cancelled tasks do not get more by a step of one of them. -/
theorem exists_stepLeaving (p : Provider) (t : Tracker) (i : Nat) (h : Hub σ) :
    ∃ leaving, leaving.length ≤ h.leaving.length ∧
      (h.stepLeaving p t i).1 = { h.publish (h.release (.leaving i)) with leaving := leaving } := by
  have hpublish (wallets : Option (List Wallet)) (leaving : List Errand) :
      { h with leaving := leaving }.publish wallets = { h.publish wallets with leaving := leaving } := by
    cases wallets <;> rfl
  cases hi : h.leaving[i]? with
  | none =>
    refine ⟨h.leaving, Nat.le_refl _, ?_⟩
    simp only [stepLeaving, release, hi, Option.bind_none, publish]
  | some k =>
    rw [release, hi, Option.bind_some, ← k.published_step p t (h.handle.map WalletSystem.wallets)]
    simp only [stepLeaving, hi]
    cases hsession : (k.step p t (h.handle.map WalletSystem.wallets)).1 with
    | busy k' => exact ⟨_, Nat.le_of_eq List.length_set, hpublish _ _⟩
    | following m fuse => exact ⟨_, List.length_eraseIdx_le _ _, hpublish _ _⟩
    | broken m => exact ⟨_, List.length_eraseIdx_le _ _, hpublish _ _⟩

namespace Stride

/-- **A step of a task leaves nearly all of its hub as it was.** -/
theorem fields (stride : h.Stride p t b h') :
    h'.isOpen = h.isOpen ∧ h'.handle = h.handle ∧ h'.config = h.config ∧
      h'.session.isSome = h.session.isSome ∧ h'.leaving.length ≤ h.leaving.length := by
  cases stride with
  | task =>
    obtain ⟨session, hsome, hstep⟩ := h.exists_stepTask p t
    obtain ⟨hopen, hhandle, hconfig, -, hleaving⟩ := publish_fields (h.release .task) h
    rw [hstep]
    exact ⟨hopen, hhandle, hconfig, hsome, Nat.le_of_eq (congrArg List.length hleaving)⟩
  | leaving i =>
    obtain ⟨leaving, hle, hstep⟩ := h.exists_stepLeaving p t i
    obtain ⟨hopen, hhandle, hconfig, hsession, -⟩ := publish_fields (h.release (.leaving i)) h
    rw [hstep]
    exact ⟨hopen, hhandle, hconfig, congrArg Option.isSome hsession, hle⟩

theorem config_eq (stride : h.Stride p t b h') : h'.config = h.config := by
  obtain ⟨-, -, hconfig, -⟩ := stride.fields
  exact hconfig

/-- **It publishes the list that the task holds**, and nothing else. -/
theorem board (stride : h.Stride p t b h') : h'.board = (h.publish (h.release b)).board := by
  cases stride with
  | task =>
    obtain ⟨session, -, hstep⟩ := h.exists_stepTask p t
    rw [hstep]
  | leaving i =>
    obtain ⟨leaving, -, hstep⟩ := h.exists_stepLeaving p t i
    rw [hstep]

theorem grown (stride : h.Stride p t b h') : h.board.Grown h'.board := by
  rw [stride.board]
  exact h.grown_publish _

/-- The task of a hub is there as long as the hub is open. -/
theorem session_eq (stride : h.Stride p t b h') (paired : h.session.isSome = h.isOpen) :
    h'.session.isSome = h'.isOpen := by
  obtain ⟨hopen, -, -, hsession, -⟩ := stride.fields
  rw [hopen, hsession, paired]

end Stride

end Hub

/-! ### Ticks -/

namespace World

variable [WalletSystem σ]

/-- The list of wallets that a task publishes by the tick. -/
def release (w : World φ σ) (b : Tick) : Option (List Wallet) := w.hub.bind fun h => h.release b

/-- A task takes a step. -/
inductive Stride (w : World φ σ) : Tick → World φ σ → Prop where
  | task : Stride w .task w.stepTask
  | leaving (i : Nat) : Stride w (.leaving i) (w.stepLeaving i)

/-- A step of a task does nothing but to the hub and the log. -/
theorem Stride.cases {w w' : World φ σ} {b : Tick} (stride : w.Stride b w') :
    w.hub = none ∧ w' = w ∨
      ∃ h h' log, w.hub = some h ∧ h.Stride w.provider w.tracker b h' ∧
        w' = { w with hub := some h' }.report log := by
  cases hhub : w.hub with
  | none =>
    left
    cases stride with
    | task => simp only [stepTask, hhub, true_and]
    | leaving i => simp only [stepLeaving, hhub, true_and]
  | some h =>
    right
    cases stride with
    | task => exact ⟨h, _, _, rfl, .task, by simp only [stepTask, hhub]; rfl⟩
    | leaving i => exact ⟨h, _, _, rfl, .leaving i, by simp only [stepLeaving, hhub]; rfl⟩

variable [SystemFactory φ σ] [Steering φ σ]

/-- The world after a tick. -/
def tick (w : World φ σ) : Tick → World φ σ
  | .move m => (w.go m).2
  | .task => w.stepTask
  | .leaving i => w.stepLeaving i

/-- The world after some ticks. -/
def through (w : World φ σ) : List Tick → World φ σ
  | [] => w
  | b :: ticks => (w.tick b).through ticks

/-- The moves among some ticks, with the answers to them. -/
def past (w : World φ σ) : List Tick → Past
  | [] => []
  | .move m :: ticks => (m, (w.go m).1) :: (w.go m).2.past ticks
  | .task :: ticks => w.stepTask.past ticks
  | .leaving i :: ticks => (w.stepLeaving i).past ticks

/-- All moves among these ticks are allowed, one after the other. -/
def Possible (allowed : World φ σ → Move → Reply → Prop) (w : World φ σ) : List Tick → Prop
  | [] => True
  | .move m :: ticks => allowed w m (w.go m).1 ∧ (w.go m).2.Possible allowed ticks
  | .task :: ticks => w.stepTask.Possible allowed ticks
  | .leaving i :: ticks => (w.stepLeaving i).Possible allowed ticks

theorem possible_of_forall {allowed : World φ σ → Move → Reply → Prop} (h : ∀ w m r, allowed w m r)
    (w : World φ σ) (ticks : List Tick) : w.Possible allowed ticks := by
  induction ticks generalizing w with
  | nil => trivial
  | cons b ticks ih =>
    cases b with
    | move m => exact ⟨h _ _ _, ih _⟩
    | task | leaving => exact ih _

theorem through_append (w : World φ σ) (ticks ticks' : List Tick) :
    w.through (ticks ++ ticks') = (w.through ticks).through ticks' := by
  induction ticks generalizing w with
  | nil => rfl
  | cons b ticks ih => exact ih (w.tick b)

omit [SystemFactory φ σ] [Steering φ σ] in
theorem Stride.dropped {w w' : World φ σ} {b : Tick} (stride : w.Stride b w') : w'.dropped = w.dropped := by
  rcases stride.cases with ⟨-, rfl⟩ | ⟨h, h', log, -, -, rfl⟩
  · rfl
  · rfl

theorem Stride.eq_tick {w w' : World φ σ} {b : Tick} (stride : w.Stride b w') : w' = w.tick b := by
  cases stride <;> rfl

end World

/-! ### Runs -/

variable [WalletSystem σ] [SystemFactory φ σ] [Steering φ σ]

/-- What can happen from `start` on where tasks run beside all else and every move is allowed. The past has
the moves with their answers. -/
inductive Threads (allowed : World φ σ → Move → Reply → Prop) (start : World φ σ) :
    List Tick → Past → World φ σ → Prop where
  | start : Threads allowed start [] [] start
  | move {ticks : List Tick} {past : Past} {w w' : World φ σ} (threads : Threads allowed start ticks past w)
      {m : Move} {r : Reply} (moved : w.go m = (r, w')) (ok : allowed w m r) :
      Threads allowed start (ticks ++ [.move m]) (past ++ [(m, r)]) w'
  | stride {ticks : List Tick} {past : Past} {w w' : World φ σ} (threads : Threads allowed start ticks past w)
      {b : Tick} (stride : w.Stride b w') : Threads allowed start (ticks ++ [b]) past w'

/-- **A course is such a run**, with the runs of the task as units. -/
theorem Course.threads {start w : World φ σ} {past : Past} (course : Course start past w) :
    Threads (fun _ _ _ => True) start (past.map fun (m, _) => .move m) past w := by
  induction course with
  | start => exact .start
  | move _ moved ih =>
    rw [List.map_append]
    exact ih.move moved trivial

namespace Threads

variable {allowed : World φ σ → Move → Reply → Prop} {start w w' : World φ σ} {ticks ticks' : List Tick}
  {past past' : Past}

theorem trans (threads : Threads allowed start ticks past w) (threads' : Threads allowed w ticks' past' w') :
    Threads allowed start (ticks ++ ticks') (past ++ past') w' := by
  induction threads' with
  | start => rwa [List.append_nil, List.append_nil]
  | move _ moved ok ih =>
    rw [← List.append_assoc, ← List.append_assoc]
    exact ih.move moved ok
  | stride _ stride ih =>
    rw [← List.append_assoc]
    exact ih.stride stride

/-- A world is what its ticks have made of the first one. -/
theorem eq_through (threads : Threads allowed start ticks past w) : w = start.through ticks := by
  induction threads with
  | start => rfl
  | move _ moved _ ih => rw [World.through_append, ← ih, World.through, World.tick, moved, World.through]
  | stride _ stride ih => rw [World.through_append, ← ih, World.through, ← stride.eq_tick, World.through]

/-- Ticks make a run as far as they are possible. -/
theorem through (w : World φ σ) (ticks : List Tick) (h : w.Possible allowed ticks) :
    Threads allowed w ticks (w.past ticks) (w.through ticks) := by
  induction ticks generalizing w with
  | nil => exact .start
  | cons b ticks ih =>
    cases b with
    | move m =>
      obtain ⟨hm, hrest⟩ := h
      exact (Threads.start.move rfl hm).trans (ih (w.go m).2 hrest)
    | task => exact (Threads.start.stride .task).trans (ih w.stepTask h)
    | leaving i => exact (Threads.start.stride (.leaving i)).trans (ih (w.stepLeaving i) h)

/-- What has happened up to a tick is such a run as well. -/
theorem exists_prefix (threads : Threads allowed start ticks past w) {before : List Tick} (h : before <+: ticks) :
    ∃ past, Threads allowed start before past (start.through before) := by
  induction threads with
  | start =>
    rw [List.prefix_nil.mp h]
    exact ⟨[], .start⟩
  | move threads moved ok ih =>
    rcases List.prefix_concat_iff.mp h with rfl | hearlier
    · have hthreads := threads.move moved ok
      exact ⟨_, hthreads.eq_through ▸ hthreads⟩
    · exact ih hearlier
  | stride threads taken ih =>
    rcases List.prefix_concat_iff.mp h with rfl | hearlier
    · have hthreads := threads.stride taken
      exact ⟨_, hthreads.eq_through ▸ hthreads⟩
    · exact ih hearlier

theorem mono {allowed' : World φ σ → Move → Reply → Prop} (threads : Threads allowed start ticks past w)
    (h : ∀ w m r, allowed w m r → allowed' w m r) : Threads allowed' start ticks past w := by
  induction threads with
  | start => exact .start
  | move _ moved ok ih => exact ih.move moved (h _ _ _ ok)
  | stride _ stride ih => exact ih.stride stride

/-- **What holds at the start and is kept by every tick holds in the whole run**, so that the run is also one
with this further restriction. -/
theorem strengthen (threads : Threads allowed start ticks past w) (holds : World φ σ → Prop) (h : holds start)
    (move : ∀ w m r w', holds w → allowed w m r → w.go m = (r, w') → holds w')
    (stride : ∀ w b w', holds w → World.Stride w b w' → holds w') :
    holds w ∧ Threads (fun w m r => holds w ∧ allowed w m r) start ticks past w := by
  induction threads with
  | start => exact ⟨h, .start⟩
  | move _ moved ok ih =>
    obtain ⟨hw, hthreads⟩ := ih
    exact ⟨move _ _ _ _ hw ok moved, hthreads.move moved ⟨hw, ok⟩⟩
  | stride _ taken ih =>
    obtain ⟨hw, hthreads⟩ := ih
    exact ⟨stride _ _ _ hw taken, hthreads.stride taken⟩

/-! ### Hubs -/

theorem dropped_le (threads : Threads allowed start ticks past w) : start.dropped ≤ w.dropped := by
  induction threads with
  | start => exact Nat.le_refl _
  | move _ moved _ ih => exact Nat.le_trans ih (Upshot.upshot_go moved).dropped_le
  | stride _ stride ih => exact stride.dropped ▸ ih

/-- **What every step of a hub and of its tasks keeps holds of it as long as it is there**, in view of the
moves. -/
theorem keeps (threads : Threads allowed start ticks past w) (kept : w.dropped = start.dropped) {hub : Hub σ}
    (hhub : start.hub = some hub) (holds : Hub σ → Prop) (first : holds hub)
    (keep : ∀ h h' m r, (m, r) ∈ past → holds h → h.Step m r h' → holds h')
    (stride : ∀ h h' p t b, holds h → Hub.Stride p t h b h' → holds h') :
    ∃ hub', w.hub = some hub' ∧ holds hub' := by
  induction threads with
  | start => exact ⟨hub, hhub, first⟩
  | @move ticks past w w' threads m r moved ok ih =>
    have hupshot := Upshot.upshot_go moved
    have hbefore : w.dropped = start.dropped :=
      Nat.le_antisymm (kept ▸ hupshot.dropped_le) threads.dropped_le
    obtain ⟨h, hh, hholds⟩ := ih hbefore fun h h' m r hm => keep h h' m r (List.mem_append_left _ hm)
    obtain ⟨h', hh', hsame | hstep⟩ := hupshot.step_of_kept (kept.trans hbefore.symm) hh
    · exact ⟨h', hh', hsame ▸ hholds⟩
    · exact ⟨h', hh', keep h h' m r (List.mem_append_right _ List.mem_cons_self) hholds hstep⟩
  | stride _ taken ih =>
    obtain ⟨h, hh, hholds⟩ := ih (taken.dropped.symm.trans kept) keep
    rcases taken.cases with ⟨hnone, rfl⟩ | ⟨h₁, h₁', log, hh₁, hstride, rfl⟩
    · exact ⟨h, hh, hholds⟩
    · obtain rfl := Option.some.inj (hh₁.symm.trans hh)
      exact ⟨h₁', rfl, stride _ _ _ _ _ hholds hstride⟩

/-- **What holds of every new hub and is kept by every step of a hub and of its tasks holds in the whole
run.** -/
theorem hub_invariant (threads : Threads allowed start ticks past w) (holds : Hub σ → Prop)
    (first : ∀ h, start.hub = some h → holds h) (create : ∀ config, holds (.create config))
    (keep : ∀ h h' m r, holds h → h.Step m r h' → holds h')
    (stride : ∀ h h' p t b, holds h → Hub.Stride p t h b h' → holds h') : ∀ h, w.hub = some h → holds h := by
  refine (threads.strengthen (fun w => ∀ h, w.hub = some h → holds h) first ?_ ?_).1
  · intro w m r w' hw _ moved
    exact (Upshot.upshot_go moved).hub_kept create (fun _ _ => keep _ _ _ _) hw
  · intro w b w' hw taken h' hh'
    rcases taken.cases with ⟨-, rfl⟩ | ⟨h, h₁, log, hh, hstride, rfl⟩
    · exact hw h' hh'
    · obtain rfl := Option.some.inj hh'
      exact stride _ _ _ _ _ (hw h hh) hstride

/-- **Nothing that was published is taken back.** -/
theorem grown (threads : Threads allowed start ticks past w) (kept : w.dropped = start.dropped) {hub : Hub σ}
    (hhub : start.hub = some hub) : ∃ hub', w.hub = some hub' ∧ hub.board.Grown hub'.board :=
  threads.keeps kept hhub (fun h => hub.board.Grown h.board) (.same _)
    (fun _ _ _ _ _ hgrown step => hgrown.trans step.grown)
    fun _ _ _ _ _ hgrown stride => hgrown.trans stride.grown

end Threads

end WalletHub
