import WalletHub.Proofs.World.Listening
import WalletHub.Proofs.World.Threads

/-!
# What stays true of a subscriber

`Scene.Keeps` is about runs over systems in memory, and follows a subscription as long as its hub is there.
This module carries the idea to other runs.

## What is proved

* `Course.attending`: over systems of any kind, and whether or not the hub was dropped, a property of a
  subscriber holds in a whole course if it holds of every new one, and is kept by polls and by everything that
  leaves the subscriber alone (`World.Attends`, `World.Leaves`).
* `Threads.attending`, `Threads.listening`: where tasks run beside all else it is enough that the steps of tasks
  keep what `Scene.Keeps` says is kept by the moves.
* `Threads.scene_invariant`: the same for what is true of the hub and the ids, with no subscription.
-/

namespace WalletHub

variable {φ σ : Type} [WalletSystem σ] [SystemFactory φ σ] [Steering φ σ]

namespace World

/-! ### The board of a subscriber -/

/-- The board that a subscriber reads: that of the hub, or of the hub that was dropped. -/
def boardFor (s : Subscriber) (w : World φ σ) : Board := s.frozen.getD ((w.hub.map Hub.board).getD .empty)

omit [SystemFactory φ σ] [Steering φ σ] in
theorem board_view (name : String) (s : Subscriber) (w : World φ σ) :
    (w.view name s).board = w.boardFor s ∧ (w.view name s).now = w.now := by
  unfold view boardFor
  cases s.frozen with
  | some b => exact ⟨rfl, rfl⟩
  | none => cases w.hub <;> exact ⟨rfl, rfl⟩

omit [SystemFactory φ σ] [Steering φ σ] in
theorem ids_view (name : String) (s : Subscriber) (w : World φ σ) :
    (w.view name s).provider = w.provider ∧ (w.view name s).tracker = w.tracker := by
  unfold view
  cases s.frozen with
  | some b => exact ⟨rfl, rfl⟩
  | none => cases w.hub <;> exact ⟨rfl, rfl⟩

/-- A subscriber is left alone: it is not asked, and its board grows or is frozen. -/
structure Leaves (w : World φ σ) (s : Subscriber) (w' : World φ σ) (s' : Subscriber) : Prop where
  subscription : s'.subscription = s.subscription
  hub : s'.hub = s.hub
  grown : (w.boardFor s).Grown (w'.boardFor s')
  now : w.now ≤ w'.now
  /-- Nothing comes to a subscriber whose hub was dropped. -/
  frozen : s.frozen.isSome = true → s' = s
  kept : s'.frozen = none → s.frozen = none ∧
    ∀ h, w.hub = some h → ∃ h', w'.hub = some h' ∧ h'.config = h.config
  counted : w.dropped ≤ w'.dropped
  /-- A hub that it loses now is counted as well. -/
  lost : s'.frozen.isSome = true → s.frozen.isSome = true ∨ w.dropped < w'.dropped

variable {w w' : World φ σ} {s s' : Subscriber} {k : Heard} {name : String} {topic : Topic}

omit [WalletSystem σ] [SystemFactory φ σ] [Steering φ σ] in
/-- Where nothing happens to the hub every subscriber is left alone. -/
theorem Leaves.still (s : Subscriber) (hub : w'.hub = w.hub) (dropped : w'.dropped = w.dropped)
    (now : w.now ≤ w'.now) : w.Leaves s w' s where
  subscription := rfl
  hub := rfl
  grown := by
    rw [boardFor, boardFor, hub]
    exact .same _
  now := now
  frozen _ := rfl
  kept hfrozen := ⟨hfrozen, fun h hh => ⟨h, hub.trans hh, rfl⟩⟩
  counted := Nat.le_of_eq dropped.symm
  lost := Or.inl

omit [SystemFactory φ σ] [Steering φ σ] in
/-- A step of the hub leaves every subscriber alone. -/
theorem Leaves.step (s : Subscriber) {h h' : Hub σ} {m : Move} {r : Reply} (hub : w.hub = some h)
    (step : h.Step m r h') (hub' : w'.hub = some h') (dropped : w'.dropped = w.dropped) (now : w'.now = w.now) :
    w.Leaves s w' s where
  subscription := rfl
  hub := rfl
  grown := by
    rw [boardFor, boardFor, hub, hub']
    cases s.frozen with
    | some b => exact .same b
    | none => exact step.grown
  now := Nat.le_of_eq now.symm
  frozen _ := rfl
  kept hfrozen := by
    refine ⟨hfrozen, fun h₁ hh₁ => ?_⟩
    obtain rfl := Option.some.inj (hub.symm.trans hh₁)
    exact ⟨h', hub', step.config_eq⟩
  counted := Nat.le_of_eq dropped.symm
  lost := Or.inl

omit [WalletSystem σ] [SystemFactory φ σ] [Steering φ σ] in
theorem Leaves.drop (s : Subscriber) {h : Hub σ} (hub : w.hub = some h) (dropped : w'.dropped = w.dropped + 1)
    (now : w'.now = w.now) :
    w.Leaves s w' { s with frozen := s.frozen.or (some h.board) } where
  subscription := rfl
  hub := rfl
  grown := by
    rw [boardFor, boardFor, hub]
    cases s.frozen <;> exact .same _
  now := Nat.le_of_eq now.symm
  frozen hsome := by
    obtain ⟨subscription, number, frozen⟩ := s
    cases frozen with
    | none => cases hsome
    | some b => rfl
  kept hnone := by cases hfrozen : s.frozen <;> rw [hfrozen] at hnone <;> cases hnone
  counted := dropped ▸ Nat.le_succ _
  lost _ := Or.inr (dropped ▸ Nat.lt_succ_self _)

omit [WalletSystem σ] [SystemFactory φ σ] [Steering φ σ] in
/-- A hub on which nothing was published is like none. -/
theorem Leaves.make (s : Subscriber) {config : Config} (hub : w.hub = none)
    (hub' : w'.hub = some (.create config)) (dropped : w'.dropped = w.dropped) (now : w'.now = w.now) :
    w.Leaves s w' s where
  subscription := rfl
  hub := rfl
  grown := by
    rw [boardFor, boardFor, hub, hub']
    exact .same _
  now := Nat.le_of_eq now.symm
  frozen _ := rfl
  kept hfrozen := ⟨hfrozen, fun h hh => nomatch hub.symm.trans hh⟩
  counted := Nat.le_of_eq dropped.symm
  lost := Or.inl

/-! ### Properties that stay true -/

/-- The property holds of every new subscriber to a topic, and is kept by all that can happen to it under a
name, where it is asked in such worlds only. -/
structure Attends (among : World φ σ → Prop) (name : String) (topic : Topic)
    (holds : World φ σ → Subscriber → Heard → Prop) : Prop where
  create {w : World φ σ} {h : Hub σ} : w.hub = some h →
    holds w ⟨.create h.config.throttle h.config.transferThrottle topic, w.dropped, none⟩ .silence
  alone {w : World φ σ} : topic.needsHub = false → w.hub = none →
    holds w ⟨.create 0 0 topic, w.dropped, none⟩ .silence
  poll {w : World φ σ} {s : Subscriber} {k : Heard} : among w → holds w s k →
    holds w { s with subscription := (s.subscription.poll (w.view name s)).2 }
      (k.hear (s.subscription.poll (w.view name s)).1.item?.toList)
  leave {w w' : World φ σ} {m : Move} {r : Reply} {s s' : Subscriber} {k : Heard} : w.go m = (r, w') →
    w.Leaves s w' s' → holds w s k → holds w' s' k

variable {among : World φ σ → Prop} {holds : World φ σ → Subscriber → Heard → Prop}

/-- What polls keep is kept by asking for items until there is none. -/
theorem Attends.drain (attends : World.Attends among name topic holds) (ok : among w) (h : holds w s k)
    (count : Nat) :
    holds w { s with subscription := (s.subscription.drain (w.view name s) (count + 1)).2.2 }
      (k.hear (s.subscription.drain (w.view name s) (count + 1)).1) :=
  Subscription.keeps_drain (fun s' k => holds w { s with subscription := s' } k) (v := w.view name s)
    (fun _ _ hs => attends.poll ok hs) count h

/-- Where asking for items has come to an end there was a last poll. -/
theorem Attends.exists_last_poll (attends : World.Attends among name topic holds) (ok : among w) (h : holds w s k)
    {count : Nat} {items : List Item} {stop : Poll Item} {last : Subscription}
    (drained : s.subscription.drain (w.view name s) count = (items, some stop, last)) :
    ∃ s' k', holds w { s with subscription := s' } k' ∧ k'.items = k.items ++ items ∧
      s'.poll (w.view name s) = (stop, last) :=
  Subscription.exists_last_poll (fun s' k => holds w { s with subscription := s' } k)
    (fun _ _ hs => attends.poll ok hs) h drained

/-- **Every move keeps what is kept**, with what is heard of it. -/
theorem Attends.go (attends : World.Attends among name topic holds) (ok : among w) {m : Move} {r : Reply}
    (before : ∀ s, w.subscribers.lookup name = some s → s.subscription.topic = topic → holds w s k)
    (moved : w.go m = (r, w')) :
    ∀ s, w'.subscribers.lookup name = some s → s.subscription.topic = topic →
      holds w' s (k.after name (m, r)) := by
  have hput {other : String} {x : Subscriber} {k' : Heard}
      (subscribers : w'.subscribers = Entries.put other x w.subscribers) (still : Undisturbed w w')
      (own : name = other → x.subscription.topic = topic → holds w' x k') (others : name ≠ other → k' = k) :
      ∀ s, w'.subscribers.lookup name = some s → s.subscription.topic = topic → holds w' s k' := by
    intro s hs htopic
    rw [subscribers, Entries.lookup_put] at hs
    by_cases hname : name = other
    · rw [if_pos hname] at hs
      obtain rfl := Option.some.inj hs
      exact own hname htopic
    · rw [if_neg hname] at hs
      rw [others hname]
      exact attends.leave moved (.still s still.hub still.dropped (Nat.le_of_eq still.now.symm)) (before s hs htopic)
  cases Upshot.upshot_go moved with
  | stay hub dropped subscribers now unheard =>
    intro s hs htopic
    rw [unheard]
    exact attends.leave moved (.still s hub dropped now) (before s (subscribers ▸ hs) htopic)
  | change hub step hub' dropped subscribers now unheard =>
    intro s hs htopic
    rw [unheard]
    exact attends.leave moved (.step s hub step hub' dropped now) (before s (subscribers ▸ hs) htopic)
  | drop hub _ dropped frozen now unheard =>
    intro s hs htopic
    rw [unheard]
    rw [frozen] at hs
    obtain ⟨s', hs', rfl⟩ := Option.map_eq_some_iff.mp hs
    exact attends.leave moved (.drop s' hub dropped now) (before s' hs' htopic)
  | make hub hub' dropped subscribers now unheard =>
    intro s hs htopic
    rw [unheard]
    obtain ⟨config, hmade⟩ := hub'
    exact attends.leave moved (.make s hub hmade dropped now) (before s (subscribers ▸ hs) htopic)
  | @subscribe h other topic' made hub still subscribers =>
    obtain ⟨rfl, rfl⟩ := made
    rw [Heard.after]
    refine hput subscribers still ?_ fun hname => if_neg (Ne.symm hname)
    rintro rfl htopic
    obtain rfl : topic' = topic := (Subscription.topic_create _ _ _).symm.trans htopic
    rw [if_pos rfl, ← still.dropped]
    exact attends.create (still.hub.trans hub)
  | @subscribeAlone other topic' made alone hub still subscribers =>
    obtain ⟨rfl, rfl⟩ := made
    rw [Heard.after]
    refine hput subscribers still ?_ fun hname => if_neg (Ne.symm hname)
    rintro rfl htopic
    obtain rfl : topic' = topic := (Subscription.topic_create _ _ _).symm.trans htopic
    rw [if_pos rfl, ← still.dropped]
    exact attends.alone alone (still.hub.trans hub)
  | @unsubscribe other still subscribers unheard =>
    intro s hs htopic
    rw [unheard]
    rw [subscribers, Entries.lookup_drop] at hs
    by_cases hname : name = other
    · rw [if_pos hname] at hs
      cases hs
    · rw [if_neg hname] at hs
      exact attends.leave moved (.still s still.hub still.dropped (Nat.le_of_eq still.now.symm)) (before s hs htopic)
  | @next other s' made asked still subscribers =>
    obtain ⟨rfl, rfl⟩ := asked
    rw [Heard.after]
    refine hput subscribers still ?_ fun hname => if_neg (Ne.symm hname)
    rintro rfl htopic
    rw [if_pos rfl]
    rw [Subscription.topic_poll] at htopic
    exact attends.leave moved (.still _ still.hub still.dropped (Nat.le_of_eq still.now.symm))
      (attends.poll ok (before s' made htopic))
  | @drain other s' made asked still subscribers =>
    obtain ⟨rfl, rfl⟩ := asked
    rw [Heard.after]
    refine hput subscribers still ?_ fun hname => if_neg (Ne.symm hname)
    rintro rfl htopic
    rw [if_pos rfl]
    rw [Subscription.topic_drain] at htopic
    exact attends.leave moved (.still _ still.hub still.dropped (Nat.le_of_eq still.now.symm))
      (attends.drain ok (before s' made htopic) 19)

end World

/-- **What stays true of a subscriber holds in the whole course.** -/
theorem Course.attending {start w : World φ σ} {past : Past} {name : String} {topic : Topic}
    {among : World φ σ → Prop} {holds : World φ σ → Subscriber → Heard → Prop} (course : Course start past w)
    (attends : World.Attends among name topic holds) (hstart : start.subscribers = [])
    (ok : ∀ {past w}, Course start past w → among w) :
    ∀ s, w.subscribers.lookup name = some s → s.subscription.topic = topic → holds w s (heard name past) := by
  induction course with
  | start =>
    intro s hs
    rw [hstart] at hs
    cases hs
  | move course moved ih =>
    rw [heard_snoc]
    exact attends.go (ok course) ih moved

/-! ### Where tasks run beside all else -/

namespace Threads

variable {allowed : MemoryWorld → Move → Reply → Prop} {start w : MemoryWorld} {ticks : List Tick} {past : Past}
  {name : String} {topic : Topic}

/-- **What every change and every step of a task keeps holds in the whole run**, of the hub and the ids that it
follows. -/
theorem scene_invariant (threads : Threads allowed start ticks past w) (holds : Scene → Prop)
    (first : ∀ x, start.scene = some x → holds x) (create : ∀ config p t, holds ⟨.create config, p, t⟩)
    (change : ∀ {w m r w' x x'}, allowed w m r → w.move m = (r, w') → w.scene = some x → holds x →
      x.Change w m r w' x' → holds x')
    (stride : ∀ {h h' p t b}, holds ⟨h, p, t⟩ → Hub.Stride p t h b h' → holds ⟨h', p, t⟩) :
    ∀ x, w.scene = some x → holds x := by
  refine (threads.strengthen (fun w => ∀ x, w.scene = some x → holds x) first ?_ ?_).1
  · intro w m r w' hw ok moved x' hx'
    have hmoved : w.move m = (r, w') := (World.go_eq_move w m).symm.trans moved
    rcases (Effect.effect_move hmoved).scene_cases with ⟨x, x₁, hx, hx₁, hchange⟩ | ⟨-, hnew⟩
    · obtain rfl := Option.some.inj (hx₁.symm.trans hx')
      exact change ok hmoved hx (hw x hx) hchange
    · obtain ⟨config, p, t, rfl⟩ := hnew x' hx'
      exact create config p t
  · intro w b w' hw taken x' hx'
    rcases taken.cases with ⟨-, rfl⟩ | ⟨h, h', log, hh, hstride, rfl⟩
    · exact hw x' hx'
    · obtain rfl := Option.some.inj hx'
      exact stride (hw _ (World.scene_of_hub hh)) hstride

/-- **What steps of tasks keep as well is attended in the whole run.** -/
theorem attending {holds : Scene → Nat → Subscription → Heard → Prop}
    (threads : Threads allowed start ticks past w) (keeps : Scene.Keeps allowed name topic holds)
    (stride : ∀ {h h' p t b now s k}, holds ⟨h, p, t⟩ now s k → Hub.Stride p t h b h' → holds ⟨h', p, t⟩ now s k)
    (hstart : start.subscribers = []) (needs : topic.needsHub = true) :
    w.Attended name topic holds (heard name past) := by
  induction threads with
  | start =>
    intro s hs
    rw [hstart] at hs
    exact nomatch hs
  | move _ moved ok ih =>
    rw [heard_snoc]
    exact keeps.attended_of_move needs ih ((World.go_eq_move _ _).symm.trans moved) ok
  | stride _ taken ih =>
    rcases taken.cases with ⟨-, rfl⟩ | ⟨h, h', log, hh, hstride, rfl⟩
    · exact ih
    · intro s hs frozen same
      obtain ⟨x, hx, hholds⟩ := ih s hs frozen same
      obtain rfl := Option.some.inj ((World.scene_of_hub hh).symm.trans hx)
      exact ⟨_, rfl, stride hholds hstride⟩

/-- It is so of a property of the hub alone. -/
theorem listening {holds : Hub MemorySystem → Nat → Subscription → Heard → Prop}
    (threads : Threads allowed start ticks past w) (keeps : Keeps allowed name topic holds)
    (stride : ∀ {h h' p t b now s k}, holds h now s k → Hub.Stride p t h b h' → holds h' now s k)
    (hstart : start.subscribers = []) (needs : topic.needsHub = true) :
    ∀ s, w.subscribers.lookup name = some s → s.frozen = none → s.subscription.topic = topic →
      ∃ h, w.hub = some h ∧ holds h w.now s.subscription (heard name past) := by
  intro s hs frozen same
  obtain ⟨x, hx, hholds⟩ := threads.attending keeps.scene stride hstart needs s hs frozen same
  obtain ⟨h, hh, rfl⟩ := Option.map_eq_some_iff.mp hx
  exact ⟨h, hh, hholds⟩

end Threads

end WalletHub
