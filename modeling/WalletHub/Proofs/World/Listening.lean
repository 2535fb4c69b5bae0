import WalletHub.Proofs.World.Effect

/-!
# What stays true of a subscription

A property of a subscription, of its hub and of what was heard so far holds in a whole run if it holds
of every new subscription and is kept by polls, by time and by whatever happens to the hub
(`Keeps`, `Run.listening`), and likewise one that is also about the enabled and the managed ids
(`Scene.Keeps`, `Run.attending`). A subscription whose hub was dropped is not followed any further.

## What is proved

* `Subscription.keeps_drain`: what polls keep is kept by asking for items until there is none.
* `Subscription.exists_last_poll`: where asking has come to an end there was a last poll.
* `Scene.Keeps.attended_of_move`: every move keeps what is kept, with what is heard of it. It goes through the
  effects of a move (`Effect`) once, for all properties of subscriptions.
* `Run.attending`, `Run.listening`: what is kept is true in the whole run.

A property of a subscription is thus proved of a run by giving a `Keeps`: what holds at first, and that polls,
time and the changes of the hub keep it.
-/

namespace WalletHub

/-! ### Topics -/

namespace Subscription

/-- What was subscribed to. -/
def topic : Subscription → Topic
  | .system _ => .system
  | .account _ => .account
  | .wallets enabledOnly _ _ => .wallets enabledOnly
  | .wallet code _ => .wallet code
  | .codes _ _ => .codes
  | .sync code _ _ => .sync code
  | .transfers code _ => .transfers code
  | .transfer code hash _ => .transfer code hash
  | .updates code _ => .updates code
  | .enabled _ => .enabled
  | .tracked _ => .tracked

theorem topic_create (period transferPeriod : Nat) (topic : Topic) :
    (create period transferPeriod topic).topic = topic := by
  cases topic <;> rfl

theorem topic_poll (v : View) (s : Subscription) : (s.poll v).2.topic = s.topic := by
  cases s with
  | enabled seen =>
    simp only [poll]
    split <;> rfl
  | _ => rfl

theorem topic_drain (v : View) (count : Nat) (s : Subscription) : (s.drain v count).2.2.topic = s.topic := by
  induction count generalizing s with
  | zero => rfl
  | succ count ih =>
    have hpoll := topic_poll v s
    rw [drain]
    split
    · next i s' heq =>
      rw [heq] at hpoll
      exact (ih s').trans hpoll
    · next stop s' _ heq =>
      rw [heq] at hpoll
      exact hpoll

end Subscription

/-! ### Views -/

/-- It is what can be seen of a hub at some time. -/
structure View.Of (h : Hub MemorySystem) (now : Nat) (v : View) : Prop where
  now : v.now = now
  alive : v.hubAlive = true
  board : v.board = h.board
  live : v.live = h.handle.map fun s => (s.account, s.wallets)

theorem View.Of.alive_eq {h : Hub MemorySystem} {now : Nat} {v : View} (hv : v.Of h now) (c : ChannelName) :
    v.alive c = true := by
  rw [View.alive, hv.alive, Bool.true_or]

theorem World.view_of {w : MemoryWorld} {h : Hub MemorySystem} {s : Subscriber} (hhub : w.hub = some h)
    (hfrozen : s.frozen = none) (name : String) : (w.view name s).Of h w.now := by
  simp only [World.view, hfrozen, hhub]
  exact ⟨rfl, rfl, rfl, rfl⟩

theorem World.provider_view (w : MemoryWorld) (name : String) (s : Subscriber) :
    (w.view name s).provider = w.provider := by
  unfold World.view
  split
  · rfl
  · split <;> rfl

/-! ### Asking until there is no item -/

theorem Poll.eq_item {α : Type} {p : Poll α} {a : α} (h : p.item? = some a) : p = .item a := by
  cases p with
  | item b => exact congrArg Poll.item (Option.some.inj h)
  | pending | ended => exact nomatch h

namespace Subscription

theorem drain_of_none {v : View} {s : Subscription} (count : Nat) (h : (s.poll v).1.item? = none) :
    s.drain v (count + 1) = ([], some (s.poll v).1, (s.poll v).2) := by
  rw [drain]
  split
  · next heq =>
    rw [heq] at h
    exact nomatch h
  · next heq => rw [heq]

theorem drain_of_item {v : View} {s s' : Subscription} {i : Item} (count : Nat) (h : s.poll v = (.item i, s')) :
    s.drain v (count + 1) = (i :: (s'.drain v count).1, (s'.drain v count).2) := by
  simp only [drain, h]

/-- What polls keep is kept by asking until there is no item. -/
theorem keeps_drain (holds : Subscription → Heard → Prop) {v : View}
    (keep : ∀ s k, holds s k → holds (s.poll v).2 (k.hear (s.poll v).1.item?.toList)) (count : Nat)
    {s : Subscription} {k : Heard} (h : holds s k) :
    holds (s.drain v (count + 1)).2.2 (k.hear (s.drain v (count + 1)).1) := by
  have hpoll := keep s k h
  induction count generalizing s k with
  | zero =>
    cases hitem : (s.poll v).1.item? with
    | none =>
      rw [drain_of_none 0 hitem]
      rwa [hitem] at hpoll
    | some i =>
      have hanswer : s.poll v = (.item i, (s.poll v).2) := Prod.ext (Poll.eq_item hitem) rfl
      rw [drain_of_item 0 hanswer]
      rwa [hitem] at hpoll
  | succ count ih =>
    cases hitem : (s.poll v).1.item? with
    | none =>
      rw [drain_of_none _ hitem]
      rwa [hitem] at hpoll
    | some i =>
      have hanswer : s.poll v = (.item i, (s.poll v).2) := Prod.ext (Poll.eq_item hitem) rfl
      rw [drain_of_item _ hanswer]
      rw [hitem] at hpoll
      have hrest := ih hpoll (keep _ _ hpoll)
      rwa [Heard.hear, Heard.hear, List.append_assoc] at hrest

/-- Where asking has come to an end there was a last poll, before which all that polls keep still held. -/
theorem exists_last_poll (holds : Subscription → Heard → Prop) {v : View}
    (keep : ∀ s k, holds s k → holds (s.poll v).2 (k.hear (s.poll v).1.item?.toList)) {count : Nat}
    {s s' : Subscription} {k : Heard} (h : holds s k) {items : List Item} {stop : Poll Item}
    (drained : s.drain v count = (items, some stop, s')) :
    ∃ last k', holds last k' ∧ k'.items = k.items ++ items ∧ last.poll v = (stop, s') := by
  induction count generalizing s k items with
  | zero => cases drained
  | succ count ih =>
    cases hitem : (s.poll v).1.item? with
    | none =>
      rw [drain_of_none count hitem] at drained
      obtain ⟨rfl, hrest⟩ := Prod.mk.inj drained
      obtain ⟨hstop, rfl⟩ := Prod.mk.inj hrest
      refine ⟨s, k, h, (List.append_nil _).symm, ?_⟩
      rw [← Option.some.inj hstop]
    | some i =>
      have hanswer : s.poll v = (.item i, (s.poll v).2) := Prod.ext (Poll.eq_item hitem) rfl
      have hpoll := keep s k h
      rw [drain_of_item count hanswer] at drained
      rw [hitem] at hpoll
      obtain ⟨rfl, hrest⟩ := Prod.mk.inj drained
      obtain ⟨last, k', hlast, hitems, hend⟩ := ih hpoll (Prod.ext rfl hrest)
      refine ⟨last, k', hlast, ?_, hend⟩
      rw [hitems, Heard.hear, List.append_assoc]
      rfl

end Subscription

/-! ### Keeping a property -/

/-- The subscription of a name is asked for items. -/
def Move.Asks (name : String) (m : Move) : Prop := m = .act (.next name) ∨ m = .act (.drain name)

/-- The property holds of every new subscription of a topic, and is kept by all that can happen to it
under a name, to its hub and to the ids. -/
structure Scene.Keeps (allowed : MemoryWorld → Move → Reply → Prop) (name : String) (topic : Topic)
    (holds : Scene → Nat → Subscription → Heard → Prop) : Prop where
  create (x : Scene) (now : Nat) :
    holds x now (.create x.hub.config.throttle x.hub.config.transferThrottle topic) .silence
  later {x : Scene} {now now' : Nat} {s : Subscription} {k : Heard} :
    holds x now s k → now ≤ now' → holds x now' s k
  poll {w : MemoryWorld} {m : Move} {r : Reply} {x : Scene} {s : Subscription} {k : Heard} {v : View} :
    allowed w m r → m.Asks name → w.scene = some x → holds x w.now s k → v.Of x.hub w.now →
      v.provider = x.provider → holds x w.now (s.poll v).2 (k.hear (s.poll v).1.item?.toList)
  change {w w' : MemoryWorld} {m : Move} {r : Reply} {x x' : Scene} {s : Subscriber} {k : Heard} :
    allowed w m r → w.move m = (r, w') → w.scene = some x → w.subscribers.lookup name = some s →
      s.frozen = none → s.subscription.topic = topic → holds x w.now s.subscription k →
      x.Change w m r w' x' → holds x' w.now s.subscription k

namespace Scene.Keeps

variable {allowed : MemoryWorld → Move → Reply → Prop} {name : String} {topic : Topic}
  {holds : Scene → Nat → Subscription → Heard → Prop}

/-- What polls keep is kept by asking for items until there is none. -/
theorem drain (keeps : Scene.Keeps allowed name topic holds) {w : MemoryWorld} {m : Move} {r : Reply}
    {x : Scene} {v : View} (ok : allowed w m r) (asks : m.Asks name) (hx : w.scene = some x)
    (hv : v.Of x.hub w.now) (hprovider : v.provider = x.provider) (count : Nat) {s : Subscription} {k : Heard}
    (hs : holds x w.now s k) :
    holds x w.now (s.drain v (count + 1)).2.2 (k.hear (s.drain v (count + 1)).1) :=
  Subscription.keeps_drain (holds x w.now) (fun _ _ h => keeps.poll ok asks hx h hv hprovider) count hs

end Scene.Keeps

theorem World.scene_of_still {w w' : MemoryWorld} (hub' : w'.hub = w.hub) (still : Still w w') :
    w'.scene = w.scene := by
  rw [World.scene, World.scene, hub', still.provider, still.tracker]

/-- The property holds of the subscription to a topic under a name, as long as its hub is there. -/
def World.Attended (name : String) (topic : Topic) (holds : Scene → Nat → Subscription → Heard → Prop)
    (w : MemoryWorld) (k : Heard) : Prop :=
  ∀ s, w.subscribers.lookup name = some s → s.frozen = none → s.subscription.topic = topic →
    ∃ x, w.scene = some x ∧ holds x w.now s.subscription k

section

variable {allowed : MemoryWorld → Move → Reply → Prop} {name other : String} {topic : Topic}
  {holds : Scene → Nat → Subscription → Heard → Prop} {start w w' : MemoryWorld} {m : Move} {r : Reply}
  {k k' : Heard}

/-- When a subscription is entered under a name those of other names are left alone. -/
theorem World.attended_put {s' : Subscriber} (subscribers : w'.subscribers = Entries.put other s' w.subscribers)
    (own : name = other → s'.frozen = none → s'.subscription.topic = topic →
      ∃ x, w'.scene = some x ∧ holds x w'.now s'.subscription k')
    (others : name ≠ other → ∀ s, w.subscribers.lookup name = some s → s.frozen = none →
      s.subscription.topic = topic → ∃ x, w'.scene = some x ∧ holds x w'.now s.subscription k') :
    w'.Attended name topic holds k' := by
  intro s hs hfrozen htopic
  rw [subscribers, Entries.lookup_put] at hs
  by_cases hname : name = other
  · rw [if_pos hname] at hs
    obtain rfl := Option.some.inj hs
    exact own hname hfrozen htopic
  · rw [if_neg hname] at hs
    exact others hname s hs hfrozen htopic

/-- Where the scene stands still a subscription that is left alone is as before. -/
theorem World.Attended.still (h : w.Attended name topic holds k) (hub' : w'.hub = w.hub) (still : Still w w')
    (s : Subscriber) (hs : w.subscribers.lookup name = some s) (frozen : s.frozen = none)
    (same : s.subscription.topic = topic) : ∃ x, w'.scene = some x ∧ holds x w'.now s.subscription k := by
  obtain ⟨x, hx, hholds⟩ := h s hs frozen same
  exact ⟨x, (World.scene_of_still hub' still).trans hx, still.now ▸ hholds⟩

/-- A subscription that is left alone is kept by what a move does to the scene. -/
theorem Scene.Keeps.attended_of_change (keeps : Scene.Keeps allowed name topic holds)
    (h : w.Attended name topic holds k) (moved : w.move m = (r, w')) (ok : allowed w m r)
    {hub' : Hub MemorySystem} (hhub' : w'.hub = some hub') (subscribers : w'.subscribers = w.subscribers)
    (now : w.now ≤ w'.now)
    (change : ∀ hub, w.hub = some hub →
      Scene.Change w m r w' ⟨hub, w.provider, w.tracker⟩ ⟨hub', w'.provider, w'.tracker⟩) :
    w'.Attended name topic holds k := by
  intro s hs frozen same
  rw [subscribers] at hs
  obtain ⟨x, hx, hholds⟩ := h s hs frozen same
  obtain ⟨hub, hhub, rfl⟩ := Option.map_eq_some_iff.mp hx
  have hchanged := keeps.change ok moved hx hs frozen same hholds (change hub hhub)
  exact ⟨_, World.scene_of_hub hhub', keeps.later hchanged now⟩

/-- Where there is no hub nothing is attended. -/
theorem World.Attended.not_of_none (h : w.Attended name topic holds k) (hub : w.hub = none) (s : Subscriber)
    (hs : w.subscribers.lookup name = some s) (frozen : s.frozen = none)
    (same : s.subscription.topic = topic) : False := by
  obtain ⟨x, hx, -⟩ := h s hs frozen same
  rw [World.scene, hub] at hx
  cases hx

/-- **Every move keeps what is kept**, with what is heard of it. -/
theorem Scene.Keeps.attended_of_move (keeps : Scene.Keeps allowed name topic holds)
    (needs : topic.needsHub = true) (h : w.Attended name topic holds k) (moved : w.move m = (r, w'))
    (ok : allowed w m r) : w'.Attended name topic holds (k.after name (m, r)) := by
  cases Effect.effect_move moved with
  | quiet hub subscribers now provider tracker unheard =>
    rw [unheard]
    cases hhub : w.hub with
    | none => exact fun s hs frozen same => (h.not_of_none hhub s (subscribers ▸ hs) frozen same).elim
    | some hub₀ =>
      refine keeps.attended_of_change h moved ok (hub.trans hhub) subscribers now ?_
      intro hub' hhub'
      obtain rfl := Option.some.inj (hhub.symm.trans hhub')
      exact .ids _ _ provider tracker
  | change hub change caused hub' subscribers now provider unheard =>
    rw [unheard]
    refine keeps.attended_of_change h moved ok hub' subscribers (Nat.le_of_eq now.symm) ?_
    intro h' hhub
    obtain rfl := Option.some.inj (hub.symm.trans hhub)
    rw [provider]
    exact .hub _ change caused rfl
  | lose broke hub kept queue hub' subscribers still unheard =>
    rw [unheard]
    refine keeps.attended_of_change h moved ok hub' subscribers (Nat.le_of_eq still.now.symm) ?_
    intro h' hhub
    obtain rfl := Option.some.inj (hub.symm.trans hhub)
    rw [still.provider, still.tracker]
    exact .lose broke kept queue
  | drop hub hub' frozen unheard =>
    intro s hs hfrozen _
    have hgone := frozen name s hs
    rw [hfrozen] at hgone
    exact nomatch hgone
  | make hub hub' subscribers unheard =>
    exact fun s hs frozen same => (h.not_of_none hub s (subscribers ▸ hs) frozen same).elim
  | @subscribe hub other topic' made hhub hhub' still subscribers =>
    obtain ⟨rfl, rfl⟩ := made
    rw [Heard.after]
    refine World.attended_put subscribers ?_ ?_
    · rintro rfl - htopic
      obtain rfl : topic' = topic := (Subscription.topic_create _ _ _).symm.trans htopic
      rw [if_pos rfl]
      exact ⟨_, World.scene_of_hub hhub', keeps.create ⟨hub, w'.provider, w'.tracker⟩ w'.now⟩
    · intro hname
      rw [if_neg (Ne.symm hname)]
      exact h.still (hhub'.trans hhub.symm) still
  | @subscribeAlone other topic' made alone hub hub' subscribers =>
    refine World.attended_put subscribers ?_ ?_
    · rintro rfl - htopic
      obtain rfl : topic' = topic := (Subscription.topic_create _ _ _).symm.trans htopic
      exact nomatch alone.symm.trans needs
    · exact fun _ s hs frozen same => (h.not_of_none hub s hs frozen same).elim
  | @unsubscribe other hub' still subscribers unheard =>
    rw [unheard]
    intro s hs frozen same
    rw [subscribers, Entries.lookup_drop] at hs
    by_cases hname : name = other
    · rw [if_pos hname] at hs
      exact nomatch hs
    · rw [if_neg hname] at hs
      exact h.still hub' still s hs frozen same
  | @next other s' made asked hub' still subscribers =>
    obtain ⟨rfl, rfl⟩ := asked
    rw [Heard.after]
    refine World.attended_put subscribers ?_ ?_
    · rintro rfl hfrozen htopic
      rw [Subscription.topic_poll] at htopic
      obtain ⟨x, hx, hholds⟩ := h s' made hfrozen htopic
      refine ⟨x, (World.scene_of_still hub' still).trans hx, ?_⟩
      obtain ⟨hub, hhub, rfl⟩ := Option.map_eq_some_iff.mp hx
      rw [if_pos rfl, still.now]
      exact keeps.poll ok (Or.inl rfl) hx hholds (World.view_of hhub hfrozen name)
        (World.provider_view w name s')
    · intro hname
      rw [if_neg (Ne.symm hname)]
      exact h.still hub' still
  | @drain other s' made asked hub' still subscribers =>
    obtain ⟨rfl, rfl⟩ := asked
    rw [Heard.after]
    refine World.attended_put subscribers ?_ ?_
    · rintro rfl hfrozen htopic
      rw [Subscription.topic_drain] at htopic
      obtain ⟨x, hx, hholds⟩ := h s' made hfrozen htopic
      refine ⟨x, (World.scene_of_still hub' still).trans hx, ?_⟩
      obtain ⟨hub, hhub, rfl⟩ := Option.map_eq_some_iff.mp hx
      rw [if_pos rfl, still.now]
      exact keeps.drain ok (Or.inr rfl) hx (World.view_of hhub hfrozen name)
        (World.provider_view w name s') _ hholds
    · intro hname
      rw [if_neg (Ne.symm hname)]
      exact h.still hub' still

/-- **What is kept holds of the subscription of a name in the whole run**, as long as its hub is
there. -/
theorem Run.attending {past : Past} (run : Run allowed start past w) (keeps : Scene.Keeps allowed name topic holds)
    (hstart : start.subscribers = []) (needs : topic.needsHub = true) :
    ∀ s, w.subscribers.lookup name = some s → s.frozen = none → s.subscription.topic = topic →
      ∃ x, w.scene = some x ∧ holds x w.now s.subscription (heard name past) := by
  induction run with
  | start =>
    intro s hs
    rw [hstart] at hs
    exact nomatch hs
  | move _ moved ok ih =>
    rw [heard_snoc]
    exact keeps.attended_of_move needs ih moved ok

end

/-! ### Keeping a property of the hub alone -/

/-- The property holds of every new subscription of a topic, and is kept by all that can happen to it
under a name. -/
structure Keeps (allowed : MemoryWorld → Move → Reply → Prop) (name : String) (topic : Topic)
    (holds : Hub MemorySystem → Nat → Subscription → Heard → Prop) : Prop where
  create (h : Hub MemorySystem) (now : Nat) :
    holds h now (.create h.config.throttle h.config.transferThrottle topic) .silence
  later {h : Hub MemorySystem} {now now' : Nat} {s : Subscription} {x : Heard} :
    holds h now s x → now ≤ now' → holds h now' s x
  poll {h : Hub MemorySystem} {now : Nat} {s : Subscription} {x : Heard} {v : View} :
    holds h now s x → v.Of h now → holds h now (s.poll v).2 (x.hear (s.poll v).1.item?.toList)
  change {w : MemoryWorld} {m : Move} {r : Reply} {h h' : Hub MemorySystem} {cause : Hub.Cause}
    {s : Subscriber} {x : Heard} :
    allowed w m r → w.hub = some h → w.subscribers.lookup name = some s → s.frozen = none →
      s.subscription.topic = topic → holds h w.now s.subscription x → h.Change cause h' →
      holds h' w.now s.subscription x
  lose {w : MemoryWorld} {m : Move} {r : Reply} {h : Hub MemorySystem} {s : MemorySystem}
    {sub : Subscriber} {x : Heard} {callback : Callback} {job : Job} {jobs : List Job} :
    allowed w m r → m = .deliver ∧ r = .broke → w.hub = some h → w.subscribers.lookup name = some sub →
      sub.frozen = none → sub.subscription.topic = topic → h.handle = some s →
      s.queue = (callback :: job) :: jobs → holds h w.now sub.subscription x →
      holds { h with handle := some { s with queue := jobs } } w.now sub.subscription x

variable {allowed : MemoryWorld → Move → Reply → Prop} {name : String} {topic : Topic}
  {holds : Hub MemorySystem → Nat → Subscription → Heard → Prop}

/-- It is then kept whatever the ids are. -/
theorem Keeps.scene (keeps : Keeps allowed name topic holds) :
    Scene.Keeps allowed name topic fun x => holds x.hub where
  create x := keeps.create x.hub
  later := keeps.later
  poll := fun _ _ _ hholds hv _ => keeps.poll hholds hv
  change := by
    intro w w' m r x x' s k hallowed moved hx hs hfrozen htopic hholds hc
    obtain ⟨h, hhub, rfl⟩ := Option.map_eq_some_iff.mp hx
    cases hc with
    | ids => exact hholds
    | hub _ change => exact keeps.change hallowed hhub hs hfrozen htopic hholds change
    | lose broke kept queue => exact keeps.lose hallowed broke hhub hs hfrozen htopic kept queue hholds

/-- **What is kept of the hub alone holds in the whole run.** -/
theorem Run.listening {start w : MemoryWorld} {past : Past} (run : Run allowed start past w)
    (keeps : Keeps allowed name topic holds) (hstart : start.subscribers = [])
    (needs : topic.needsHub = true) :
    ∀ s, w.subscribers.lookup name = some s → s.frozen = none → s.subscription.topic = topic →
      ∃ h, w.hub = some h ∧ holds h w.now s.subscription (heard name past) := by
  intro s hs hfrozen htopic
  obtain ⟨x, hx, hholds⟩ := run.attending keeps.scene hstart needs s hs hfrozen htopic
  obtain ⟨h, hhub, rfl⟩ := Option.map_eq_some_iff.mp hx
  exact ⟨h, hhub, hholds⟩

end WalletHub
