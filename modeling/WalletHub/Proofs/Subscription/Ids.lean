import WalletHub.Proofs.Hub.Tracking
import WalletHub.Proofs.Tracker.Tidy
import WalletHub.Proofs.World.Attending
import WalletHub.Proofs.World.Closed

/-!
# Subscriptions to the tracked ids

A subscription to the tracked ids needs no hub. It has a monitor, which reads the enabled and the managed ids
each when it turns to them, so that what it gives may be the ids of a moment that never was: the enabled ones
of now with the managed ones of before. But what it gives is always tidy and always new, and when it answers
that there is nothing now it has given last what is tracked now, in every run (`Course.tracked_ids_exact`).

That nothing is pending stands for having seen everything: whatever was enabled or learned since the ids were given
last would have been found by the poll. So the answer of a poll that gives nothing is about the moment of the poll,
although the ids themselves may have been given long before.

## What is proved

* `World.newer_go`: every move leaves both lists as they are or writes them, so that their versions only rise.
* `World.Monitors.poll`, `World.Monitors.left`, `World.attends_tracked`: what stays true of a subscriber, in
  every course.
* `World.Monitors.item_of_first`, `World.Monitors.pends`: it gives something when it is first asked, and the
  tracked ids have been given where there is nothing now.
* `Course.tracked_ids_exact`: what is given, when something is given, and what it comes to; and by which callback
  an id has become managed, or is not managed any more.
* `switched_ids_are_tidy`: an instance in which the ids of no moment could have been given.
-/

namespace WalletHub

variable {φ σ : Type} [WalletSystem σ] [SystemFactory φ σ] [Steering φ σ]

/-! ### The ids of a run -/

namespace World

omit [WalletSystem σ] [SystemFactory φ σ] [Steering φ σ] in
theorem provider_setSystem (w : World φ σ) (s : σ) : (w.setSystem s).provider = w.provider := by
  obtain ⟨loose, hset⟩ := w.exists_setSystem s
  rw [hset]

omit [SystemFactory φ σ] [Steering φ σ] in
theorem provider_deliver (c : Callback) (w : World φ σ) : (w.deliver c).2.provider = w.provider := by
  have hend := w.delivery_deliver c
  generalize (w.deliver c).1 = answer at hend
  generalize (w.deliver c).2 = w' at hend ⊢
  cases hend <;> rfl

omit [SystemFactory φ σ] [Steering φ σ] in
theorem provider_deliverFirst (w : World φ σ) : w.deliverFirst.2.provider = w.provider := by
  unfold deliverFirst
  split
  · rfl
  · next s _ =>
    split
    · rfl
    · exact provider_setSystem w _
    · next c job jobs _ =>
      have hdeliver := provider_deliver c (w.setSystem (WalletSystem.withQueue (job :: jobs) s))
      split
      · next heq =>
        rw [heq] at hdeliver
        exact hdeliver.trans (provider_setSystem w _)
      · next heq =>
        rw [heq] at hdeliver
        exact (provider_setSystem _ _).trans (hdeliver.trans (provider_setSystem w _))

/-- Only the user changes the enabled ids. -/
theorem provider_act (w : World φ σ) (a : Action) : (w.act a).2.provider = w.provider ∨
    Enables w.provider (.act a) (w.act a).2.provider := by
  obtain ⟨c, alone, rfl⟩ | hother := a.eq_deliver_or
  · left
    simp only [act, deliverScripted]
    split
    · rcases w.toTracker_cases c with ⟨-, reason, htracker⟩ | ⟨-, htracker⟩
      · rw [htracker]
      · rw [htracker]
    · split
      · exact provider_deliver c w
      · rfl
  · exact (w.quiet_act hother).2

/-- Both lists are as they were, or were written. -/
theorem newer_go {w w' : World φ σ} {m : Move} {r : Reply} (moved : w.go m = (r, w')) :
    w.provider.enabled.Newer w'.provider.enabled ∧ w.tracker.managed.Newer w'.tracker.managed := by
  obtain rfl : w' = (w.go m).2 := by rw [moved]
  constructor
  · have hsame {w' : World φ σ} (h : w'.provider = w.provider) : w.provider.enabled.Newer w'.provider.enabled :=
      Or.inl (congrArg Provider.enabled h)
    cases m with
    | act a =>
      rcases provider_act w a with h | h
      · exact hsame h
      · exact h.newer
    | deliver => exact hsame (provider_deliverFirst w)
    | task =>
      apply hsame
      simp only [go, runSession]
      split <;> rfl
    | forget => exact hsame rfl
  · by_cases hforget : m = .forget
    · subst hforget
      exact Or.inl rfl
    · rw [(w.learns_go hforget).tracker]
      exact Tracker.newer_foldl_learn _ _

/-! ### The subscription -/

/-- What stays true of a subscriber to the tracked ids: its monitor has given tidy ids, each time others than
the time before. -/
structure Monitors (w : World φ σ) (s : Subscriber) (k : Heard) (m : Monitor) (given : List (List String)) :
    Prop where
  subscription : s.subscription = .tracked m
  sound : m.Sound w.provider w.tracker
  holds : m.Holds
  items : k.items = given.map Item.ids
  tidy : ∀ ids ∈ given, Tracker.Tidy ids
  differ : given.IsChain (· ≠ ·)
  last : m.last = given.getLast?
  first : k.asked = false → given = []

omit [SystemFactory φ σ] [Steering φ σ] in
/-- What the poll of such a subscriber asks. -/
theorem poll_tracked (w : World φ σ) (name : String) (s : Subscriber) {m : Monitor}
    (subscription : s.subscription = .tracked m) : s.subscription.poll (w.view name s) =
      ((m.poll w.provider w.tracker).1.map .ids, .tracked (m.poll w.provider w.tracker).2) := by
  obtain ⟨hprovider, htracker⟩ := w.ids_view name s
  rw [subscription, ← hprovider, ← htracker]
  rfl

namespace Monitors

variable {w w' : World φ σ} {s s' : Subscriber} {k : Heard} {m : Monitor} {given : List (List String)}

omit [SystemFactory φ σ] [Steering φ σ] in
/-- **A poll keeps all this.** -/
theorem poll (h : w.Monitors s k m given) (tidy : Tracker.Tidy w.tracker.ids) (name : String) :
    ∃ m' given', w.Monitors { s with subscription := (s.subscription.poll (w.view name s)).2 }
      (k.hear (s.subscription.poll (w.view name s)).1.item?.toList) m' given' := by
  rw [poll_tracked w name s h.subscription]
  have hgives := Monitor.gives_poll w.provider h.holds tidy
  have hpolled := Monitor.polled_poll h.sound
  generalize m.poll w.provider w.tracker = result at hgives hpolled
  cases hgives with
  | @item ids m' holds tidy other last =>
    have hsound : m'.Sound w.provider w.tracker := by
      cases hpolled
      assumption
    refine ⟨m', given ++ [ids], rfl, hsound, holds, ?_, ?_, ?_, ?_, fun hasked => ?_⟩
    · rw [Heard.hear, h.items, List.map_append]
      rfl
    · intro x hx
      rcases List.mem_append.mp hx with hx | hx
      · exact h.tidy x hx
      · rwa [List.mem_singleton.mp hx]
    · refine List.isChain_append.mpr ⟨h.differ, .singleton _, ?_⟩
      intro x hx y hy
      obtain rfl := Option.some.inj hy
      rintro rfl
      exact other (h.last.trans hx)
    · rw [last, List.getLast?_concat]
    · cases hasked
  | @pending m' holds same =>
    have hsound : m'.Sound w.provider w.tracker := by
      cases hpolled
      assumption
    refine ⟨m', given, rfl, hsound, holds, ?_, h.tidy, h.differ, same.trans h.last, fun hasked => ?_⟩
    · rw [Heard.hear, h.items]
      exact List.append_nil _
    · cases hasked

theorem left (h : w.Monitors s k m given) {move : Move} {r : Reply} (moved : w.go move = (r, w'))
    (leaves : w.Leaves s w' s') : w'.Monitors s' k m given :=
  { h with
    subscription := leaves.subscription.trans h.subscription
    sound := h.sound.newer (newer_go moved).1 (newer_go moved).2 }

omit [SystemFactory φ σ] [Steering φ σ] in
/-- **Where nothing was given yet something is given.** -/
theorem item_of_first (h : w.Monitors s k m given) (name : String) (first : k.asked = false) :
    ∃ ids s', s.subscription.poll (w.view name s) = (.item (.ids ids), s') := by
  have hlast := h.last
  rw [h.first first] at hlast
  obtain ⟨ids, m', hpoll⟩ := Monitor.item_of_silent h.sound hlast
  rw [poll_tracked w name s h.subscription, hpoll]
  exact ⟨ids, _, rfl⟩

omit [SystemFactory φ σ] [Steering φ σ] in
/-- **Where there is nothing now the ids given last are those that are tracked now.** -/
theorem pends (h : w.Monitors s k m given) (name : String)
    (pending : (s.subscription.poll (w.view name s)).1 = .pending) :
    k.items.getLast? = some (.ids (Tracker.tracked w.tracker.ids w.provider.ids)) := by
  rw [poll_tracked w name s h.subscription] at pending
  have hpolled := Monitor.polled_poll h.sound
  generalize m.poll w.provider w.tracker = result at hpolled pending
  cases hpolled with
  | item => cases pending
  | pending sound upToDate same =>
    have hlast := Monitor.last_of_upToDate sound upToDate
    rw [h.items, List.getLast?_map, ← h.last, ← same, hlast]
    rfl

end Monitors

theorem attends_tracked (name : String) :
    World.Attends (fun w : World φ σ => Tracker.Tidy w.tracker.ids) name .tracked
      fun w s k => ∃ m given, w.Monitors s k m given where
  create {w h} hub :=
    ⟨.start, [], rfl, Monitor.sound_start _ _, nofun, rfl, nofun, .nil, rfl, fun _ => rfl⟩
  alone {w} _ _ := ⟨.start, [], rfl, Monitor.sound_start _ _, nofun, rfl, nofun, .nil, rfl, fun _ => rfl⟩
  poll tidy h := by
    obtain ⟨m, given, h⟩ := h
    exact h.poll tidy name
  leave moved leaves h := by
    obtain ⟨m, given, h⟩ := h
    exact ⟨m, given, h.left moved leaves⟩

end World

/-- The subscription of a name was asked for items, and its last answer was that there is none now. -/
inductive Move.Pends (name : String) : Move → Reply → Prop where
  | next : Pends name (.act (.next name)) (.polled .pending)
  | drain (items : List Item) : Pends name (.act (.drain name)) (.drained items (some .pending))

namespace Course

variable {config : Config} {factory : φ} {disk : Disk} {wall : Instant} {enabled : List String} {withHub : Bool}
  {past : Past} {w : World φ σ} {name : String}

/-- **The tracked ids are exact.** In every run, over systems of any kind, all that a subscription has given are
folded ids in increasing order, each time others than the time before; the first time it is asked it gives
something; and when it answers that there is nothing now, it has given last just the folded enabled ids that are
managed. An id is managed just when the last callback about its manager has not said that it was deleted. -/
theorem tracked_ids_exact (course : Course (.start config factory disk wall enabled withHub) past w)
    {s : Subscriber} (made : w.subscribers.lookup name = some s) (topic : s.subscription.topic = .tracked) :
    (∃ given : List (List String), (heard name past).items = given.map Item.ids ∧ given.IsChain (· ≠ ·) ∧
        ∀ ids ∈ given, ids.Pairwise (· < ·) ∧ ∀ id ∈ ids, Text.fold id = id) ∧
      ((heard name past).asked = false →
        (∃ ids, (w.go (.act (.next name))).1 = .polled (.item (.ids ids))) ∧
          ∃ ids items stop, (w.go (.act (.drain name))).1 = .drained (.ids ids :: items) stop) ∧
      (∀ m, m.Pends name (w.go m).1 →
        ∃ ids, ((heard name past).after name (m, (w.go m).1)).items.getLast? = some (.ids ids) ∧
          ids.Pairwise (· < ·) ∧
          ∀ id, id ∈ ids ↔ id ∈ w.provider.ids.map Text.fold ∧ id ∈ w.tracker.ids) ∧
      ∀ id, Text.fold id ∈ w.tracker.ids ↔
        ((World.learned (.start config factory disk wall enabled withHub) (past.map Prod.fst)).filterMap
          (Callback.managed? (Text.fold id))).getLast? = some true := by
  have htidy {past : Past} {w : World φ σ}
      (course : Course (.start config factory disk wall enabled withHub) past w) :
      Tracker.Tidy w.tracker.ids := by
    rw [course.tracker_eq]
    exact Tracker.tidy_foldl_learn _
  obtain ⟨m, given, h⟩ := course.attending (World.attends_tracked name) rfl htidy s made topic
  have htracked : (Tracker.tracked w.tracker.ids w.provider.ids).Pairwise (· < ·) ∧
      ∀ id, id ∈ Tracker.tracked w.tracker.ids w.provider.ids ↔
        id ∈ w.provider.ids.map Text.fold ∧ id ∈ w.tracker.ids :=
    ⟨((htidy course).tracked _).ordered, fun id => (Tracker.mem_tracked id _ _).trans and_comm⟩
  refine ⟨⟨given, h.items, h.differ, fun ids hids => ⟨(h.tidy ids hids).ordered, (h.tidy ids hids).folded⟩⟩,
    ?_, ?_, fun id => ?_⟩
  · intro first
    obtain ⟨ids, s', hpoll⟩ := h.item_of_first name first
    constructor
    · refine ⟨ids, ?_⟩
      simp only [World.go, World.act, World.next, made, hpoll]
    · refine ⟨ids, (s'.drain (w.view name s) 19).1, (s'.drain (w.view name s) 19).2.1, ?_⟩
      simp only [World.go, World.act, World.drain, made, drainLimit, Subscription.drain_of_item 19 hpoll]
  · intro move hpends
    generalize hanswer : (w.go move).1 = r at hpends
    refine ⟨Tracker.tracked w.tracker.ids w.provider.ids, ?_, htracked⟩
    cases hpends with
    | next =>
      have hpending : (s.subscription.poll (w.view name s)).1 = .pending := by
        simp only [World.go, World.act, World.next, made] at hanswer
        exact Reply.polled.inj hanswer
      rw [Heard.after, if_pos rfl, Heard.hear]
      exact (List.append_nil (heard name past).items).symm ▸ h.pends name hpending
    | drain items =>
      obtain ⟨s', hdrained⟩ : ∃ s', s.subscription.drain (w.view name s) drainLimit =
          (items, some .pending, s') := by
        simp only [World.go, World.act, World.drain, made] at hanswer
        obtain ⟨hitems, hstop⟩ := Reply.drained.inj hanswer
        exact ⟨_, Prod.ext hitems (Prod.ext hstop rfl)⟩
      obtain ⟨last, k', ⟨m', given', h'⟩, hitems, hpending⟩ :=
        (World.attends_tracked name).exists_last_poll (htidy course) ⟨m, given, h⟩ hdrained
      have hpends := h'.pends name (congrArg Prod.fst hpending)
      rw [hitems] at hpends
      rw [Heard.after, if_pos rfl, Heard.hear]
      exact hpends
  · rw [← List.contains_iff_mem, course.tracker_eq, Tracker.mem_foldl_learn]
    generalize (List.filterMap _ _).getLast? = last
    cases last with
    | none =>
      refine ⟨fun hb => ?_, fun hb => ?_⟩
      · cases hb
      · cases hb
    | some b => exact ⟨fun hb => congrArg some hb, fun hb => Option.some.inj hb⟩

end Course

/-- The managers of two currencies. -/
def bitcoinManager : Manager := ⟨⟨"Bitcoin", "btc", "Bitcoin", 8⟩, "bitcoin", .connected⟩

/-- The other one. -/
def etherManager : Manager := ⟨⟨"ethereum", "eth", "Ethereum", 18⟩, "ethereum", .connected⟩

/-- One currency is tracked. Then both are enabled, and the other one gets the manager, before the
subscription is asked again. -/
def switched : Past × MemoryWorld :=
  neverOpen.play [.act (.subscribe "ids" .tracked), .act (.enable "BITCOIN"),
    .act (.deliver (.system (.managerAdded bitcoinManager)) true), .act (.next "ids"), .act (.next "ids"),
    .act (.setEnabled ["Ethereum", "bitcoin"]), .act (.deliver (.manager bitcoinManager .deleted) true),
    .act (.deliver (.manager etherManager .created) true), .act (.next "ids"), .act (.next "ids")]

/-- No currency was tracked at any time in between, but none is what the subscription gives first: it has read
the managed ids before the enabled ones. -/
theorem switched_ids_are_tidy :
    (heard "ids" switched.1).items = [["bitcoin"], [], ["ethereum"]].map Item.ids ∧
      (∃ given : List (List String), (heard "ids" switched.1).items = given.map Item.ids ∧
        given.IsChain (· ≠ ·)) ∧
      switched.2.tracker.ids = ["ethereum"] ∧
      ∃ ids, (heard "ids" switched.1).items.getLast? = some (.ids ids) ∧
        ∀ id, id ∈ ids ↔ id ∈ switched.2.provider.ids.map Text.fold ∧ id ∈ switched.2.tracker.ids := by
  have run : Run anyMove neverOpen switched.1 switched.2 := Run.play_any _ _
  obtain ⟨s, hs⟩ : ∃ s, switched.2.subscribers.lookup "ids" = some s :=
    Option.isSome_iff_exists.mp (by decide +kernel)
  have htopic : (switched.2.subscribers.lookup "ids").map (fun s => s.subscription.topic) = some .tracked := by
    decide +kernel
  rw [hs, Option.map_some] at htopic
  obtain ⟨⟨given, hitems, hdiffer, -⟩, -, hpends, -⟩ :=
    run.course.tracked_ids_exact hs (Option.some.inj htopic)
  have hanswer : (switched.2.go (.act (.next "ids"))).1 = .polled .pending := by rfl
  obtain ⟨ids, hlast, -, hids⟩ := hpends (.act (.next "ids")) (hanswer ▸ .next)
  refine ⟨by rfl, ⟨given, hitems, hdiffer⟩, by decide +kernel, ids, ?_, hids⟩
  rw [hanswer, Heard.after, if_pos rfl, Heard.hear] at hlast
  rwa [Poll.item?, Option.toList_none, List.append_nil] at hlast

end WalletHub
