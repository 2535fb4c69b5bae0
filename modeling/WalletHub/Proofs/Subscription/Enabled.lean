import WalletHub.Proofs.Provider
import WalletHub.Proofs.Subscription.Ids

/-!
# Subscriptions to the enabled ids

A subscription to the enabled ids needs no hub and has no throttle: it reads the list whenever it is asked, and
remembers which version of it it has read. So it gives the list as it is first, and when it answers that there is
nothing now it has given last what is enabled now, whatever has happened in between
(`Course.enabled_ids_exact`). It gives the list again exactly if the user has set it, or has changed it by an id.

That only the user changes the enabled ids, and how, is said of one move by `World.provider_go` and of a whole
course by `Course.provider_eq`. The rest is about lists (`Provider.Changed`).

## What is said of the list

No two of the enabled ids are spellings of one id, and an id is enabled, in any spelling, just when the last
change that was about it has left it so (`Provider.Change.leaves`). A list that is set keeps the first spelling
of every id, in order; an id that is enabled comes last, unless it is enabled already; one that is disabled
leaves the others in their order; and nothing at all happens if an id is enabled that is, or disabled that is
not.

## What is proved

* `World.go_of_change`, `World.provider_go`, `Course.provider_eq`: the list after a move, and after a course.
* `Provider.answer_change`: after one change a subscription that was up to date gives the list once more, unless
  nothing has happened.
* `World.Watches.poll`, `World.Watches.left`, `World.attends_enabled`: what stays true of a subscriber, for every
  move.
* `World.Watches.getLast?_hear`: whenever it was asked, the list that it gave last is the one that is enabled
  then.
* `Course.enabled_ids_exact`: both together, in every course.
* `respelled_ids_are_told`: an instance with ids in two spellings.
-/

namespace WalletHub

variable {φ σ : Type} [WalletSystem σ] [SystemFactory φ σ] [Steering φ σ]

/-! ### The enabled ids of a run -/

/-- The change of the enabled ids that a move is. -/
def Move.change? : Move → Option Provider.Change
  | .act (.enable id) => some (.enable id)
  | .act (.disable id) => some (.disable id)
  | .act (.setEnabled ids) => some (.set ids)
  | _ => none

/-- The changes of the enabled ids in a run. -/
def Past.changes (past : Past) : List Provider.Change := past.filterMap fun p => p.1.change?

namespace World

/-- A change of the enabled ids changes nothing else. -/
theorem go_of_change (w : World φ σ) {m : Move} {c : Provider.Change} (change : m.change? = some c) :
    (w.go m).2 = { w with provider := w.provider.change c } := by
  unfold Move.change? at change
  split at change
  · obtain rfl := Option.some.inj change
    rfl
  · obtain rfl := Option.some.inj change
    rfl
  · obtain rfl := Option.some.inj change
    rfl
  · cases change

/-- Nothing else changes the enabled ids. -/
theorem provider_of_no_change (w : World φ σ) {m : Move} (none : m.change? = none) :
    (w.go m).2.provider = w.provider := by
  have hnever {p : Provider} (h : Enables w.provider m p) : False := by cases h <;> cases none
  cases m with
  | act a =>
    rcases provider_act w a with h | h
    · exact h
    · exact (hnever h).elim
  | deliver => exact provider_deliverFirst w
  | task =>
    simp only [go, runSession]
    split <;> rfl
  | forget => rfl

/-- **What a move does to the enabled ids.** -/
theorem provider_go (w : World φ σ) (m : Move) : (w.go m).2.provider = w.provider.changes m.change?.toList := by
  cases hchange : m.change? with
  | none => exact provider_of_no_change w hchange
  | some c =>
    rw [w.go_of_change hchange]
    rfl

end World

theorem Course.provider_eq {start w : World φ σ} {past : Past} (course : Course start past w) :
    w.provider = start.provider.changes past.changes := by
  induction course with
  | start => rfl
  | @move past w w' _ m r moved ih =>
    have hgo := w.provider_go m
    rw [moved, ih, Provider.changes, Provider.changes, ← List.foldl_append] at hgo
    rw [hgo, Provider.changes, Past.changes, Past.changes, List.filterMap_append, List.filterMap_cons,
      List.filterMap_nil]
    cases m.change? <;> rfl

/-! ### The subscription -/

namespace Provider

/-- What is answered to someone who has read a version of the enabled ids. -/
def answer (seen : Option Nat) (p : Provider) : Poll Item :=
  if seen = some p.enabled.version then .pending else .item (.ids p.ids)

/-- Who has read the newest version is given nothing. -/
theorem answer_newest (p : Provider) : p.answer (some p.enabled.version) = .pending := if_pos rfl

/-- **After a change the list is given once more, unless the change has changed nothing.** -/
theorem answer_change (p : Provider) (c : Change) : (p.change c).answer (some p.enabled.version) =
    if c.idle p.ids then .pending else .item (.ids (p.change c).ids) := by
  cases hidle : c.idle p.ids with
  | true =>
    rw [change_of_idle hidle]
    exact p.answer_newest
  | false =>
    refine if_neg fun hversion => ?_
    rw [version_change hidle] at hversion
    exact absurd (Option.some.inj hversion) (Nat.ne_of_lt (Nat.lt_succ_self _))

end Provider

namespace World

/-- What stays true of a subscriber to the enabled ids: it has given lists, the last of them is the one that is
enabled now if it has read the newest version, and it has read none before it was asked. -/
structure Watches (w : World φ σ) (s : Subscriber) (k : Heard) (seen : Option Nat) (given : List (List String)) :
    Prop where
  subscription : s.subscription = .enabled seen
  items : k.items = given.map Item.ids
  read : w.provider.enabled.ReadBy seen given.getLast?
  first : k.asked = false → seen = none

omit [SystemFactory φ σ] [Steering φ σ] in
theorem poll_enabled (w : World φ σ) (name : String) (s : Subscriber) {seen : Option Nat}
    (subscription : s.subscription = .enabled seen) : s.subscription.poll (w.view name s) =
      (w.provider.answer seen, .enabled (some w.provider.enabled.version)) := by
  rw [subscription, Subscription.poll, (w.ids_view name s).1, Watch.read, Provider.answer]
  by_cases hseen : seen = some w.provider.enabled.version
  · simp only [if_pos hseen]
    rw [hseen]
  · simp only [if_neg hseen]
    rfl

omit [SystemFactory φ σ] [Steering φ σ] in
/-- Asked for all items it gives one at most. -/
theorem drain_enabled (w : World φ σ) (name : String) (s : Subscriber) {seen : Option Nat}
    (subscription : s.subscription = .enabled seen) (count : Nat) :
    s.subscription.drain (w.view name s) (count + 2) =
      ((w.provider.answer seen).item?.toList, some .pending, .enabled (some w.provider.enabled.version)) := by
  have hagain : (Subscription.enabled (some w.provider.enabled.version)).poll (w.view name s) =
      (.pending, .enabled (some w.provider.enabled.version)) := by
    have hpoll := poll_enabled w name { s with subscription := .enabled (some w.provider.enabled.version) } rfl
    rwa [Provider.answer_newest] at hpoll
  have hpoll := poll_enabled w name s subscription
  unfold Provider.answer at hpoll ⊢
  split
  · next hseen =>
    rw [if_pos hseen] at hpoll
    rw [Subscription.drain, hpoll]
    rfl
  · next hseen =>
    rw [if_neg hseen] at hpoll
    rw [Subscription.drain_of_item _ hpoll, Subscription.drain, hagain]
    rfl

variable {w : World φ σ} {name : String} {s : Subscriber} {seen : Option Nat}

theorem go_next_enabled (made : w.subscribers.lookup name = some s) (subscription : s.subscription = .enabled seen) :
    w.go (.act (.next name)) = (.polled (w.provider.answer seen), { w with
      subscribers := Entries.put name { s with subscription := .enabled (some w.provider.enabled.version) }
        w.subscribers }) := by
  simp only [World.go, World.act, World.next, made, World.poll_enabled w name s subscription]

theorem go_drain_enabled (made : w.subscribers.lookup name = some s) (subscription : s.subscription = .enabled seen) :
    (w.go (.act (.drain name))).1 = .drained (w.provider.answer seen).item?.toList (some .pending) := by
  simp only [World.go, World.act, World.drain, made, drainLimit, World.drain_enabled w name s subscription]

namespace Watches

variable {w w' : World φ σ} {s s' : Subscriber} {k : Heard} {seen : Option Nat} {given : List (List String)}

omit [SystemFactory φ σ] [Steering φ σ] in
/-- **A poll keeps all this.** -/
theorem poll (h : w.Watches s k seen given) (name : String) :
    ∃ seen' given', w.Watches { s with subscription := (s.subscription.poll (w.view name s)).2 }
      (k.hear (s.subscription.poll (w.view name s)).1.item?.toList) seen' given' := by
  have hasked (items : List Item) : (k.hear items).asked ≠ false := Bool.noConfusion
  rw [poll_enabled w name s h.subscription, Provider.answer]
  split
  · next hseen =>
    refine ⟨_, given, rfl, ?_, hseen ▸ h.read, fun unasked => absurd unasked (hasked _)⟩
    rw [Heard.hear, h.items]
    exact List.append_nil _
  · refine ⟨_, given ++ [w.provider.ids], rfl, ?_, ?_, fun unasked => absurd unasked (hasked _)⟩
    · rw [Heard.hear, h.items, List.map_append]
      rfl
    · rw [List.getLast?_concat]
      exact .now _

omit [WalletSystem σ] [SystemFactory φ σ] [Steering φ σ] in
/-- **Whatever it answers, the list that it has given last is then the one that is enabled now.** -/
theorem getLast?_hear (h : w.Watches s k seen given) :
    (k.hear (w.provider.answer seen).item?.toList).items.getLast? = some (.ids w.provider.ids) := by
  rw [Heard.hear, h.items, Provider.answer]
  split
  · next hseen =>
    rw [Poll.item?, Option.toList_none, List.append_nil, List.getLast?_map, h.read.current hseen]
    rfl
  · exact List.getLast?_concat

theorem left (h : w.Watches s k seen given) {move : Move} {r : Reply} (moved : w.go move = (r, w'))
    (leaves : w.Leaves s w' s') : w'.Watches s' k seen given :=
  { h with
    subscription := leaves.subscription.trans h.subscription
    read := h.read.newer (newer_go moved).1 }

end Watches

theorem attends_enabled (name : String) :
    World.Attends (fun _ : World φ σ => True) name .enabled fun w s k => ∃ seen given, w.Watches s k seen given where
  create _ := ⟨none, [], rfl, rfl, .never _ _, fun _ => rfl⟩
  alone _ _ := ⟨none, [], rfl, rfl, .never _ _, fun _ => rfl⟩
  poll _ h := by
    obtain ⟨seen, given, h⟩ := h
    exact h.poll name
  leave moved leaves h := by
    obtain ⟨seen, given, h⟩ := h
    exact ⟨seen, given, h.left moved leaves⟩

end World

/-! ### What is known in a run -/

namespace Course

variable {config : Config} {factory : φ} {disk : Disk} {wall : Instant} {enabled : List String} {withHub : Bool}
  {past : Past} {w : World φ σ}

/-- **The enabled ids are a set in order, and those who watch it are told exactly of its changes.** The last
change that was about an id decides whether it is enabled, and a list that is set keeps the first spelling of
every id. Whenever a subscription was asked, the list that it gave last is the one that is enabled then; and if
one change is made after that it gives the list once more, unless the change is one by which nothing happens. -/
theorem enabled_ids_exact (course : Course (.start config factory disk wall enabled withHub) past w) :
    (Provider.start enabled).ids = Provider.firsts enabled ∧
      Provider.Apart w.provider.ids ∧
      (∀ id, Provider.lists w.provider.ids id = true ↔
        ((Provider.Change.set enabled :: past.changes).filterMap (Provider.Change.leaves id)).getLast? = some true) ∧
      (∀ m c, m.change? = some c →
        Provider.Changed c w.provider.ids (w.go m).2.provider.ids ∧ (c.idle w.provider.ids = true → (w.go m).2 = w)) ∧
      ∀ name s, w.subscribers.lookup name = some s → s.subscription.topic = .enabled →
        ((heard name past).asked = false →
          (w.go (.act (.next name))).1 = .polled (.item (.ids w.provider.ids)) ∧
            (w.go (.act (.drain name))).1 = .drained [.ids w.provider.ids] (some .pending)) ∧
        (∀ m, m.Asks name →
          ((heard name past).after name (m, (w.go m).1)).items.getLast? = some (.ids w.provider.ids)) ∧
        ∀ m c, m.change? = some c → (((w.go (.act (.next name))).2.go m).2.go (.act (.next name))).1 =
          .polled (if c.idle w.provider.ids then .pending else .item (.ids (w.go m).2.provider.ids)) := by
  have hprovider : w.provider = (Provider.start enabled).changes past.changes := course.provider_eq
  have hapart : Provider.Apart w.provider.ids := by
    rw [hprovider]
    exact (Provider.apart_start enabled).changes past.changes
  refine ⟨Provider.keepFirst_eq_firsts enabled, hapart, fun id => ?_, fun m c hchange => ?_, ?_⟩
  · rw [hprovider, Provider.lists_changes_iff]
  · rw [w.go_of_change hchange]
    refine ⟨Provider.changed_change hapart c, fun idle => ?_⟩
    rw [Provider.change_of_idle idle]
  intro name s made topic
  obtain ⟨seen, given, h⟩ := course.attending (World.attends_enabled name) rfl (fun _ => trivial) s made topic
  have hnext := World.go_next_enabled made h.subscription
  have hdrain := World.go_drain_enabled made h.subscription
  refine ⟨fun first => ?_, ?_, fun m c hchange => ?_⟩
  · have hanswer : w.provider.answer seen = .item (.ids w.provider.ids) := by
      rw [h.first first]
      exact if_neg nofun
    rw [hnext, hdrain, hanswer]
    exact ⟨rfl, rfl⟩
  · rintro m (rfl | rfl)
    · rw [hnext, Heard.after, if_pos rfl]
      exact h.getLast?_hear
    · rw [hdrain, Heard.after, if_pos rfl]
      exact h.getLast?_hear
  · rw [hnext, World.go_of_change _ hchange, World.go_of_change _ hchange]
    rw [World.go_next_enabled (by rw [Entries.lookup_put, if_pos rfl]) rfl]
    exact congrArg Reply.polled (w.provider.answer_change c)

end Course

/-- Of two spellings of an id the first one is enabled, and another id. That one is enabled once more, then the
first one is disabled and a third one is enabled. -/
def respelled : Past × MemoryWorld :=
  World.play (.start (.ofDirectory "data") (.start []) .empty ⟨1600000000, 0⟩ ["btc-id", "BTC-ID", "eth-id"] false)
    [.act (.subscribe "ids" .enabled), .act (.next "ids"), .act (.enable "ETH-ID"), .act (.next "ids"),
      .act (.disable "BTC-ID"), .act (.enable "Ada"), .act (.drain "ids")]

/-- Two lists are given: the second change and the third are told together, and the first is none. -/
theorem respelled_ids_are_told :
    (heard "ids" respelled.1).items = [["btc-id", "eth-id"], ["eth-id", "Ada"]].map Item.ids ∧
      Provider.Apart respelled.2.provider.ids ∧
      Provider.lists respelled.2.provider.ids "ADA" = true ∧ Provider.lists respelled.2.provider.ids "btc-id" = false ∧
      ((heard "ids" respelled.1).after "ids" (.act (.next "ids"), .polled .pending)).items.getLast? =
        some (.ids respelled.2.provider.ids) := by
  have run : Run anyMove _ respelled.1 respelled.2 := Run.play_any _ _
  obtain ⟨-, hapart, hlists, -, hsubscribers⟩ := run.course.enabled_ids_exact
  obtain ⟨s, hs⟩ : ∃ s, respelled.2.subscribers.lookup "ids" = some s :=
    Option.isSome_iff_exists.mp (by decide +kernel)
  have htopic : (respelled.2.subscribers.lookup "ids").map (fun s => s.subscription.topic) = some .enabled := by
    decide +kernel
  rw [hs, Option.map_some] at htopic
  obtain ⟨-, hlast, -⟩ := hsubscribers "ids" s hs (Option.some.inj htopic)
  have hanswer : (respelled.2.go (.act (.next "ids"))).1 = .polled .pending := by rfl
  have hpending := hlast _ (Or.inl rfl)
  rw [hanswer] at hpending
  refine ⟨by rfl, hapart, (hlists "ADA").mpr (by decide +kernel), ?_, hpending⟩
  rw [← Bool.not_eq_true, hlists]
  decide +kernel

end WalletHub
