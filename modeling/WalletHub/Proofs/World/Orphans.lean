import WalletHub.Proofs.Subscription.Independence
import WalletHub.Proofs.Subscription.Remains
import WalletHub.Proofs.World.Closed
import Mathlib.Data.List.Chain

/-!
# Subscriptions whose hub is gone

A subscription is left with the channels of its hub when the hub is dropped. Nothing is published on them any
more, and whatever happens then the subscription is left alone until it is asked. What it is asked for wanes, so
that it gives two items at most, and then it has come to its end.

What remains of it is the value that was published last, if it has not given that yet and does not pass it over,
and before it the state of the wallet, for a stream of progress that waits for it (`Subscription.remains`). Asked
with its period between the times it gives one by one all that remains, and is told to wait once at most.

Only subscriptions of the same hub that nobody has asked yet can put the end off: they hold their channels open.
There are never more of them than when the hub was dropped, since new subscriptions belong to a later hub. A
stream of progress that waits for its wallet may have to wait for longer, when another such subscription holds
the channel of the wallets.

## What is proved

* `World.heldBeside_go`: of a hub that is gone ever fewer channels are held.
* `World.Orphan.after`: whatever happens, an orphan is left alone until it is asked.
* `World.Orphan.ask`: being asked makes it wane (`Subscription.Wanes`).
* `World.Orphan.exists_answers`: however it is asked it gives no more than remains, and two items at most.
* `World.Orphan.answered_due`, `World.Orphan.answered_paced`: asked late enough it gives all that remains.
* `Course.ends_without_hub`: all this for every course and every subscription of a hub that was dropped.

`bereaved_ends` is a subscription that comes to its end, `idled_never_ends` one that is held open.
-/

namespace WalletHub

/-! ### Who holds a channel -/

namespace Entries

variable {α : Type}

theorem mem_put {name : String} {a : α} {e : String × α} {es : List (String × α)} (h : e ∈ put name a es) :
    e = (name, a) ∨ e ∈ es := by
  induction es with
  | nil => exact Or.inl (List.mem_singleton.mp h)
  | cons e' es ih =>
    rw [put] at h
    split at h
    · exact (List.mem_cons.mp h).imp_right (List.mem_cons_of_mem _)
    · rcases List.mem_cons.mp h with rfl | hrest
      · exact Or.inr List.mem_cons_self
      · exact (ih hrest).imp_right (List.mem_cons_of_mem _)

end Entries

namespace Subscription

/-- A subscription that was asked holds no channel. -/
theorem holds_poll (v : View) (s : Subscription) : (s.poll v).2.holds = [] := by
  have hfeed {α : Type} (alive : Bool) (c : Channel α) (seed : Option α) (f : Feed) (channels : List ChannelName) :
      (f.poll v.now alive c seed).2.ifFresh channels = [] := by
    rw [Feed.ifFresh, ← Option.not_isSome, Feed.isSome_poll]
    rfl
  cases s with
  | sync code s last =>
    show (s.poll code v).2.feed.ifFresh _ = []
    rw [Feed.ifFresh, ← Option.not_isSome, SyncFeed.isSome_poll]
    rfl
  | enabled seen =>
    simp only [poll]
    split <;> rfl
  | tracked monitor => rfl
  | _ => exact hfeed _ _ _ _ _

theorem holds_drain (v : View) (count : Nat) (s : Subscription) : (s.drain v (count + 1)).2.2.holds = [] := by
  induction count generalizing s with
  | zero =>
    cases hitem : (s.poll v).1.item? with
    | none =>
      rw [drain_of_none 0 hitem]
      exact s.holds_poll v
    | some i =>
      rw [drain_of_item 0 (Prod.ext (Poll.eq_item hitem) rfl)]
      exact s.holds_poll v
  | succ count ih =>
    cases hitem : (s.poll v).1.item? with
    | none =>
      rw [drain_of_none _ hitem]
      exact s.holds_poll v
    | some i =>
      rw [drain_of_item _ (Prod.ext (Poll.eq_item hitem) rfl)]
      exact ih _

end Subscription

variable {φ σ : Type} [WalletSystem σ] [SystemFactory φ σ] [Steering φ σ]

namespace World

variable {w w' : World φ σ} {name : String} {m : Move}

omit [WalletSystem σ] [SystemFactory φ σ] [Steering φ σ] in
theorem mem_heldBeside {n : Nat} {c : ChannelName} : c ∈ w.heldBeside name n ↔
    ∃ e ∈ w.subscribers, e.1 ≠ name ∧ e.2.hub = n ∧ c ∈ e.2.subscription.holds := by
  simp only [heldBeside, List.mem_flatMap, List.mem_filter, Bool.and_eq_true, bne_iff_ne, beq_iff_eq, and_assoc]

/-- **Of a hub that is gone ever fewer channels are held.** -/
theorem heldBeside_go {n : Nat} (gone : n < w.dropped) {c : ChannelName} (held : c ∈ (w.go m).2.heldBeside name n) :
    c ∈ w.heldBeside name n := by
  obtain ⟨e, he, hname, hhub, hc⟩ := mem_heldBeside.mp held
  have hkept (before : e ∈ w.subscribers) : c ∈ w.heldBeside name n :=
    mem_heldBeside.mpr ⟨e, before, hname, hhub, hc⟩
  cases hdrops : m.drops with
  | true =>
    obtain ⟨keep, k, hgo⟩ := go_of_drops w hdrops
    rw [← amid_self w, hgo, subscribers_amid] at he
    obtain ⟨e', he', rfl⟩ := List.mem_map.mp he
    exact mem_heldBeside.mpr ⟨e', he', hname, hhub, hc⟩
  | false =>
    have hput {other : String} {s : Subscriber}
        (subscribers : (w.go m).2.subscribers = Entries.put other s w.subscribers)
        (apart : s.hub ≠ n ∨ s.subscription.holds = []) : c ∈ w.heldBeside name n := by
      rw [subscribers] at he
      rcases Entries.mem_put he with rfl | hbefore
      · rcases apart with hlater | hnothing
        · exact absurd hhub hlater
        · rw [hnothing] at hc
          cases hc
      · exact hkept hbefore
    have hupshot : Upshot w m (w.go m).1 (w.go m).2 := Upshot.upshot_go rfl
    cases hupshot with
    | stay _ _ subscribers | change _ _ _ _ subscribers | make _ _ _ subscribers => exact hkept (subscribers ▸ he)
    | drop _ _ dropped => exact absurd (dropped.symm.trans (dropped_go hdrops)) (Nat.succ_ne_self _)
    | subscribe _ _ _ subscribers | subscribeAlone _ _ _ _ subscribers =>
      exact hput subscribers (Or.inl (Nat.ne_of_gt gone))
    | unsubscribe _ subscribers =>
      rw [subscribers] at he
      exact hkept (List.mem_filter.mp he).1
    | next _ _ _ subscribers => exact hput subscribers (Or.inr (Subscription.holds_poll _ _))
    | drain _ _ _ subscribers => exact hput subscribers (Or.inr (Subscription.holds_drain _ 19 _))

/-- A subscription that has lost its hub stays as it is until something is done for it. -/
theorem lookup_go_of_frozen {s : Subscriber} (found : w.subscribers.lookup name = some s)
    (gone : s.frozen.isSome = true) (unasked : m.subscriber? ≠ some name) :
    (w.go m).2.subscribers.lookup name = some s := by
  cases hdrops : m.drops with
  | false => rw [lookup_go hdrops unasked, found]
  | true =>
    have hdrop : w.dropHub.subscribers.lookup name = some s := by
      cases hhub : w.hub with
      | none =>
        simp only [dropHub, hhub]
        exact found
      | some h =>
        obtain ⟨subscription, number, frozen⟩ := s
        obtain ⟨b, rfl⟩ := Option.isSome_iff_exists.mp gone
        rw [lookup_dropHub hhub, found]
        rfl
    cases m with
    | act a =>
      cases a with
      | dropHub | restart => exact hdrop
      | _ => cases hdrops
    | deliver | task | forget => cases hdrops

/-! ### Subscriptions whose hub is gone -/

/-- A subscription whose hub is gone, with the board that it is left with. It was asked last, or left alone,
at the time `t`. -/
structure Orphan (name : String) (b : Board) (t : Nat) (w : World φ σ) (s : Subscriber) : Prop where
  found : w.subscribers.lookup name = some s
  gone : s.frozen = some b
  lost : s.hub < w.dropped
  needs : s.subscription.topic.needsHub = true
  sure : s.subscription.Sure t b
  past : t ≤ w.now

namespace Orphan

variable {b : Board} {t : Nat} {s : Subscriber}

omit [SystemFactory φ σ] [Steering φ σ] in
/-- It sees nothing but what is left. -/
theorem late (h : w.Orphan name b t s) : (w.view name s).Late b := by
  rw [view, h.gone]
  exact ⟨rfl, rfl, rfl⟩

omit [SystemFactory φ σ] [Steering φ σ] in
theorem view_eq (h : w.Orphan name b t s) : (w.view name s).now = w.now ∧
    (w.view name s).held = w.heldBeside name s.hub ∧ (w.view name s).provider = w.provider := by
  rw [view, h.gone]
  exact ⟨rfl, rfl, rfl⟩

theorem go (h : w.Orphan name b t s) (unasked : m.subscriber? ≠ some name) : (w.go m).2.Orphan name b t s where
  found := lookup_go_of_frozen h.found (by rw [h.gone]; rfl) unasked
  gone := h.gone
  lost := Nat.lt_of_lt_of_le h.lost (Upshot.upshot_go (m := m) rfl).dropped_le
  needs := h.needs
  sure := h.sure
  past := Nat.le_trans h.past (Upshot.upshot_go (m := m) rfl).now_le

/-- **Whatever happens, it is left alone until it is asked**, and no more channels are held. -/
theorem after (h : w.Orphan name b t s) {moves : List Move} (unasked : ∀ m ∈ moves, m.subscriber? ≠ some name) :
    (w.after moves).Orphan name b t s ∧ ∀ c ∈ (w.after moves).heldBeside name s.hub, c ∈ w.heldBeside name s.hub := by
  induction moves generalizing w with
  | nil => exact ⟨h, fun _ hc => hc⟩
  | cons m moves ih =>
    obtain ⟨hlater, hheld⟩ := ih (h.go (unasked m List.mem_cons_self)) fun m' hm' =>
      unasked m' (List.mem_cons_of_mem _ hm')
    exact ⟨hlater, fun c hc => heldBeside_go h.lost (hheld c hc)⟩

/-- What it is asked for wanes. -/
theorem ask (h : w.Orphan name b t s) :
    ∃ answer s', w.go (.act (.next name)) = (.polled answer, { w with
        subscribers := Entries.put name { s with subscription := s' } w.subscribers }) ∧
      s.subscription.Wanes (t + s.subscription.period ≤ w.now) b (w.heldBeside name s.hub) w.provider.ids
        (answer, s') ∧
      (w.go (.act (.next name))).2.Orphan name b w.now { s with subscription := s' } ∧
      s'.period = s.subscription.period ∧ s'.topic = s.subscription.topic ∧
      (s'.seeks b = true → s.subscription.seeks b = true) := by
  have hgo : w.go (.act (.next name)) = (.polled (s.subscription.poll (w.view name s)).1, { w with
      subscribers := Entries.put name { s with subscription := (s.subscription.poll (w.view name s)).2 }
        w.subscribers }) := by
    simp only [World.go, act, next, h.found]
  obtain ⟨hnow, hheld, hprovider⟩ := h.view_eq
  have hwanes := h.sure.wanes h.late h.needs
  rw [hnow, hheld, hprovider] at hwanes
  refine ⟨_, _, hgo, hwanes, ?_, Subscription.period_poll _ _, Subscription.topic_poll _ _,
    Subscription.seeks_poll h.late⟩
  rw [hgo]
  refine ⟨?_, h.gone, h.lost, ?_, (h.sure.later h.past).poll h.late.board hnow, Nat.le_refl _⟩
  · exact (Entries.lookup_put name name _ _).trans (if_pos rfl)
  · rw [Subscription.topic_poll]
    exact h.needs

end Orphan

/-! ### Asking again and again -/

/-- The worlds in which the subscription of a name is asked, with other moves before each time. -/
def asked (name : String) (w : World φ σ) : List (List Move) → List (World φ σ)
  | [] => []
  | moves :: rounds => w.after moves :: ((w.after moves).go (.act (.next name))).2.asked name rounds

/-- What it is answered. -/
def answered (name : String) (w : World φ σ) (rounds : List (List Move)) : List Reply :=
  (w.asked name rounds).map fun u => (u.go (.act (.next name))).1

/-- Nothing is done for the subscription of a name before it is asked. -/
def Apart (name : String) (rounds : List (List Move)) : Prop :=
  ∀ moves ∈ rounds, ∀ m ∈ moves, m.subscriber? ≠ some name

theorem Apart.tail {moves : List Move} {rounds : List (List Move)} (h : Apart name (moves :: rounds)) :
    Apart name rounds :=
  fun moves' hmoves => h moves' (List.mem_cons_of_mem _ hmoves)

namespace Orphan

variable {b : Board} {t : Nat} {s : Subscriber} {rounds : List (List Move)}

/-- **It gives no more than remains**, once that is settled, and two items at most before. -/
theorem exists_answers (h : w.Orphan name b t s) (apart : Apart name rounds) :
    ∃ answers : List (Poll Item), w.answered name rounds = answers.map .polled ∧
      (answers.filterMap Poll.item?).length ≤ 2 ∧
      (s.subscription.Settled b → ∀ ids,
        (answers.filterMap Poll.item?).length ≤ (s.subscription.remains b ids).length) := by
  induction rounds generalizing w t s with
  | nil => exact ⟨[], rfl, Nat.zero_le _, fun _ _ => Nat.zero_le _⟩
  | cons moves rounds ih =>
    obtain ⟨hlater, -⟩ := h.after (apart moves List.mem_cons_self)
    obtain ⟨answer, s', hgo, hwanes, hnext, -, -, -⟩ := hlater.ask
    obtain ⟨answers, hanswers, htwo, hsettled⟩ := ih hnext apart.tail
    refine ⟨answer :: answers, ?_, ?_⟩
    · rw [answered, asked, List.map_cons, hgo, List.map_cons, ← hanswers, hgo]
      rfl
    have hnothing (none : answer.item? = none) (same : ∀ ids, s'.remains b ids = s.subscription.remains b ids) :
        ((answer :: answers).filterMap Poll.item?).length ≤ 2 ∧ (s.subscription.Settled b → ∀ ids,
          ((answer :: answers).filterMap Poll.item?).length ≤ (s.subscription.remains b ids).length) := by
      rw [List.filterMap_cons_none none]
      refine ⟨htwo, fun hs ids => ?_⟩
      rw [← same]
      refine hsettled (fun ids ids' => ?_) ids
      rw [same, same, hs ids ids']
    cases hwanes with
    | @item i _ gives settled =>
      have hgives : ((Poll.item i :: answers).filterMap Poll.item?).length ≤
          (s.subscription.remains b (w.after moves).provider.ids).length := by
        rw [gives]
        exact Nat.succ_le_succ (hsettled settled _)
      refine ⟨Nat.le_trans hgives (s.subscription.length_remains b _), fun hs ids => ?_⟩
      rw [hs ids]
      exact hgives
    | early same => exact hnothing rfl same
    | blocked _ _ same => exact hnothing rfl same
    | rest free nothing done =>
      have hempty : (answers.filterMap Poll.item?).length ≤ 0 := by
        refine Nat.le_trans (hsettled (fun ids ids' => ?_) []) (Nat.le_of_eq ?_)
        · rw [done, done]
        · rw [done]
          rfl
      rw [List.filterMap_cons_none (Poll.item?_rest _)]
      exact ⟨htwo, fun _ _ => Nat.le_trans hempty (Nat.zero_le _)⟩

/-- Before it is asked in a round it is left alone. What it is asked for wanes, and the other rounds go on from
there. -/
theorem round (h : w.Orphan name b t s) {moves : List Move} (unasked : ∀ m ∈ moves, m.subscriber? ≠ some name)
    (free : s.subscription.seeks b = true → .wallets ∉ w.heldBeside name s.hub) :
    ∃ (answer : Poll Item) (s' : Subscription) (u' : World φ σ),
      (∀ rounds, w.asked name (moves :: rounds) = w.after moves :: u'.asked name rounds) ∧
      (∀ rounds, w.answered name (moves :: rounds) = .polled answer :: u'.answered name rounds) ∧
      s.subscription.Wanes (t + s.subscription.period ≤ (w.after moves).now) b
        ((w.after moves).heldBeside name s.hub) (w.after moves).provider.ids (answer, s') ∧
      (s.subscription.seeks b = true → .wallets ∉ (w.after moves).heldBeside name s.hub) ∧
      u'.Orphan name b (w.after moves).now { s with subscription := s' } ∧
      (s'.seeks b = true → .wallets ∉ u'.heldBeside name s.hub) ∧
      s'.period = s.subscription.period ∧ s'.topic = s.subscription.topic := by
  obtain ⟨hlater, hheld⟩ := h.after unasked
  obtain ⟨answer, s', hgo, hwanes, hnext, hperiod, htopic, hseeks⟩ := hlater.ask
  have hfree (hs : s.subscription.seeks b = true) : .wallets ∉ (w.after moves).heldBeside name s.hub :=
    fun hc => free hs (hheld _ hc)
  refine ⟨answer, s', _, fun _ => rfl, fun rounds => ?_, hwanes, hfree, hnext,
    fun hs hc => hfree (hseeks hs) (heldBeside_go hlater.lost hc), hperiod, htopic⟩
  rw [answered, asked, List.map_cons, hgo]
  rfl

end Orphan

/-! ### Asking late enough -/

/-- The answer to one who has taken all: it depends on who else holds the channel. -/
def closing (name : String) (topic : Topic) (hub : Nat) (u : World φ σ) : Poll Item :=
  .rest (topic.channel?.any (u.heldBeside name hub).contains)

/-- The answers to one who is asked in these worlds and gives one item after the other, until there is none. -/
def farewell (name : String) (topic : Topic) (hub : Nat) : List Item → List (World φ σ) → List (Poll Item)
  | _, [] => []
  | i :: items, _ :: us => .item i :: farewell name topic hub items us
  | [], u :: us => u.closing name topic hub :: farewell name topic hub [] us

namespace Orphan

variable {b : Board} {t : Nat} {s : Subscriber} {rounds : List (List Move)}

/-- **Asked late enough it gives all that remains**, and then it has come to its end. -/
theorem answered_due (h : w.Orphan name b t s) (apart : Apart name rounds)
    (free : s.subscription.seeks b = true → .wallets ∉ w.heldBeside name s.hub)
    (due : ∀ u ∈ (w.asked name rounds).head?, t + s.subscription.period ≤ u.now)
    (paced : (w.asked name rounds).IsChain fun u u' => u.now + s.subscription.period ≤ u'.now) (ids : List String)
    (enabled : s.subscription.Settled b ∨ ∀ u ∈ (w.asked name rounds).head?, ids = u.provider.ids) :
    w.answered name rounds = (farewell name s.subscription.topic s.hub (s.subscription.remains b ids)
      (w.asked name rounds)).map .polled := by
  induction rounds generalizing w t s ids with
  | nil => cases s.subscription.remains b ids <;> rfl
  | cons moves rounds ih =>
    obtain ⟨answer, s', u', hasked, hanswered, hwanes, hfree, hnext, hfree', hperiod, htopic⟩ :=
      h.round (apart moves List.mem_cons_self) free
    have hids : s.subscription.remains b ids = s.subscription.remains b (w.after moves).provider.ids := by
      rcases enabled with hsettled | hids
      · exact hsettled _ _
      · rw [hids (w.after moves) (by rw [hasked]; rfl)]
    rw [hasked] at due paced ⊢
    obtain ⟨hfirst, hpaced⟩ := List.isChain_cons.mp paced
    rw [← hperiod] at hfirst hpaced
    have hrest (settled : s'.Settled b) := ih hnext apart.tail hfree' hfirst hpaced ids (.inl settled)
    rw [hanswered, hids]
    cases hwanes with
    | item gives settled =>
      rw [hrest settled, gives, farewell, List.map_cons, settled ids, htopic]
    | early _ early => exact absurd (due _ rfl) early
    | blocked waits blocks => exact absurd blocks (hfree waits)
    | rest _ nothing done =>
      have hsettled : s'.Settled b := fun ids ids' => (done ids).trans (done ids').symm
      rw [hrest hsettled, nothing, farewell, List.map_cons, done, htopic]
      rfl

/-- At first it may be too early. -/
theorem answered_paced (h : w.Orphan name b t s) (apart : Apart name rounds)
    (free : s.subscription.seeks b = true → .wallets ∉ w.heldBeside name s.hub)
    (paced : (w.asked name rounds).IsChain fun u u' => u.now + s.subscription.period ≤ u'.now) :
    ∃ waits ids, waits ≤ 1 ∧ (∀ u, (w.asked name rounds)[waits]? = some u → ids = u.provider.ids) ∧
      w.answered name rounds = (List.replicate waits Poll.pending ++ farewell name s.subscription.topic s.hub
        (s.subscription.remains b ids) ((w.asked name rounds).drop waits)).map .polled := by
  cases rounds with
  | nil =>
    refine ⟨0, [], Nat.zero_le 1, fun u hu => ?_, ?_⟩
    · rw [asked, List.getElem?_nil] at hu
      cases hu
    · cases s.subscription.remains b [] <;> rfl
  | cons moves rounds =>
    obtain ⟨answer, s', u', hasked, hanswered, hwanes, hfree, hnext, hfree', hperiod, htopic⟩ :=
      h.round (apart moves List.mem_cons_self) free
    rw [hasked] at paced ⊢
    obtain ⟨hfirst, hpaced⟩ := List.isChain_cons.mp paced
    rw [← hperiod] at hfirst hpaced
    have hrest (ids : List String) := hnext.answered_due apart.tail hfree' hfirst hpaced ids
    rw [hanswered]
    cases hwanes with
    | item gives settled =>
      refine ⟨0, (w.after moves).provider.ids, Nat.zero_le 1, fun u hu => ?_, ?_⟩
      · obtain rfl := Option.some.inj hu
        rfl
      · rw [hrest _ (Or.inl settled), gives, List.drop_zero, farewell, htopic]
        rfl
    | early same early =>
      let ids := (u'.asked name rounds).head?.elim [] fun u => u.provider.ids
      have henabled : ∀ u ∈ (u'.asked name rounds).head?, ids = u.provider.ids := by
        intro u hu
        show (u'.asked name rounds).head?.elim [] _ = _
        rw [hu]
        rfl
      refine ⟨1, ids, Nat.le_refl 1, fun u hu => henabled u ?_, ?_⟩
      · rw [List.getElem?_cons_succ, ← List.head?_eq_getElem?] at hu
        exact hu
      · rw [hrest ids (Or.inr henabled), same, htopic]
        rfl
    | blocked waits blocks => exact absurd blocks (hfree waits)
    | rest _ nothing done =>
      have hsettled : s'.Settled b := fun ids ids' => (done ids).trans (done ids').symm
      refine ⟨0, (w.after moves).provider.ids, Nat.zero_le 1, fun u hu => ?_, ?_⟩
      · obtain rfl := Option.some.inj hu
        rfl
      · rw [hrest [] (Or.inl hsettled), nothing, List.drop_zero, farewell, done, htopic]
        rfl

end Orphan

/-! ### Courses -/

/-- What stays true of a subscriber so that it can become an orphan. -/
structure Tended (w : World φ σ) (s : Subscriber) : Prop where
  sure : s.subscription.Sure w.now (w.boardFor s)
  number : s.hub ≤ w.dropped
  lost : s.frozen.isSome = true → s.hub < w.dropped

theorem attends_tended (name : String) (topic : Topic) :
    World.Attends (fun _ : World φ σ => True) name topic fun w s _ => w.Tended s where
  create _ := ⟨.create _ _ _ _ _, Nat.le_refl _, nofun⟩
  alone _ _ := ⟨.create _ _ _ _ _, Nat.le_refl _, nofun⟩
  poll {w s} _ _ h := by
    obtain ⟨hboard, hnow⟩ := w.board_view name s
    exact ⟨h.sure.poll hboard hnow, h.number, h.lost⟩
  leave {w w' _ _ s s' _} _ leaves h := by
    refine ⟨?_, ?_, fun hlost => ?_⟩
    · rw [leaves.subscription]
      exact (h.sure.grown leaves.grown).later leaves.now
    · rw [leaves.hub]
      exact Nat.le_trans h.number leaves.counted
    · rw [leaves.hub]
      rcases leaves.lost hlost with hbefore | hnow
      · exact Nat.lt_of_lt_of_le (h.lost hbefore) leaves.counted
      · exact Nat.lt_of_le_of_lt h.number hnow

end World

namespace Course

variable {start w : World φ σ} {past : Past} {name : String} {s : Subscriber} {b : Board}

/-- A subscription of a hub that was dropped is left with what was published. -/
theorem orphan (course : Course start past w) (hstart : start.subscribers = [])
    (found : w.subscribers.lookup name = some s) (gone : s.frozen = some b)
    (needs : s.subscription.topic.needsHub = true) : w.Orphan name b w.now s := by
  have htended := course.attending (World.attends_tended name s.subscription.topic) hstart (fun _ => trivial) s
    found rfl
  have hsure := htended.sure
  rw [World.boardFor, gone] at hsure
  exact ⟨found, gone, htended.lost (by rw [gone]; rfl), needs, hsure, Nat.le_refl _⟩

/-- **Subscriptions end after their hub is gone.** In every run, over systems of any kind, a subscription whose hub
was dropped gives two items at most, however it is asked. Asked with its period between the times, it is told to
wait once at most, gives one by one all that remains, and answers from then on that it has ended, or that there may
be more, if another subscription that was never polled holds its channel open. -/
theorem ends_without_hub {config : Config} {factory : φ} {disk : Disk} {wall : Instant} {enabled : List String}
    {withHub : Bool} (course : Course (.start config factory disk wall enabled withHub) past w)
    (found : w.subscribers.lookup name = some s) (gone : s.frozen = some b)
    (needs : s.subscription.topic.needsHub = true) :
    (∃ answer s', w.go (.act (.next name)) = (.polled answer, { w with
        subscribers := Entries.put name { s with subscription := s' } w.subscribers }) ∧
      s.subscription.remains b w.provider.ids = answer.item?.toList ++ s'.remains b w.provider.ids ∧
      (answer = .ended → (∀ c ∈ s.subscription.topic.channel?, c ∉ w.heldBeside name s.hub) ∧
        (s.subscription.seeks b = true → .wallets ∉ w.heldBeside name s.hub))) ∧
    ∀ rounds, World.Apart name rounds →
      ∃ answers : List (Poll Item), w.answered name rounds = answers.map .polled ∧
        (answers.filterMap Poll.item?).length ≤ 2 ∧
        ((s.subscription.seeks b = true → .wallets ∉ w.heldBeside name s.hub) →
          ((w.asked name rounds).IsChain fun u u' => u.now + s.subscription.period ≤ u'.now) →
          ∃ waits ids, waits ≤ 1 ∧ (∀ u, (w.asked name rounds)[waits]? = some u → ids = u.provider.ids) ∧
            answers = List.replicate waits .pending ++ World.farewell name s.subscription.topic s.hub
              (s.subscription.remains b ids) ((w.asked name rounds).drop waits)) := by
  have horphan := course.orphan rfl found gone needs
  refine ⟨?_, fun rounds apart => ?_⟩
  · obtain ⟨answer, s', hgo, hwanes, -⟩ := horphan.ask
    refine ⟨answer, s', hgo, ?_⟩
    cases hwanes with
    | item gives => exact ⟨gives, nofun⟩
    | early same | blocked _ _ same => exact ⟨(same _).symm, nofun⟩
    | rest free nothing done =>
      refine ⟨?_, fun hended => ⟨fun c hc hheld => ?_, free⟩⟩
      · rw [Poll.item?_rest, nothing, done]
        rfl
      · rw [Option.mem_def.mp hc, Option.any_some, List.contains_iff_mem.mpr hheld] at hended
        cases hended
  · obtain ⟨answers, hanswers, htwo, -⟩ := horphan.exists_answers apart
    refine ⟨answers, hanswers, htwo, fun free paced => ?_⟩
    obtain ⟨waits, ids, hwaits, hids, hall⟩ := horphan.answered_paced apart free paced
    refine ⟨waits, ids, hwaits, hids, ?_⟩
    exact (List.map_inj_right fun _ _ => Reply.polled.inj).mp (hanswers.symm.trans hall)

end Course

/-- A subscription has been given a list of wallets, another list is held back, and the hub is dropped. -/
def bereaved : Past × MemoryWorld :=
  neverOpen.play [.act (.openHub ⟨"alice", ⟨0, 0⟩, [1]⟩), .act (.subscribe "mine" (.wallets false)),
    .act (.next "mine"), .act (.command (.addWallet ⟨"bitcoin", "btc", "Bitcoin", 8⟩)),
    .deliver, .deliver, .deliver, .deliver, .deliver, .act (.next "mine"),
    .act (.command (.removeWallet "btc")), .deliver, .deliver, .deliver, .deliver, .act (.next "mine"),
    .act .dropHub]

/-- The subscription is asked at once, and then after its period three times. -/
def wakes : List (List Move) := [[], [.act (.advance 100)], [.act (.advance 100)], [.act (.advance 100)]]

/-- It waits once, gives the other list, and ends. -/
theorem bereaved_ends : ∃ waits ids, waits ≤ 1 ∧ ∃ s b, bereaved.2.subscribers.lookup "mine" = some s ∧
    s.frozen = some b ∧ bereaved.2.answered "mine" wakes = (List.replicate waits Poll.pending ++
      World.farewell "mine" (.wallets false) s.hub (s.subscription.remains b ids)
        ((bereaved.2.asked "mine" wakes).drop waits)).map .polled := by
  have run : Run anyMove neverOpen bereaved.1 bereaved.2 := Run.play_any _ _
  obtain ⟨s, hs⟩ : ∃ s, bereaved.2.subscribers.lookup "mine" = some s :=
    Option.isSome_iff_exists.mp (by decide +kernel)
  have hfields : ((bereaved.2.subscribers.lookup "mine").map fun s => (s.frozen.isSome, s.subscription.topic,
      s.subscription.period, s.subscription.seeks (s.frozen.getD .empty))) =
        some (true, .wallets false, 100, false) := by
    decide +kernel
  rw [hs, Option.map_some] at hfields
  simp only [Option.some.injEq, Prod.mk.injEq] at hfields
  obtain ⟨hgone, htopic, hperiod, hseeks⟩ := hfields
  obtain ⟨b, hb⟩ := Option.isSome_iff_exists.mp hgone
  rw [hb, Option.getD_some] at hseeks
  obtain ⟨-, hends⟩ := run.course.ends_without_hub hs hb (by rw [htopic]; rfl)
  obtain ⟨answers, hanswers, -, hpaced⟩ := hends wakes (by unfold World.Apart; decide +kernel)
  obtain ⟨waits, ids, hwaits, -, hall⟩ := hpaced (fun h => nomatch hseeks.symm.trans h) (by
    rw [hperiod]
    exact .cons_cons (by decide +kernel) (.cons_cons (by decide +kernel)
      (.cons_cons (by decide +kernel) (.singleton _))))
  refine ⟨waits, ids, hwaits, s, b, hs, hb, ?_⟩
  rw [hanswers, hall, htopic]

/-- A subscription to the wallets has seen all of them, another one was never asked, and the hub is dropped. -/
def idled : MemoryWorld :=
  neverOpen.after [.act (.openHub ⟨"alice", ⟨0, 0⟩, [1]⟩), .act (.subscribe "mine" (.wallets false)),
    .act (.next "mine"), .act (.subscribe "idle" (.wallets false)), .act .dropHub]

theorem answered_idled (n now : Nat) : ({ idled with now := now } : MemoryWorld).answered "mine"
    (List.replicate n [.act (.advance 100)]) = List.replicate n (.polled .pending) := by
  induction n generalizing now with
  | zero => rfl
  | succ n ih =>
    have hround : ({ idled with now := now } : MemoryWorld).answered "mine"
        ([.act (.advance 100)] :: List.replicate n [.act (.advance 100)]) =
        .polled .pending :: ({ idled with now := now + 100 } : MemoryWorld).answered "mine"
          (List.replicate n [.act (.advance 100)]) := rfl
    rw [List.replicate_succ, List.replicate_succ, hround, ih]

/-- However often the first one is asked, with its period between the times, it does not end. -/
theorem idled_never_ends : ((idled.subscribers.lookup "mine").map fun s => (s.frozen.isSome,
      s.subscription.topic, s.subscription.period)) = some (true, .wallets false, 100) ∧
    ¬∃ n, .polled .ended ∈ idled.answered "mine" (List.replicate n [.act (.advance 100)]) := by
  refine ⟨by decide +kernel, ?_⟩
  rintro ⟨n, hended⟩
  have hanswered : idled.answered "mine" (List.replicate n [.act (.advance 100)]) =
      List.replicate n (.polled .pending) := answered_idled n idled.now
  rw [hanswered] at hended
  exact nomatch List.eq_of_mem_replicate hended

end WalletHub
