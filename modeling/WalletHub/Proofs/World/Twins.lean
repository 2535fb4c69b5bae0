import WalletHub.Proofs.World.Onlookers

/-!
# Two worlds that differ in one subscription

`World.Twins` are two worlds that are the same but for one subscription, in the place of which the other has one
of another kind. As long as nobody asks that subscription, whatever happens in one world happens in the other,
with the same answers, and leaves them twins (`World.Twins.parallel`); in its place stands what the subscriptions
themselves answer. This is how a run is compared with the run of a user who subscribes to something else.

## What is proved

* `Entries.put_put`, `Entries.put_comm`, `Entries.drop_put`: entries under different names do not meet.
* `World.Twins.of_other`: what is done to the world is done in both.
* `World.Twins.view_eq`: a subscription sees the same in both, if the two that differ hold the same channels.
* `World.Twins.parallel`: a move is done in both and they stay twins, or it asks the subscriptions that differ, and
  then each gives what it gives.
-/

namespace WalletHub

/-! ### Entries -/

namespace Entries

variable {α : Type} {name other : String}

theorem put_put (a b : α) (es : List (String × α)) : put name a (put name b es) = put name a es := by
  induction es with
  | nil => simp only [put, if_true]
  | cons e es ih =>
    by_cases he : e.1 = name
    · simp only [put, if_pos he, if_true]
    · simp only [put, if_neg he, ih]

/-- Entries of two names can be put in any order, if one of them is there already. -/
theorem put_comm (hne : name ≠ other) (a b : α) {es : List (String × α)} (present : (es.lookup name).isSome = true) :
    put other b (put name a es) = put name a (put other b es) := by
  induction es with
  | nil => exact nomatch present
  | cons e es ih =>
    obtain ⟨n, x⟩ := e
    by_cases hname : n = name
    · subst hname
      have hother : ¬n = other := hne
      simp only [put, if_true, if_neg hother]
    · rw [lookup_cons, if_neg (Ne.symm hname)] at present
      by_cases hother : n = other
      · subst hother
        simp only [put, if_true, if_neg hname]
      · simp only [put, if_neg hname, if_neg hother, ih present]

theorem drop_put_self (a : α) (es : List (String × α)) : drop name (put name a es) = drop name es := by
  induction es with
  | nil => simp [put, drop]
  | cons e es ih =>
    obtain ⟨n, x⟩ := e
    by_cases hname : n = name
    · simp [put, drop, hname]
    · simp only [put, if_neg hname]
      simp only [drop] at ih
      simp [drop, hname, ih]

theorem drop_put (hne : name ≠ other) (a : α) {es : List (String × α)} (present : (es.lookup name).isSome = true) :
    drop other (put name a es) = put name a (drop other es) := by
  induction es with
  | nil => exact nomatch present
  | cons e es ih =>
    obtain ⟨n, x⟩ := e
    by_cases hname : n = name
    · subst hname
      simp [put, drop, hne]
    · rw [lookup_cons, if_neg (Ne.symm hname)] at present
      have hrest := ih present
      simp only [drop] at hrest
      by_cases hother : n = other
      · subst hother
        simp only [put, if_neg hname]
        simpa [drop] using hrest
      · simp only [put, if_neg hname]
        simp [drop, hother, put, hname, hrest]

theorem map_put {β : Type} (f : α → β) (a : α) (es : List (String × α)) :
    (put name a es).map (fun e => (e.1, f e.2)) = put name (f a) (es.map fun e => (e.1, f e.2)) := by
  induction es with
  | nil => rfl
  | cons e es ih =>
    by_cases hname : e.1 = name
    · simp only [put, if_pos hname, List.map_cons]
    · simp only [put, if_neg hname, List.map_cons, ih]

theorem lookup_map {β : Type} (f : α → β) (es : List (String × α)) :
    (es.map fun e => (e.1, f e.2)).lookup name = (es.lookup name).map f := by
  induction es with
  | nil => rfl
  | cons e es ih =>
    obtain ⟨n, x⟩ := e
    rw [List.map_cons, lookup_cons, lookup_cons]
    by_cases hname : name = n
    · rw [if_pos hname, if_pos hname, Option.map_some]
    · rw [if_neg hname, if_neg hname, ih]

/-- What is collected from the entries is the same if an entry is replaced by one that is collected alike. -/
theorem flatMap_filter_put {β : Type} {p : String × α → Bool} {f : String × α → List β} {a b : α}
    {es : List (String × α)} (present : es.lookup name = some a) (pick : p (name, b) = p (name, a))
    (same : f (name, b) = f (name, a)) : ((put name b es).filter p).flatMap f = (es.filter p).flatMap f := by
  induction es with
  | nil => exact nomatch present
  | cons e es ih =>
    obtain ⟨n, x⟩ := e
    rw [lookup_cons] at present
    by_cases hname : n = name
    · subst hname
      rw [if_pos rfl] at present
      obtain rfl := Option.some.inj present
      rw [put, if_pos rfl, List.filter_cons, List.filter_cons, pick]
      split
      · rw [List.flatMap_cons, List.flatMap_cons, same]
      · rfl
    · rw [if_neg (Ne.symm hname)] at present
      rw [put, if_neg hname, List.filter_cons, List.filter_cons]
      split
      · rw [List.flatMap_cons, List.flatMap_cons, ih present]
      · exact ih present

end Entries

/-! ### Twins -/

/-- Nothing is heard of a subscription by what is done for others. -/
theorem Heard.after_of_ne {name : String} {m : Move} (k : Heard) (h : m.subscriber? ≠ some name) (r : Reply) :
    k.after name (m, r) = k := by
  unfold Heard.after
  split
  · next hm =>
    obtain ⟨rfl, -⟩ := Prod.mk.inj hm
    exact if_neg fun hsame => h (congrArg some hsame)
  · next hm =>
    obtain ⟨rfl, -⟩ := Prod.mk.inj hm
    exact if_neg fun hsame => h (congrArg some hsame)
  · next hm =>
    obtain ⟨rfl, -⟩ := Prod.mk.inj hm
    exact if_neg fun hsame => h (congrArg some hsame)
  · rfl

variable {φ σ : Type} {name : String} {kin : Subscription → Subscription → Prop}

/-- The second world is the first, or differs from it in the subscription of a name, with which its own is
akin. -/
inductive World.Twins (name : String) (kin : Subscription → Subscription → Prop) (w : World φ σ) :
    World φ σ → Prop where
  | same : Twins name kin w w
  | differ {s : Subscriber} (made : w.subscribers.lookup name = some s) {s' : Subscription}
      (akin : kin s.subscription s') :
      Twins name kin w (w.amid w.dropped (Entries.put name { s with subscription := s' } w.subscribers))

namespace World

variable [WalletSystem σ] [SystemFactory φ σ] [Steering φ σ]

/-- To subscribe puts the same subscription, or none, among whichever there are. -/
theorem go_subscribe (w : World φ σ) (other : String) (topic : Topic) :
    ∃ (r : Reply) (new : Option Subscriber), (new = none → r = .noHub) ∧
      ∀ l, (w.amid w.dropped l).go (.act (.subscribe other topic)) =
        (r, w.amid w.dropped (new.elim l fun s => Entries.put other s l)) := by
  cases hhub : w.hub with
  | some h =>
    refine ⟨.nothing, some ⟨.create h.config.throttle h.config.transferThrottle topic, w.dropped, none⟩,
      (Option.some_ne_none _).elim, fun l => ?_⟩
    simp only [go, act, subscribe, hhub, amid, Option.elim]
  | none =>
    cases hneeds : topic.needsHub with
    | true =>
      refine ⟨.noHub, none, fun _ => rfl, fun l => ?_⟩
      simp only [go, act, subscribe, hub_amid, hhub, hneeds, if_true, Option.elim]
    | false =>
      refine ⟨.nothing, some ⟨.create 0 0 topic, w.dropped, none⟩, (Option.some_ne_none _).elim, fun l => ?_⟩
      simp only [go, act, subscribe, hhub, hneeds, Bool.false_eq_true, if_false, amid, Option.elim]

namespace Twins

variable {w w' : World φ σ} {m : Move}

/-- What is done to the world is done in both. -/
theorem of_other (h : w.Twins name kin w') (other : m.subscriber? = none) :
    (w'.go m).1 = (w.go m).1 ∧ (w.go m).2.Twins name kin (w'.go m).2 := by
  cases h with
  | same => exact ⟨rfl, .same⟩
  | @differ s made s' akin =>
    cases hdrops : m.drops with
    | false =>
      obtain ⟨hsubs, hdropped⟩ := go_of_other w other hdrops
      rw [go_amid _ _ w other hdrops, ← hsubs, ← hdropped]
      exact ⟨rfl, .differ (by rw [hsubs]; exact made) akin⟩
    | true =>
      obtain ⟨keep, k, hgo⟩ := go_of_drops w hdrops
      have hself := hgo w.dropped w.subscribers
      rw [amid_self] at hself
      have hsubs : (w.go m).2.subscribers =
          w.subscribers.map fun e => (e.1, e.2.freezeBy keep) :=
        congrArg (fun x => x.2.subscribers) hself
      have hdropped : (w.go m).2.dropped = w.dropped + k := congrArg (fun x => x.2.dropped) hself
      have hmade : (w.go m).2.subscribers.lookup name = some (s.freezeBy keep) := by
        rw [hsubs, Entries.lookup_map, made, Option.map_some]
      rw [hgo, Entries.map_put, ← hsubs, ← hdropped]
      exact ⟨rfl, .differ hmade akin⟩

omit [SystemFactory φ σ] [Steering φ σ] in
/-- All see the same in both worlds, if the subscriptions that differ hold the same channels. -/
theorem view_eq (holds : ∀ s s', kin s s' → s'.holds = s.holds) (h : w.Twins name kin w') (other : String)
    {x : Subscriber} (t : Subscription) : w'.view other { x with subscription := t } = w.view other x := by
  cases h with
  | same => rfl
  | @differ s made s' akin =>
    have hheld : (w.amid w.dropped (Entries.put name { s with subscription := s' } w.subscribers)).heldBeside
        other x.hub = w.heldBeside other x.hub :=
      Entries.flatMap_filter_put made rfl (holds _ _ akin)
    simp only [view, hheld, hub_amid]
    rfl

end Twins

/-- How a move goes in twins. -/
inductive Parallel (name : String) (kin : Subscription → Subscription → Prop) (w w' : World φ σ) (m : Move) : Prop where
  /-- It goes the same way in both, and nothing is heard of the subscription. -/
  | same (silent : ∀ k : Heard, k.after name (m, (w.go m).1) = k) (reply : (w'.go m).1 = (w.go m).1)
      (twins : (w.go m).2.Twins name kin (w'.go m).2)
  /-- The subscription is made anew, or ended, so that they differ no longer. -/
  | merged (reply : (w'.go m).1 = (w.go m).1) (world : (w'.go m).2 = (w.go m).2)
  /-- The subscriptions that differ are asked for an item, and see the same. -/
  | next {s s' : Subscription} (v : View) (akin : kin s s') (asked : m = .act (.next name))
      (reply : (w.go m).1 = .polled (s.poll v).1) (reply' : (w'.go m).1 = .polled (s'.poll v).1)
      (twins : ∀ kin' : Subscription → Subscription → Prop, kin' (s.poll v).2 (s'.poll v).2 →
        (w.go m).2.Twins name kin' (w'.go m).2)
  /-- They are asked for items until there is none. -/
  | drain {s s' : Subscription} (v : View) (akin : kin s s') (asked : m = .act (.drain name))
      (reply : (w.go m).1 = .drained (s.drain v drainLimit).1 (s.drain v drainLimit).2.1)
      (reply' : (w'.go m).1 = .drained (s'.drain v drainLimit).1 (s'.drain v drainLimit).2.1)
      (twins : ∀ kin' : Subscription → Subscription → Prop,
        kin' (s.drain v drainLimit).2.2 (s'.drain v drainLimit).2.2 → (w.go m).2.Twins name kin' (w'.go m).2)

namespace Twins

variable {w : World φ σ} {s : Subscriber} {s' : Subscription}

omit [WalletSystem σ] [SystemFactory φ σ] [Steering φ σ] in
/-- Subscriptions that are akin make twins. -/
theorem of_put (name : String) (kin : Subscription → Subscription → Prop) (w : World φ σ) (s : Subscriber)
    {t t' : Subscription} (h : kin t t') :
    (w.amid w.dropped (Entries.put name { s with subscription := t } w.subscribers)).Twins name kin
      (w.amid w.dropped (Entries.put name { s with subscription := t' } w.subscribers)) := by
  have hlookup : (Entries.put name { s with subscription := t } w.subscribers).lookup name =
      some { s with subscription := t } := by
    rw [Entries.lookup_put, if_pos rfl]
  have htwins : (w.amid w.dropped (Entries.put name { s with subscription := t } w.subscribers)).Twins name kin _ :=
    .differ hlookup h
  rw [subscribers_amid, Entries.put_put] at htwins
  exact htwins

omit [WalletSystem σ] [SystemFactory φ σ] [Steering φ σ] in
/-- Worlds that differ go on differing when something else is put among the subscriptions. -/
theorem put (made : w.subscribers.lookup name = some s) (akin : kin s.subscription s') {other : String}
    (hne : other ≠ name) (x : Subscriber) :
    (w.amid w.dropped (Entries.put other x w.subscribers)).Twins name kin
      (w.amid w.dropped (Entries.put other x (Entries.put name { s with subscription := s' } w.subscribers))) := by
  rw [Entries.put_comm (Ne.symm hne) _ _ (by rw [made]; rfl)]
  refine .differ (w := w.amid w.dropped (Entries.put other x w.subscribers)) ?_ akin
  rw [subscribers_amid, Entries.lookup_put, if_neg (Ne.symm hne), made]

variable (made : w.subscribers.lookup name = some s) (akin : kin s.subscription s')

include made akin in
theorem parallel_subscribe (other : String) (topic : Topic) : Parallel name kin w
    (w.amid w.dropped (Entries.put name { s with subscription := s' } w.subscribers))
    (.act (.subscribe other topic)) := by
  obtain ⟨r, new, hrefused, hgo⟩ := w.go_subscribe other topic
  have hself := hgo w.subscribers
  rw [amid_self] at hself
  cases new with
  | none =>
    refine .same (fun k => ?_) (by rw [hgo, hself]) ?_
    · rw [hself, hrefused rfl]
      rfl
    · rw [hgo, hself]
      exact .differ made akin
  | some new =>
    by_cases hname : other = name
    · refine .merged (by rw [hgo, hself]) ?_
      rw [hgo, hself]
      simp only [Option.elim, hname, Entries.put_put]
    · refine .same (fun k => k.after_of_ne ?_ _) (by rw [hgo, hself]) ?_
      · exact fun hsame => hname (Option.some.inj hsame)
      · rw [hgo, hself]
        exact put made akin hname new

include made akin in
theorem parallel_unsubscribe (other : String) : Parallel name kin w
    (w.amid w.dropped (Entries.put name { s with subscription := s' } w.subscribers))
    (.act (.unsubscribe other)) := by
  by_cases hname : other = name
  · subst hname
    refine .merged ?_ ?_
    · simp only [go, act, unsubscribe, subscribers_amid, Entries.lookup_put, if_true, made]
      rfl
    · simp only [go, act, unsubscribe, subscribers_amid, Entries.drop_put_self]
      rfl
  · have hsilent : (Move.act (.unsubscribe other)).subscriber? ≠ some name := fun h => hname (Option.some.inj h)
    refine .same (fun k => k.after_of_ne hsilent _) ?_ ?_
    · simp only [go, act, unsubscribe, subscribers_amid, Entries.lookup_put, if_neg hname]
    · simp only [go, act, unsubscribe, subscribers_amid, Entries.drop_put (Ne.symm hname) _ (by rw [made]; rfl)]
      refine .differ (w := { w with subscribers := Entries.drop other w.subscribers }) ?_ akin
      rw [Entries.lookup_drop, if_neg (Ne.symm hname), made]

variable (holds : ∀ s s', kin s s' → s'.holds = s.holds)

include made akin holds in
/-- A subscription of another name, when it is asked, sees the same in both and answers alike. -/
theorem parallel_ask {m : Move} {other : String} (own : m.subscriber? = some other) (hne : other ≠ name)
    (answer : Subscriber → View → Reply) (after : Subscriber → View → Subscriber)
    (hgo : ∀ w : World φ σ, w.go m = (w.subscribers.lookup other).elim (.noStream, w) fun x =>
      (answer x (w.view other x), w.amid w.dropped (Entries.put other (after x (w.view other x)) w.subscribers))) :
    Parallel name kin w (w.amid w.dropped (Entries.put name { s with subscription := s' } w.subscribers)) m := by
  have htwins : w.Twins name kin (w.amid w.dropped (Entries.put name { s with subscription := s' } w.subscribers)) :=
    .differ made akin
  have hview (x : Subscriber) : World.view other x
      (w.amid w.dropped (Entries.put name { s with subscription := s' } w.subscribers)) = w.view other x :=
    htwins.view_eq holds other x.subscription
  have hsilent : m.subscriber? ≠ some name := fun h => hne (Option.some.inj (own.symm.trans h))
  refine .same (fun k => k.after_of_ne hsilent _) ?_ ?_
  all_goals rw [hgo, hgo, subscribers_amid, Entries.lookup_put, if_neg hne]
  all_goals cases w.subscribers.lookup other
  all_goals simp only [Option.elim, hview]
  · exact htwins
  · exact put made akin hne _

include made akin holds in
theorem parallel_next (other : String) : Parallel name kin w
    (w.amid w.dropped (Entries.put name { s with subscription := s' } w.subscribers)) (.act (.next other)) := by
  by_cases hname : other = name
  · subst hname
    have hview := (Twins.differ made akin).view_eq holds other (x := s) s'
    refine .next (w.view other s) akin rfl ?_ ?_ fun kin' h => ?_
    · simp only [go, act, next, made]
    · simp only [go, act, next, subscribers_amid, Entries.lookup_put, if_true, hview]
    · simp only [go, act, next, made, subscribers_amid, Entries.lookup_put, if_true, hview, Entries.put_put]
      exact of_put _ _ w s h
  · refine parallel_ask made akin holds rfl hname (fun x v => .polled (x.subscription.poll v).1)
      (fun x v => { x with subscription := (x.subscription.poll v).2 }) fun w => ?_
    cases hx : w.subscribers.lookup other <;> simp only [go, act, next, hx, Option.elim, amid]

include made akin holds in
theorem parallel_drain (other : String) : Parallel name kin w
    (w.amid w.dropped (Entries.put name { s with subscription := s' } w.subscribers)) (.act (.drain other)) := by
  by_cases hname : other = name
  · subst hname
    have hview := (Twins.differ made akin).view_eq holds other (x := s) s'
    refine .drain (w.view other s) akin rfl ?_ ?_ fun kin' h => ?_
    · simp only [go, act, drain, made]
    · simp only [go, act, drain, subscribers_amid, Entries.lookup_put, if_true, hview]
    · simp only [go, act, drain, made, subscribers_amid, Entries.lookup_put, if_true, hview, Entries.put_put]
      exact of_put _ _ w s h
  · refine parallel_ask made akin holds rfl hname
      (fun x v => .drained (x.subscription.drain v drainLimit).1 (x.subscription.drain v drainLimit).2.1)
      (fun x v => { x with subscription := (x.subscription.drain v drainLimit).2.2 }) fun w => ?_
    cases hx : w.subscribers.lookup other <;> simp only [go, act, drain, hx, Option.elim, amid]

/-- **Whatever happens in a world happens in its twin**, but that the subscriptions that differ give what they
give. -/
theorem parallel {w w' : World φ σ} (h : w.Twins name kin w') (holds : ∀ s s', kin s s' → s'.holds = s.holds)
    (m : Move) : w' = w ∨ Parallel name kin w w' m := by
  cases h with
  | same => exact Or.inl rfl
  | @differ s made s' akin =>
    refine Or.inr ?_
    have hother (other : m.subscriber? = none) : Parallel name kin w
        (w.amid w.dropped (Entries.put name { s with subscription := s' } w.subscribers)) m := by
      obtain ⟨hreply, htwins⟩ := (Twins.differ made akin).of_other other
      exact .same (fun k => k.after_of_ne (by rw [other]; exact nofun) _) hreply htwins
    cases m with
    | act a =>
      cases a with
      | subscribe other topic => exact parallel_subscribe made akin other topic
      | unsubscribe other => exact parallel_unsubscribe made akin other
      | next other => exact parallel_next made akin holds other
      | drain other => exact parallel_drain made akin holds other
      | _ => exact hother rfl
    | deliver | task | forget => exact hother rfl

end Twins

end World

end WalletHub
