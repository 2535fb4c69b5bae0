import WalletHub.Proofs.Hub.Tracking
import WalletHub.Proofs.Subscription.Wallets

/-!
# Subscriptions to the enabled wallets

A subscription to the enabled wallets looks at the enabled ids only when it is given a list of wallets, and
when the user enables or disables an id no list comes of it by itself. It is the task of the hub that
publishes one, if the tracked ids have changed. But the task and the subscription read the enabled ids at
different times. A subscription that is asked between a change of the ids and the next run of the task shows
the wallets by ids that the task has not found, and if the user takes the change back before the task runs, the
task finds nothing new, and the item stays (`early_item_stays`).

## What is proved

* `World.LastUnseen`, `World.LastUnseen.unique`: in every run there is one moment at which a subscription was last
  to read a list.
* `Subscription.rereads_poll`, `Subscription.rereads_drain`: what asking makes of a subscription. It shows those
  wallets of the newest list that are enabled, and nothing comes of it if it had read this list before.
* `World.retains_of_move`, `World.retains_of_stride`: as long as it reads nothing there is no new list, and the
  task has found nothing new.
* `Threads.recalls`: so a subscription shows what was enabled at that moment, of the list that is still the
  newest, and what the task has found is what it had found then.
* `Threads.tracked_wallets_converge_iff`: where all has settled, and the newest list is that of the system, the
  subscription shows the wallets that are enabled just if it was not misled (`World.Misled`): if at that moment the
  enabled ids and what the task had found kept the same wallets.
* `Threads.not_misled`: it is not where it was last to read a list in a settled world.
-/

namespace WalletHub

open Subscription (keptWallets)

/-! ### The last list to be seen -/

namespace World

/-- The subscription of the name has seen all lists of wallets of the hub. -/
def HasSeen (name : String) (w : MemoryWorld) : Prop :=
  ∃ h x, w.hub = some h ∧ w.subscribers.lookup name = some x ∧ x.frozen = none ∧
    x.subscription.HasSeen h.board.wallets

/-- After the ticks `before` there was a list that the subscription of the name had not seen, and after none of
the ticks that followed. -/
def LastUnseen (w : MemoryWorld) (name : String) (ticks before : List Tick) : Prop :=
  ∃ after, ticks = before ++ after ∧ ¬(w.through before).HasSeen name ∧
    ∀ more, more <+: after → more ≠ [] → (w.through (before ++ more)).HasSeen name

/-- When the subscription of the name was last to read a list, other wallets of this list were enabled than the
task of the hub had found. -/
def Misled (w : MemoryWorld) (name : String) (ticks : List Tick) : Prop :=
  ∃ before h ws found, w.LastUnseen name ticks before ∧ (w.through before).hub = some h ∧
    h.board.wallets.latest = some ws ∧ h.found? = some found ∧
    (Wallet.keepListed ws (w.through before).provider.ids).map Wallet.code ≠
      (Wallet.keepListed ws found).map Wallet.code

variable {w : MemoryWorld} {name : String} {ticks before before' : List Tick}

theorem hasSeen_iff {h : Hub MemorySystem} {x : Subscriber} (hub : w.hub = some h)
    (made : w.subscribers.lookup name = some x) (frozen : x.frozen = none) :
    w.HasSeen name ↔ x.subscription.HasSeen h.board.wallets := by
  constructor
  · rintro ⟨h₁, x₁, hh₁, hx₁, -, hseen⟩
    obtain rfl := Option.some.inj (hh₁.symm.trans hub)
    obtain rfl := Option.some.inj (hx₁.symm.trans made)
    exact hseen
  · exact fun hseen => ⟨h, x, hub, made, frozen, hseen⟩

theorem lastUnseen_self (unseen : ¬(w.through ticks).HasSeen name) : w.LastUnseen name ticks ticks :=
  ⟨[], (List.append_nil ticks).symm, unseen, fun _ hmore hne => absurd (List.prefix_nil.mp hmore) hne⟩

/-- It stays the last one as long as all is seen. -/
theorem LastUnseen.snoc {b : Tick} (h : w.LastUnseen name ticks before)
    (seen : (w.through (ticks ++ [b])).HasSeen name) : w.LastUnseen name (ticks ++ [b]) before := by
  obtain ⟨after, rfl, hunseen, hseen⟩ := h
  refine ⟨after ++ [b], List.append_assoc _ _ _, hunseen, fun more hmore hne => ?_⟩
  rcases List.prefix_concat_iff.mp hmore with rfl | hearlier
  · rwa [← List.append_assoc]
  · exact hseen more hearlier hne

/-- There is only one last list to be seen. -/
theorem LastUnseen.unique (h : w.LastUnseen name ticks before) (h' : w.LastUnseen name ticks before') :
    before = before' := by
  obtain ⟨after, hticks, hunseen, hseen⟩ := h
  obtain ⟨after', hticks', hunseen', hseen'⟩ := h'
  rcases List.append_eq_append_iff.mp (hticks.symm.trans hticks') with ⟨more, rfl, hafter⟩ | ⟨more, rfl, hafter⟩
  · by_cases hmore : more = []
    · rw [hmore, List.append_nil]
    · exact absurd (hseen more (hafter ▸ List.prefix_append _ _) hmore) hunseen'
  · by_cases hmore : more = []
    · rw [hmore, List.append_nil]
    · exact absurd (hseen' more (hafter ▸ List.prefix_append _ _) hmore) hunseen

end World

/-! ### Polls -/

/-- A feed that had not seen all and has then has given the newest list. -/
theorem Feed.item_of_seen {h : Hub MemorySystem} {now : Nat} {v : View} (hv : v.Of h now) {f : Feed} {ws : List Wallet}
    (latest : h.board.wallets.latest = some ws)
    (unseen : ¬∃ t, f.throttle = some t ∧ t.CaughtUp h.board.wallets)
    (seen : ∃ t, (f.pollWallets v).2.throttle = some t ∧ t.CaughtUp h.board.wallets) :
    (f.pollWallets v).1.item? = some ws := by
  rw [pollWallets_of hv] at seen ⊢
  cases hthrottle : f.throttle with
  | none =>
    simp only [Feed.poll, hthrottle, latest, Option.some_or]
    rfl
  | some t =>
    rw [poll_of_throttle hthrottle] at seen ⊢
    obtain ⟨t', ht', hcaught⟩ := seen
    obtain rfl := Option.some.inj ht'
    rcases Throttle.poll_cases f.period now true h.board.wallets t with ⟨a, ha, hitem, -⟩ | ⟨hnone, -⟩ | ⟨-, hback⟩
    · rw [hitem, ← latest, ha]
      rfl
    · cases hnone.symm.trans latest
    · exact absurd ⟨t, hthrottle, hback hcaught⟩ unseen

namespace Subscription

/-- The codes of the wallets that a subscription has shown last. -/
def shown? : Subscription → Option (List String)
  | .wallets _ _ last => last
  | _ => none

/-- A subscription to the enabled wallets is asked: nothing comes of it if it had seen all, and if it has seen all
only then it shows those wallets of the newest list that are enabled. -/
structure Rereads (c : Channel (List Wallet)) (ids : List String) (s s' : Subscription) : Prop where
  topic : s'.topic = s.topic
  rests : s.HasSeen c → s' = s
  shows : s.topic = .wallets true → ¬s.HasSeen c → s'.HasSeen c → ∀ ws, c.latest = some ws →
    s'.shown? = some ((Wallet.keepListed ws ids).map Wallet.code)

variable {h : Hub MemorySystem} {now : Nat} {v : View} {s : Subscription}

theorem shown_poll (hv : v.Of h now) (topic : s.topic = .wallets true) (unseen : ¬s.HasSeen h.board.wallets)
    (seen : (s.poll v).2.HasSeen h.board.wallets) {ws : List Wallet} (latest : h.board.wallets.latest = some ws) :
    (s.poll v).2.shown? = some ((Wallet.keepListed ws v.provider.ids).map Wallet.code) := by
  cases s with
  | wallets enabledOnly feed last =>
    obtain rfl : enabledOnly = true := Topic.wallets.inj topic
    obtain ⟨-, hnext⟩ := poll_wallets v true feed last
    rw [hnext] at seen ⊢
    have hitem := Feed.item_of_seen hv latest unseen seen
    rw [shown?, hitem]
    rfl
  | _ => exact nomatch topic

/-- **Asking until there is no item reads the newest list once.** -/
theorem rereads_drain (hv : v.Of h now) (s : Subscription) (count : Nat) :
    s.Rereads h.board.wallets v.provider.ids (s.drain v (count + 1)).2.2 := by
  refine keeps_drain (fun s' _ => s.Rereads h.board.wallets v.provider.ids s') ?_ count (k := .silence)
    ⟨rfl, fun _ => rfl, fun _ hunseen hseen => absurd hseen hunseen⟩
  intro s' _ hs'
  refine ⟨(topic_poll v s').trans hs'.topic, fun hseen => ?_, fun htopic hunseen hseen ws hlatest => ?_⟩
  · obtain rfl := hs'.rests hseen
    exact congrArg Prod.snd (poll_rest hv hseen)
  · by_cases hbefore : s'.HasSeen h.board.wallets
    · rw [poll_rest hv hbefore]
      exact hs'.shows htopic hunseen hbefore ws hlatest
    · exact shown_poll hv (hs'.topic.trans htopic) hbefore hseen hlatest

theorem rereads_poll (hv : v.Of h now) (s : Subscription) :
    s.Rereads h.board.wallets v.provider.ids (s.poll v).2 where
  topic := topic_poll v s
  rests hseen := congrArg Prod.snd (poll_rest hv hseen)
  shows htopic hunseen hseen _ hlatest := shown_poll hv htopic hunseen hseen hlatest

end Subscription

/-! ### What stays true of a subscription -/

/-- What stays true of a subscription to the enabled wallets: its feed follows the channel, and what it has shown
last is the last item heard. -/
inductive Tracked (h : Hub MemorySystem) (now : Nat) (k : Heard) : Subscription → Prop where
  | wallets {feed : Feed} {last : Option (List String)} (reads : feed.Reads h now (fun _ _ => True) k)
      (given : ∀ codes, last = some codes → k.Ends codes) : Tracked h now k (.wallets true feed last)

namespace Tracked

variable {h h' : Hub MemorySystem} {now now' : Nat} {k : Heard} {s : Subscription} {v : View}

theorem later (hs : Tracked h now k s) (hnow : now ≤ now') : Tracked h now' k s := by
  cases hs with
  | wallets reads given => exact .wallets (reads.later hnow) given

theorem poll (hs : Tracked h now k s) (hv : v.Of h now) :
    Tracked h now (k.hear (s.poll v).1.item?.toList) (s.poll v).2 := by
  cases hs with
  | @wallets feed last reads given =>
    obtain ⟨hitem, hnext⟩ := Subscription.poll_wallets v true feed last
    rw [hitem, hnext]
    exact .wallets (reads.poll hv _ fun _ _ => trivial) (Subscription.given_of_showWallets given _ _)

theorem grown (hs : Tracked h now k s) (config : h'.config = h.config)
    (grown : h.board.wallets.Grown h'.board.wallets) : Tracked h' now k s := by
  cases hs with
  | wallets reads given => exact .wallets (reads.grown config grown) given

theorem keeps (name : String) :
    Keeps unbroken name (.wallets true) fun h now s k => Tracked h now k s where
  create h now := .wallets (.fresh h now _) nofun
  later hs hnow := hs.later hnow
  poll hs hv := hs.poll hv
  change _ _ _ _ _ hs hc := hs.grown (Hub.config_of_change hc) (Hub.grown_of_change hc)
  lose ok broke := absurd broke ok

/-- What has been seen of a channel that has grown since is all only if nothing was published. -/
theorem eq_of_seen (hs : Tracked h now k s) (grown : h.board.wallets.Grown h'.board.wallets)
    (seen : s.HasSeen h'.board.wallets) : h'.board.wallets = h.board.wallets := by
  cases hs with
  | wallets reads =>
    obtain ⟨t, ht, -, hversion⟩ := seen
    exact grown.eq_of_version_le (hversion ▸ (reads.follows.punctual t ht).seen)

/-- A period later asking comes to an end. The last item has the codes that were shown before if all had been seen,
and else the wallets of the newest list that are enabled. -/
theorem drain_due (hs : Tracked h now k s) (asked : k.asked = true) (period : now + h.config.throttle ≤ now')
    (hv : v.Of h now') {ws : List Wallet} (latest : h.board.wallets.latest = some ws) {codes : List String}
    (seen : s.HasSeen h.board.wallets → s.shown? = some codes)
    (unseen : ¬s.HasSeen h.board.wallets → codes = (Wallet.keepListed ws v.provider.ids).map Wallet.code)
    (count : Nat) :
    ∃ items s', s.drain v (count + 2) = (items, some .pending, s') ∧
      ∃ shown, (k.items ++ items).getLast? = some (.wallets shown) ∧ shown.map Wallet.code = codes := by
  have hnext := (hs.later (Nat.le_trans (Nat.le_add_right now _) period)).poll hv
  cases hs with
  | @wallets feed last reads given =>
    have hseen : (Subscription.poll v (.wallets true feed last)).2.HasSeen h.board.wallets :=
      reads.poll_due asked period hv
    have hrereads := Subscription.rereads_poll hv (.wallets true feed last)
    have hcodes : (Subscription.poll v (.wallets true feed last)).2.shown? = some codes := by
      by_cases hbefore : (Subscription.wallets true feed last).HasSeen h.board.wallets
      · rw [hrereads.rests hbefore]
        exact seen hbefore
      · rw [unseen hbefore]
        exact hrereads.shows rfl hbefore hseen ws latest
    refine ⟨_, _, Subscription.drain_of_rest count (Subscription.poll_wallets_ne_ended hv true feed last)
      (Subscription.poll_rest hv hseen), ?_⟩
    generalize (Subscription.poll v (.wallets true feed last)).2 = s' at hnext hcodes
    cases hnext with
    | wallets reads' given' => exact given' codes hcodes

end Tracked

/-! ### One tick -/

/-- Before a tick after which the subscription of a name has seen all of the hub `h'`: the newest list was there,
the task had found what it has found now, and the subscription either had seen all, or shows those wallets of the
list that were enabled then. -/
structure World.Retains (w : MemoryWorld) (name : String) (h' : Hub MemorySystem) (s' : Subscription) : Prop where
  hub : ∃ h, w.hub = some h ∧ h'.board.wallets = h.board.wallets ∧ ∀ ids, h'.found? = some ids → h.found? = some ids
  shown : (¬w.HasSeen name ∧ ∀ ws, h'.board.wallets.latest = some ws →
      s'.shown? = some ((Wallet.keepListed ws w.provider.ids).map Wallet.code)) ∨
    ∃ x, w.subscribers.lookup name = some x ∧ x.frozen = none ∧ x.subscription = s' ∧ w.HasSeen name

section

variable {w w' : MemoryWorld} {name : String} {k : Heard} {m : Move} {r : Reply} {h h' : Hub MemorySystem}
  {x' : Subscriber}

/-- A subscription that is left alone had seen all, if it has. -/
theorem World.Retains.of_abreast (hub : w.hub = some h) (made : w.subscribers.lookup name = some x')
    (frozen : x'.frozen = none) (tracked : Tracked h w.now k x'.subscription) (abreast : h.Abreast h')
    (seen : x'.subscription.HasSeen h'.board.wallets) : w.Retains name h' x'.subscription := by
  have hsame := tracked.eq_of_seen abreast.grown seen
  have hbefore := (World.hasSeen_iff hub made frozen).mpr (hsame ▸ seen)
  exact ⟨⟨h, hub, hsame, abreast.found hsame⟩, Or.inr ⟨x', made, frozen, rfl, hbefore⟩⟩

/-- A subscription that is asked has read the newest list if it has seen all only then. -/
theorem World.Retains.of_rereads {x : Subscriber} (hub : w.hub = some h) (made : w.subscribers.lookup name = some x)
    (frozen : x.frozen = none) (topic : x.subscription.topic = .wallets true) {s' : Subscription}
    (rereads : x.subscription.Rereads h.board.wallets w.provider.ids s') (seen : s'.HasSeen h.board.wallets) :
    w.Retains name h s' := by
  refine ⟨⟨h, hub, rfl, fun _ => id⟩, ?_⟩
  have hiff := World.hasSeen_iff hub made frozen
  by_cases hbefore : x.subscription.HasSeen h.board.wallets
  · exact Or.inr ⟨x, made, frozen, (rereads.rests hbefore).symm, hiff.mpr hbefore⟩
  · exact Or.inl ⟨fun hseen => hbefore (hiff.mp hseen), rereads.shows topic hbefore seen⟩

/-- **Every move after which all has been seen retains** what was known before. Where the subscription is left alone
only the hub matters, and where it is asked the hub stays. -/
theorem World.retains_of_move (moved : w.move m = (r, w')) (tracking : ∀ x, w.scene = some x → x.Tracking)
    (attended : ∀ x, w.subscribers.lookup name = some x → x.frozen = none → x.subscription.topic = .wallets true →
      ∃ h, w.hub = some h ∧ Tracked h w.now k x.subscription)
    (hub' : w'.hub = some h') (made : w'.subscribers.lookup name = some x') (frozen : x'.frozen = none)
    (topic : x'.subscription.topic = .wallets true) (seen : x'.subscription.HasSeen h'.board.wallets) :
    w.Retains name h' x'.subscription := by
  have halone (made : w.subscribers.lookup name = some x')
      (abreast : ∀ h, w.hub = some h → h.Abreast h') : w.Retains name h' x'.subscription := by
    obtain ⟨h, hub, htracked⟩ := attended x' made frozen topic
    exact .of_abreast hub made frozen htracked (abreast h hub) seen
  have hstill (same : w'.hub = w.hub) (h : Hub MemorySystem) (hub : w.hub = some h) : h.Abreast h' := by
    obtain rfl := Option.some.inj (hub.symm.trans (same.symm.trans hub'))
    exact .refl h
  have hasked {x : Subscriber} {s' : Subscription} (same : w'.hub = w.hub) (made : w.subscribers.lookup name = some x)
      (frozen : x.frozen = none) (topic : s'.topic = .wallets true)
      (rereads : ∀ h, (w.view name x).Of h w.now →
        x.subscription.Rereads h.board.wallets (w.view name x).provider.ids s')
      (seen : s'.HasSeen h'.board.wallets) : w.Retains name h' s' := by
    have hub : w.hub = some h' := same.symm.trans hub'
    have hrereads := rereads h' (World.view_of hub frozen name)
    rw [World.provider_view] at hrereads
    exact .of_rereads hub made frozen (hrereads.topic.symm.trans topic) hrereads seen
  cases Effect.effect_move moved with
  | quiet same subscribers => exact halone (subscribers ▸ made) (hstill same)
  | @change h₁ h₂ cause hub change caused hub'' subscribers =>
    obtain rfl := Option.some.inj (hub''.symm.trans hub')
    refine halone (subscribers ▸ made) fun h hh => ?_
    obtain rfl := Option.some.inj (hub.symm.trans hh)
    exact (tracking _ (World.scene_of_hub hub)).abreast_of_change (World.scene_of_hub hub)
      (.hub (r := r) w'.tracker change caused rfl)
  | @lose h₁ s callback job jobs broke hub kept queue hub'' subscribers =>
    obtain rfl := Option.some.inj (hub''.symm.trans hub')
    refine halone (subscribers ▸ made) fun h hh => ?_
    obtain rfl := Option.some.inj (hub.symm.trans hh)
    exact .of_session rfl .same
  | drop _ _ hfrozen =>
    have hgone := hfrozen name x' made
    rw [frozen] at hgone
    exact nomatch hgone
  | make hub _ subscribers =>
    obtain ⟨h, hh, -⟩ := attended x' (subscribers ▸ made) frozen topic
    exact nomatch hub.symm.trans hh
  | @subscribe h₁ other topic' _ hub hub'' _ subscribers =>
    rw [subscribers, Entries.lookup_put] at made
    split at made
    · obtain rfl := Option.some.inj made
      obtain rfl : topic' = .wallets true := (Subscription.topic_create _ _ _).symm.trans topic
      obtain ⟨t, ht, -⟩ := seen
      exact nomatch ht
    · exact halone made (hstill (hub''.trans hub.symm))
  | subscribeAlone _ _ _ hub'' => exact nomatch hub''.symm.trans hub'
  | unsubscribe same _ subscribers =>
    rw [subscribers, Entries.lookup_drop] at made
    split at made
    · exact nomatch made
    · exact halone made (hstill same)
  | @next other x hx _ same still subscribers =>
    rw [subscribers, Entries.lookup_put] at made
    split at made
    · next hname =>
      subst hname
      obtain rfl := Option.some.inj made
      exact hasked same hx frozen topic (fun h hv => Subscription.rereads_poll hv _) seen
    · exact halone made (hstill same)
  | @drain other x hx _ same still subscribers =>
    rw [subscribers, Entries.lookup_put] at made
    split at made
    · next hname =>
      subst hname
      obtain rfl := Option.some.inj made
      exact hasked same hx frozen topic (fun h hv => Subscription.rereads_drain hv _ 19) seen
    · exact halone made (hstill same)

/-- So does every step of a task. -/
theorem World.retains_of_stride {b : Tick} (stride : w.Stride b w') (tracking : ∀ x, w.scene = some x → x.Tracking)
    (attended : ∀ x, w.subscribers.lookup name = some x → x.frozen = none → x.subscription.topic = .wallets true →
      ∃ h, w.hub = some h ∧ Tracked h w.now k x.subscription)
    (hub' : w'.hub = some h') (made : w'.subscribers.lookup name = some x') (frozen : x'.frozen = none)
    (topic : x'.subscription.topic = .wallets true) (seen : x'.subscription.HasSeen h'.board.wallets) :
    w.Retains name h' x'.subscription := by
  rcases stride.cases with ⟨hnone, rfl⟩ | ⟨h, h₁, log, hh, hstride, rfl⟩
  · exact nomatch hnone.symm.trans hub'
  · obtain rfl := Option.some.inj hub'
    obtain ⟨h₂, hh₂, htracked⟩ := attended x' made frozen topic
    obtain rfl := Option.some.inj (hh₂.symm.trans hh)
    exact .of_abreast hh made frozen htracked ((tracking _ (World.scene_of_hub hh)).abreast hstride) seen

end

/-! ### Runs -/

namespace Threads

variable {start w : MemoryWorld} {ticks : List Tick} {past : Past} {name : String} {h : Hub MemorySystem}
  {x : Subscriber}

/-- What is known of a subscription to the enabled wallets: the newest list, and what the task has found, are those
that there were when it had last not seen all; and if it has seen all it shows those wallets of the list that were
enabled then. -/
structure Recalls (start : MemoryWorld) (name : String) (ticks : List Tick) (h : Hub MemorySystem) (s : Subscription)
    (before : List Tick) : Prop where
  last : start.LastUnseen name ticks before
  hub : ∃ h₁, (start.through before).hub = some h₁ ∧ h.board.wallets = h₁.board.wallets ∧
    ∀ ids, h.found? = some ids → h₁.found? = some ids
  shown : s.HasSeen h.board.wallets → ∀ ws, h.board.wallets.latest = some ws →
    s.shown? = some ((Wallet.keepListed ws (start.through before).provider.ids).map Wallet.code)

/-- Where a list was not seen nothing has to be recalled. -/
theorem Recalls.of_unseen (hub : (start.through ticks).hub = some h)
    (made : (start.through ticks).subscribers.lookup name = some x) (frozen : x.frozen = none)
    (unseen : ¬x.subscription.HasSeen h.board.wallets) : Recalls start name ticks h x.subscription ticks where
  last := World.lastUnseen_self fun hseen => unseen ((World.hasSeen_iff hub made frozen).mp hseen)
  hub := ⟨h, hub, rfl, fun _ => id⟩
  shown hseen := absurd hseen unseen

/-- What is retained is recalled. -/
theorem Recalls.of_retains {b : Tick}
    (before : ∀ h x, (start.through ticks).hub = some h → (start.through ticks).subscribers.lookup name = some x →
      x.frozen = none → x.subscription.topic = .wallets true →
        ∃ before, Recalls start name ticks h x.subscription before)
    (hub : (start.through (ticks ++ [b])).hub = some h)
    (made : (start.through (ticks ++ [b])).subscribers.lookup name = some x) (frozen : x.frozen = none)
    (topic : x.subscription.topic = .wallets true)
    (retains : x.subscription.HasSeen h.board.wallets → (start.through ticks).Retains name h x.subscription) :
    ∃ before, Recalls start name (ticks ++ [b]) h x.subscription before := by
  by_cases hseen : x.subscription.HasSeen h.board.wallets
  · have hend := (World.hasSeen_iff hub made frozen).mpr hseen
    obtain ⟨⟨h₀, hh₀, hsame, hfound⟩, hshown⟩ := retains hseen
    rcases hshown with ⟨hunseen, hshown⟩ | ⟨x₀, hx₀, hfrozen₀, hsubscription, hseen₀⟩
    · exact ⟨ticks, (World.lastUnseen_self hunseen).snoc hend, ⟨h₀, hh₀, hsame, hfound⟩, fun _ => hshown⟩
    · obtain ⟨earlier, hlast, ⟨h₁, hh₁, hsame₁, hfound₁⟩, hshown⟩ :=
        before h₀ x₀ hh₀ hx₀ hfrozen₀ (hsubscription ▸ topic)
      refine ⟨earlier, hlast.snoc hend, ⟨h₁, hh₁, hsame.trans hsame₁, ?_⟩, ?_⟩
      · exact fun ids hids => hfound₁ ids (hfound ids hids)
      rw [hsubscription, ← hsame] at hshown
      exact hshown
  · exact ⟨_, .of_unseen hub made frozen hseen⟩

/-- Undisturbed runs are unbroken. -/
theorem unbroken_of_undisturbed (threads : Threads undisturbed start ticks past w) (calm : start.trap = none) :
    Threads unbroken start ticks past w := by
  obtain ⟨-, hcalm⟩ := threads.calm calm fun _ _ _ ok => ok.1
  exact hcalm.mono fun _ _ _ ok => ok.2.2

theorem tracked (threads : Threads undisturbed start ticks past w) (calm : start.trap = none)
    (fresh : start.subscribers = []) :
    ∀ x, w.subscribers.lookup name = some x → x.frozen = none → x.subscription.topic = .wallets true →
      ∃ h, w.hub = some h ∧ Tracked h w.now (heard name past) x.subscription :=
  (threads.unbroken_of_undisturbed calm).listening (Tracked.keeps name)
    (fun hs stride => hs.grown stride.config_eq stride.grown.wallets) fresh rfl

/-- **A subscription shows what was enabled when it was last to read a list.** -/
theorem recalls (threads : Threads undisturbed start ticks past w) (calm : start.trap = none)
    (fresh : start.subscribers = []) (first : ∀ h, start.hub = some h → ∃ config, h = .create config) :
    ∀ h x, w.hub = some h → w.subscribers.lookup name = some x → x.frozen = none →
      x.subscription.topic = .wallets true → ∃ before, Recalls start name ticks h x.subscription before := by
  induction threads with
  | start =>
    intro h x _ hx
    rw [fresh] at hx
    exact nomatch hx
  | @move ticks past w w' threads m r moved ok ih =>
    intro h x hub made frozen topic
    have hretains := World.retains_of_move ((World.go_eq_move w m).symm.trans moved) (threads.tracking calm first)
      (threads.tracked calm fresh) hub made frozen topic
    have hend := (threads.move moved ok).eq_through
    rw [threads.eq_through] at ih hretains
    exact Recalls.of_retains ih (hend ▸ hub) (hend ▸ made) frozen topic hretains
  | @stride ticks past w w' threads b taken ih =>
    intro h x hub made frozen topic
    have hretains := World.retains_of_stride taken (threads.tracking calm first) (threads.tracked calm fresh) hub made
      frozen topic
    have hend := (threads.stride taken).eq_through
    rw [threads.eq_through] at ih hretains
    exact Recalls.of_retains ih (hend ▸ hub) (hend ▸ made) frozen topic hretains

end Threads

/-- All was delivered, and the task waits and has read all. -/
def World.Settled (w : MemoryWorld) : Prop := w.waiting = 0 ∧ ∀ x, w.scene = some x → x.Quiet

/-- **A subscription that reads where all has settled is not misled**, if the newest list is the one of the system
then. -/
theorem Threads.not_misled {start w : MemoryWorld} {ticks : List Tick} {past : Past} {name : String}
    (threads : Threads undisturbed start ticks past w) (calm : start.trap = none)
    (first : ∀ h, start.hub = some h → ∃ config, h = .create config)
    (settled : ∀ before, start.LastUnseen name ticks before → (start.through before).Settled ∧
      ∀ h, (start.through before).hub = some h → h.board.wallets.latest = some h.wallets) :
    ¬start.Misled name ticks := by
  rintro ⟨before, h, ws, found, hlast, hub, hlatest, hfound, hwrong⟩
  obtain ⟨⟨hwaiting, hquiet⟩, hnewest⟩ := settled before hlast
  obtain ⟨after, rfl, -⟩ := hlast
  obtain ⟨past', hthreads⟩ := threads.exists_prefix (List.prefix_append before after)
  have htracking := hthreads.tracking calm first _ (World.scene_of_hub hub)
  cases hopen : h.isOpen with
  | false =>
    have hnone : h.session = none := htracking.rests hopen
    rw [Hub.found?, hnone] at hfound
    cases hfound
  | true =>
    obtain ⟨s, hs⟩ := Option.isSome_iff_exists.mp (htracking.holds hopen)
    have hwallets : h.wallets = s.wallets := by
      rw [Hub.wallets, hs]
      rfl
    obtain ⟨found', hfound', hkept⟩ := htracking.found_eq hopen hs (World.queue_of_waiting hub hs hwaiting)
      (hquiet _ (World.scene_of_hub hub))
    obtain rfl := Option.some.inj (hfound.symm.trans hfound')
    obtain rfl : ws = s.wallets := Option.some.inj (hlatest.symm.trans (hwallets ▸ hnewest h hub))
    exact hwrong (congrArg _ hkept.symm)

/-- **A subscription to the enabled wallets shows what was enabled when it was last to read a list, and it is right
unless it was misled.** When the time between two items has passed after an undisturbed run that has settled, the
last item of a subscription that was asked before has those wallets of the newest list that were enabled then. If
that list is the one of the system they are the ones that are enabled, unless the subscription was misled. -/
theorem Threads.tracked_wallets_converge_iff {config : Config} {factory : MemoryFactory} {disk : Disk}
    {wall : Instant} {enabled : List String} {withHub : Bool} {start w : MemoryWorld} {ticks : List Tick} {past : Past}
    (started : start = .start config factory disk wall enabled withHub)
    (threads : Threads undisturbed start ticks past w) (kept : w.dropped = start.dropped) (settled : w.Settled)
    {h : Hub MemorySystem} (hub : w.hub = some h) (isOpen : h.isOpen = true) {name : String} {x : Subscriber}
    (made : w.subscribers.lookup name = some x) (frozen : x.frozen = none)
    (topic : x.subscription.topic = .wallets true) (asked : (heard name past).asked = true) {ms : Nat}
    (period : h.config.throttle ≤ ms) :
    ∃ s ws items shown, h.handle = some s ∧ h.board.wallets.latest = some ws ∧
      (ws = s.wallets ↔ ¬start.Outdated ticks) ∧
      (World.move (w.move (.act (.advance ms))).2 (.act (.drain name))).1 = .drained items (some .pending) ∧
      ((heard name past).items ++ items).getLast? = some (.wallets shown) ∧
      (∃ before, start.LastUnseen name ticks before ∧ shown.map Wallet.code =
        (Wallet.keepListed ws (start.through before).provider.ids).map Wallet.code) ∧
      (ws = s.wallets → (shown.map Wallet.code = (Wallet.keepListed s.wallets w.provider.ids).map Wallet.code ↔
        ¬start.Misled name ticks)) := by
  have hcreated (h : Hub MemorySystem) (hh : start.hub = some h) : ∃ config, h = .create config := by
    subst started
    exact ⟨config, World.eq_create_of_start hh⟩
  have hcalm : start.trap = none := by rw [started]; rfl
  have hfresh : start.subscribers = [] := by rw [started]; rfl
  obtain ⟨hwaiting, hquiet⟩ := settled
  obtain ⟨s, ws, hs, hqueue, hlatest, hiff⟩ :=
    (threads.unbroken_of_undisturbed hcalm).newest_settled kept hcreated hwaiting hub isOpen
  obtain ⟨found, hfound, hkept⟩ := (threads.tracking hcalm hcreated _ (World.scene_of_hub hub)).found_eq isOpen hs
    hqueue (hquiet _ (World.scene_of_hub hub))
  obtain ⟨before, hlast, ⟨h₁, hh₁, hsame, hfound₁⟩, hshown⟩ := threads.recalls hcalm hfresh hcreated h x hub made
    frozen topic
  obtain ⟨h', hhub', htracked⟩ := threads.tracked hcalm hfresh x made frozen topic
  obtain rfl := Option.some.inj (hhub'.symm.trans hub)
  have hview : (World.view name x { w with now := w.now + ms }).Of h' (w.now + ms) :=
    World.view_of (w := { w with now := w.now + ms }) hub frozen name
  have hunseen (unseen : ¬x.subscription.HasSeen h'.board.wallets) :
      (Wallet.keepListed ws (start.through before).provider.ids).map Wallet.code =
        (Wallet.keepListed ws (World.view name x { w with now := w.now + ms }).provider.ids).map Wallet.code := by
    have hself : start.LastUnseen name ticks ticks := by
      apply World.lastUnseen_self
      rw [← threads.eq_through, World.hasSeen_iff hub made frozen]
      exact unseen
    rw [hlast.unique hself, World.provider_view, ← threads.eq_through]
  obtain ⟨items, s', hdrain, shown, hitem, hcodes⟩ := htracked.drain_due asked (Nat.add_le_add_left period w.now) hview
    hlatest (fun hseen => hshown hseen ws hlatest) hunseen 18
  refine ⟨s, ws, items, shown, hs, hlatest, hiff, World.drain_later made ms hdrain, hitem, ⟨before, hlast, hcodes⟩, ?_⟩
  rintro rfl
  rw [hcodes, ← hkept]
  have hfound₁ := hfound₁ found hfound
  constructor
  · rintro hright ⟨before', h₂, ws, found', hlast', hh₂, hlatest', hfound', hwrong⟩
    obtain rfl := hlast.unique hlast'
    obtain rfl := Option.some.inj (hh₁.symm.trans hh₂)
    obtain rfl := Option.some.inj (hfound₁.symm.trans hfound')
    obtain rfl := Option.some.inj (hlatest.symm.trans ((congrArg Watch.value hsame).trans hlatest'))
    exact hwrong hright
  · intro hled
    apply Classical.byContradiction
    intro hwrong
    exact hled ⟨before, h₁, s.wallets, found, hlast, hh₁, (congrArg Watch.value hsame).symm.trans hlatest, hfound₁,
      hwrong⟩

/-- A hub with a wallet and a subscription to the enabled wallets, which is asked after the wallet was enabled and
before it is disabled again. The task runs only then. -/
def askedTooEarly : List Tick :=
  [.move (.act (.openHub ⟨"alice", ⟨0, 0⟩, [1]⟩)),
    .move (.act (.command (.addWallet ⟨"bitcoin", "btc", "Bitcoin", 8⟩))), .move .deliver, .move .deliver,
    .move .deliver, .move .deliver, .move .deliver, .move .task, .move (.act (.subscribe "mine" (.wallets true))),
    .move (.act (.enable "bitcoin")), .move (.act (.next "mine")), .move (.act (.disable "bitcoin")), .move .task]

/-- The item that came then stays, although no wallet is enabled any more: the task has found no change. -/
theorem early_item_stays :
    ∃ h items shown, (neverOpen.through askedTooEarly).hub = some h ∧ h.isOpen = true ∧
      (neverOpen.through askedTooEarly).Settled ∧ (neverOpen.through askedTooEarly).provider.ids = [] ∧
      h.wallets.map Wallet.code = ["btc"] ∧ h.board.wallets.latest = some h.wallets ∧
      (World.move (World.move (neverOpen.through askedTooEarly) (.act (.advance 100))).2 (.act (.drain "mine"))).1 =
        .drained items (some .pending) ∧
      ((heard "mine" (neverOpen.past askedTooEarly)).items ++ items).getLast? = some (.wallets shown) ∧
      shown.map Wallet.code = ["btc"] ∧ neverOpen.Misled "mine" askedTooEarly := by
  have possible : neverOpen.Possible undisturbed askedTooEarly := by
    refine ⟨undisturbed_openHub ?_, ?_⟩
    · intro account h _ hub _
      obtain rfl := Option.some.inj hub
      exact Or.inl (by decide +kernel)
    iterate 11 refine ⟨undisturbed_of_harmless rfl, ?_⟩
    exact ⟨undisturbed_of_harmless rfl, trivial⟩
  have threads := Threads.through neverOpen askedTooEarly possible
  obtain ⟨h, hub⟩ : ∃ h, (neverOpen.through askedTooEarly).hub = some h := Option.isSome_iff_exists.mp (by rfl)
  have hfields : ((neverOpen.through askedTooEarly).hub.map fun h => (h.isOpen, h.config.throttle,
      h.wallets.map Wallet.code, h.session)) = some (true, 100, ["btc"],
        some (.following ⟨false, some 2, some 1, some [], some ["bitcoin"], some []⟩ none)) := by
    rfl
  have hnewest : (neverOpen.through askedTooEarly).hub.map (fun h => h.board.wallets.latest) =
      (neverOpen.through askedTooEarly).hub.map fun h => some h.wallets := by
    rfl
  rw [hub, Option.map_some, Option.map_some, Option.some.injEq] at hnewest
  rw [hub, Option.map_some] at hfields
  simp only [Option.some.injEq, Prod.mk.injEq] at hfields
  obtain ⟨isOpen, hthrottle, hcodes, hsession⟩ := hfields
  have hquiet (x : Scene) (hx : (neverOpen.through askedTooEarly).scene = some x) : x.Quiet := by
    obtain rfl := Option.some.inj ((World.scene_of_hub hub).symm.trans hx)
    refine ⟨by rw [Hub.errand?, hsession], fun m fuse hm => ?_⟩
    rw [hsession] at hm
    obtain ⟨rfl, -⟩ := Session.following.inj (Option.some.inj hm)
    exact ⟨by rfl, by rfl⟩
  obtain ⟨x, hx, hfrozen, htopic⟩ : ∃ x, (neverOpen.through askedTooEarly).subscribers.lookup "mine" = some x ∧
      x.frozen = none ∧ x.subscription.topic = .wallets true := ⟨_, by rfl, by rfl, by rfl⟩
  obtain ⟨s, ws, items, shown, hs, hlatest, -, hdrained, hlast, -, hright⟩ :=
    threads.tracked_wallets_converge_iff (by rfl) (by rfl) ⟨by rfl, hquiet⟩ hub isOpen hx hfrozen htopic (by rfl)
      (Nat.le_of_eq hthrottle)
  have hwallets : h.wallets = s.wallets := by
    rw [Hub.wallets, hs]
    rfl
  have hnothing : (World.move (World.move (neverOpen.through askedTooEarly) (.act (.advance 100))).2
      (.act (.drain "mine"))).1 = .drained [] (some .pending) := by
    rfl
  obtain rfl : items = [] := (Reply.drained.inj (hdrained.symm.trans hnothing)).1
  have hheard : (heard "mine" (neverOpen.past askedTooEarly)).Ends ["btc"] := ⟨_, by rfl, by rfl⟩
  rw [List.append_nil] at hlast
  have hshown : shown.map Wallet.code = ["btc"] := by
    obtain ⟨shown', hlast', hcodes'⟩ := hheard
    obtain rfl := Item.wallets.inj (Option.some.inj (hlast.symm.trans hlast'))
    exact hcodes'
  refine ⟨h, [], shown, hub, isOpen, ⟨by rfl, hquiet⟩, by rfl, hcodes, hnewest, hdrained,
    by rw [List.append_nil]; exact hlast, hshown, ?_⟩
  have hsame : ws = s.wallets := by
    rw [← hwallets]
    exact Option.some.inj (hlatest.symm.trans hnewest)
  apply Classical.byContradiction
  intro hled
  have hwrong := (hright hsame).mpr hled
  have hids : (neverOpen.through askedTooEarly).provider.ids = [] := by rfl
  have hnone : Wallet.keepListed s.wallets [] = [] := List.filter_eq_nil_iff.mpr fun _ _ => Bool.false_ne_true
  rw [hshown, hids, hnone] at hwrong
  exact absurd hwrong (List.cons_ne_nil _ _)

end WalletHub
