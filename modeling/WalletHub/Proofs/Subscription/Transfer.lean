import WalletHub.Proofs.Hub.Updates
import WalletHub.Proofs.Subscription.Asking
import WalletHub.Proofs.Transfer

/-!
# Subscriptions to one transfer

All transfers of a currency share one channel of updates, which holds only the newest, and a
subscription to one transfer passes over the updates of the others only after it has read the channel.
An update that is followed by one of another transfer before the subscription is asked is lost to it.
`Run.transfer_current_iff` says when a subscription has the transfer as it is: in every run, if the
update that it has not read is this transfer, or if it has read all of this transfer and had given it so
already; which comes to whether the newest update is one of this transfer, where no other transfer has
its hash. `overtaken_update_is_lost` is a run in which it never gives what has become of the transfer.

The equivalence is proved of a run without conditions for what the subscription has not read, and then of the
runs in which the hub is open and no delivery breaks off from the first time on at which the subscription is
asked (`attended`), and whose systems do not come with two transfers of the hash. In these, what it has read
counts for nothing: it has the transfer exactly if the newest update of the currency is one of the transfer, or
if the last item was this transfer already.

## What is proved

* `Feed.Attends.poll`, `Feed.Attends.change`, `Feed.Attends.drain_due`: a feed follows its channel, and a period
  later it has given what was due.
* `Feed.Watches.poll`, `Feed.Watches.change`: what it has shown is what the wallet had when it read all of it.
* `Run.foretold`: the updates that wait in an open hub foretell the transfer, in every run.
* `keeps_attending`, `keeps_watching`: both hold of the feed of a subscription in every run of their kind.
* `Feed.Watches.due_cases`, `Run.attended_iff`: what follows when all has settled.
* `Run.transfer_current_iff`: the two equivalences.
* `overtaken_update_is_lost`: the run in which the transfer is never shown as it is.
-/

namespace WalletHub

open MemorySystem (held updatesOf)

/-! ### The feed of one transfer -/

/-- The transfer, if it has this hash. -/
def Transfer.pass (hash : String) (t : Transfer) : Option Transfer :=
  if t.hash = hash then some t else none

/-- What a subscription to one transfer begins with: the transfer that the wallet has, or else the
newest update if it is one of this transfer. -/
def Hub.transferSeed (code hash : String) (h : Hub MemorySystem) : Option Transfer :=
  (h.handle.bind fun s => held code hash s.wallets).or
    ((h.board.updates.get code).latest.bind (Transfer.pass hash))

theorem hash_of_held {code hash : String} {ws : List Wallet} {t : Transfer} (h : held code hash ws = some t) :
    t.hash = hash := by
  obtain ⟨w, -, ht⟩ := Option.bind_eq_some_iff.mp h
  have hmem : t ∈ w.transfers.filter fun t => t.hash == hash := by
    rw [MemorySystem.filter_of_transfer? ht]
    exact List.mem_singleton.mpr rfl
  exact beq_iff_eq.mp (List.mem_filter.mp hmem).2

/-- The feed of a subscription follows the channel of updates. -/
structure Feed.Attends (code : String) (h : Hub MemorySystem) (now : Nat) (x : Heard) (f : Feed) : Prop where
  follows : f.Follows h.config.transferThrottle now (h.board.updates.get code) fun _ => True
  asked : x.asked = true → f.throttle.isSome = true

/-- The newest update, if it is one of the hash and the feed has not read it yet. -/
def Feed.due (code hash : String) (h : Hub MemorySystem) (f : Feed) : Option Transfer :=
  (f.unread (h.board.updates.get code)).bind (Transfer.pass hash)

/-- What stays true of the feed of a subscription to one transfer: it follows the channel of updates;
where it has seen all, an update of the transfer that is settled was the last item; and where it has
not seen all, such an update is the transfer itself. -/
structure Feed.Watches (code hash : String) (h : Hub MemorySystem) (now : Nat) (x : Heard) (f : Feed) :
    Prop where
  follows : f.Follows h.config.transferThrottle now (h.board.updates.get code) fun u =>
    u.hash = hash → ∀ t, h.Settled code hash t → x.items.getLast? = some (.transfer t)
  asked : x.asked = true → f.throttle.isSome = true
  ahead : ∀ throttle, f.throttle = some throttle → ¬throttle.CaughtUp (h.board.updates.get code) →
    ∀ u, (h.board.updates.get code).latest = some u → u.hash = hash → ∀ t, h.Settled code hash t → u = t

namespace Feed

variable {code hash : String} {h h' : Hub MemorySystem} {cause : Hub.Cause} {now now' : Nat} {x : Heard}
  {f : Feed} {v : View}

theorem pollTransfer_of (hv : v.Of h now) (code hash : String) (f : Feed) :
    f.pollTransfer code hash v =
      ((f.poll now true (h.board.updates.get code) (h.transferSeed code hash)).1.pick true (Transfer.pass hash),
        (f.poll now true (h.board.updates.get code) (h.transferSeed code hash)).2) := by
  have hlive : ((v.wallet? code).bind fun w => w.transfer? hash) =
      h.handle.bind fun s => held code hash s.wallets := by
    rw [View.wallet?, hv.live]
    cases h.handle <;> rfl
  simp only [pollTransfer, hv.alive_eq, hv.now, hv.board, hlive]
  rfl

namespace Attends

theorem poll (hash : String) (ha : f.Attends code h now x) (hv : v.Of h now) :
    (f.pollTransfer code hash v).2.Attends code h now
      (x.hear ((f.pollTransfer code hash v).1.item?.map Item.transfer).toList) := by
  rw [pollTransfer_of hv]
  refine ⟨ha.follows.poll true _ ?_ ?_ ?_, fun _ => isSome_poll _ _ _ _ _⟩
  · exact fun _ _ _ => trivial
  · exact fun _ _ _ => trivial
  · exact fun _ _ _ _ _ _ => trivial

theorem change (ha : f.Attends code h now x) (hc : h.Change cause h') : f.Attends code h' now x := by
  refine ⟨?_, ha.asked⟩
  rw [Hub.config_of_change hc]
  exact ha.follows.grown (Hub.grown_updates code hc)

/-- **A period later asking comes to an end**, and what was due has come. -/
theorem drain_due (hash : String) (ha : f.Attends code h now x) (hasked : x.asked = true)
    (hnow : now + h.config.transferThrottle ≤ now') (hv : v.Of h now') (count : Nat) :
    ∃ s', (Subscription.transfer code hash f).drain v (count + 2) =
      (((f.due code hash h).map Item.transfer).toList, some .pending, s') := by
  obtain ⟨throttle, hthrottle⟩ := Option.isSome_iff_exists.mp (ha.asked hasked)
  obtain ⟨hitem, next, hnext, hcaught⟩ := ha.follows.poll_due hthrottle hnow true (h.transferSeed code hash)
  have hfirst : (f.pollTransfer code hash v).1.item? = f.due code hash h := by
    rw [pollTransfer_of hv, Poll.item?_pick, hitem]
    rfl
  have hended : (f.pollTransfer code hash v).1 ≠ .ended := by
    rw [pollTransfer_of hv]
    exact Poll.pick_ne_ended (poll_ne_ended _ _ _ _) _
  have hrest : Subscription.poll v (.transfer code hash (f.pollTransfer code hash v).2) =
      (.pending, .transfer code hash (f.pollTransfer code hash v).2) := by
    rw [pollTransfer_of hv, Subscription.poll, pollTransfer_of hv, poll_of_throttle hnext, hcaught.poll_eq,
      ← hnext]
    rfl
  have hdrain :=
    Subscription.drain_of_rest (s := .transfer code hash f) count (Poll.map_ne_ended hended _) hrest
  rw [← hfirst, ← Poll.item?_map]
  exact ⟨_, hdrain⟩

end Attends

namespace Watches

theorem fresh (code hash : String) (h : Hub MemorySystem) (now : Nat) :
    (Feed.fresh h.config.transferThrottle).Watches code hash h now .silence :=
  ⟨.fresh _ _ _ _, nofun, nofun⟩

theorem later (hw : f.Watches code hash h now x) (hnow : now ≤ now') : f.Watches code hash h now' x :=
  ⟨hw.follows.later hnow, hw.asked, hw.ahead⟩

/-- **A poll keeps the feed watching.** At the first one the seed is the transfer that the wallet has. -/
theorem poll (hw : f.Watches code hash h now x) (hv : v.Of h now) :
    (f.pollTransfer code hash v).2.Watches code hash h now
      (x.hear ((f.pollTransfer code hash v).1.item?.map Item.transfer).toList) := by
  have hpass (t : Transfer) (ht : t.hash = hash) : Transfer.pass hash t = some t := if_pos ht
  rw [pollTransfer_of hv]
  simp only [Poll.item?_pick]
  refine ⟨hw.follows.poll true _ ?_ ?_ ?_, fun _ => isSome_poll _ _ _ _ _, ?_⟩
  · rintro hthrottle u - - t ⟨-, s, hs, -, ht⟩
    have hseed : (f.poll now true (h.board.updates.get code) (h.transferSeed code hash)).1 = .item t := by
      simp only [Feed.poll, hthrottle, Hub.transferSeed, hs, Option.bind_some, ht, Option.some_or]
    simp [hseed, Poll.item?, hpass t (hash_of_held ht), Heard.hear]
  · intro hitem u hheard hu t ht
    rw [hitem]
    simpa only [Heard.hear, Option.bind_none, Option.map_none, Option.toList_none, List.append_nil]
      using hheard hu t ht
  · intro throttle u hthrottle hbehind hlatest hitem hu t ht
    obtain rfl := hw.ahead throttle hthrottle hbehind u hlatest hu t ht
    simp [hitem, Poll.item?, hpass u hu, Heard.hear]
  · intro throttle hthrottle hbehind
    cases hold : f.throttle with
    | none =>
      have hcaught : throttle = .subscribe (h.board.updates.get code) := by
        simp only [Feed.poll, hold] at hthrottle
        split at hthrottle <;> exact (Option.some.inj hthrottle).symm
      exact absurd ⟨by rw [hcaught]; rfl, by rw [hcaught]; rfl⟩ hbehind
    | some old =>
      rw [poll_of_throttle hold] at hthrottle
      refine hw.ahead old hold fun hcaught => hbehind ?_
      rw [hcaught.poll_eq] at hthrottle
      exact Option.some.inj hthrottle ▸ hcaught

/-- Before the first poll nothing has to hold of the channel. -/
theorem of_fresh (hw : f.Watches code hash h now x) (hfresh : f.throttle = none)
    (hconfig : h'.config = h.config) : f.Watches code hash h' now x := by
  refine ⟨⟨by rw [hw.follows.paced, hconfig], ?_, ?_⟩, hw.asked, ?_⟩
  all_goals
    intro throttle hthrottle
    exact nomatch hfresh.symm.trans hthrottle

/-- **Every change of an open hub keeps the feed watching.** -/
theorem change (hw : f.Watches code hash h now x) (hf : h.Foretold code hash) (single : h.Single code hash)
    (isOpen : h.isOpen = true) (hc : h.Change cause h') : f.Watches code hash h' now x := by
  rcases Hub.updates_of_change hf single isOpen hc with ⟨u, hchannel, hsettled⟩ | ⟨hchannel, hsettled⟩
  · refine ⟨?_, hw.asked, ?_⟩
    · rw [hchannel, Hub.config_of_change hc]
      exact hw.follows.offer u
    · intro throttle _ _ u' hlatest hu t ht
      rw [hchannel, Channel.latest_offer] at hlatest
      obtain rfl := Option.some.inj hlatest
      exact hsettled t ht hu
  · refine ⟨?_, hw.asked, ?_⟩
    · rw [hchannel, Hub.config_of_change hc]
      exact hw.follows.imp fun u hheard hu t ht => hheard hu t (hsettled t ht)
    · rw [hchannel]
      exact fun throttle hthrottle hbehind u hlatest hu t ht =>
        hw.ahead throttle hthrottle hbehind u hlatest hu t (hsettled t ht)

end Watches

end Feed

/-! ### Runs -/

/-- The subscription of a name has been asked, and its hub is still there. -/
def World.Polled (name : String) (w : MemoryWorld) : Prop :=
  ∃ s, w.subscribers.lookup name = some s ∧ s.frozen = none ∧ s.subscription.holds = []

theorem World.polled_of_throttle {name code hash : String} {w : MemoryWorld} {s : Subscriber} {feed : Feed}
    {throttle : Throttle} (hs : w.subscribers.lookup name = some s) (hfrozen : s.frozen = none)
    (hfeed : s.subscription = .transfer code hash feed) (hthrottle : feed.throttle = some throttle) :
    w.Polled name := by
  refine ⟨s, hs, hfrozen, ?_⟩
  simp only [hfeed, Subscription.holds, Feed.ifFresh, hthrottle, Option.isNone_some, Bool.false_eq_true,
    if_false]

/-- Once the subscription was asked the hub is open and no delivery breaks off; and no system comes with
two transfers of the hash, or two wallets of the code. -/
def attended (name code hash : String) (w : MemoryWorld) (m : Move) (r : Reply) : Prop :=
  (w.Polled name → (∀ h, w.hub = some h → h.isOpen = true) ∧ unbroken w m r) ∧
    ∀ h h', w.hub = some h → h.handle = none → (w.move m).2.hub = some h' → h'.Single code hash

/-- In every such run there are no two such transfers, and what waits foretells the transfer. -/
theorem Run.foretold {name code hash : String} {start w : MemoryWorld} {past : Past}
    (run : Run (attended name code hash) start past w)
    (hstart : ∀ h, start.hub = some h → h.Single code hash ∧ h.Foretold code hash) :
    ∀ h, w.hub = some h → h.Single code hash ∧ h.Foretold code hash := by
  refine run.hub_invariant (fun h => h.Single code hash ∧ h.Foretold code hash) hstart ?_ ?_ ?_
  · exact fun _ => ⟨nofun, nofun⟩
  · intro w m r h h' cause hallowed hhub hhub' ⟨hsingle, hf⟩ hc
    exact ⟨hsingle.change (fun hbare => hallowed.2 h h' hhub hbare hhub') hc, hf.change hsingle hc⟩
  · intro w m r h s callback job jobs _ _ _ hkept hqueue ⟨hsingle, hf⟩
    constructor
    all_goals
      intro s' hs'
      obtain rfl := Option.some.inj hs'
    · exact hsingle s hkept
    · apply (hf s hkept).suffix
      rw [hqueue]
      exact MemorySystem.updatesOf_suffix code hash _ jobs

/-- What is kept of the feed of a subscription to one transfer holds of it in the whole run. -/
theorem Run.feed_listening {allowed : MemoryWorld → Move → Reply → Prop} {name code hash : String}
    {holds : Hub MemorySystem → Nat → Heard → Feed → Prop} {start w : MemoryWorld} {past : Past}
    (run : Run allowed start past w)
    (keeps : Keeps allowed name (.transfer code hash) fun h now s x =>
      ∃ feed, s = .transfer code hash feed ∧ holds h now x feed)
    (subscribers : start.subscribers = []) {h : Hub MemorySystem} (hub : w.hub = some h) {x : Subscriber}
    (hx : w.subscribers.lookup name = some x) (hfrozen : x.frozen = none) {feed : Feed}
    (hfeed : x.subscription = .transfer code hash feed) : holds h w.now (heard name past) feed := by
  obtain ⟨h', hhub', feed', hfeed', hholds⟩ :=
    run.listening keeps subscribers rfl x hx hfrozen (by rw [hfeed]; rfl)
  obtain rfl := Option.some.inj (hub.symm.trans hhub')
  obtain rfl : feed = feed' := by
    rw [hfeed] at hfeed'
    injection hfeed'
  exact hholds

/-- What stays true of subscriptions to one transfer in every run. -/
theorem keeps_attending (name code hash : String) :
    Keeps anyMove name (.transfer code hash)
      fun h now s x => ∃ feed, s = .transfer code hash feed ∧ feed.Attends code h now x where
  create h now := ⟨_, rfl, .fresh _ _ _ _, nofun⟩
  later := by
    rintro h now now' _ x ⟨feed, rfl, ha⟩ hnow
    exact ⟨feed, rfl, ha.follows.later hnow, ha.asked⟩
  poll := by
    rintro h now _ x v ⟨feed, rfl, ha⟩ hv
    have hpoll := ha.poll hash hv
    rw [← Poll.item?_map] at hpoll
    exact ⟨_, rfl, hpoll⟩
  change := by
    rintro w m r h h' cause s x - - - - - ⟨feed, hfeed, ha⟩ hc
    exact ⟨feed, hfeed, ha.change hc⟩
  lose := by
    rintro w m r h s sub x callback job jobs - - - - - - - - ⟨feed, hfeed, ha⟩
    exact ⟨feed, hfeed, ha.follows, ha.asked⟩

/-- What stays true of them in runs in which they are attended. -/
theorem keeps_watching (name code hash : String) :
    Keeps (fun w m r => (∀ h, w.hub = some h → h.Single code hash ∧ h.Foretold code hash) ∧
        attended name code hash w m r) name (.transfer code hash)
      fun h now s x => ∃ feed, s = .transfer code hash feed ∧ feed.Watches code hash h now x where
  create h now := ⟨_, rfl, .fresh code hash h now⟩
  later := by
    rintro h now now' _ x ⟨feed, rfl, hw⟩ hnow
    exact ⟨feed, rfl, hw.later hnow⟩
  poll := by
    rintro h now _ x v ⟨feed, rfl, hw⟩ hv
    have hpoll := hw.poll hv
    rw [← Poll.item?_map] at hpoll
    exact ⟨_, rfl, hpoll⟩
  change := by
    rintro w m r h h' cause s x ⟨hf, hattended⟩ hhub hs hfrozen - ⟨feed, hfeed, hw⟩ hc
    refine ⟨feed, hfeed, ?_⟩
    cases hthrottle : feed.throttle with
    | none => exact hw.of_fresh hthrottle (Hub.config_of_change hc)
    | some throttle =>
      have hpolled := World.polled_of_throttle hs hfrozen hfeed hthrottle
      obtain ⟨hsingle, hforetold⟩ := hf h hhub
      exact hw.change hforetold hsingle ((hattended.1 hpolled).1 h hhub) hc
  lose := by
    rintro w m r h s sub x callback job jobs ⟨-, hattended⟩ broke - hs hfrozen - - - ⟨feed, hfeed, hw⟩
    refine ⟨feed, hfeed, ?_⟩
    cases hthrottle : feed.throttle with
    | none => exact hw.of_fresh hthrottle rfl
    | some throttle =>
      have hpolled := World.polled_of_throttle hs hfrozen hfeed hthrottle
      exact absurd broke (hattended.1 hpolled).2

/-- The last item is this transfer. -/
def Transfer.Shown (t : Transfer) (last : Option Item) : Prop :=
  ∃ u, last = some (.transfer u) ∧ (u == t) = true

/-- After what was due the last item is what was due, or what it was before. -/
theorem Transfer.shown_append (t : Transfer) (items : List Item) (due : Option Transfer) :
    t.Shown (items ++ (due.map Item.transfer).toList).getLast? ↔
      match due with
      | some u => (u == t) = true
      | none => t.Shown items.getLast? := by
  cases due with
  | none => rw [Option.map_none, Option.toList_none, List.append_nil]
  | some u =>
    rw [Option.map_some, Option.toList_some, List.getLast?_append, List.getLast?_singleton, Option.some_or]
    constructor
    · rintro ⟨u', hu', heq⟩
      obtain rfl := Item.transfer.inj (Option.some.inj hu')
      exact heq
    · exact fun heq => ⟨u, rfl, heq⟩

/-- Where the feed watches, what is due is the transfer that is settled; and if nothing is due the newest
update is of another transfer, or it was the last item. -/
theorem Feed.Watches.due_cases {code hash : String} {h : Hub MemorySystem} {now : Nat} {x : Heard} {f : Feed}
    (hw : f.Watches code hash h now x) (hasked : x.asked = true) {t : Transfer} (ht : h.Settled code hash t) :
    (f.due code hash h = some t ∧ ∃ u, (h.board.updates.get code).latest = some u ∧ u.hash = hash) ∨
      f.due code hash h = none ∧
        ((∃ u, (h.board.updates.get code).latest = some u ∧ u.hash = hash) → t.Shown x.items.getLast?) := by
  obtain ⟨throttle, hthrottle⟩ := Option.isSome_iff_exists.mp (hw.asked hasked)
  rw [due, unread_of_throttle hthrottle]
  by_cases hcaught : throttle.CaughtUp (h.board.updates.get code)
  · rw [if_pos hcaught]
    refine Or.inr ⟨rfl, ?_⟩
    rintro ⟨u, hlatest, hu⟩
    exact ⟨t, hw.follows.heard throttle hthrottle hcaught u hlatest hu t ht, Transfer.beq_refl t⟩
  · rw [if_neg hcaught]
    cases hlatest : (h.board.updates.get code).latest with
    | none => exact Or.inr ⟨rfl, fun ⟨u, hu, _⟩ => nomatch hu⟩
    | some u =>
      rw [Option.bind_some, Transfer.pass]
      by_cases hu : u.hash = hash
      · obtain rfl := hw.ahead throttle hthrottle hcaught u hlatest hu t ht
        exact Or.inl ⟨if_pos hu, u, rfl, hu⟩
      · refine Or.inr ⟨if_neg hu, ?_⟩
        rintro ⟨u', hu', hhash⟩
        obtain rfl := Option.some.inj hu'
        exact absurd hhash hu

/-- Where the subscription is attended the newest update decides: it is one of the transfer that is
settled, or else the last item stays what it was. -/
theorem Run.attended_iff {start w : MemoryWorld} {name code hash : String} {past : Past}
    (run : Run (attended name code hash) start past w) (subscribers : start.subscribers = [])
    (bare : ∀ h, start.hub = some h → h.handle = none) {h : Hub MemorySystem} (hub : w.hub = some h)
    {t : Transfer} (ht : h.Settled code hash t) {x : Subscriber} (hx : w.subscribers.lookup name = some x)
    (hfrozen : x.frozen = none) {feed : Feed} (hfeed : x.subscription = .transfer code hash feed)
    (hasked : (heard name past).asked = true) :
    t.Shown ((heard name past).items ++ ((feed.due code hash h).map Item.transfer).toList).getLast? ↔
      (∃ u, (h.board.updates.get code).latest = some u ∧ u.hash = hash) ∨
        t.Shown (heard name past).items.getLast? := by
  obtain ⟨-, run'⟩ := run.strengthen
    (fun w => ∀ h, w.hub = some h → h.Single code hash ∧ h.Foretold code hash)
    (fun h hh => ⟨fun s hs => absurd hs (by rw [bare h hh]; exact nofun),
      fun s hs => absurd hs (by rw [bare h hh]; exact nofun)⟩)
    fun w m r w' hf hallowed hmove => by
      have hnext : Run (attended name code hash) w [(m, r)] w' := Run.start.move hmove hallowed
      exact hnext.foretold hf
  have hwatches := run'.feed_listening (keeps_watching name code hash) subscribers hub hx hfrozen hfeed
  rw [Transfer.shown_append]
  rcases hwatches.due_cases hasked ht with ⟨hdue, hnewest⟩ | ⟨hdue, hshown⟩
  · rw [hdue]
    exact ⟨fun _ => Or.inl hnewest, fun _ => Transfer.beq_refl t⟩
  · rw [hdue]
    exact ⟨Or.inr, fun hcurrent => hcurrent.elim hshown id⟩

/-- **When a subscription to one transfer has it as it is.** In every run, where all was delivered to the open hub
and the time between two items has passed: exactly if the update of the hash that it has not read is this transfer,
or there is none and the last item was this transfer already. If the run was `attended`, exactly if the newest
update of the currency is one of the hash, or the last item was this transfer already. -/
theorem Run.transfer_current_iff {config : Config} {factory : MemoryFactory} {disk : Disk} {wall : Instant}
    {enabled : List String} {withHub : Bool} {name code hash : String} {past : Past} {w : MemoryWorld}
    (run : Run anyMove (.start config factory disk wall enabled withHub) past w)
    (settled : w.waiting = 0) {h : Hub MemorySystem} (hub : w.hub = some h) (isOpen : h.isOpen = true)
    {s : MemorySystem} (kept : h.handle = some s) {t : Transfer} (ht : held code hash s.wallets = some t)
    {x : Subscriber} (hx : w.subscribers.lookup name = some x) (hfrozen : x.frozen = none) {feed : Feed}
    (hfeed : x.subscription = .transfer code hash feed) (hasked : (heard name past).asked = true) {ms : Nat}
    (hms : h.config.transferThrottle ≤ ms) :
    ∃ items,
      (World.move (w.move (.act (.advance ms))).2 (.act (.drain name))).1 = .drained items (some .pending) ∧
      (t.Shown ((heard name past).items ++ items).getLast? ↔
        match feed.due code hash h with
        | some u => (u == t) = true
        | none => t.Shown (heard name past).items.getLast?) ∧
      (Run (attended name code hash) (.start config factory disk wall enabled withHub) past w →
        (t.Shown ((heard name past).items ++ items).getLast? ↔
          (∃ u, (h.board.updates.get code).latest = some u ∧ u.hash = hash) ∨
            t.Shown (heard name past).items.getLast?)) := by
  have hattends := run.feed_listening (keeps_attending name code hash) rfl hub hx hfrozen hfeed
  have hview : (World.view name x { w with now := w.now + ms }).Of h (w.now + ms) :=
    World.view_of (w := { w with now := w.now + ms }) hub hfrozen name
  obtain ⟨s', hdrain⟩ := hattends.drain_due hash hasked (Nat.add_le_add_left hms w.now) hview 18
  rw [← hfeed] at hdrain
  refine ⟨_, World.drain_later hx ms hdrain, Transfer.shown_append t _ _, ?_⟩
  intro attentive
  have hqueue := World.queue_of_waiting hub kept settled
  have hsettled : h.Settled code hash t := ⟨isOpen, s, kept, by rw [hqueue]; rfl, ht⟩
  refine attentive.attended_iff rfl ?_ hub hsettled hx hfrozen hfeed hasked
  intro h hh
  obtain rfl := World.eq_create_of_start hh
  rfl

/-- A hub whose systems have a wallet for `btc`. -/
def singleWallet : MemoryWorld :=
  .start (.ofDirectory "data") (.start [⟨"bitcoin", "btc", "Bitcoin", 8⟩]) .empty ⟨1600000000, 0⟩ [] true

/-- A subscription to one of two transfers, which was asked while the first was submitted. The first has
failed since then, and the second was submitted right after. -/
def overtaken : Past × MemoryWorld :=
  World.play singleWallet
    [.act (.openHub ⟨"alice", ⟨0, 0⟩, [1]⟩),
      .act (.command (.submitTransfer "btc" (.create "first" .zero .sent))),
      .act (.subscribe "one" (.transfer "btc" "first")), .act (.drain "one"),
      .act (.command (.changeTransfer "btc" "first" (.failed "rejected"))),
      .act (.command (.submitTransfer "btc" (.create "second" .zero .sent))),
      .deliver, .deliver, .deliver, .deliver, .deliver, .deliver, .deliver, .deliver, .deliver]

/-- The subscription is never told that the transfer has failed. -/
theorem overtaken_update_is_lost :
    ∃ s t items, overtaken.2.hub.bind Hub.handle = some s ∧ held "btc" "first" s.wallets = some t ∧
      t.state = .failed "rejected" ∧
      (World.move (overtaken.2.move (.act (.advance 300))).2 (.act (.drain "one"))).1 =
        .drained items (some .pending) ∧
      ¬t.Shown ((heard "one" overtaken.1).items ++ items).getLast? := by
  have hopen {w : MemoryWorld} {m : Move} {r : Reply} {h : Hub MemorySystem} {s : MemorySystem}
      (hub : w.hub = some h) (isOpen : h.isOpen = true) (kept : h.handle = some s) (hok : unbroken w m r) :
      attended "one" "btc" "first" w m r := by
    refine ⟨fun _ => ⟨fun h' hh' => ?_, hok⟩, fun h' _ hh' hbare _ => ?_⟩
    all_goals obtain rfl := Option.some.inj (hub.symm.trans hh')
    · exact isOpen
    · exact nomatch kept.symm.trans hbare
  have attentive : Run (attended "one" "btc" "first") singleWallet overtaken.1 overtaken.2 := by
    refine Run.play _ _ ⟨⟨fun ⟨s, hs, _⟩ => (nomatch hs), fun h h' _ _ hh' s hs => ?_⟩, ?_⟩
    · obtain rfl := Option.some.inj hh'
      obtain rfl := Option.some.inj hs
      exact ⟨by decide +kernel, by decide +kernel⟩
    refine ⟨?_, ?_, ?_, ?_, ?_, ?_, ?_, ?_, ?_, ?_, ?_, ?_, ?_, ?_, trivial⟩
    all_goals refine hopen (by rfl) (by rfl) (by rfl) ?_
    all_goals first
      | exact unbroken_act _ _ _
      | exact unbroken_ok _ _
      | exact unbroken_nothing _ _
  obtain ⟨h, s, hub, kept⟩ : ∃ h s, overtaken.2.hub = some h ∧ h.handle = some s :=
    ⟨_, _, by rfl, by rfl⟩
  have hfields : (overtaken.2.hub.map fun h => (h.isOpen, h.config.transferThrottle,
      (h.board.updates.get "btc").latest.map Transfer.hash,
      h.handle.map fun s => (held "btc" "first" s.wallets).map Transfer.state)) =
      some (true, 300, some "second", some (some (.failed "rejected"))) := by
    rfl
  rw [hub, Option.map_some, kept] at hfields
  simp only [Option.map_some, Option.some.injEq, Prod.mk.injEq] at hfields
  obtain ⟨isOpen, hthrottle, hnewest, hstate⟩ := hfields
  obtain ⟨t, ht, hfailed⟩ := Option.map_eq_some_iff.mp hstate
  obtain ⟨x, feed, hx, hfrozen, hfeed⟩ : ∃ x feed, overtaken.2.subscribers.lookup "one" = some x ∧
      x.frozen = none ∧ x.subscription = .transfer "btc" "first" feed := ⟨_, _, by rfl, by rfl, by rfl⟩
  obtain ⟨items, hdrained, -, hshown⟩ := (attentive.mono fun _ _ _ _ => trivial).transfer_current_iff (by rfl)
    hub isOpen kept ht hx hfrozen hfeed (by rfl) (Nat.le_of_eq hthrottle)
  refine ⟨s, t, items, by rw [hub, Option.bind_some, kept], ht, hfailed, hdrained, ?_⟩
  intro hcurrent
  rcases (hshown attentive).mp hcurrent with ⟨u, hu, hhash⟩ | ⟨u, hu, heq⟩
  · rw [hu, Option.map_some, hhash] at hnewest
    exact absurd hnewest (by decide)
  · have hlast : (heard "one" overtaken.1).items.getLast? =
        some (.transfer { Transfer.create "first" .zero .sent with state := .submitted }) := by
      rfl
    rw [hlast] at hu
    obtain rfl := Item.transfer.inj (Option.some.inj hu)
    obtain ⟨-, -, -, -, hsubmitted, -⟩ := (Transfer.beq_iff _ _).mp heq
    exact nomatch hsubmitted.trans hfailed

end WalletHub
