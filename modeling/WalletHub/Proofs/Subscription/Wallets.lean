import WalletHub.Proofs.Subscription.Asking
import WalletHub.Proofs.World.Attending
import WalletHub.Proofs.World.Newest

/-!
# Subscriptions to the wallets

Three kinds of subscriptions follow the channel of the wallets: those to all wallets, to their codes, and to one
wallet. They lead to the newest list that was published: a period later the last item agrees with it, as long as
no callback breaks off. Whether this is the list that the system has is another question. The task of the hub
reads the wallets at one time and publishes them at another, and in between callbacks may have published a newer
list. Then the old list stands on the channel until the next one comes.

So `Threads.wallets_converge_iff` speaks of runs in which the task takes its steps beside everything else
(`Threads`), and gives the exact condition: where nothing waits, the newest list is the one of the system unless
the channel is outdated (`Outdated`), that is, unless a task has published a list that the system had no more by
then, and nothing was published since.

## What is proved

* `Feed.Reads.poll`, `Feed.Reads.grown`: a feed reads the channel; what was given of the newest list answers to
  it.
* `Tuned.poll`, `Tuned.grown`, `Tuned.keeps`: what stays true of the three kinds of subscription, one case for
  each kind where they are polled.
* `Tuned.answered`, `Tuned.drain_due`: a period later the last item agrees with the newest list.
* `Threads.newest_settled`: where all has settled the newest list is the one of the system, exactly if the
  channel is not outdated.
* `Threads.wallets_converge_iff`: the two together.
* `old_list_stays`: a run in which the task reads too early (`readTooEarly`), and which ends with the old list.
-/

namespace WalletHub

/-! ### What is expected -/

/-- The topics that follow the channel of the wallets, and nothing else. -/
inductive Topic.OfWallets : Topic → Prop where
  | wallets : OfWallets (.wallets false)
  | codes : OfWallets .codes
  | wallet (code : String) : OfWallets (.wallet code)

theorem Topic.OfWallets.needsHub {topic : Topic} (h : topic.OfWallets) : topic.needsHub = true := by
  cases h <;> rfl

/-- The last item of a subscription agrees with a list of wallets: it has their codes, or it is the
wallet subscribed to, if there is one. -/
def Topic.Answered (ws : List Wallet) (last : Option Item) : Topic → Prop
  | .wallets _ => ∃ shown, last = some (.wallets shown) ∧ shown.map Wallet.code = ws.map Wallet.code
  | .codes => last = some (.codes (ws.map Wallet.code))
  | .wallet code => ∀ w, Wallet.find? ws code = some w → last = some (.wallet w)
  | _ => False

/-- The last item heard is a list of wallets of these codes. -/
def Heard.Ends (x : Heard) (codes : List String) : Prop :=
  ∃ shown, x.items.getLast? = some (.wallets shown) ∧ shown.map Wallet.code = codes

/-! ### Feeds of wallets -/

/-- The feed of a subscription follows the channel of the wallets, and the last item heard agrees with
the newest list where all lists have been seen. -/
structure Feed.Reads (h : Hub MemorySystem) (now : Nat) (answered : List Wallet → Option Item → Prop)
    (x : Heard) (f : Feed) : Prop where
  follows : f.Follows h.config.throttle now h.board.wallets fun ws => answered ws x.items.getLast?
  asked : x.asked = true → f.throttle.isSome = true

namespace Feed

theorem pollWallets_of {h : Hub MemorySystem} {now : Nat} {v : View} (hv : v.Of h now) (f : Feed) :
    f.pollWallets v = f.poll now true h.board.wallets (h.board.wallets.latest.or (v.live.map Prod.snd)) := by
  rw [pollWallets, hv.alive_eq, hv.now, hv.board]

theorem pollWallets_ne_ended {h : Hub MemorySystem} {now : Nat} {v : View} (hv : v.Of h now) (f : Feed) :
    (f.pollWallets v).1 ≠ .ended := by
  rw [pollWallets_of hv]
  exact poll_ne_ended _ _ _ _

namespace Reads

variable {h h' : Hub MemorySystem} {now now' : Nat} {answered answered' : List Wallet → Option Item → Prop}
  {x : Heard} {f : Feed} {v : View}

theorem fresh (h : Hub MemorySystem) (now : Nat) (answered : List Wallet → Option Item → Prop) :
    (Feed.fresh h.config.throttle).Reads h now answered .silence :=
  ⟨.fresh _ _ _ _, nofun⟩

theorem later (hr : f.Reads h now answered x) (hnow : now ≤ now') : f.Reads h now' answered x :=
  ⟨hr.follows.later hnow, hr.asked⟩

theorem grown (hr : f.Reads h now answered x) (config : h'.config = h.config)
    (grown : h.board.wallets.Grown h'.board.wallets) : f.Reads h' now answered x := by
  refine ⟨?_, hr.asked⟩
  rw [config]
  exact hr.follows.grown grown

/-- A poll keeps the feed reading if the newest list is shown as it is expected. -/
theorem poll (hr : f.Reads h now answered x) (hv : v.Of h now) (shows : List Wallet → Option Item)
    (hshows : ∀ ws, h.board.wallets.latest = some ws →
      answered ws (x.hear (shows ws).toList).items.getLast?) :
    (f.pollWallets v).2.Reads h now answered (x.hear ((f.pollWallets v).1.item?.bind shows).toList) := by
  rw [pollWallets_of hv]
  refine ⟨hr.follows.poll true _ ?_ ?_ ?_, fun _ => isSome_poll _ _ _ _ _⟩
  · intro hthrottle ws hlatest
    have hseed : (f.poll now true h.board.wallets (h.board.wallets.latest.or (v.live.map Prod.snd))).1 =
        .item ws := by
      simp only [Feed.poll, hthrottle, hlatest, Option.some_or]
    rw [hseed]
    exact hshows ws hlatest
  · intro hitem ws hanswered
    rw [hitem]
    simpa only [Heard.hear, Option.bind_none, Option.toList_none, List.append_nil] using hanswered
  · intro t ws _ _ hlatest hitem
    rw [hitem]
    exact hshows ws hlatest

/-- Where all lists have been seen a poll gives nothing. -/
theorem poll_rest (hv : v.Of h now) {t : Throttle} (hthrottle : f.throttle = some t)
    (hcaught : t.CaughtUp h.board.wallets) : f.pollWallets v = (.pending, f) := by
  rw [pollWallets_of hv, poll_of_throttle hthrottle, hcaught.poll_eq, ← hthrottle]
  rfl

/-- A period later all lists have been seen. -/
theorem poll_due (hr : f.Reads h now answered x) (hasked : x.asked = true)
    (hnow : now + h.config.throttle ≤ now') (hv : v.Of h now') :
    ∃ t, (f.pollWallets v).2.throttle = some t ∧ t.CaughtUp h.board.wallets := by
  obtain ⟨t, ht⟩ := Option.isSome_iff_exists.mp (hr.asked hasked)
  rw [pollWallets_of hv]
  exact (hr.follows.poll_due ht hnow true _).2

end Reads

end Feed

/-! ### Subscriptions that follow the wallets -/

/-- What stays true of a subscription to wallets: its feed reads the channel, and it knows what it has
given last. -/
inductive Tuned (h : Hub MemorySystem) (now : Nat) (x : Heard) : Subscription → Prop where
  | wallets {feed : Feed} {last : Option (List String)}
      (reads : feed.Reads h now (Topic.Answered · · (.wallets false)) x)
      (given : ∀ codes, last = some codes → x.Ends codes) : Tuned h now x (.wallets false feed last)
  | codes {feed : Feed} {last : Option (List String)} (reads : feed.Reads h now (Topic.Answered · · .codes) x)
      (given : ∀ codes, last = some codes → x.items.getLast? = some (.codes codes)) :
      Tuned h now x (.codes feed last)
  | wallet {code : String} {feed : Feed} (reads : feed.Reads h now (Topic.Answered · · (.wallet code)) x) :
      Tuned h now x (.wallet code feed)

namespace Subscription

/-- All lists of wallets have been seen. -/
def HasSeen (c : Channel (List Wallet)) : Subscription → Prop
  | .wallets _ feed _ | .codes feed _ | .wallet _ feed => ∃ t, feed.throttle = some t ∧ t.CaughtUp c
  | _ => False

/-! ### Polls of the three kinds -/

/-- The item that a subscription to all wallets shows of a list, if its codes are new. -/
def showWallets (last : Option (List String)) (ws : List Wallet) : Option Item :=
  if last = some (ws.map Wallet.code) then none else some (.wallets ws)

/-- The item that a subscription to the codes shows of a list, if they are new. -/
def showCodes (last : Option (List String)) (ws : List Wallet) : Option Item :=
  if last = some (ws.map Wallet.code) then none else some (.codes (ws.map Wallet.code))

/-- The wallets of a list that a subscription is about. -/
def keptWallets (v : View) : Bool → List Wallet → List Wallet
  | true, ws => Wallet.keepListed ws v.provider.ids
  | false, ws => ws

theorem poll_wallets (v : View) (enabledOnly : Bool) (feed : Feed) (last : Option (List String)) :
    (poll v (.wallets enabledOnly feed last)).1.item? =
        (feed.pollWallets v).1.item?.bind (fun ws => showWallets last (keptWallets v enabledOnly ws)) ∧
      (poll v (.wallets enabledOnly feed last)).2 = .wallets enabledOnly (feed.pollWallets v).2
        (((feed.pollWallets v).1.item?.map fun ws => (keptWallets v enabledOnly ws).map Wallet.code).or
          last) := by
  have hkept : (fun ws => if enabledOnly = true then Wallet.keepListed ws v.provider.ids else ws) =
      keptWallets v enabledOnly := by
    cases enabledOnly <;> rfl
  simp only [poll, hkept, Poll.item?_map, Poll.item?_distinct, Poll.key_distinct]
  cases (feed.pollWallets v).1.item? with
  | none => exact ⟨rfl, rfl⟩
  | some ws =>
    refine ⟨?_, rfl⟩
    simp only [Option.map_some, Option.bind_some, showWallets]
    split <;> rfl

/-- What was shown of a list, now or before, has its codes. -/
theorem ends_of_showWallets {x : Heard} {last : Option (List String)}
    (given : ∀ codes, last = some codes → x.Ends codes) (ws : List Wallet) :
    (x.hear (showWallets last ws).toList).Ends (ws.map Wallet.code) := by
  unfold showWallets
  split
  · next hlast =>
    obtain ⟨shown, hshown, hcodes⟩ := given _ hlast
    exact ⟨shown, by simpa [Heard.hear] using hshown, hcodes⟩
  · exact ⟨ws, by simp [Heard.hear], rfl⟩

/-- A subscription to wallets knows the codes of the list that it gave last. -/
theorem given_of_showWallets {x : Heard} {last : Option (List String)}
    (given : ∀ codes, last = some codes → x.Ends codes) (kept : List Wallet → List Wallet)
    (raw : Option (List Wallet)) :
    ∀ codes, (raw.map fun ws => (kept ws).map Wallet.code).or last = some codes →
      (x.hear (raw.bind fun ws => showWallets last (kept ws)).toList).Ends codes := by
  intro codes hcodes
  cases raw with
  | none => simpa [Heard.Ends, Heard.hear] using given codes hcodes
  | some ws =>
    obtain rfl := Option.some.inj hcodes
    exact ends_of_showWallets given (kept ws)

theorem poll_codes (v : View) (feed : Feed) (last : Option (List String)) :
    (poll v (.codes feed last)).1.item? = (feed.pollWallets v).1.item?.bind (showCodes last) ∧
      (poll v (.codes feed last)).2 = .codes (feed.pollWallets v).2
        (((feed.pollWallets v).1.item?.map fun ws => ws.map Wallet.code).or last) := by
  simp only [poll, Poll.item?_map, Poll.item?_distinct, Poll.key_distinct]
  cases (feed.pollWallets v).1.item? with
  | none => exact ⟨rfl, rfl⟩
  | some ws =>
    refine ⟨?_, rfl⟩
    simp only [Option.bind_some, Option.map_some, showCodes, id_eq]
    split <;> rfl

theorem poll_wallet (v : View) (code : String) (feed : Feed) :
    (poll v (.wallet code feed)).1.item? =
        (feed.pollWallets v).1.item?.bind (fun ws => (Wallet.find? ws code).map .wallet) ∧
      (poll v (.wallet code feed)).2 = .wallet code (feed.pollWallets v).2 := by
  simp only [poll, Feed.pollWallet, Poll.item?_map, Poll.item?_pick, and_true]
  cases (feed.pollWallets v).1.item? <;> rfl

section

variable {h : Hub MemorySystem} {now : Nat} {v : View}

/-- Where all has been seen a poll gives nothing. -/
theorem poll_rest {s : Subscription} (hv : v.Of h now) (hseen : s.HasSeen h.board.wallets) :
    s.poll v = (.pending, s) := by
  cases s with
  | wallets | codes | wallet =>
    obtain ⟨t, ht, hcaught⟩ := hseen
    simp only [poll, Feed.pollWallet, Feed.Reads.poll_rest hv ht hcaught]
    rfl
  | _ => cases hseen

theorem poll_wallets_ne_ended (hv : v.Of h now) (enabledOnly : Bool) (feed : Feed)
    (last : Option (List String)) : (poll v (.wallets enabledOnly feed last)).1 ≠ .ended := by
  have hpoll := feed.pollWallets_ne_ended hv
  simp only [poll, hv.alive_eq]
  exact Poll.map_ne_ended (Poll.distinct_ne_ended (Poll.map_ne_ended hpoll _) _ _ _) _

end

end Subscription

namespace Tuned

open Subscription (showCodes)

variable {h : Hub MemorySystem} {now now' : Nat} {x : Heard} {s : Subscription} {v : View}

/-- **A poll keeps the subscription tuned.** -/
theorem poll (hs : Tuned h now x s) (hv : v.Of h now) :
    Tuned h now (x.hear (s.poll v).1.item?.toList) (s.poll v).2 := by
  cases hs with
  | @wallets feed last reads given =>
    obtain ⟨hitem, hnext⟩ := Subscription.poll_wallets v false feed last
    rw [hitem, hnext]
    apply Tuned.wallets
    · exact reads.poll hv _ fun ws _ => Subscription.ends_of_showWallets given ws
    · exact Subscription.given_of_showWallets given _ _
  | @codes feed last reads given =>
    obtain ⟨hitem, hnext⟩ := Subscription.poll_codes v feed last
    rw [hitem, hnext]
    have hshown (ws : List Wallet) :
        Topic.codes.Answered ws (x.hear (showCodes last ws).toList).items.getLast? := by
      show _ = some (Item.codes (ws.map Wallet.code))
      unfold showCodes
      split
      · next hlast => simpa [Heard.hear] using given _ hlast
      · simp [Heard.hear]
    apply Tuned.codes (reads.poll hv _ fun ws _ => hshown ws)
    intro codes hcodes
    cases hraw : (feed.pollWallets v).1.item? with
    | none =>
      rw [hraw] at hcodes
      simpa [Heard.hear] using given codes hcodes
    | some ws =>
      rw [hraw] at hcodes
      obtain rfl := Option.some.inj hcodes
      exact hshown ws
  | @wallet code feed reads =>
    obtain ⟨hitem, hnext⟩ := Subscription.poll_wallet v code feed
    rw [hitem, hnext]
    refine .wallet (reads.poll hv _ ?_)
    intro ws _ w hw
    simp [hw, Heard.hear]

theorem later (hs : Tuned h now x s) (hnow : now ≤ now') : Tuned h now' x s := by
  cases hs with
  | wallets reads given => exact .wallets (reads.later hnow) given
  | codes reads given => exact .codes (reads.later hnow) given
  | wallet reads => exact .wallet (reads.later hnow)

theorem grown (hs : Tuned h now x s) {h' : Hub MemorySystem} (config : h'.config = h.config)
    (grown : h.board.wallets.Grown h'.board.wallets) : Tuned h' now x s := by
  cases hs with
  | wallets reads given => exact .wallets (reads.grown config grown) given
  | codes reads given => exact .codes (reads.grown config grown) given
  | wallet reads => exact .wallet (reads.grown config grown)

/-- What stays true of subscriptions to wallets in runs in which no callback breaks off. -/
theorem keeps (name : String) {topic : Topic} (ht : topic.OfWallets) :
    Keeps unbroken name topic fun h now s x => Tuned h now x s where
  create h now := by
    cases ht with
    | wallets => exact .wallets (.fresh h now _) nofun
    | codes => exact .codes (.fresh h now _) nofun
    | wallet code => exact .wallet (.fresh h now _)
  later hs hnow := hs.later hnow
  poll hs hv := hs.poll hv
  change _ _ _ _ _ hs hc := hs.grown (Hub.config_of_change hc) (Hub.grown_of_change hc)
  lose ok broke := absurd broke ok

/-! ### What is heard in the end -/

/-- Of what has been seen the last item tells. -/
theorem answered (hs : Tuned h now x s) (hseen : s.HasSeen h.board.wallets) {ws : List Wallet}
    (hlatest : h.board.wallets.latest = some ws) : s.topic.Answered ws x.items.getLast? := by
  cases hs with
  | wallets reads | codes reads | wallet reads =>
    obtain ⟨t, ht, hcaught⟩ := hseen
    exact reads.follows.heard t ht hcaught ws hlatest

theorem poll_due (hs : Tuned h now x s) (hasked : x.asked = true) (hnow : now + h.config.throttle ≤ now')
    (hv : v.Of h now') : (s.poll v).2.HasSeen h.board.wallets := by
  cases hs with
  | wallets reads => exact reads.poll_due hasked hnow hv
  | codes reads => exact reads.poll_due hasked hnow hv
  | wallet reads => exact reads.poll_due hasked hnow hv

theorem poll_ne_ended (hs : Tuned h now x s) (hv : v.Of h now') : (s.poll v).1 ≠ .ended := by
  cases hs with
  | wallets reads => exact Subscription.poll_wallets_ne_ended hv _ _ _
  | @codes feed last reads =>
    have hpoll := feed.pollWallets_ne_ended hv
    simp only [Subscription.poll, hv.alive_eq]
    exact Poll.map_ne_ended (Poll.distinct_ne_ended (Poll.map_ne_ended hpoll _) _ _ _) _
  | @wallet code feed reads =>
    have hpoll := feed.pollWallets_ne_ended hv
    simp only [Subscription.poll, Feed.pollWallet, hv.alive_eq]
    exact Poll.map_ne_ended (Poll.pick_ne_ended hpoll _) _

/-- A period later asking comes to an end, and what was heard then agrees with the newest list. -/
theorem drain_due (hs : Tuned h now x s) (hasked : x.asked = true) (hnow : now + h.config.throttle ≤ now')
    (hv : v.Of h now') {ws : List Wallet} (hlatest : h.board.wallets.latest = some ws) (count : Nat) :
    ∃ items s', s.drain v (count + 2) = (items, some .pending, s') ∧
      s.topic.Answered ws (x.items ++ items).getLast? := by
  have hlater := hs.later (Nat.le_trans (Nat.le_add_right now _) hnow)
  have hseen := hs.poll_due hasked hnow hv
  have hnext := hlater.poll hv
  refine ⟨_, _, Subscription.drain_of_rest count (hs.poll_ne_ended hv) (Subscription.poll_rest hv hseen), ?_⟩
  have hanswered := hnext.answered hseen hlatest
  rwa [Subscription.topic_poll] at hanswered

end Tuned

/-- Where no job waits the newest list of an open hub is the one of its system unless the channel is outdated. -/
theorem Threads.newest_settled {start w : MemoryWorld} {ticks : List Tick} {past : Past}
    (threads : Threads unbroken start ticks past w) (kept : w.dropped = start.dropped)
    (first : ∀ h, start.hub = some h → ∃ config, h = .create config) (settled : w.waiting = 0)
    {h : Hub MemorySystem} (hub : w.hub = some h) (isOpen : h.isOpen = true) :
    ∃ s ws, h.handle = some s ∧ s.queue = [] ∧ h.board.wallets.latest = some ws ∧
      (ws = s.wallets ↔ ¬start.Outdated ticks) := by
  have hclosed (h : Hub MemorySystem) (hh : start.hub = some h) : h.isOpen = false := by
    obtain ⟨config, rfl⟩ := first h hh
    rfl
  obtain ⟨s, hs, hnewest⟩ := threads.newest kept hclosed h hub isOpen
  have hqueue := World.queue_of_waiting hub hs settled
  have hsilent : ¬MemorySystem.TellWallets s.queue := by
    rintro ⟨job, hjob, -⟩
    rw [hqueue] at hjob
    exact nomatch hjob
  obtain ⟨ws, hlatest, hiff⟩ := hnewest.resolve_left hsilent
  exact ⟨s, ws, hs, hqueue, hlatest, hiff⟩

/-- **Subscriptions to the wallets lead to the newest list of the hub, and this is the one of the system unless
the channel is outdated.** In a run in which no callback breaks off, where no job waits and the hub is open, the
last item of every subscription to the wallets that was asked before, at whatever time, agrees with the newest
list as soon as the time between two items has passed. -/
theorem Threads.wallets_converge_iff {config : Config} {factory : MemoryFactory} {disk : Disk} {wall : Instant}
    {enabled : List String} {withHub : Bool} {start w : MemoryWorld} {ticks : List Tick} {past : Past}
    (started : start = .start config factory disk wall enabled withHub)
    (threads : Threads unbroken start ticks past w) (kept : w.dropped = start.dropped) (settled : w.waiting = 0)
    {h : Hub MemorySystem} (hub : w.hub = some h) (isOpen : h.isOpen = true) :
    ∃ s ws, h.handle = some s ∧ h.board.wallets.latest = some ws ∧ (ws = s.wallets ↔ ¬start.Outdated ticks) ∧
      ∀ name x, w.subscribers.lookup name = some x → x.frozen = none → (heard name past).asked = true →
        x.subscription.topic.OfWallets → ∀ ms, h.config.throttle ≤ ms →
          ∃ items,
            (World.move (w.move (.act (.advance ms))).2 (.act (.drain name))).1 =
              .drained items (some .pending) ∧
            x.subscription.topic.Answered ws ((heard name past).items ++ items).getLast? := by
  subst started
  obtain ⟨s, ws, hs, -, hlatest, hiff⟩ := threads.newest_settled kept
    (fun _ hh => ⟨config, World.eq_create_of_start hh⟩) settled hub isOpen
  refine ⟨s, ws, hs, hlatest, hiff, ?_⟩
  intro name x hx hfrozen hasked htopic ms hms
  obtain ⟨h', hhub', htuned⟩ := threads.listening (Tuned.keeps name htopic)
    (fun hs stride => hs.grown stride.config_eq stride.grown.wallets) rfl htopic.needsHub x hx hfrozen rfl
  obtain rfl := Option.some.inj (hub.symm.trans hhub')
  have hview : (World.view name x { w with now := w.now + ms }).Of h (w.now + ms) :=
    World.view_of (w := { w with now := w.now + ms }) hub hfrozen name
  obtain ⟨items, s', hdrain, hanswered⟩ :=
    htuned.drain_due hasked (Nat.add_le_add_left hms w.now) hview hlatest 18
  exact ⟨items, World.drain_later hx ms hdrain, hanswered⟩

/-- A hub with a subscription to its wallets. Its task reads the list of no wallets, and before it publishes it
a wallet is added, and all that waits is delivered. -/
def readTooEarly : List Tick :=
  [.move (.act (.openHub ⟨"alice", ⟨0, 0⟩, [1]⟩)), .move (.act (.subscribe "mine" (.wallets false))),
    .move (.act (.next "mine")), .task, .task, .task,
    .move (.act (.command (.addWallet ⟨"bitcoin", "btc", "Bitcoin", 8⟩))), .move .deliver, .move .deliver,
    .move .deliver, .move .deliver, .move .deliver, .task, .task]

/-- The task waits in the end and has nothing more to read, and the list of no wallets stays the newest. -/
theorem old_list_stays :
    ∃ h m items, (neverOpen.through readTooEarly).hub = some h ∧ h.isOpen = true ∧
      h.session = some (.following m none) ∧ (neverOpen.through readTooEarly).waiting = 0 ∧
      h.wallets.map Wallet.code = ["btc"] ∧ h.board.wallets.latest = some [] ∧
      neverOpen.Outdated readTooEarly ∧
      (World.move (World.move (neverOpen.through readTooEarly) (.act (.advance 100))).2 (.act (.drain "mine"))).1 =
        .drained items (some .pending) ∧
      ((heard "mine" (neverOpen.past readTooEarly)).items ++ items).getLast? = some (.wallets []) := by
  have possible : neverOpen.Possible unbroken readTooEarly :=
    ⟨unbroken_act _ _ _, unbroken_act _ _ _, unbroken_act _ _ _, unbroken_act _ _ _, unbroken_ok _ _,
      unbroken_ok _ _, unbroken_ok _ _, unbroken_ok _ _, unbroken_nothing _ _, trivial⟩
  have threads := Threads.through neverOpen readTooEarly possible
  obtain ⟨h, hub⟩ : ∃ h, (neverOpen.through readTooEarly).hub = some h := Option.isSome_iff_exists.mp (by rfl)
  have hfields : ((neverOpen.through readTooEarly).hub.map fun h => (h.isOpen, h.config.throttle,
      h.wallets.map Wallet.code, h.board.wallets.latest, h.session)) = some (true, 100, ["btc"], some [],
        some (.following ⟨true, some 0, some 1, some [], some ["bitcoin"], some []⟩ none)) := by
    rfl
  rw [hub, Option.map_some] at hfields
  simp only [Option.some.injEq, Prod.mk.injEq] at hfields
  obtain ⟨isOpen, hthrottle, hcodes, hnewest, hsession⟩ := hfields
  obtain ⟨s, ws, hs, hlatest, hiff, hconverge⟩ := threads.wallets_converge_iff (by rfl) (by rfl) (by rfl) hub isOpen
  obtain rfl := Option.some.inj (hlatest.symm.trans hnewest)
  have hwallets : h.wallets = s.wallets := by
    rw [Hub.wallets, hs]
    rfl
  have houtdated : neverOpen.Outdated readTooEarly := by
    apply Classical.byContradiction
    intro hcurrent
    rw [hwallets, ← hiff.mpr hcurrent] at hcodes
    exact absurd hcodes.symm (List.cons_ne_nil _ _)
  obtain ⟨x, hx, hfrozen, htopic⟩ : ∃ x, (neverOpen.through readTooEarly).subscribers.lookup "mine" = some x ∧
      x.frozen = none ∧ x.subscription.topic = .wallets false := ⟨_, by rfl, by rfl, by rfl⟩
  obtain ⟨items, hdrained, hanswered⟩ := hconverge "mine" x hx hfrozen (by rfl) (htopic ▸ .wallets) 100
    (Nat.le_of_eq hthrottle)
  rw [htopic] at hanswered
  obtain ⟨shown, hlast, hshown⟩ := hanswered
  obtain rfl := List.map_eq_nil_iff.mp hshown
  exact ⟨h, _, items, hub, isOpen, hsession, by rfl, hcodes, hnewest, houtdated, hdrained, hlast⟩

end WalletHub
