import WalletHub.Proofs.Subscription.Asking
import WalletHub.Proofs.World.Attending

/-!
# Subscriptions to progress

A subscription to the progress of a currency reads the channel from its first poll on. Where something was
published by then it begins with that; otherwise it first waits for the wallet, and all that is published in
the meantime has to wait as well. What it gives when it no longer waits is the newest published state, in
every run and whatever the systems are (`Course.sync_caught_up`); but as long as no list of wallets with the
currency comes it gives nothing at all, though states may have been published
(`unknown_wallet_keeps_progress_back`).

For `Course.sync_caught_up` the subscription was asked for an item before, and a state was published last on its
channel. After a period and asking until there is no item, the last item that it has ever given agrees with this
state; or else it has never given anything, nothing has ended, there may still be new lists of wallets, and the
newest one does not have the currency. The period is the one of the hub, as long as the hub is there.

## What is proved

* `SyncFeed.Follows.poll`: a poll keeps the feed following, whichever of its two feeds it has come from
  (`SyncFeed.follows_pollChannel`, `SyncFeed.follows_pollWallet`, `SyncFeed.follows_pollOn`).
* `Synced.poll`, `World.attends_sync`: what stays true of a subscriber to progress, in every course.
* `SyncFeed.absent_of_pending`: where a stream waits for its wallet the newest list does not have it.
* `Synced.drain_channel`, `Synced.drain_due`: what it gives a period later, when it waits for no wallet and when
  it does.
* `Course.sync_caught_up`: the two at the end of any course.
* `beginning_is_heard`, `unknown_wallet_keeps_progress_back`: an instance of each.
-/

namespace WalletHub

/-! ### States that agree -/

/-- The states are one and the same, or they compare as equal. -/
def SyncState.Agrees (s published : SyncState) : Prop := s = published ∨ s.same published = true

/-- Of a state that comes either nothing is given, since the last item compares as equal to it, or it is
given and is then the last item. -/
theorem SyncState.distinct_cases (alive : Bool) (last : Option SyncState) (s : SyncState) :
    (Poll.item s).distinct alive same id last = (.item s, some s) ∨
      ∃ i, last = some i ∧ i.same s = true ∧ (Poll.item s).distinct alive same id last = (.rest alive, last) := by
  cases last with
  | none => exact Or.inl rfl
  | some i =>
    cases hsame : i.same s with
    | false => exact Or.inl (by simp [Poll.distinct, hsame])
    | true => exact Or.inr ⟨i, rfl, hsame, by simp [Poll.distinct, hsame]⟩

/-! ### What was not seen -/

/-- What the feed has not seen yet was really published. -/
def Feed.Grounded {α : Type} (c : Channel α) (f : Feed) : Prop :=
  ∀ t, f.throttle = some t → ¬t.CaughtUp c → c.latest.isSome = true

/-- A poll leaves nothing unseen that was seen before. -/
theorem Throttle.CaughtUp.poll {α : Type} {c : Channel α} {t : Throttle} (h : t.CaughtUp c) (period now : Nat)
    (alive : Bool) : (t.poll period now alive c).2.CaughtUp c := by
  rw [h.poll_eq]
  exact h

namespace Feed.Grounded

variable {α : Type} {c c' : Channel α} {f : Feed}

theorem fresh (period : Nat) (c : Channel α) : (Feed.fresh period).Grounded c := nofun

theorem grown (h : f.Grounded c) (hgrown : c.Grown c') : f.Grounded c' := by
  cases hgrown with
  | same => exact h
  | offer => exact fun _ _ _ => rfl

theorem poll (h : f.Grounded c) (now : Nat) (alive : Bool) (seed : Option α) :
    (f.poll now alive c seed).2.Grounded c := by
  cases hthrottle : f.throttle with
  | none =>
    intro t ht hbehind
    have hsubscribed : t = .subscribe c := by
      unfold Feed.poll at ht
      rw [hthrottle] at ht
      cases seed <;> exact (Option.some.inj ht).symm
    subst hsubscribed
    exact absurd ⟨rfl, rfl⟩ hbehind
  | some t =>
    rw [poll_of_throttle hthrottle]
    intro t' ht' hbehind
    obtain rfl := Option.some.inj ht'
    exact h t hthrottle fun hcaught => hbehind (hcaught.poll _ _ _)

end Feed.Grounded

/-! ### The feed -/

namespace SyncFeed

/-- What stays true of a feed of progress: it follows the channel of its currency, and as long as it waits for
the wallet it follows the channel of the wallets, in no list of which it has seen the wallet. -/
structure Follows (code : String) (period now : Nat) (b : Board) (holds : SyncState → Prop) (s : SyncFeed) :
    Prop where
  channel : s.feed.Follows period now (b.sync.get code) holds
  wallet : ∀ wallet, s.waiting = some wallet →
    (∀ p, ¬holds p) ∧ wallet.Follows period now b.wallets fun ws => Wallet.find? ws code = none
  grounded : ∀ wallet, s.waiting = some wallet → wallet.Grounded b.wallets
  asked : ∀ wallet, s.waiting = some wallet → s.feed.throttle.isSome = true → wallet.throttle.isSome = true

variable {code : String} {period now now' : Nat} {b b' : Board} {holds holds' : SyncState → Prop} {s : SyncFeed}
  {v : View}

theorem Follows.later (h : s.Follows code period now b holds) (hnow : now ≤ now') :
    s.Follows code period now' b holds where
  channel := h.channel.later hnow
  wallet wallet hw := ⟨(h.wallet wallet hw).1, (h.wallet wallet hw).2.later hnow⟩
  grounded := h.grounded
  asked := h.asked

theorem Follows.grown (h : s.Follows code period now b holds) (hgrown : b.Grown b') :
    s.Follows code period now b' holds where
  channel := h.channel.grown (hgrown.sync code)
  wallet wallet hw := ⟨(h.wallet wallet hw).1, (h.wallet wallet hw).2.grown hgrown.wallets⟩
  grounded wallet hw := (h.grounded wallet hw).grown hgrown.wallets
  asked := h.asked

/-- What is asked of the answer of a poll, so that the feed follows with another property afterwards. -/
structure Passes (holds holds' : SyncState → Prop) (answer : Poll SyncState) : Prop where
  kept : answer.item? = none → ∀ p, holds' p ↔ holds p
  given : ∀ p, answer = .item p → holds' p

/-- An item passes if it has the property. -/
theorem Passes.of_item {p : SyncState} (h : holds' p) : Passes holds holds' (.item p) :=
  ⟨nofun, fun _ hp => Poll.item.inj hp ▸ h⟩

theorem follows_pollChannel (h : s.feed.Follows period now (b.sync.get code) holds)
    (asked : s.feed.throttle.isSome = true) (hnow : v.now = now) (hboard : v.board = b)
    (passes : Passes holds holds' (pollChannel code v s.feed).1) :
    (pollChannel code v s.feed).2.Follows code period now b holds' := by
  subst hnow hboard
  refine ⟨h.poll _ none ?_ ?_ ?_, nofun, nofun, nofun⟩
  · intro hnone
    rw [hnone] at asked
    exact nomatch asked
  · exact fun hitem p hp => (passes.kept hitem p).mpr hp
  · exact fun _ p _ _ _ hitem => passes.given p hitem

/-- A feed of wallets that waits for one goes on waiting as long as it does not see it. -/
theorem follows_pollWallet {wallet : Feed}
    (h : wallet.Follows period now b.wallets fun ws => Wallet.find? ws code = none) (hnow : v.now = now)
    (hboard : v.board = b) (unseen : (wallet.pollWallet code v).1.item? = none) :
    (wallet.pollWallet code v).2.Follows period now b.wallets fun ws => Wallet.find? ws code = none := by
  subst hnow hboard
  have hpassed (ws : List Wallet) (hws : (wallet.pollWallets v).1 = .item ws) : Wallet.find? ws code = none := by
    have hpick : (wallet.pollWallet code v).1.item? = (wallet.pollWallets v).1.item?.bind (Wallet.find? · code) :=
      Poll.item?_pick _ _ _
    rw [hws, unseen] at hpick
    exact hpick.symm
  refine h.poll _ _ ?_ (fun _ _ => id) (fun _ ws _ _ _ hitem => hpassed ws hitem)
  intro hfresh ws hlatest
  refine hpassed ws ?_
  simp only [Feed.pollWallets, Feed.poll, hfresh, hlatest, Option.some_or]

theorem follows_pollOn (channel : s.feed.Follows period now (b.sync.get code) holds)
    (waits : ∀ wallet, s.waiting = some wallet →
      (∀ p, ¬holds p) ∧ wallet.Follows period now b.wallets fun ws => Wallet.find? ws code = none)
    (grounded : ∀ wallet, s.waiting = some wallet → wallet.Grounded b.wallets)
    (asked : s.feed.throttle.isSome = true) (hnow : v.now = now) (hboard : v.board = b)
    (passes : Passes holds holds' (s.pollOn code v).1) :
    (s.pollOn code v).2.Follows code period now b holds' := by
  unfold pollOn at passes ⊢
  cases hwaiting : s.waiting with
  | none =>
    simp only [hwaiting] at passes ⊢
    exact follows_pollChannel channel asked hnow hboard passes
  | some wallet =>
    obtain ⟨hempty, hwallet⟩ := waits wallet hwaiting
    have hkept := follows_pollWallet hwallet hnow hboard (v := v)
    have hthrottle : (wallet.pollWallet code v).2.throttle.isSome = true := Feed.isSome_poll _ _ _ _ _
    have hgrounded : (wallet.pollWallet code v).2.Grounded b.wallets := by
      rw [← hboard]
      exact Feed.Grounded.poll (hboard ▸ grounded wallet hwaiting) _ _ _
    simp only [hwaiting] at passes ⊢
    generalize wallet.pollWallet code v = polled at passes hkept hthrottle hgrounded ⊢
    obtain ⟨answer, wallet'⟩ := polled
    cases answer with
    | item w => exact ⟨channel.imp fun p hp => absurd hp (hempty p), nofun, nofun, nofun⟩
    | pending =>
      refine ⟨channel.imp fun p hp => absurd hp (hempty p), ?_, ?_, ?_⟩
      · intro wallet'' hw
        obtain rfl := Option.some.inj hw
        exact ⟨fun p hp => hempty p ((passes.kept rfl p).mp hp), hkept rfl⟩
      · intro wallet'' hw
        obtain rfl := Option.some.inj hw
        exact hgrounded
      · intro wallet'' hw _
        obtain rfl := Option.some.inj hw
        exact hthrottle
    | ended => exact follows_pollChannel channel asked hnow hboard passes

theorem isSome_pollOn (code : String) (v : View) (asked : s.feed.throttle.isSome = true) :
    (s.pollOn code v).2.feed.throttle.isSome = true := by
  have hchannel : (pollChannel code v s.feed).2.feed.throttle.isSome = true :=
    Feed.isSome_poll v.now (v.alive (.sync (Currency.key code))) (v.board.sync.get code) none s.feed
  unfold pollOn
  split
  · exact hchannel
  · split
    · exact asked
    · exact asked
    · exact hchannel

theorem isSome_poll (code : String) (v : View) (s : SyncFeed) :
    (s.poll code v).2.feed.throttle.isSome = true := by
  unfold poll
  split
  · next hthrottle => exact isSome_pollOn code v (by rw [hthrottle]; rfl)
  · simp only
    split
    · rfl
    · exact isSome_pollOn code v rfl

/-- **A poll keeps the feed following.** -/
theorem Follows.poll (h : s.Follows code period now b holds) (hnow : v.now = now) (hboard : v.board = b)
    (passes : Passes holds holds' (s.poll code v).1) : (s.poll code v).2.Follows code period now b holds' := by
  unfold SyncFeed.poll at passes ⊢
  cases hthrottle : s.feed.throttle with
  | some t =>
    simp only [hthrottle] at passes ⊢
    exact follows_pollOn h.channel h.wallet h.grounded (by rw [hthrottle]; rfl) hnow hboard passes
  | none =>
    subst hboard
    have hsubscribed (holds : SyncState → Prop) (hheld : ∀ p, (v.board.sync.get code).latest = some p → holds p) :
        Feed.Follows period now (v.board.sync.get code) holds
          { s.feed with throttle := some (.subscribe (v.board.sync.get code)) } := by
      refine ⟨h.channel.paced, ?_, fun _ _ _ => hheld⟩
      intro t ht
      obtain rfl := Option.some.inj ht
      exact .subscribe period now _
    simp only [hthrottle] at passes ⊢
    cases hlatest : (v.board.sync.get code).latest with
    | some p =>
      simp only [hlatest] at passes ⊢
      refine ⟨hsubscribed holds' ?_, nofun, nofun, nofun⟩
      intro p' hp'
      obtain rfl := Option.some.inj (hlatest.symm.trans hp')
      exact passes.given p rfl
    | none =>
      simp only [hlatest] at passes ⊢
      refine follows_pollOn (hsubscribed holds ?_) h.wallet h.grounded rfl hnow rfl passes
      intro p hp
      rw [hlatest] at hp
      exact nomatch hp

end SyncFeed

/-! ### The subscription -/

/-- What stays true of a subscription to progress: its feed follows, and where all of the channel was seen the
last item agrees with the newest state. -/
structure Synced (code : String) (period now : Nat) (b : Board) (feed : SyncFeed) (last : Option SyncState)
    (k : Heard) : Prop where
  follows : feed.Follows code period now b fun p => ∃ i, last = some i ∧ i.Agrees p
  given : k.items.getLast? = last.map Item.sync
  asked : k.asked = true → feed.feed.throttle.isSome = true

/-- It is such a subscription. -/
def Subscription.InSync (code : String) (period now : Nat) (b : Board) (s : Subscription) (k : Heard) : Prop :=
  ∃ feed last, s = .sync code feed last ∧ Synced code period now b feed last k

namespace Synced

variable {code : String} {period now now' : Nat} {b b' : Board} {feed : SyncFeed} {last : Option SyncState}
  {k : Heard} {v : View}

theorem fresh (code : String) (period now : Nat) (b : Board) :
    Synced code period now b (.fresh period) none .silence where
  follows := {
    channel := .fresh _ _ _ _
    wallet := by
      intro wallet hw
      obtain rfl := Option.some.inj hw
      refine ⟨?_, .fresh _ _ _ _⟩
      rintro p ⟨i, hi, -⟩
      exact nomatch hi
    grounded := by
      intro wallet hw
      obtain rfl := Option.some.inj hw
      exact .fresh _ _
    asked := nofun }
  given := rfl
  asked := nofun

theorem later (h : Synced code period now b feed last k) (hnow : now ≤ now') :
    Synced code period now' b feed last k :=
  ⟨h.follows.later hnow, h.given, h.asked⟩

theorem grown (h : Synced code period now b feed last k) (hgrown : b.Grown b') :
    Synced code period now b' feed last k :=
  ⟨h.follows.grown hgrown, h.given, h.asked⟩

/-- What a poll gives, and what it leaves. -/
theorem poll_sync (code : String) (feed : SyncFeed) (last : Option SyncState) (v : View) :
    (Subscription.sync code feed last).poll v =
      ((((feed.poll code v).1.distinct (v.alive (.sync (Currency.key code))) SyncState.same id last).1).map .sync,
        .sync code (feed.poll code v).2
          ((feed.poll code v).1.distinct (v.alive (.sync (Currency.key code))) SyncState.same id last).2) := rfl

/-- **A poll keeps all this.** -/
theorem poll (h : Synced code period now b feed last k) (hnow : v.now = now) (hboard : v.board = b) :
    ((Subscription.sync code feed last).poll v).2.InSync code period now b
      (k.hear ((Subscription.sync code feed last).poll v).1.item?.toList) := by
  have hpassed (last' : Option SyncState)
      (passes : SyncFeed.Passes (fun p => ∃ i, last = some i ∧ i.Agrees p)
        (fun p => ∃ i, last' = some i ∧ i.Agrees p) (feed.poll code v).1) :=
    h.follows.poll hnow hboard passes
  have hthrottle := SyncFeed.isSome_poll code v feed
  rw [poll_sync]
  generalize feed.poll code v = polled at hpassed hthrottle ⊢
  obtain ⟨answer, feed'⟩ := polled
  cases hitem : answer.item? with
  | none =>
    rw [Poll.distinct_of_none _ _ _ _ hitem, Poll.item?_map, hitem]
    have hfollows := hpassed last ⟨fun _ _ => Iff.rfl, fun p (hp : answer = .item p) => by
      rw [hp] at hitem
      cases hitem⟩
    refine ⟨feed', last, rfl, hfollows, ?_, fun _ => hthrottle⟩
    rw [Heard.hear, Option.map_none, Option.toList_none, List.append_nil]
    exact h.given
  | some a =>
    obtain rfl := Poll.eq_item hitem
    rcases SyncState.distinct_cases (v.alive (.sync (Currency.key code))) last a with
      hgiven | ⟨i, rfl, hsame, hdropped⟩
    · rw [hgiven]
      have hfollows := hpassed (some a) (.of_item ⟨a, rfl, Or.inl rfl⟩)
      refine ⟨feed', some a, rfl, hfollows, ?_, fun _ => hthrottle⟩
      rw [Heard.hear, Poll.map, Poll.item?, Option.toList_some, List.getLast?_concat, Option.map_some]
    · rw [hdropped, Poll.item?_map, Poll.item?_rest]
      have hfollows := hpassed (some i) (.of_item ⟨i, rfl, Or.inr hsame⟩)
      refine ⟨feed', some i, rfl, hfollows, ?_, fun _ => hthrottle⟩
      rw [Heard.hear, Option.map_none, Option.toList_none, List.append_nil]
      exact h.given

end Synced

namespace SyncFeed

variable {code : String} {s : SyncFeed} {v : View}

/-- A feed that does not wait goes on with the channel. -/
theorem poll_of_known (asked : s.feed.throttle.isSome = true) (known : s.waiting = none) :
    s.poll code v = pollChannel code v s.feed := by
  obtain ⟨t, ht⟩ := Option.isSome_iff_exists.mp asked
  simp only [SyncFeed.poll, ht, pollOn, known]

/-- A feed that has seen all of the channel has nothing to give. -/
theorem pollChannel_rest {f : Feed} {t : Throttle} (ht : f.throttle = some t)
    (caught : t.CaughtUp (v.board.sync.get code)) :
    pollChannel code v f = (.rest (v.alive (.sync (Currency.key code))), ⟨f, none⟩) := by
  rw [pollChannel, Feed.poll_of_throttle ht, caught.poll_eq, ← ht]

/-- A feed that waits asks for the wallet. -/
theorem poll_of_waiting {wallet : Feed} (asked : s.feed.throttle.isSome = true)
    (waiting : s.waiting = some wallet) : s.poll code v = match wallet.pollWallet code v with
      | (.item w, _) => (.item (.initial code w.isSyncing), ⟨s.feed, none⟩)
      | (.pending, wallet) => (.pending, ⟨s.feed, some wallet⟩)
      | (.ended, _) => pollChannel code v s.feed := by
  obtain ⟨t, ht⟩ := Option.isSome_iff_exists.mp asked
  cases hpolled : wallet.pollWallet code v with
  | mk answer wallet' => cases answer <;> simp only [SyncFeed.poll, ht, pollOn, waiting, hpolled]

/-- If a feed of wallets gives nothing a period later, but may give something yet, then the newest list does
not have the wallet and there may be another list. -/
theorem absent_of_pending {period now : Nat} {wallet : Feed} {t : Throttle} (ht : wallet.throttle = some t)
    (follows : wallet.Follows period now v.board.wallets fun ws => Wallet.find? ws code = none)
    (grounded : wallet.Grounded v.board.wallets) (hnow : now + period ≤ v.now)
    (pending : (wallet.pollWallet code v).1 = .pending) :
    v.alive .wallets = true ∧ (v.board.wallets.latest.bind fun ws => Wallet.find? ws code) = none := by
  have hpick : (wallet.pollWallet code v).1 =
      (wallet.pollWallets v).1.pick (v.alive .wallets) fun ws => Wallet.find? ws code := rfl
  have hdue : (wallet.pollWallets v).1.item? = wallet.unread v.board.wallets :=
    (follows.poll_due ht hnow _ _).1
  rw [pending] at hpick
  rw [Feed.unread_of_throttle ht] at hdue
  by_cases hcaught : t.CaughtUp v.board.wallets
  · have hrest : (wallet.pollWallets v).1 = .rest (v.alive .wallets) := by
      rw [Feed.pollWallets, Feed.poll_of_throttle ht, hcaught.poll_eq]
    refine ⟨?_, ?_⟩
    · rw [hrest] at hpick
      cases halive : v.alive .wallets with
      | true => rfl
      | false =>
        rw [halive] at hpick
        cases hpick
    · cases hlatest : v.board.wallets.latest with
      | none => rfl
      | some ws => exact follows.heard t ht hcaught ws hlatest
  · rw [if_neg hcaught] at hdue
    obtain ⟨ws, hws⟩ := Option.isSome_iff_exists.mp (grounded t ht hcaught)
    rw [hws] at hdue ⊢
    rw [Poll.eq_item hdue, Poll.pick] at hpick
    rw [Option.bind_some]
    cases hfind : Wallet.find? ws code with
    | some w =>
      rw [hfind] at hpick
      cases hpick
    | none =>
      rw [hfind] at hpick
      cases halive : v.alive .wallets with
      | true => exact ⟨rfl, rfl⟩
      | false =>
        rw [halive] at hpick
        cases hpick

end SyncFeed

/-! ### A period later -/

namespace Synced

variable {code : String} {period now : Nat} {feed : SyncFeed} {last : Option SyncState} {k : Heard} {v : View}

/-- Where the feed goes on with the channel a poll after a period gives the newest state, unless the last item
agrees with it, and there is nothing after it. -/
theorem drain_channel {b : Board} (h : Synced code period now b feed last k) (hboard : v.board = b)
    (hnow : now + period ≤ v.now) (asked : feed.feed.throttle.isSome = true)
    (goes : feed.poll code v = SyncFeed.pollChannel code v feed.feed)
    {p : SyncState} (published : (b.sync.get code).latest = some p) (count : Nat) :
    ∃ items stop s' i, (Subscription.sync code feed last).drain v (count + 2) = (items, some stop, s') ∧
      stop.item? = none ∧ (k.items ++ items).getLast? = some (.sync i) ∧ i.Agrees p := by
  subst hboard
  obtain ⟨t, ht⟩ := Option.isSome_iff_exists.mp asked
  obtain ⟨hitem, t', ht', hcaught'⟩ :=
    h.follows.channel.poll_due ht hnow (v.alive (.sync (Currency.key code))) none
  have hpoll := poll_sync code feed last v
  rw [goes] at hpoll
  generalize hchannel : SyncFeed.pollChannel code v feed.feed = polled at hpoll
  have hanswer : polled.1.item? = feed.feed.unread (v.board.sync.get code) := by rw [← hchannel]; exact hitem
  have hfeed : polled.2.feed.throttle = some t' ∧ polled.2.waiting = none := by rw [← hchannel]; exact ⟨ht', rfl⟩
  rw [Feed.unread_of_throttle ht] at hanswer
  by_cases hcaught : t.CaughtUp (v.board.sync.get code)
  · rw [if_pos hcaught] at hanswer
    obtain ⟨i, hi, hagrees⟩ := h.follows.channel.heard t ht hcaught p published
    rw [Poll.distinct_of_none _ _ _ _ hanswer] at hpoll
    have hnone : ((Subscription.sync code feed last).poll v).1.item? = none := by
      rw [hpoll, Poll.item?_map, hanswer, Option.map_none]
    refine ⟨[], _, _, i, Subscription.drain_of_none _ hnone, hnone, ?_, hagrees⟩
    rw [List.append_nil, h.given, hi, Option.map_some]
  · rw [if_neg hcaught, published] at hanswer
    rw [Poll.eq_item hanswer] at hpoll
    rcases SyncState.distinct_cases (v.alive (.sync (Currency.key code))) last p with
      hgiven | ⟨i, hi, hsame, hdropped⟩
    · rw [hgiven] at hpoll
      have hrest : (Subscription.sync code polled.2 (some p)).poll v =
          ((Poll.rest (v.alive (.sync (Currency.key code)))).map .sync, .sync code polled.2 (some p)) := by
        have hasked : polled.2.feed.throttle.isSome = true := by rw [hfeed.1]; rfl
        rw [poll_sync, SyncFeed.poll_of_known hasked hfeed.2, SyncFeed.pollChannel_rest hfeed.1 hcaught',
          Poll.distinct_of_none _ _ _ _ (Poll.item?_rest _), ← hfeed.2]
      have hnone : ((Subscription.sync code polled.2 (some p)).poll v).1.item? = none := by
        rw [hrest, Poll.item?_map, Poll.item?_rest, Option.map_none]
      have hdrain := Subscription.drain_of_item (count + 1) hpoll
      rw [Subscription.drain_of_none count hnone] at hdrain
      exact ⟨_, _, _, p, hdrain, hnone, List.getLast?_concat, Or.inl rfl⟩
    · rw [hdropped] at hpoll
      have hnone : ((Subscription.sync code feed last).poll v).1.item? = none := by
        rw [hpoll, Poll.item?_map, Poll.item?_rest, Option.map_none]
      refine ⟨[], _, _, i, Subscription.drain_of_none _ hnone, hnone, ?_, Or.inr hsame⟩
      rw [List.append_nil, h.given, hi, Option.map_some]

/-- **What a subscription gives a period later**: the newest state, or nothing at all, if it has never given
anything, the newest list of wallets does not have the currency, and there may be another list. -/
theorem drain_due {b : Board} (h : Synced code period now b feed last k) (hboard : v.board = b)
    (hnow : now + period ≤ v.now) (asked : feed.feed.throttle.isSome = true) {p : SyncState}
    (published : (b.sync.get code).latest = some p) (count : Nat) :
    ∃ items stop s', (Subscription.sync code feed last).drain v (count + 3) = (items, some stop, s') ∧
      stop.item? = none ∧ ((∃ i, (k.items ++ items).getLast? = some (.sync i) ∧ i.Agrees p) ∨
        k.items ++ items = [] ∧ stop = .pending ∧ v.alive .wallets = true ∧
          (b.wallets.latest.bind fun ws => Wallet.find? ws code) = none) := by
  have hgoes (goes : feed.poll code v = SyncFeed.pollChannel code v feed.feed) : ∃ items stop s',
      (Subscription.sync code feed last).drain v (count + 3) = (items, some stop, s') ∧ stop.item? = none ∧
        ((∃ i, (k.items ++ items).getLast? = some (.sync i) ∧ i.Agrees p) ∨
          k.items ++ items = [] ∧ stop = .pending ∧ v.alive .wallets = true ∧
            (b.wallets.latest.bind fun ws => Wallet.find? ws code) = none) := by
    obtain ⟨items, stop, s', i, hdrain, hstop, hlast, hagrees⟩ :=
      h.drain_channel hboard hnow asked goes published (count + 1)
    exact ⟨items, stop, s', hdrain, hstop, Or.inl ⟨i, hlast, hagrees⟩⟩
  cases hwaiting : feed.waiting with
  | none => exact hgoes (SyncFeed.poll_of_known asked hwaiting)
  | some wallet =>
    have hsilent : last = none := by
      cases last with
      | none => rfl
      | some i => exact absurd ⟨i, rfl, Or.inl rfl⟩ ((h.follows.wallet wallet hwaiting).1 i)
    have hitems : k.items = [] := by
      have hgiven := h.given
      rwa [hsilent, Option.map_none, List.getLast?_eq_none_iff] at hgiven
    obtain ⟨t, ht⟩ := Option.isSome_iff_exists.mp (h.follows.asked wallet hwaiting asked)
    have hpoll := poll_sync code feed last v
    have hfeed : feed.poll code v = _ := SyncFeed.poll_of_waiting asked hwaiting
    subst hboard
    have habsent := SyncFeed.absent_of_pending (v := v) ht (h.follows.wallet wallet hwaiting).2
      (h.follows.grounded wallet hwaiting) hnow
    generalize wallet.pollWallet code v = polled at hfeed habsent
    obtain ⟨answer, wallet'⟩ := polled
    cases answer with
    | ended => exact hgoes hfeed
    | pending =>
      rw [hfeed, Poll.distinct_of_none _ _ _ _ rfl] at hpoll
      have hnone : ((Subscription.sync code feed last).poll v).1.item? = none := by rw [hpoll]; rfl
      have hstop : ((Subscription.sync code feed last).poll v).1 = .pending := by rw [hpoll]; rfl
      obtain ⟨halive, hlist⟩ := habsent rfl
      refine ⟨[], _, _, Subscription.drain_of_none _ hnone, hnone, Or.inr ⟨?_, hstop, halive, hlist⟩⟩
      rw [hitems, List.append_nil]
    | item w =>
      have hseeded : Synced code period now v.board ⟨feed.feed, none⟩ (some (.initial code w.isSyncing))
          (k.hear [.sync (.initial code w.isSyncing)]) := by
        refine ⟨⟨?_, nofun, nofun, nofun⟩, ?_, fun _ => asked⟩
        · exact h.follows.channel.imp fun p hp => absurd hp ((h.follows.wallet wallet hwaiting).1 p)
        · rw [Heard.hear, List.getLast?_concat, Option.map_some]
      obtain ⟨items, stop, s', i, hdrain, hstop, hlast, hagrees⟩ :=
        hseeded.drain_channel rfl hnow asked (SyncFeed.poll_of_known asked rfl) published count
      rw [hfeed, hsilent] at hpoll
      have hfirst : (Subscription.sync code feed none).poll v = (.item (.sync (.initial code w.isSyncing)),
          .sync code ⟨feed.feed, none⟩ (some (.initial code w.isSyncing))) := hpoll
      rw [hsilent]
      refine ⟨.sync (.initial code w.isSyncing) :: items, stop, s', ?_, hstop, Or.inl ⟨i, ?_, hagrees⟩⟩
      · rw [Subscription.drain_of_item _ hfirst, hdrain]
      · rw [Heard.hear, List.append_assoc] at hlast
        exact hlast

end Synced

/-! ### Courses -/

variable {φ σ : Type} [WalletSystem σ] [SystemFactory φ σ] [Steering φ σ]

namespace World

/-- What stays true of a subscriber to the progress of a currency. -/
def Attunes (code : String) (w : World φ σ) (s : Subscriber) (k : Heard) : Prop :=
  ∃ period, s.subscription.InSync code period w.now (w.boardFor s) k ∧
    (s.frozen = none → ∃ h, w.hub = some h ∧ h.config.throttle = period)

variable {code name : String} {w w' : World φ σ} {s s' : Subscriber} {k : Heard}

omit [WalletSystem σ] [SystemFactory φ σ] [Steering φ σ] in
/-- It stays true of a subscriber that is left alone. -/
theorem Attunes.left (h : w.Attunes code s k) (leaves : w.Leaves s w' s') : w'.Attunes code s' k := by
  obtain ⟨period, ⟨feed, last, hsub, hsynced⟩, hperiod⟩ := h
  refine ⟨period, ⟨feed, last, leaves.subscription.trans hsub, (hsynced.grown leaves.grown).later leaves.now⟩,
    fun hfrozen => ?_⟩
  obtain ⟨hfrozen', hkept⟩ := leaves.kept hfrozen
  obtain ⟨h, hh, hthrottle⟩ := hperiod hfrozen'
  obtain ⟨h', hh', hconfig⟩ := hkept h hh
  exact ⟨h', hh', hconfig ▸ hthrottle⟩

omit [SystemFactory φ σ] [Steering φ σ] in
/-- It stays true of a subscriber that is asked for an item. -/
theorem Attunes.polled (h : w.Attunes code s k) (name : String) :
    w.Attunes code { s with subscription := (s.subscription.poll (w.view name s)).2 }
      (k.hear (s.subscription.poll (w.view name s)).1.item?.toList) := by
  obtain ⟨period, ⟨feed, last, hsub, hsynced⟩, hperiod⟩ := h
  obtain ⟨hboard, hnow⟩ := w.board_view name s
  have hpolled := hsynced.poll hnow hboard
  rw [← hsub] at hpolled
  exact ⟨period, hpolled, hperiod⟩

/-- **What stays true of a subscriber to progress** stays so whatever happens. -/
theorem attends_sync (name code : String) :
    World.Attends (fun _ : World φ σ => True) name (.sync code) fun w s k => w.Attunes code s k where
  create {_ h} hub := ⟨h.config.throttle, ⟨_, _, rfl, .fresh _ _ _ _⟩, fun _ => ⟨h, hub, rfl⟩⟩
  alone needs := nomatch needs
  poll _ h := h.polled name
  leave _ leaves h := h.left leaves

end World

namespace Course

variable {start w w' : World φ σ} {past : Past} {name code : String}

/-- **No subscriber to progress is left behind, unless its wallet is unknown.** In every run, over systems of
any kind, the last item that a subscription to progress has given, after a period and asking until there is no
item, agrees with the state that was published last on its channel; or else it has never given anything, and
still waits for a list of wallets with the currency. -/
theorem sync_caught_up {config : Config} {factory : φ} {disk : Disk} {wall : Instant} {enabled : List String}
    {withHub : Bool} (course : Course (.start config factory disk wall enabled withHub) past w) {s : Subscriber}
    (made : w.subscribers.lookup name = some s) (topic : s.subscription.topic = .sync code)
    (asked : (heard name past).asked = true) {p : SyncState}
    (published : ((w.view name s).board.sync.get code).latest = some p) :
    ∃ period, (s.frozen = none → ∃ h, w.hub = some h ∧ h.config.throttle = period) ∧ ∀ ms, period ≤ ms →
      ∃ items stop, ((w.go (.act (.advance ms))).2.go (.act (.drain name))).1 = .drained items (some stop) ∧
        stop.item? = none ∧
        ((∃ i, ((heard name past).items ++ items).getLast? = some (.sync i) ∧ i.Agrees p) ∨
          (heard name past).items ++ items = [] ∧ stop = .pending ∧ (w.view name s).alive .wallets = true ∧
            ((w.view name s).board.wallets.latest.bind fun ws => Wallet.find? ws code) = none) := by
  obtain ⟨period, ⟨feed, last, hsub, hsynced⟩, hperiod⟩ := course.attending (World.attends_sync name code) rfl
    (fun _ => trivial) s made topic
  refine ⟨period, hperiod, fun ms hms => ?_⟩
  obtain ⟨hboard, -⟩ := w.board_view name s
  rw [hboard] at published ⊢
  obtain ⟨hboard', hnow'⟩ := World.board_view name s { w with now := w.now + ms }
  have halive : (World.view name s { w with now := w.now + ms }).alive .wallets =
      (w.view name s).alive .wallets := by
    simp only [World.view]
    cases s.frozen with
    | some b => rfl
    | none => cases w.hub <;> rfl
  have hdue : w.now + period ≤ (World.view name s { w with now := w.now + ms }).now := by
    rw [hnow']
    exact Nat.add_le_add_left hms _
  obtain ⟨items, stop, s', hdrain, hstop, hend⟩ :=
    hsynced.drain_due hboard' hdue (hsynced.asked asked) published 17
  refine ⟨items, stop, ?_, hstop, ?_⟩
  · rw [← hsub] at hdrain
    have hmade : ({ w with now := w.now + ms } : World φ σ).subscribers.lookup name = some s := made
    show (World.act { w with now := w.now + ms } (.drain name)).1 = _
    simp only [World.act, World.drain, hmade, drainLimit, hdrain]
  · rwa [halive] at hend

end Course

/-- A subscription has been asked for an item, and then the wallet has begun to catch up. -/
def begun : Past × MemoryWorld :=
  neverOpen.play [.act (.openHub ⟨"alice", ⟨0, 0⟩, [1]⟩),
    .act (.command (.addWallet ⟨"bitcoin", "btc", "Bitcoin", 8⟩)),
    .deliver, .deliver, .deliver, .deliver, .deliver,
    .act (.subscribe "mine" (.sync "btc")), .act (.next "mine"),
    .act (.command (.setManagerState "btc" .syncing)), .deliver, .deliver]

/-- The subscription gives this after the period of the hub. -/
theorem beginning_is_heard : ∃ items stop i,
    ((begun.2.go (.act (.advance 100))).2.go (.act (.drain "mine"))).1 = .drained items (some stop) ∧
      ((heard "mine" begun.1).items ++ items).getLast? = some (.sync i) ∧ i.Agrees (.started "btc") := by
  have run : Run anyMove neverOpen begun.1 begun.2 := by
    refine Run.play _ _ ?_
    iterate 12 refine ⟨trivial, ?_⟩
    trivial
  obtain ⟨s, hs⟩ : ∃ s, begun.2.subscribers.lookup "mine" = some s :=
    Option.isSome_iff_exists.mp (by decide +kernel)
  have hfields : ((begun.2.subscribers.lookup "mine").map fun s => (s.subscription.topic, s.frozen.isSome,
      ((begun.2.view "mine" s).board.sync.get "btc").latest)) =
        some (.sync "btc", false, some (.started "btc")) := by
    decide +kernel
  rw [hs, Option.map_some] at hfields
  simp only [Option.some.injEq, Prod.mk.injEq] at hfields
  obtain ⟨htopic, hfrozen, hpublished⟩ := hfields
  have hheard : (heard "mine" begun.1).asked = true ∧ (heard "mine" begun.1).items ≠ [] := by
    decide +kernel
  have hthrottle : (begun.2.hub.map fun h => h.config.throttle) = some 100 := by rfl
  obtain ⟨period, hperiod, hcaught⟩ := run.course.sync_caught_up hs htopic hheard.1 hpublished
  obtain ⟨h, hh, rfl⟩ := hperiod (Option.isNone_iff_eq_none.mp (Option.isSome_eq_false_iff.mp hfrozen))
  rw [hh, Option.map_some] at hthrottle
  obtain ⟨items, stop, hdrained, -, ⟨i, hlast, hagrees⟩ | ⟨hnothing, -⟩⟩ :=
    hcaught 100 (Nat.le_of_eq (Option.some.inj hthrottle))
  · exact ⟨items, stop, i, hdrained, hlast, hagrees⟩
  · exact absurd (List.append_eq_nil_iff.mp hnothing).1 hheard.2

/-- A subscription has been asked for an item before the wallet was added, and the wallet was removed again
before the subscription could see it. -/
def unknown : Past × MemoryWorld :=
  neverOpen.play [.act (.openHub ⟨"alice", ⟨0, 0⟩, [1]⟩),
    .act (.subscribe "early" (.sync "btc")), .act (.next "early"),
    .act (.command (.addWallet ⟨"bitcoin", "btc", "Bitcoin", 8⟩)),
    .deliver, .deliver, .deliver, .deliver, .deliver,
    .act (.command (.setManagerState "btc" .syncing)), .deliver, .deliver,
    .act (.command (.removeWallet "btc")), .deliver, .deliver, .deliver, .deliver, .task, .task]

/-- Nothing is left to be done, and progress has been published, but a period later the subscription still
gives nothing, when another one that begins then is given the state. -/
theorem unknown_wallet_keeps_progress_back :
    unknown.2.waiting = 0 ∧ (heard "early" unknown.1).asked = true ∧ (heard "early" unknown.1).items = [] ∧
      (unknown.2.hub.map fun h => (h.isOpen, h.config.throttle, (h.board.sync.get "btc").latest)) =
        some (true, 100, some (.started "btc")) ∧
      ((unknown.2.go (.act (.advance 100))).2.go (.act (.drain "early"))).1 = .drained [] (some .pending) ∧
      ((unknown.2.go (.act (.subscribe "late" (.sync "btc")))).2.go (.act (.next "late"))).1 =
        .polled (.item (.sync (.started "btc"))) := by
  refine ⟨?_, ?_, ?_, ?_, ?_, ?_⟩ <;> rfl

end WalletHub
