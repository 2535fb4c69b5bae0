import WalletHub.Proofs.Subscription.Sync
import WalletHub.Proofs.Subscription.Wallets

/-!
# What a stream has left

When its hub is gone a feed has only little left to give: what was published last, if it has not seen it yet.
That may be held back by its throttle, or be its seed if it was never polled (`Feed.left`). A stream of progress
may still wait for its wallet, and so has two values left at most (`SyncFeed.left`). Every poll takes the first
of what is left, or finds that it is too early, or that there is nothing left (`Feed.Sure.wanes`,
`SyncFeed.Sure.wanes`).

What a feed has left depends on the channel and the feed alone. How long it takes is another matter: a poll may
come before the period of the throttle is over, and such a poll finds nothing, but never the end, as long as
something is left.

## What is proved

* `Feed.left_of_caughtUp`, `Feed.left_of_behind`: a feed that was polled has nothing left or the newest value.
* `Feed.Sure.wanes`: a poll takes it, unless it is too early, and ends only where nothing is left and nobody
  holds the channel.
* `SyncFeed.Sure.poll`, `SyncFeed.period_poll`: both feeds of a stream of progress stay sure, with their periods.
* `SyncFeed.Sure.wanes_pollChannel`, `SyncFeed.Sure.wanes_pollOn`: what a poll takes of a stream that waits for
  no wallet, and of one that was polled before.
* `SyncFeed.Sure.wanes`: every poll, the first included.
-/

namespace WalletHub

/-! ### Feeds -/

namespace Feed

variable {α : Type}

/-- What a feed has still to give: the newest value of the channel, unless it has seen it. -/
def left (c : Channel α) (f : Feed) : Option α :=
  match f.throttle with
  | none => c.latest
  | some _ => f.unread c

theorem left_of_caughtUp {c : Channel α} {f : Feed} {t : Throttle} (ht : f.throttle = some t)
    (caught : t.CaughtUp c) : f.left c = none := by
  simp only [left, unread, ht, if_pos caught]

theorem left_of_behind {c : Channel α} {f : Feed} {t : Throttle} (ht : f.throttle = some t)
    (behind : ¬t.CaughtUp c) : f.left c = c.latest := by
  simp only [left, unread, ht, if_neg behind]

/-- The feed keeps to its period, and what it has not seen was really published. -/
structure Sure (now : Nat) (c : Channel α) (f : Feed) : Prop where
  follows : f.Follows f.period now c fun _ => True
  grounded : f.Grounded c

/-- How a poll leaves a feed on a channel on which nothing is published any more: it gives what it has left, or
it is too early for that, or there is nothing left. -/
inductive Wanes (due : Prop) (c : Channel α) (alive : Bool) (f : Feed) : Poll α × Feed → Prop where
  | item {a : α} {f' : Feed} (gives : f.left c = some a) (done : f'.left c = none) :
      Wanes due c alive f (.item a, f')
  | early {f' : Feed} (same : f'.left c = f.left c) (early : ¬due) : Wanes due c alive f (.pending, f')
  | rest {f' : Feed} (nothing : f.left c = none) (done : f'.left c = none) :
      Wanes due c alive f (.rest alive, f')

namespace Sure

variable {now now' : Nat} {c c' : Channel α} {f : Feed}

theorem fresh (period now : Nat) (c : Channel α) : (Feed.fresh period).Sure now c :=
  ⟨.fresh period now c _, .fresh period c⟩

theorem later (h : f.Sure now c) (hnow : now ≤ now') : f.Sure now' c := ⟨h.follows.later hnow, h.grounded⟩

theorem grown (h : f.Sure now c) (hgrown : c.Grown c') : f.Sure now c' :=
  ⟨h.follows.grown hgrown, h.grounded.grown hgrown⟩

end Sure

theorem period_poll (now : Nat) (alive : Bool) (c : Channel α) (seed : Option α) (f : Feed) :
    (f.poll now alive c seed).2.period = f.period := by
  unfold poll
  split
  · rfl
  · split <;> rfl

/-- A feed that is polled for the first time has seen all then. -/
theorem left_poll_of_fresh {f : Feed} (fresh : f.throttle = none) (now : Nat) (alive : Bool) (c : Channel α)
    (seed : Option α) : (f.poll now alive c seed).2.left c = none := by
  have hthrottle : (f.poll now alive c seed).2.throttle = some (.subscribe c) := by
    unfold poll
    rw [fresh]
    cases seed <;> rfl
  exact left_of_caughtUp hthrottle ⟨rfl, rfl⟩

namespace Sure

variable {now now' : Nat} {c c' : Channel α} {f : Feed}

theorem poll (h : f.Sure now c) (alive : Bool) (seed : Option α) : (f.poll now alive c seed).2.Sure now c where
  follows := by
    rw [period_poll]
    exact h.follows.poll alive seed (fun _ _ _ => trivial) (fun _ _ _ => trivial) fun _ _ _ _ _ _ => trivial
  grounded := h.grounded.poll now alive seed

/-- **A poll takes what is left, unless it is too early**, as it may be for no longer than a period. -/
theorem wanes (h : f.Sure now c) (now' : Nat) (alive : Bool) (seed : Option α)
    (first : f.throttle = none → seed = c.latest) :
    Wanes (now + f.period ≤ now') c alive f (f.poll now' alive c seed) := by
  cases hthrottle : f.throttle with
  | none =>
    obtain rfl := first hthrottle
    have hdone := left_poll_of_fresh hthrottle now' alive c c.latest
    have hleft : f.left c = c.latest := by simp only [left, hthrottle]
    unfold Feed.poll at hdone ⊢
    rw [hthrottle] at hdone ⊢
    cases hlatest : c.latest with
    | some a =>
      rw [hlatest] at hdone hleft
      exact .item hleft hdone
    | none =>
      rw [hlatest] at hdone hleft
      exact .rest hleft hdone
  | some t =>
    by_cases hcaught : t.CaughtUp c
    · have hnone := left_of_caughtUp hthrottle hcaught
      rw [poll_of_throttle hthrottle, hcaught.poll_eq]
      exact .rest hnone (left_of_caughtUp rfl hcaught)
    · obtain ⟨a, hlatest⟩ := Option.isSome_iff_exists.mp (h.grounded t hthrottle hcaught)
      have hleft : f.left c = some a := (left_of_behind hthrottle hcaught).trans hlatest
      have hemit : Throttle.emit now' c = (.item a, ⟨.idle, c.version, some now'⟩) := by
        simp only [Throttle.emit, hlatest]
      have hgiven : Wanes (now + f.period ≤ now') c alive f
          (.item a, { f with throttle := some ⟨.idle, c.version, some now'⟩ }) :=
        .item hleft (left_of_caughtUp rfl ⟨rfl, rfl⟩)
      have hearly {t' : Throttle} (behind : ¬t'.CaughtUp c) (early : ¬now + f.period ≤ now') :
          Wanes (now + f.period ≤ now') c alive f (.pending, { f with throttle := some t' }) :=
        .early ((left_of_behind rfl behind).trans (left_of_behind hthrottle hcaught).symm) early
      have hpunctual := h.follows.punctual t hthrottle
      rw [poll_of_throttle hthrottle]
      unfold Throttle.poll
      cases hphase : t.phase with
      | sleeping wake =>
        have hwake : wake ≤ now + f.period := hpunctual.wake wake hphase
        simp only
        split
        · rw [hemit]
          exact hgiven
        · next hasleep => exact hearly hcaught (by omega)
      | idle =>
        have hseen : t.seen ≠ c.version := fun hseen => hcaught ⟨hphase, hseen⟩
        simp only [hseen, if_false]
        cases hlast : t.last with
        | none =>
          rw [hemit]
          exact hgiven
        | some last =>
          have hpast : last ≤ now := hpunctual.last last hlast
          simp only
          split
          · rw [hemit]
            exact hgiven
          · next hsoon =>
            refine hearly (fun hcaught' => ?_) (by omega)
            cases hcaught'.1

end Sure

end Feed

/-! ### Streams of progress -/

/-- It is what can be seen of a board when the hub is gone. -/
structure View.Late (b : Board) (v : View) : Prop where
  board : v.board = b
  gone : v.hubAlive = false
  live : v.live = none

/-- A channel stays open as long as somebody else holds it. -/
theorem View.Late.alive_eq {b : Board} {v : View} (h : v.Late b) : v.alive = v.held.contains := by
  funext c
  rw [View.alive, h.gone, Bool.false_or]

theorem View.Late.alive_iff {b : Board} {v : View} (h : v.Late b) (c : ChannelName) :
    v.alive c = true ↔ c ∈ v.held := by
  rw [h.alive_eq, List.contains_iff_mem]

namespace SyncFeed

/-- The feed of wallets that is waited for. Where something was published before the first poll there is none. -/
def awaits (code : String) (b : Board) (s : SyncFeed) : Option Feed :=
  if s.feed.throttle.isNone && (b.sync.get code).latest.isSome then none else s.waiting

/-- What a stream of progress has still to give: the state of the wallet, if it waits for it, and then the newest
published one. -/
def left (code : String) (b : Board) (s : SyncFeed) : List SyncState :=
  (((s.awaits code b).bind fun f => (f.left b.wallets).bind fun ws => Wallet.find? ws code).map
      fun w => .initial code w.isSyncing).toList ++
    (s.feed.left (b.sync.get code)).toList

/-- Both feeds are sure. -/
structure Sure (code : String) (now : Nat) (b : Board) (s : SyncFeed) : Prop where
  channel : s.feed.Sure now (b.sync.get code)
  wallet : ∀ f, s.waiting = some f → f.Sure now b.wallets ∧ f.period = s.feed.period

/-- How a poll leaves a stream of progress when the hub is gone. As long as it waits for its wallet it may also
have to wait because somebody holds the channel of the wallets. -/
inductive Wanes (due : Prop) (code : String) (b : Board) (v : View) (s : SyncFeed) :
    Poll SyncState × SyncFeed → Prop where
  | item {p : SyncState} {s' : SyncFeed} (gives : s.left code b = p :: s'.left code b) :
      Wanes due code b v s (.item p, s')
  | early {s' : SyncFeed} (same : s'.left code b = s.left code b) (early : ¬due) :
      Wanes due code b v s (.pending, s')
  | blocked {s' : SyncFeed} (awaits : (s.awaits code b).isSome = true) (held : .wallets ∈ v.held)
      (same : s'.left code b = s.left code b) : Wanes due code b v s (.pending, s')
  | rest {s' : SyncFeed} (free : (s.awaits code b).isSome = true → .wallets ∉ v.held)
      (nothing : s.left code b = []) (done : s'.left code b = []) :
      Wanes due code b v s (.rest (v.alive (.sync (Currency.key code))), s')

section

variable {code : String} {b : Board} {s : SyncFeed} {v : View}

theorem awaits_of_asked (code : String) (b : Board) (asked : s.feed.throttle.isSome = true) :
    s.awaits code b = s.waiting := by
  rw [awaits, ← Option.not_isSome, asked]
  rfl

theorem isSome_waiting (waits : (s.awaits code b).isSome = true) : s.waiting.isSome = true := by
  revert waits
  unfold awaits
  split
  · nofun
  · exact id

theorem left_of_known (f : Feed) : left code b ⟨f, none⟩ = (f.left (b.sync.get code)).toList := by
  have hnone : awaits code b ⟨f, none⟩ = none := by
    unfold awaits
    split <;> rfl
  rw [left, hnone]
  rfl

/-- Where the same is left it wanes in the same way. -/
theorem Wanes.of_same {due : Prop} {s₁ : SyncFeed} {polled : Poll SyncState × SyncFeed}
    (h : Wanes due code b v s₁ polled) (awaits : s.awaits code b = s₁.awaits code b)
    (left : s₁.left code b = s.left code b) : Wanes due code b v s polled := by
  cases h with
  | item gives => exact .item (left.symm.trans gives)
  | early same early => exact .early (same.trans left) early
  | blocked waits held same => exact .blocked (awaits ▸ waits) held (same.trans left)
  | rest free nothing done => exact .rest (fun waits => free (awaits ▸ waits)) (left.symm.trans nothing) done

theorem left_of_asked (code : String) (b : Board) (asked : s.feed.throttle.isSome = true) : s.left code b =
    ((s.waiting.bind fun f => (f.left b.wallets).bind fun ws => Wallet.find? ws code).map
      fun w => .initial code w.isSyncing).toList ++ (s.feed.left (b.sync.get code)).toList := by
  rw [left, awaits_of_asked code b asked]

theorem period_pollChannel (f : Feed) : (pollChannel code v f).2.feed.period = f.period := by
  show (f.poll v.now _ (v.board.sync.get code) none).2.period = f.period
  exact Feed.period_poll v.now _ _ none f

theorem period_pollOn : (s.pollOn code v).2.feed.period = s.feed.period := by
  unfold pollOn
  split
  · exact period_pollChannel s.feed
  · split
    · rfl
    · rfl
    · exact period_pollChannel s.feed

theorem period_poll : (s.poll code v).2.feed.period = s.feed.period := by
  unfold poll
  split
  · exact period_pollOn
  · simp only
    split
    · rfl
    · exact period_pollOn

theorem pollOn_of_known (known : s.waiting = none) : s.pollOn code v = pollChannel code v s.feed := by
  rw [pollOn, known]

/-- The state of the wallet is given when the wallet is known. -/
theorem pollOn_of_item {f f' : Feed} {w : Wallet} (waits : s.waiting = some f)
    (answer : f.pollWallet code v = (.item w, f')) :
    s.pollOn code v = (.item (.initial code w.isSyncing), ⟨s.feed, none⟩) := by
  simp only [pollOn, waits, answer]

theorem pollOn_of_pending {f f' : Feed} (waits : s.waiting = some f)
    (answer : f.pollWallet code v = (.pending, f')) : s.pollOn code v = (.pending, ⟨s.feed, some f'⟩) := by
  simp only [pollOn, waits, answer]

theorem pollOn_of_ended {f f' : Feed} (waits : s.waiting = some f) (answer : f.pollWallet code v = (.ended, f')) :
    s.pollOn code v = pollChannel code v s.feed := by
  simp only [pollOn, waits, answer]

theorem waiting_pollOn (waits : (s.pollOn code v).2.waiting.isSome = true) :
    (s.pollOn code v).1.item? = none ∧ s.waiting.isSome = true := by
  revert waits
  unfold pollOn
  cases s.waiting with
  | none => nofun
  | some f =>
    simp only
    generalize f.pollWallet code v = polled
    obtain ⟨answer, f'⟩ := polled
    cases answer with
    | item w => nofun
    | pending => exact fun _ => ⟨rfl, rfl⟩
    | ended => nofun

/-- A stream that waits after a poll has waited before, and was given nothing. -/
theorem waiting_poll (waits : (s.poll code v).2.waiting.isSome = true) :
    (s.poll code v).1.item? = none ∧ (s.awaits code v.board).isSome = true := by
  revert waits
  unfold poll awaits
  cases s.feed.throttle with
  | some t => exact waiting_pollOn
  | none =>
    simp only
    cases (v.board.sync.get code).latest with
    | some p => nofun
    | none => exact waiting_pollOn

end

namespace Sure

variable {code : String} {now now' : Nat} {b b' : Board} {s : SyncFeed} {v : View}

theorem fresh (code : String) (period now : Nat) (b : Board) : (SyncFeed.fresh period).Sure code now b where
  channel := .fresh period now _
  wallet f hf := by
    obtain rfl := Option.some.inj hf
    exact ⟨.fresh period now _, rfl⟩

theorem later (h : s.Sure code now b) (hnow : now ≤ now') : s.Sure code now' b where
  channel := h.channel.later hnow
  wallet f hf := ⟨(h.wallet f hf).1.later hnow, (h.wallet f hf).2⟩

theorem grown (h : s.Sure code now b) (hgrown : b.Grown b') : s.Sure code now b' where
  channel := h.channel.grown (hgrown.sync code)
  wallet f hf := ⟨(h.wallet f hf).1.grown hgrown.wallets, (h.wallet f hf).2⟩

/-- From its first poll on a stream reads the channel. -/
theorem subscribed (h : s.Sure code now b) :
    Sure code now b ⟨{ s.feed with throttle := some (.subscribe (b.sync.get code)) }, s.waiting⟩ where
  channel := by
    constructor
    · refine ⟨rfl, ?_, fun _ _ _ _ _ => trivial⟩
      intro t ht
      obtain rfl := Option.some.inj ht
      exact .subscribe _ now _
    · intro t ht hbehind
      obtain rfl := Option.some.inj ht
      exact absurd ⟨rfl, rfl⟩ hbehind
  wallet := h.wallet

theorem pollChannel (h : s.feed.Sure now (b.sync.get code)) (hboard : v.board = b) (hnow : v.now = now) :
    (SyncFeed.pollChannel code v s.feed).2.Sure code now b where
  channel := by
    subst hboard hnow
    exact h.poll _ none
  wallet _ hf := nomatch hf

theorem pollOn (h : s.Sure code now b) (hboard : v.board = b) (hnow : v.now = now) :
    (s.pollOn code v).2.Sure code now b := by
  unfold SyncFeed.pollOn
  cases hwaiting : s.waiting with
  | none => exact pollChannel h.channel hboard hnow
  | some f =>
    obtain ⟨hsure, hperiod⟩ := h.wallet f hwaiting
    have hpolled : (f.pollWallet code v).2.Sure now b.wallets ∧ (f.pollWallet code v).2.period = s.feed.period := by
      subst hboard hnow
      exact ⟨hsure.poll _ _, (Feed.period_poll _ _ _ _ _).trans hperiod⟩
    simp only
    generalize f.pollWallet code v = polled at hpolled
    obtain ⟨answer, f'⟩ := polled
    cases answer with
    | item w => exact ⟨h.channel, nofun⟩
    | pending =>
      refine ⟨h.channel, fun f'' hf'' => ?_⟩
      obtain rfl := Option.some.inj hf''
      exact hpolled
    | ended => exact pollChannel h.channel hboard hnow

theorem poll (h : s.Sure code now b) (hboard : v.board = b) (hnow : v.now = now) :
    (s.poll code v).2.Sure code now b := by
  unfold SyncFeed.poll
  split
  · exact h.pollOn hboard hnow
  · simp only
    rw [hboard]
    split
    · exact ⟨h.subscribed.channel, nofun⟩
    · exact h.subscribed.pollOn hboard hnow

/-- What a stream that reads the channel alone has left wanes like that of its feed. -/
theorem wanes_pollChannel (h : s.feed.Sure now (b.sync.get code)) (asked : s.feed.throttle.isSome = true)
    (late : v.Late b) (alone : s.left code b = (s.feed.left (b.sync.get code)).toList)
    (free : (s.awaits code b).isSome = true → .wallets ∉ v.held) :
    Wanes (now + s.feed.period ≤ v.now) code b v s (SyncFeed.pollChannel code v s.feed) := by
  have hfeed := h.wanes v.now (v.alive (.sync (Currency.key code))) none fun hfresh => by
    rw [hfresh] at asked
    cases asked
  have hpoll : SyncFeed.pollChannel code v s.feed =
      ((s.feed.poll v.now (v.alive (.sync (Currency.key code))) (b.sync.get code) none).1,
        ⟨(s.feed.poll v.now (v.alive (.sync (Currency.key code))) (b.sync.get code) none).2, none⟩) := by
    rw [← late.board]
    rfl
  rw [hpoll]
  generalize s.feed.poll v.now _ (b.sync.get code) none = polled at hfeed
  cases hfeed with
  | @item a f' gives done =>
    refine .item ?_
    rw [alone, gives, left_of_known, done]
    rfl
  | @early f' same early =>
    refine .early ?_ early
    rw [alone, left_of_known, same]
  | @rest f' nothing done =>
    refine .rest free ?_ ?_
    · rw [alone, nothing]
      rfl
    · rw [left_of_known, done]
      rfl

/-- **What a stream has left wanes with every poll** from the second on. Where no wallet comes it goes on waiting, or
it goes on with the channel. -/
theorem wanes_pollOn (h : s.Sure code now b) (asked : s.feed.throttle.isSome = true) (late : v.Late b) :
    Wanes (now + s.feed.period ≤ v.now) code b v s (s.pollOn code v) := by
  have hleft := left_of_asked code b asked
  have hawaits := awaits_of_asked code b asked
  cases hwaiting : s.waiting with
  | none =>
    rw [hwaiting] at hleft hawaits
    rw [pollOn_of_known hwaiting]
    refine wanes_pollChannel h.channel asked late hleft fun hsome => ?_
    rw [hawaits] at hsome
    cases hsome
  | some f =>
    obtain ⟨hsure, hperiod⟩ := h.wallet f hwaiting
    rw [hwaiting, Option.bind_some] at hleft
    rw [hwaiting] at hawaits
    have hkept {f' : Feed} (same : f'.left b.wallets = f.left b.wallets) :
        left code b ⟨s.feed, some f'⟩ = s.left code b := by
      rw [left_of_asked (s := ⟨s.feed, some f'⟩) code b asked, hleft]
      simp only [Option.bind_some, same]
    have hrest {f' : Feed} (answer : f.pollWallet code v = (.rest (v.alive .wallets), f'))
        (nothing : ((f.left b.wallets).bind fun ws => Wallet.find? ws code) = none) (done : f'.left b.wallets = none) :
        Wanes (now + s.feed.period ≤ v.now) code b v s (s.pollOn code v) := by
      have hchannel : s.left code b = (s.feed.left (b.sync.get code)).toList := by
        rw [hleft, nothing]
        rfl
      cases halive : v.alive .wallets with
      | true =>
        rw [halive] at answer
        rw [pollOn_of_pending hwaiting answer]
        refine .blocked ?_ ((late.alive_iff _).mp halive) ?_
        · rw [hawaits]
          rfl
        · rw [left_of_asked (s := ⟨s.feed, some f'⟩) code b asked, hchannel, Option.bind_some, done]
          rfl
      | false =>
        rw [halive] at answer
        rw [pollOn_of_ended hwaiting answer]
        refine wanes_pollChannel h.channel asked late hchannel fun _ hheld => ?_
        rw [(late.alive_iff _).mpr hheld] at halive
        cases halive
    have hpoll : f.pollWallet code v = ((f.poll v.now (v.alive .wallets) b.wallets b.wallets.latest).1.pick
        (v.alive .wallets) (fun ws => Wallet.find? ws code),
          (f.poll v.now (v.alive .wallets) b.wallets b.wallets.latest).2) := by
      have hseed : b.wallets.latest.or (v.live.map Prod.snd) = b.wallets.latest := by
        rw [late.live]
        exact Option.or_none
      rw [Feed.pollWallet, Feed.pollWallets, late.board, hseed]
    have hwallets := hsure.wanes v.now (v.alive .wallets) b.wallets.latest fun _ => rfl
    generalize f.poll v.now (v.alive .wallets) b.wallets b.wallets.latest = polled at hwallets hpoll
    cases hwallets with
    | @item ws f' gives done =>
      rw [gives, Option.bind_some] at hleft hrest
      cases hfind : Wallet.find? ws code with
      | some w =>
        simp only [Poll.pick, hfind] at hpoll
        rw [pollOn_of_item hwaiting hpoll]
        refine .item ?_
        rw [hleft, hfind, left_of_known]
        rfl
      | none =>
        simp only [Poll.pick, hfind] at hpoll
        exact hrest hpoll hfind done
    | @early f' same early =>
      rw [pollOn_of_pending hwaiting hpoll]
      refine .early (hkept same) ?_
      rw [← hperiod]
      exact early
    | @rest f' nothing done =>
      have hpick : ((Poll.rest (v.alive .wallets) : Poll (List Wallet)).pick (v.alive .wallets) fun ws =>
          Wallet.find? ws code) = .rest (v.alive .wallets) := by
        cases v.alive .wallets <;> rfl
      rw [hpick] at hpoll
      rw [nothing] at hrest
      exact hrest hpoll rfl done

/-- **What a stream has left wanes with every poll.** -/
theorem wanes (h : s.Sure code now b) (late : v.Late b) :
    Wanes (now + s.feed.period ≤ v.now) code b v s (s.poll code v) := by
  unfold SyncFeed.poll
  cases hthrottle : s.feed.throttle with
  | some t =>
    exact h.wanes_pollOn (by rw [hthrottle]; rfl) late
  | none =>
    simp only [late.board]
    have hchannel : s.feed.left (b.sync.get code) = (b.sync.get code).latest := by
      simp only [Feed.left, hthrottle]
    have hsubscribed : Feed.left (b.sync.get code)
        { s.feed with throttle := some (.subscribe (b.sync.get code)) } = none :=
      Feed.left_of_caughtUp rfl ⟨rfl, rfl⟩
    cases hlatest : (b.sync.get code).latest with
    | some p =>
      refine .item ?_
      have hawaits : s.awaits code b = none := by
        simp only [awaits, hthrottle, hlatest, Option.isNone_none, Option.isSome_some, Bool.and_true, if_true]
      rw [left, hawaits, hchannel, hlatest, left_of_known, hsubscribed]
      rfl
    | none =>
      have hawaits : s.awaits code b = s.waiting := by
        simp only [awaits, hthrottle, hlatest, Option.isSome_none, Bool.and_false, if_false, Bool.false_eq_true]
      have hsame : left code b ⟨{ s.feed with throttle := some (.subscribe (b.sync.get code)) }, s.waiting⟩ =
          s.left code b := by
        rw [left_of_asked code b rfl, left, hawaits, hchannel, hlatest, hsubscribed]
      have hwaiting : awaits code b ⟨{ s.feed with throttle := some (.subscribe (b.sync.get code)) }, s.waiting⟩ =
          s.waiting := awaits_of_asked code b rfl
      exact (h.subscribed.wanes_pollOn rfl late).of_same (hawaits.trans hwaiting.symm) hsame

end Sure

end SyncFeed

end WalletHub
