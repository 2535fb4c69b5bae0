import WalletHub.Proofs.Subscription.Waning

/-!
# What remains of a subscription

`Subscription.remains` is what a subscription whose hub is gone will still give: of what its feed has left, what
it does not pass over. That is two items at most (`Subscription.length_remains`). Every poll takes the first of it,
or finds that it is too early; and only when nothing remains it finds the end, as long as nobody holds a channel
that it reads (`Subscription.Sure.wanes`).

All kinds of subscription to a hub are brought to one form here, as a feed and what is passed on of its values
(`Feed.gives`), so that what is proved of a feed once (`WalletHub.Proofs.Subscription.Waning`) holds of each of
them. A stream of progress that still waits for its wallet is the exception, with two feeds.

## What is proved

* `Poll.map_eq_pick`, `Poll.distinct_eq_pick`, `Poll.map_pick`: the stages of a stream are all stages that pick.
* `Subscription.wanes_of_feed`, `Subscription.wanes_sync`: how a poll leaves a subscription with one feed, and
  with two.
* `Subscription.Sure.wanes`: the two, for every topic that needs a hub.
* `Subscription.length_remains`: two items remain at most.
* `Subscription.Sure.create`, `Subscription.Sure.later`, `Subscription.Sure.grown`, `Subscription.Sure.poll`: a
  subscription is sure from the beginning and stays so while time passes, values are published and it is polled.
-/

namespace WalletHub

/-! ### Subscriptions -/

namespace Poll

variable {α β γ : Type}

theorem map_eq_pick (alive : Bool) (f : α → β) (p : Poll α) : p.map f = p.pick alive fun a => some (f a) := by
  cases p <;> rfl

theorem map_rest (alive : Bool) (f : α → β) : (rest alive : Poll α).map f = rest alive := by
  cases alive <;> rfl

theorem pick_rest (alive : Bool) (f : α → Option β) : (rest alive : Poll α).pick alive f = rest alive := by
  cases alive <;> rfl

theorem map_pick (alive : Bool) (f : α → Option β) (g : β → γ) (p : Poll α) :
    (p.pick alive f).map g = p.pick alive fun a => (f a).map g := by
  cases p with
  | item a =>
    cases hf : f a with
    | some b => simp only [pick, hf, map, Option.map_some]
    | none =>
      simp only [pick, hf, Option.map_none]
      cases alive <;> rfl
  | pending => rfl
  | ended => rfl

/-- A stream of distinct items passes over what it would repeat. -/
theorem distinct_eq_pick {κ : Type} [BEq κ] (alive : Bool) (f : α → β) (key : β → κ) (g : β → γ) (last : Option κ)
    (p : Poll α) :
    (((p.map f).distinct alive (fun a b => a == b) key last).1).map g =
      p.pick alive fun a => if last.any fun k => k == key (f a) then none else some (g (f a)) := by
  cases p with
  | item a =>
    cases hlast : last.any fun k => k == key (f a) with
    | true =>
      simp only [map, distinct, hlast, if_true, pick]
      cases alive <;> rfl
    | false => simp only [map, distinct, hlast, Bool.false_eq_true, if_false, pick]
  | pending => rfl
  | ended => rfl

end Poll

/-- The states of a list but those that would be repeated. -/
def SyncState.changes (last : Option SyncState) : List SyncState → List SyncState
  | [] => []
  | p :: ps => if last.any fun q => q.same p then changes last ps else p :: changes (some p) ps

theorem SyncState.length_changes (last : Option SyncState) (ps : List SyncState) :
    (changes last ps).length ≤ ps.length := by
  induction ps generalizing last with
  | nil => exact Nat.le_refl 0
  | cons p ps ih =>
    rw [changes]
    split
    · exact Nat.le_succ_of_le (ih last)
    · exact Nat.succ_le_succ (ih (some p))

/-- It makes no difference whether a value that is not passed on is taken as a seed. -/
theorem Feed.poll_bind {α β : Type} (now : Nat) (alive : Bool) (c : Channel α) (keep : α → Option α)
    (pass : α → Option β) (agree : ∀ a, keep a = some a ∨ keep a = none ∧ pass a = none) (seed : Option α)
    (f : Feed) :
    (f.poll now alive c (seed.bind keep)).1.pick alive pass = (f.poll now alive c seed).1.pick alive pass ∧
      (f.poll now alive c (seed.bind keep)).2 = (f.poll now alive c seed).2 := by
  unfold poll
  cases f.throttle with
  | some t => exact ⟨rfl, rfl⟩
  | none =>
    cases seed with
    | none => exact ⟨rfl, rfl⟩
    | some a =>
      rcases agree a with hkeep | ⟨hkeep, hpass⟩
      · rw [Option.bind_some, hkeep]
        exact ⟨rfl, rfl⟩
      · rw [Option.bind_some, hkeep]
        have hdrop : (Poll.item a).pick alive pass = .rest alive := by simp only [Poll.pick, hpass]
        exact ⟨(Poll.pick_rest alive pass).trans hdrop.symm, rfl⟩

/-- What of the newest value a feed has still to give is passed on. -/
def Feed.gives {α : Type} (c : Channel α) (pass : α → Option Item) (f : Feed) : List Item :=
  ((f.left c).bind pass).toList

theorem Feed.gives_of_none {α : Type} {c : Channel α} {pass : α → Option Item} {f : Feed} (nothing : f.left c = none) :
    f.gives c pass = [] := by
  rw [gives, nothing]
  rfl

/-- The channel that a topic is about. -/
def Topic.channel? : Topic → Option ChannelName
  | .system => some .system
  | .account => some .account
  | .wallets _ | .wallet _ | .codes => some .wallets
  | .sync code => some (.sync (Currency.key code))
  | .transfers code => some (.transfers (Currency.key code))
  | .transfer code _ | .updates code => some (.updates (Currency.key code))
  | .enabled | .tracked => none

namespace Subscription

/-- The wallets that a stream of wallets passes on. -/
def passWallets (enabledOnly : Bool) (last : Option (List String)) (ids : List String) (ws : List Wallet) :
    Option Item :=
  let listed := if enabledOnly then Wallet.keepListed ws ids else ws
  if last.any fun codes => codes == listed.map Wallet.code then none else some (.wallets listed)

/-- The codes that a stream of codes passes on. -/
def passCodes (last : Option (List String)) (ws : List Wallet) : Option Item :=
  if last.any fun codes => codes == ws.map Wallet.code then none else some (.codes (ws.map Wallet.code))

/-- The transfers that a stream of one transfer passes on. -/
def passTransfer (hash : String) (t : Transfer) : Option Item := if t.hash = hash then some (.transfer t) else none

/-- What a subscription has still to give of a board on which nothing is published any more, with these ids
enabled. -/
def remains (b : Board) (ids : List String) : Subscription → List Item
  | .system f => f.gives b.system fun h => some (.system h.account.uid)
  | .account f => f.gives b.account fun a => some (.account a)
  | .wallets enabledOnly f last => f.gives b.wallets (passWallets enabledOnly last ids)
  | .wallet code f => f.gives b.wallets fun ws => (Wallet.find? ws code).map .wallet
  | .codes f last => f.gives b.wallets (passCodes last)
  | .sync code s last => (SyncState.changes last (s.left code b)).map .sync
  | .transfers code f => f.gives (b.transfers.get code) fun ts => some (.transfers ts)
  | .transfer code hash f => f.gives (b.updates.get code) (passTransfer hash)
  | .updates code f => f.gives (b.updates.get code) fun t => some (.transfer t)
  | .enabled _ | .tracked _ => []

/-- It is a stream of progress that waits for its wallet. -/
def seeks (b : Board) : Subscription → Bool
  | .sync code s _ => (s.awaits code b).isSome
  | _ => false

/-- For how long the throttle holds values back. -/
def period : Subscription → Nat
  | .system f | .account f | .wallets _ f _ | .wallet _ f | .codes f _ | .transfers _ f | .transfer _ _ f
  | .updates _ f => f.period
  | .sync _ s _ => s.feed.period
  | .enabled _ | .tracked _ => 0

/-- The feeds of the subscription are sure. -/
def Sure (now : Nat) (b : Board) : Subscription → Prop
  | .system f => f.Sure now b.system
  | .account f => f.Sure now b.account
  | .wallets _ f _ | .wallet _ f | .codes f _ => f.Sure now b.wallets
  | .sync code s last => s.Sure code now b ∧ (s.waiting.isSome = true → last = none)
  | .transfers code f => f.Sure now (b.transfers.get code)
  | .transfer code _ f | .updates code f => f.Sure now (b.updates.get code)
  | .enabled _ | .tracked _ => True

/-- What remains does not depend on the enabled ids. -/
def Settled (b : Board) (s : Subscription) : Prop := ∀ ids ids', s.remains b ids = s.remains b ids'

/-- How a poll leaves a subscription whose hub is gone, where others hold some channels: it gives the first of
what remains, or it is too early for that, or it waits for a wallet that may still come, or nothing remains. -/
inductive Wanes (due : Prop) (b : Board) (held : List ChannelName) (ids : List String) (s : Subscription) :
    Poll Item × Subscription → Prop where
  | item {i : Item} {s' : Subscription} (gives : s.remains b ids = i :: s'.remains b ids) (settled : s'.Settled b) :
      Wanes due b held ids s (.item i, s')
  | early {s' : Subscription} (same : ∀ ids, s'.remains b ids = s.remains b ids) (early : ¬due) :
      Wanes due b held ids s (.pending, s')
  | blocked {s' : Subscription} (seeks : s.seeks b = true) (blocks : .wallets ∈ held)
      (same : ∀ ids, s'.remains b ids = s.remains b ids) : Wanes due b held ids s (.pending, s')
  | rest {s' : Subscription} (free : s.seeks b = true → .wallets ∉ held) (nothing : s.remains b ids = [])
      (done : ∀ ids, s'.remains b ids = []) :
      Wanes due b held ids s (.rest (s.topic.channel?.any held.contains), s')

/-! ### Polls -/

section

variable {α : Type} {now : Nat} {b : Board} {v : View}

/-- What a feed gives wanes like what it has left. -/
theorem wanes_of_feed {s : Subscription} {f : Feed} {c : Channel α} {name : ChannelName}
    {seed : Option α} (pass : List String → α → Option Item) (t : Poll α × Feed → Poll Item × Subscription)
    (h : f.Sure now c) (late : v.Late b) (first : f.throttle = none → seed = c.latest)
    (own : s.topic.channel? = some name)
    (seeks : s.seeks b = false) (before : ∀ ids, s.remains b ids = f.gives c (pass ids))
    (answers : ∀ p, (t p).1 = p.1.pick (v.alive name) (pass v.provider.ids))
    (done : ∀ p, p.2.left c = none → ∀ ids, (t p).2.remains b ids = [])
    (kept : ∀ f', ∀ ids, (t (.pending, f')).2.remains b ids = f'.gives c (pass ids)) :
    Wanes (now + f.period ≤ v.now) b v.held v.provider.ids s (t (f.poll v.now (v.alive name) c seed)) := by
  have hnotseeks (hseeks : s.seeks b = true) : .wallets ∉ v.held := by
    rw [seeks] at hseeks
    cases hseeks
  have hrest {p : Poll α × Feed} (answer : (t p).1 = .rest (v.alive name))
      (nothing : s.remains b v.provider.ids = []) (hdone : p.2.left c = none) :
      Wanes (now + f.period ≤ v.now) b v.held v.provider.ids s (t p) := by
    have halive : s.topic.channel?.any v.held.contains = v.alive name := by
      rw [own, late.alive_eq]
      rfl
    have hpair : t p = (.rest (s.topic.channel?.any v.held.contains), (t p).2) :=
      Prod.ext (answer.trans (by rw [halive])) rfl
    rw [hpair]
    exact .rest hnotseeks nothing (done p hdone)
  have hfeed := h.wanes v.now (v.alive name) seed first
  generalize f.poll v.now (v.alive name) c seed = polled at hfeed
  cases hfeed with
  | @item a f' gives hdone =>
    have hleft : s.remains b v.provider.ids = (pass v.provider.ids a).toList := by
      rw [before, Feed.gives, gives, Option.bind_some]
    have hanswer := answers (.item a, f')
    cases hpass : pass v.provider.ids a with
    | some i =>
      rw [hpass] at hleft
      simp only [Poll.pick, hpass] at hanswer
      have hpair : t (.item a, f') = (.item i, (t (.item a, f')).2) := Prod.ext hanswer rfl
      rw [hpair]
      refine .item ?_ fun ids ids' => ?_
      · rw [hleft, done _ hdone]
        rfl
      · rw [done _ hdone, done _ hdone]
    | none =>
      rw [hpass] at hleft
      simp only [Poll.pick, hpass] at hanswer
      exact hrest hanswer hleft hdone
  | @early f' same early =>
    have hpair : t (.pending, f') = (.pending, (t (.pending, f')).2) := Prod.ext (answers _) rfl
    rw [hpair]
    refine .early (fun ids => ?_) early
    rw [kept, before, Feed.gives, Feed.gives, same]
  | @rest f' nothing hdone =>
    refine hrest ((answers _).trans (Poll.pick_rest _ _)) ?_ hdone
    rw [before, Feed.gives, nothing]
    rfl

/-- What remains of a stream of progress wanes with every poll. -/
theorem wanes_sync {code : String} {s : SyncFeed} {last : Option SyncState} (h : s.Sure code now b)
    (fresh : s.waiting.isSome = true → last = none) (late : v.Late b) :
    Wanes (now + s.feed.period ≤ v.now) b v.held v.provider.ids (.sync code s last)
      (Subscription.poll v (.sync code s last)) := by
  have hfeed := h.wanes late
  have hpoll : Subscription.poll v (.sync code s last) =
      (((s.poll code v).1.distinct (v.alive (.sync (Currency.key code))) SyncState.same id last).1.map .sync,
        .sync code (s.poll code v).2
          ((s.poll code v).1.distinct (v.alive (.sync (Currency.key code))) SyncState.same id last).2) := rfl
  rw [hpoll]
  generalize s.poll code v = polled at hfeed
  cases hfeed with
  | @item p s' gives =>
    cases hlast : last.any fun q => q.same p with
    | true =>
      have hdrop : (Poll.item p).distinct (v.alive (.sync (Currency.key code))) SyncState.same id last =
          (.rest (v.alive (.sync (Currency.key code))), last) := by
        simp only [Poll.distinct, id_eq, hlast, if_true]
      have hknown : s.awaits code b = none := by
        refine Option.not_isSome_iff_eq_none.mp fun hwaits => ?_
        rw [fresh (SyncFeed.isSome_waiting hwaits)] at hlast
        cases hlast
      have hdone : s'.left code b = [] := by
        have hshort : (s.left code b).length ≤ 1 := by
          rw [SyncFeed.left, hknown]
          exact Option.length_toList_le
        rw [gives, List.length_cons] at hshort
        exact List.length_eq_zero_iff.mp (by omega)
      rw [hdrop, Poll.map_rest, late.alive_eq]
      refine .rest (fun hseeks => ?_) ?_ fun _ => ?_
      · rw [seeks, hknown] at hseeks
        cases hseeks
      · simp only [remains, gives, hdone, SyncState.changes, hlast, if_true, List.map_nil]
      · simp only [remains, hdone, SyncState.changes, List.map_nil]
    | false =>
      have hgive : (Poll.item p).distinct (v.alive (.sync (Currency.key code))) SyncState.same id last =
          (.item p, some p) := by
        simp only [Poll.distinct, id_eq, hlast, Bool.false_eq_true, if_false]
      rw [hgive]
      refine .item ?_ fun _ _ => rfl
      simp only [remains, gives, SyncState.changes, hlast, Bool.false_eq_true, if_false, List.map_cons]
  | @early s' same early =>
    refine .early (fun ids => ?_) early
    simp only [remains, Poll.distinct, same]
  | @blocked s' waits held same =>
    refine .blocked waits held fun ids => ?_
    simp only [remains, Poll.distinct, same]
  | @rest s' free nothing done =>
    have hrest : (Poll.rest (v.alive (.sync (Currency.key code)))).distinct (v.alive (.sync (Currency.key code)))
        SyncState.same id last = (.rest (v.alive (.sync (Currency.key code))), last) :=
      Poll.distinct_of_none _ _ _ _ (Poll.item?_rest _)
    rw [hrest, Poll.map_rest, late.alive_eq]
    refine .rest free ?_ fun _ => ?_
    · simp only [remains, nothing, SyncState.changes, List.map_nil]
    · simp only [remains, done, SyncState.changes, List.map_nil]

/-- **What remains of a subscription wanes with every poll.** -/
theorem Sure.wanes {s : Subscription} (h : s.Sure now b) (late : v.Late b) (needs : s.topic.needsHub = true) :
    Wanes (now + s.period ≤ v.now) b v.held v.provider.ids s (s.poll v) := by
  have hlate := late
  obtain ⟨rfl, -, hlive⟩ := late
  have hseed {β : Type} (latest : Option β) (f : Account × List Wallet → β) : latest.or (v.live.map f) = latest := by
    rw [hlive]
    exact Option.or_none
  have hwallet (code : String) : v.wallet? code = none := by
    rw [View.wallet?, hlive]
    rfl
  cases s with
  | system f =>
    exact wanes_of_feed (s := .system f) (fun _ a => some (.system a.account.uid))
      (fun p => (p.1.map fun a => .system a.account.uid, .system p.2)) h hlate (fun _ => hseed _ _) rfl rfl
      (fun _ => rfl) (fun _ => Poll.map_eq_pick _ _ _) (fun _ hleft _ => Feed.gives_of_none hleft) fun _ _ => rfl
  | account f =>
    exact wanes_of_feed (s := .account f) (fun _ a => some (.account a))
      (fun p => (p.1.map .account, .account p.2)) h hlate (fun _ => hseed _ _) rfl rfl
      (fun _ => rfl) (fun _ => Poll.map_eq_pick _ _ _) (fun _ hleft _ => Feed.gives_of_none hleft) fun _ _ => rfl
  | wallets enabledOnly f last =>
    let listed (ws : List Wallet) := if enabledOnly then Wallet.keepListed ws v.provider.ids else ws
    let told (p : Poll (List Wallet)) :=
      (p.map listed).distinct (v.alive .wallets) (fun a b => a == b) (fun ws => ws.map Wallet.code) last
    exact wanes_of_feed (s := .wallets enabledOnly f last) (passWallets enabledOnly last)
      (fun p => ((told p.1).1.map .wallets, .wallets enabledOnly p.2 (told p.1).2)) h hlate (fun _ => hseed _ _) rfl rfl
      (fun _ => rfl) (fun _ => Poll.distinct_eq_pick _ _ _ _ _ _) (fun _ hleft _ => Feed.gives_of_none hleft)
      fun _ _ => rfl
  | wallet code f =>
    exact wanes_of_feed (s := .wallet code f) (fun _ ws => (Wallet.find? ws code).map .wallet)
      (fun p => ((p.1.pick (v.alive .wallets) fun ws => Wallet.find? ws code).map .wallet, .wallet code p.2)) h hlate
      (fun _ => hseed _ _) rfl rfl (fun _ => rfl) (fun _ => Poll.map_pick _ _ _ _)
      (fun _ hleft _ => Feed.gives_of_none hleft) fun _ _ => rfl
  | codes f last =>
    let told (p : Poll (List Wallet)) :=
      (p.map fun ws => ws.map Wallet.code).distinct (v.alive .wallets) (fun a b => a == b) id last
    exact wanes_of_feed (s := .codes f last) (fun _ => passCodes last)
      (fun p => ((told p.1).1.map .codes, .codes p.2 (told p.1).2)) h hlate (fun _ => hseed _ _) rfl rfl
      (fun _ => rfl) (fun _ => Poll.distinct_eq_pick _ _ _ _ _ _) (fun _ hleft _ => Feed.gives_of_none hleft)
      fun _ _ => rfl
  | sync code s last => exact wanes_sync h.1 h.2 hlate
  | transfers code f =>
    exact wanes_of_feed (s := .transfers code f) (fun _ ts => some (.transfers ts))
      (fun p => (p.1.map .transfers, .transfers code p.2)) h hlate
      (fun _ => by rw [hwallet]; exact Option.or_none) rfl rfl
      (fun _ => rfl) (fun _ => Poll.map_eq_pick _ _ _) (fun _ hleft _ => Feed.gives_of_none hleft) fun _ _ => rfl
  | transfer code hash f =>
    have hpass (t : Transfer) : passTransfer hash t = (if t.hash = hash then some t else none).map .transfer := by
      unfold passTransfer
      split <;> rfl
    have hfirst := f.poll_bind v.now (v.alive (.updates (Currency.key code))) (v.board.updates.get code)
      (fun t => if t.hash = hash then some t else none) (passTransfer hash)
      (fun t => by unfold passTransfer; split <;> simp) (v.board.updates.get code).latest
    have hpoll : Subscription.poll v (.transfer code hash f) = 
        ((f.poll v.now (v.alive (.updates (Currency.key code))) (v.board.updates.get code)
            (v.board.updates.get code).latest).1.pick (v.alive (.updates (Currency.key code))) (passTransfer hash),
          .transfer code hash (f.poll v.now (v.alive (.updates (Currency.key code))) (v.board.updates.get code)
            (v.board.updates.get code).latest).2) := by
      rw [← hfirst.1, ← hfirst.2, funext hpass, ← Poll.map_pick, Subscription.poll, Feed.pollTransfer, hwallet]
      rfl
    rw [hpoll]
    exact wanes_of_feed (s := .transfer code hash f) (fun _ => passTransfer hash)
      (fun p => (p.1.pick (v.alive (.updates (Currency.key code))) (passTransfer hash), .transfer code hash p.2)) h
      hlate (fun _ => rfl) rfl rfl (fun _ => rfl) (fun _ => rfl) (fun _ hleft _ => Feed.gives_of_none hleft)
      fun _ _ => rfl
  | updates code f =>
    exact wanes_of_feed (s := .updates code f) (fun _ t => some (.transfer t))
      (fun p => (p.1.map .transfer, .updates code p.2)) h hlate (fun _ => rfl) rfl rfl
      (fun _ => rfl) (fun _ => Poll.map_eq_pick _ _ _) (fun _ hleft _ => Feed.gives_of_none hleft) fun _ _ => rfl
  | enabled | tracked => cases needs

/-! ### What stays -/

/-- **Two items remain at most.** -/
theorem length_remains (b : Board) (ids : List String) (s : Subscription) : (s.remains b ids).length ≤ 2 := by
  have hgives {α : Type} {c : Channel α} {pass : α → Option Item} {f : Feed} : (f.gives c pass).length ≤ 2 :=
    Nat.le_trans Option.length_toList_le (by decide)
  cases s with
  | sync code s last =>
    have hleft : (s.left code b).length ≤ 1 + 1 := by
      rw [SyncFeed.left, List.length_append]
      exact Nat.add_le_add Option.length_toList_le Option.length_toList_le
    rw [remains, List.length_map]
    exact Nat.le_trans (SyncState.length_changes _ _) hleft
  | enabled | tracked => exact Nat.zero_le 2
  | _ => exact hgives

theorem period_poll (v : View) (s : Subscription) : (s.poll v).2.period = s.period := by
  cases s with
  | sync code s last => exact SyncFeed.period_poll
  | enabled seen =>
    simp only [poll]
    split <;> rfl
  | tracked monitor => rfl
  | _ => exact Feed.period_poll _ _ _ _ _

/-- Only a stream that waits for its wallet does so after a poll. -/
theorem seeks_poll {s : Subscription} (late : v.Late b) (seeks : (s.poll v).2.seeks b = true) : s.seeks b = true := by
  obtain ⟨rfl, -, -⟩ := late
  cases s with
  | sync code s last => exact (SyncFeed.waiting_poll (SyncFeed.isSome_waiting seeks)).2
  | enabled seen =>
    simp only [poll] at seeks
    split at seeks <;> cases seeks
  | _ => cases seeks

namespace Sure

variable {now' : Nat} {b' : Board} {s : Subscription}

theorem create (period transferPeriod now : Nat) (b : Board) (topic : Topic) :
    (Subscription.create period transferPeriod topic).Sure now b := by
  cases topic with
  | sync code => exact ⟨.fresh code period now b, fun _ => rfl⟩
  | enabled | tracked => trivial
  | _ => exact .fresh _ now _

theorem later (h : s.Sure now b) (hnow : now ≤ now') : s.Sure now' b := by
  cases s with
  | sync code s last => exact ⟨h.1.later hnow, h.2⟩
  | enabled | tracked => trivial
  | _ => exact Feed.Sure.later h hnow

theorem grown (h : s.Sure now b) (hgrown : b.Grown b') : s.Sure now b' := by
  cases s with
  | system => exact Feed.Sure.grown h hgrown.system
  | account => exact Feed.Sure.grown h hgrown.account
  | wallets | wallet | codes => exact Feed.Sure.grown h hgrown.wallets
  | sync code s last => exact ⟨h.1.grown hgrown, h.2⟩
  | transfers code => exact Feed.Sure.grown h (hgrown.transfers code)
  | transfer code | updates code => exact Feed.Sure.grown h (hgrown.updates code)
  | enabled | tracked => trivial

theorem poll (h : s.Sure now b) (hboard : v.board = b) (hnow : v.now = now) : (s.poll v).2.Sure now b := by
  subst hboard hnow
  cases s with
  | sync code s last =>
    refine ⟨h.1.poll rfl rfl, fun waits => ?_⟩
    obtain ⟨hnone, hwaits⟩ := SyncFeed.waiting_poll waits
    have hlast :
        ((s.poll code v).1.distinct (v.alive (.sync (Currency.key code))) SyncState.same id last).2 = last := by
      rw [Poll.distinct_of_none _ _ _ _ hnone]
    exact hlast.trans (h.2 (SyncFeed.isSome_waiting hwaits))
  | enabled seen =>
    simp only [Subscription.poll]
    split <;> trivial
  | tracked monitor => trivial
  | _ => exact Feed.Sure.poll h _ _

end Sure

end

end Subscription

end WalletHub
