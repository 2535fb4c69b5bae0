import WalletHub.Proofs.Subscription.Independence
import WalletHub.Proofs.Subscription.Sync
import WalletHub.Proofs.World.Twins

/-!
# Codes in other letter case

Channels and wallets are found by codes in any letter case, so that two users who subscribe to the same topic
in two spellings of a code see the same. One thing gives the spelling away: where nothing was published yet, a
subscription to progress makes up its first item, and gives it the code as the user has spelt it. Such items
of two users are not the same, and neither need be the answers that follow, since the next item is held back
only from the user whose spelling it has. `Respelt` says how far the items can differ.

## What is proved

* `View.wallet?_congr`, `SyncFeed.poll_congr`, and the same for the other feeds: what is found by a code does not
  depend on its letter case, and a poll gives the same but for a state that is made up.
* `Subscription.Spelt.poll`, `Subscription.Spelt.drain`: subscriptions to any other topic stay the same in both
  spellings, answer for answer.
* `Subscription.Kindred.poll`, `Subscription.Kindred.drain`: subscriptions to progress stay kindred. Where one
  gives an item that it held back from the other, this is the only one that it gives then
  (`Subscription.Kindred.rest_of_alone`).
* `World.records_of_spelt`, `World.records_of_kindred`: the same of whole runs, by induction over the moves.
* `World.told_in_all_spellings`: what two subscribers are answered, after everything else in the run was answered
  alike.
* `progress_tells_the_spelling`: two records of one run that differ.
-/

namespace WalletHub

/-! ### States that compare as equal -/

section

variable {f : Binary.Format} {a b c : Binary f}

theorem Binary.same_comm : a.same b = b.same a := by
  cases a <;> cases b <;> simp only [Binary.same]
  · grind
  · grind

theorem Binary.same_trans (h : a.same b = true) (h' : b.same c = true) : a.same c = true := by
  cases a <;> cases b <;> cases c <;> simp only [Binary.same] at * <;> grind

end

namespace SyncState

variable {a b c : SyncState}

theorem same_comm : a.same b = b.same a := by
  unfold same
  rw [Binary.same_comm]
  grind

theorem same_trans (h : a.same b = true) (h' : b.same c = true) : a.same c = true := by
  simp only [same, Bool.and_eq_true, beq_iff_eq] at *
  exact ⟨⟨⟨h.1.1.1.trans h'.1.1.1, Binary.same_trans h.1.1.2 h'.1.1.2⟩, h.1.2.trans h'.1.2⟩, h.2.trans h'.2⟩

/-- States that compare as equal compare alike with all others. -/
theorem same_congr (h : a.same b = true) (s : SyncState) : a.same s = b.same s := by
  rw [Bool.eq_iff_iff]
  exact ⟨fun h' => same_trans (same_comm.trans h) h', fun h' => same_trans h h'⟩

end SyncState

/-- A throttle that gives something has seen everything. -/
theorem Throttle.caughtUp_of_item {α : Type} {period now : Nat} {alive : Bool} {c : Channel α} {t : Throttle} {a : α}
    (h : (t.poll period now alive c).1 = .item a) : (t.poll period now alive c).2.CaughtUp c := by
  rcases poll_eq_emit_or period now alive c t with hemit | hnone
  · rw [hemit]
    exact caughtUp_emit now c
  · rw [h] at hnone
    exact nomatch hnone

/-! ### Topics in another spelling -/

/-- The topic with its code spelt in this way. -/
def Topic.respell (code : String) : Topic → Topic
  | .wallet _ => .wallet code
  | .sync _ => .sync code
  | .transfers _ => .transfers code
  | .transfer _ hash => .transfer code hash
  | .updates _ => .updates code
  | topic => topic

namespace View

variable {c c' : String} (v : View)

theorem wallet?_congr (h : Currency.key c = Currency.key c') : v.wallet? c = v.wallet? c' := by
  unfold wallet?
  congr 1
  funext x
  exact MemorySystem.find?_congr h x.2

end View

namespace Feed

variable {c c' : String} (v : View) (f : Feed)

theorem pollWallet_congr (h : Currency.key c = Currency.key c') : f.pollWallet c v = f.pollWallet c' v := by
  simp only [pollWallet, MemorySystem.find?_congr h]

theorem pollTransfers_congr (h : Currency.key c = Currency.key c') : f.pollTransfers c v = f.pollTransfers c' v := by
  simp only [pollTransfers, Channels.get_congr _ h, View.wallet?_congr v h, h]

theorem pollTransfer_congr (h : Currency.key c = Currency.key c') (hash : String) :
    f.pollTransfer c hash v = f.pollTransfer c' hash v := by
  simp only [pollTransfer, Channels.get_congr _ h, View.wallet?_congr v h, h]

theorem pollUpdates_congr (h : Currency.key c = Currency.key c') : f.pollUpdates c v = f.pollUpdates c' v := by
  simp only [pollUpdates, Channels.get_congr _ h, h]

end Feed

namespace Subscription

variable {c c' : String} {s s' : Subscription}

/-- Both are of the same topic but for the spelling of the code, and have come as far, and neither is a
subscription to progress. -/
inductive Spelt (c c' : String) : Subscription → Subscription → Prop where
  | same (s : Subscription) : Spelt c c' s s
  | wallet (feed : Feed) : Spelt c c' (.wallet c feed) (.wallet c' feed)
  | transfers (feed : Feed) : Spelt c c' (.transfers c feed) (.transfers c' feed)
  | transfer (hash : String) (feed : Feed) : Spelt c c' (.transfer c hash feed) (.transfer c' hash feed)
  | updates (feed : Feed) : Spelt c c' (.updates c feed) (.updates c' feed)

theorem Spelt.create (period transferPeriod : Nat) {topic : Topic} (other : ∀ code, topic ≠ .sync code) :
    Spelt c c' (.create period transferPeriod (topic.respell c))
      (.create period transferPeriod (topic.respell c')) := by
  cases topic with
  | sync code => exact absurd rfl (other code)
  | wallet => exact .wallet _
  | transfers => exact .transfers _
  | transfer _ hash => exact .transfer hash _
  | updates => exact .updates _
  | _ => exact .same _

namespace Spelt

theorem holds_eq (hs : Spelt c c' s s') (h : Currency.key c = Currency.key c') : s'.holds = s.holds := by
  cases hs <;> simp only [holds, h]

/-- They are answered the same. -/
theorem poll (hs : Spelt c c' s s') (h : Currency.key c = Currency.key c') (v : View) :
    (s'.poll v).1 = (s.poll v).1 ∧ Spelt c c' (s.poll v).2 (s'.poll v).2 := by
  cases hs with
  | same => exact ⟨rfl, .same _⟩
  | wallet feed =>
    simp only [Subscription.poll, ← Feed.pollWallet_congr v feed h]
    exact ⟨trivial, .wallet _⟩
  | transfers feed =>
    simp only [Subscription.poll, ← Feed.pollTransfers_congr v feed h]
    exact ⟨trivial, .transfers _⟩
  | transfer hash feed =>
    simp only [Subscription.poll, ← Feed.pollTransfer_congr v feed h]
    exact ⟨trivial, .transfer hash _⟩
  | updates feed =>
    simp only [Subscription.poll, ← Feed.pollUpdates_congr v feed h]
    exact ⟨trivial, .updates _⟩

theorem drain (hs : Spelt c c' s s') (h : Currency.key c = Currency.key c') (v : View) (count : Nat) :
    (s'.drain v count).1 = (s.drain v count).1 ∧ (s'.drain v count).2.1 = (s.drain v count).2.1 ∧
      Spelt c c' (s.drain v count).2.2 (s'.drain v count).2.2 := by
  induction count generalizing s s' with
  | zero => exact ⟨rfl, rfl, hs⟩
  | succ count ih =>
    obtain ⟨hanswer, hnext⟩ := hs.poll h v
    obtain ⟨answer, t, hpoll⟩ : ∃ answer t, s.poll v = (answer, t) := ⟨_, _, rfl⟩
    obtain ⟨answer', t', hpoll'⟩ : ∃ answer' t', s'.poll v = (answer', t') := ⟨_, _, rfl⟩
    rw [hpoll, hpoll'] at hanswer hnext
    obtain rfl : answer' = answer := hanswer
    simp only [Subscription.drain, hpoll, hpoll']
    cases answer' with
    | item i =>
      obtain ⟨hitems, hstop, hend⟩ := ih hnext
      exact ⟨congrArg (i :: ·) hitems, hstop, hend⟩
    | pending | ended => exact ⟨rfl, rfl, hnext⟩

end Spelt

end Subscription

/-! ### Asking until there is no item -/

namespace Subscription

variable {v : View} {s : Subscription} {i : Item}

/-- Where there is nothing after the first item this is the only one. -/
theorem drain_of_alone (item : (s.poll v).1.item? = some i)
    (rest : ∃ r : Poll Item, r.item? = none ∧ (s.poll v).2.poll v = (r, (s.poll v).2)) (count : Nat) :
    (s.drain v (count + 1)).1 = [i] ∧ (s.drain v (count + 1)).2.2 = (s.poll v).2 := by
  obtain ⟨r, hr, hrest⟩ := rest
  rw [drain_of_item _ (Prod.ext (Poll.eq_item item) rfl)]
  cases count with
  | zero => exact ⟨rfl, rfl⟩
  | succ count =>
    rw [drain_of_none _ (by rw [hrest]; exact hr), hrest]
    exact ⟨rfl, rfl⟩

end Subscription

/-! ### Progress in two spellings -/

/-- The item is a state that is made up for a code in this spelling. -/
def Item.madeUp (c : String) (i : Item) : Prop := ∃ b, i = .sync (.initial c b)

/-- The items of two subscriptions to the progress of one wallet, in two spellings of its code. They are the
same; or each begins with a state that is made up, the same but for the spelling, and at most one of the two
is then given a state as well that the other was not, since to the other it was not new. -/
inductive Respelt (c c' : String) : List Item → List Item → Prop where
  | same (items : List Item) : Respelt c c' items items
  | madeUp (b : Bool) (items : List Item) :
      Respelt c c' (.sync (.initial c b) :: items) (.sync (.initial c' b) :: items)
  | withheld (b : Bool) {s : SyncState} (known : (SyncState.initial c b).same s = true) (items : List Item) :
      Respelt c c' (.sync (.initial c b) :: items) (.sync (.initial c' b) :: .sync s :: items)
  | repeated (b : Bool) {s : SyncState} (known : (SyncState.initial c' b).same s = true) (items : List Item) :
      Respelt c c' (.sync (.initial c b) :: .sync s :: items) (.sync (.initial c' b) :: items)

namespace Respelt

variable {c c' : String} {items items' : List Item}

theorem append (h : Respelt c c' items items') (more : List Item) : Respelt c c' (items ++ more) (items' ++ more) := by
  cases h with
  | same => exact .same _
  | madeUp b rest => exact .madeUp b _
  | withheld b known rest => exact .withheld b known _
  | repeated b known rest => exact .repeated b known _

theorem symm (h : Respelt c c' items items') : Respelt c' c items' items := by
  cases h with
  | same => exact .same _
  | madeUp b rest => exact .madeUp b _
  | withheld b known rest => exact .repeated b known _
  | repeated b known rest => exact .withheld b known _

end Respelt

namespace SyncFeed

variable {c c' : String} {v : View} {s : SyncFeed}

theorem pollChannel_congr (h : Currency.key c = Currency.key c') (f : Feed) :
    pollChannel c v f = pollChannel c' v f := by
  simp only [pollChannel, Channels.get_congr _ h, h]

/-- Two spellings are answered the same, but where a state is made up. -/
theorem pollOn_congr (h : Currency.key c = Currency.key c') :
    s.pollOn c v = s.pollOn c' v ∨ ∃ (wallet : Feed) (b : Bool), s.waiting = some wallet ∧
      ∀ code, Currency.key c = Currency.key code → s.pollOn code v = (.item (.initial code b), ⟨s.feed, none⟩) := by
  cases hwaiting : s.waiting with
  | none =>
    refine Or.inl ?_
    simp only [pollOn, hwaiting, pollChannel_congr h]
  | some wallet =>
    cases hpolled : wallet.pollWallet c v with
    | mk answer wallet' =>
      have hcongr (code : String) (hcode : Currency.key c = Currency.key code) :
          wallet.pollWallet code v = (answer, wallet') := (wallet.pollWallet_congr v hcode).symm.trans hpolled
      cases answer with
      | item w =>
        refine Or.inr ⟨wallet, w.isSyncing, rfl, fun code hcode => ?_⟩
        simp only [pollOn, hwaiting, hcongr code hcode]
      | pending =>
        refine Or.inl ?_
        simp only [pollOn, hwaiting, hcongr c rfl, hcongr c' h]
      | ended =>
        refine Or.inl ?_
        simp only [pollOn, hwaiting, hcongr c rfl, hcongr c' h, pollChannel_congr h]

theorem poll_congr (h : Currency.key c = Currency.key c') :
    s.poll c v = s.poll c' v ∨ ∃ (wallet feed : Feed) (b : Bool), s.waiting = some wallet ∧
      ∀ code, Currency.key c = Currency.key code → s.poll code v = (.item (.initial code b), ⟨feed, none⟩) := by
  cases hthrottle : s.feed.throttle with
  | some t =>
    rcases pollOn_congr (s := s) (v := v) h with hsame | ⟨wallet, b, hwaiting, hmade⟩
    · simp only [poll, hthrottle]
      exact Or.inl hsame
    · simp only [poll, hthrottle]
      exact Or.inr ⟨wallet, s.feed, b, hwaiting, hmade⟩
  | none =>
    cases hlatest : (v.board.sync.get c).latest with
    | some published =>
      have hlatest' : (v.board.sync.get c').latest = some published := by rw [← Channels.get_congr _ h, hlatest]
      refine Or.inl ?_
      simp only [poll, hthrottle, hlatest', Channels.get_congr _ h]
    | none =>
      obtain ⟨feed, hfeed⟩ : ∃ feed : Feed, feed = { s.feed with throttle := some (.subscribe (v.board.sync.get c)) } :=
        ⟨_, rfl⟩
      have hpoll (code : String) (hcode : Currency.key c = Currency.key code) :
          s.poll code v = SyncFeed.pollOn code v ⟨feed, s.waiting⟩ := by
        have hget := Channels.get_congr v.board.sync hcode
        have hnone : (v.board.sync.get code).latest = none := by rw [← hget, hlatest]
        simp only [poll, hthrottle, hnone, hfeed, hget]
      rcases pollOn_congr (s := ⟨feed, s.waiting⟩) (v := v) h with hsame | ⟨wallet, b, hwaiting, hmade⟩
      · rw [hpoll c rfl, hpoll c' h]
        exact Or.inl hsame
      · exact Or.inr ⟨wallet, feed, b, hwaiting, fun code hcode => (hpoll code hcode).trans (hmade code hcode)⟩

/-- A feed that waits for no wallet makes up nothing. -/
theorem poll_congr_of_known (h : Currency.key c = Currency.key c') (known : s.waiting = none) (v : View) :
    s.poll c v = s.poll c' v := by
  rcases poll_congr (s := s) (v := v) h with hsame | ⟨wallet, _, _, hwaiting, -⟩
  · exact hsame
  · exact nomatch known.symm.trans hwaiting

/-- A feed that gives an item waits no longer. -/
theorem waiting_of_item {code : String} {p : SyncState} (h : (s.poll code v).1 = .item p) :
    (s.poll code v).2.waiting = none := by
  have hon (s : SyncFeed) (h : (s.pollOn code v).1 = .item p) : (s.pollOn code v).2.waiting = none := by
    unfold pollOn at h ⊢
    split
    · rfl
    · split
      · rfl
      · next hpolled =>
        simp only [*] at h
        exact nomatch h
      · rfl
  cases hthrottle : s.feed.throttle with
  | some t =>
    simp only [poll, hthrottle] at h ⊢
    exact hon s h
  | none =>
    cases hlatest : (v.board.sync.get code).latest with
    | some published => simp only [poll, hthrottle, hlatest]
    | none =>
      simp only [poll, hthrottle, hlatest] at h ⊢
      exact hon _ h

/-- Nor does one that reads the channel begin to wait. -/
theorem waiting_of_known (code : String) (v : View) (asked : s.feed.throttle.isSome = true) (known : s.waiting = none) :
    (s.poll code v).2.waiting = none := by
  rw [poll_of_known asked known]
  rfl

end SyncFeed

namespace Subscription

variable {c c' : String} {s s' : Subscription} {items items' : List Item}

/-- How two subscriptions to the progress of one wallet, in two spellings of its code, stand to each other, and
what they have given. -/
inductive Kindred (c c' : String) : Subscription → List Item → Subscription → List Item → Prop where
  /-- Both wait for the wallet. -/
  | waiting {feed : SyncFeed} {wallet : Feed} (waiting : feed.waiting = some wallet) :
      Kindred c c' (.sync c feed none) [] (.sync c' feed none) []
  /-- A state was made up for both. -/
  | madeUp {feed : SyncFeed} (asked : feed.feed.throttle.isSome = true) (known : feed.waiting = none) (b : Bool) :
      Kindred c c' (.sync c feed (some (.initial c b))) [.sync (.initial c b)]
        (.sync c' feed (some (.initial c' b))) [.sync (.initial c' b)]
  /-- Whatever is published will be new to both or to neither. -/
  | settled {feed : SyncFeed} (asked : feed.feed.throttle.isSome = true) (known : feed.waiting = none)
      {last last' : Option SyncState} (alike : ∀ x : SyncState, last.any (·.same x) = last'.any (·.same x))
      {items items' : List Item} (respelt : Respelt c c' items items') :
      Kindred c c' (.sync c feed last) items (.sync c' feed last') items'

namespace Kindred

theorem respelt (hk : Kindred c c' s items s' items') : Respelt c c' items items' := by
  cases hk with
  | waiting => exact .same []
  | madeUp _ _ b => exact .madeUp b []
  | settled _ _ _ respelt => exact respelt

theorem holds_eq (hk : Kindred c c' s items s' items') (h : Currency.key c = Currency.key c') :
    s'.holds = s.holds := by
  cases hk <;> simp only [holds, h]

/-- After a state was made up for both, what comes next can be new to one of them, to both or to none. -/
theorem poll_of_madeUp (h : Currency.key c = Currency.key c') {feed : SyncFeed}
    (asked : feed.feed.throttle.isSome = true) (known : feed.waiting = none) (b : Bool) (v : View) :
    Kindred c c' ((Subscription.sync c feed (some (.initial c b))).poll v).2
      ([.sync (.initial c b)] ++ ((Subscription.sync c feed (some (.initial c b))).poll v).1.item?.toList)
      ((Subscription.sync c' feed (some (.initial c' b))).poll v).2
      ([.sync (.initial c' b)] ++ ((Subscription.sync c' feed (some (.initial c' b))).poll v).1.item?.toList) := by
  have hasked := SyncFeed.isSome_poll c v feed
  have hknown := SyncFeed.waiting_of_known c v asked known
  simp only [Synced.poll_sync, ← h, ← SyncFeed.poll_congr_of_known h known v]
  generalize feed.poll c v = polled at hasked hknown ⊢
  obtain ⟨answer, feed'⟩ := polled
  cases answer with
  | pending | ended => exact .madeUp hasked hknown b
  | item p =>
    simp only [Poll.distinct, Option.any_some, id_eq]
    cases hc : (SyncState.initial c b).same p <;> cases hc' : (SyncState.initial c' b).same p
    · exact .settled hasked hknown (fun _ => rfl) (.madeUp b _)
    · refine .settled hasked hknown (fun x => ?_) ?_
      · exact (SyncState.same_congr hc' x).symm
      · simp only [if_true, Poll.item?_map, Poll.item?_rest]
        exact .repeated b hc' []
    · refine .settled hasked hknown (fun x => ?_) ?_
      · exact SyncState.same_congr hc x
      · simp only [if_true, Poll.item?_map, Poll.item?_rest]
        exact .withheld b hc []
    · simp only [if_true, Poll.item?_map, Poll.item?_rest]
      exact .madeUp hasked hknown b

/-- **What a poll makes of them.** -/
theorem poll (hk : Kindred c c' s items s' items') (h : Currency.key c = Currency.key c') (v : View) :
    Kindred c c' (s.poll v).2 (items ++ (s.poll v).1.item?.toList) (s'.poll v).2
        (items' ++ (s'.poll v).1.item?.toList) ∧
      ((s'.poll v).1 = (s.poll v).1 ∨ ∃ i ∈ items ++ (s.poll v).1.item?.toList, i.madeUp c) := by
  cases hk with
  | @waiting feed wallet hwaiting =>
    have hitem {p : SyncState} (hp : (feed.poll c v).1 = .item p) := SyncFeed.waiting_of_item hp
    have hasked := SyncFeed.isSome_poll c v feed
    simp only [Synced.poll_sync, ← h]
    rcases SyncFeed.poll_congr (s := feed) (v := v) h with hsame | ⟨_, feed', b, -, hmade⟩
    · rw [← hsame]
      generalize feed.poll c v = polled at hitem hasked ⊢
      obtain ⟨answer, feed'⟩ := polled
      cases answer with
      | item p => exact ⟨.settled hasked (hitem rfl) (fun _ => rfl) (.same _), Or.inl rfl⟩
      | pending | ended =>
        refine ⟨?_, Or.inl rfl⟩
        cases hwaiting' : feed'.waiting with
        | none => exact .settled hasked hwaiting' (fun _ => rfl) (.same _)
        | some wallet' => exact .waiting hwaiting'
    · rw [hmade c rfl] at hasked
      rw [hmade c rfl, hmade c' h]
      exact ⟨.madeUp hasked rfl b, Or.inr ⟨_, List.mem_singleton_self _, b, rfl⟩⟩
  | madeUp asked known b =>
    exact ⟨poll_of_madeUp h asked known b v,
      Or.inr ⟨_, List.mem_append_left _ (List.mem_singleton_self _), b, rfl⟩⟩
  | @settled feed asked known last last' alike items items' respelt =>
    have hasked := SyncFeed.isSome_poll c v feed
    have hknown := SyncFeed.waiting_of_known c v asked known
    simp only [Synced.poll_sync, ← h, ← SyncFeed.poll_congr_of_known h known v]
    generalize feed.poll c v = polled at hasked hknown ⊢
    obtain ⟨answer, feed'⟩ := polled
    cases answer with
    | pending | ended => exact ⟨.settled hasked hknown alike (respelt.append _), Or.inl rfl⟩
    | item p =>
      simp only [Poll.distinct, id_eq, ← alike p]
      cases last.any (·.same p) with
      | true => exact ⟨.settled hasked hknown alike (respelt.append _), Or.inl rfl⟩
      | false => exact ⟨.settled hasked hknown (fun _ => rfl) (respelt.append _), Or.inl rfl⟩

theorem symm (hk : Kindred c c' s items s' items') : Kindred c' c s' items' s items := by
  cases hk with
  | waiting waiting => exact .waiting waiting
  | madeUp asked known b => exact .madeUp asked known b
  | settled asked known alike respelt => exact .settled asked known (fun x => (alike x).symm) respelt.symm

/-- What was published comes alone: after an item there is nothing at that time. -/
theorem rest_of_item {feed : SyncFeed} (asked : feed.feed.throttle.isSome = true) (known : feed.waiting = none)
    (last : Option SyncState) (v : View) {i : Item} (h : ((Subscription.sync c feed last).poll v).1 = .item i) :
    ∃ r : Poll Item, r.item? = none ∧ ((Subscription.sync c feed last).poll v).2.poll v =
      (r, ((Subscription.sync c feed last).poll v).2) := by
  obtain ⟨t, ht⟩ := Option.isSome_iff_exists.mp asked
  have hpoll : feed.poll c v = SyncFeed.pollChannel c v feed.feed := SyncFeed.poll_of_known asked known
  rw [SyncFeed.pollChannel, Feed.poll_of_throttle ht] at hpoll
  have hcaught {p : SyncState} (hp : (t.poll feed.feed.period v.now (v.alive (.sync (Currency.key c)))
      (v.board.sync.get c)).1 = .item p) := Throttle.caughtUp_of_item hp
  generalize t.poll feed.feed.period v.now (v.alive (.sync (Currency.key c))) (v.board.sync.get c) = polled
    at hpoll hcaught
  obtain ⟨answer, t'⟩ := polled
  rw [Synced.poll_sync, hpoll] at h ⊢
  cases answer with
  | pending | ended => cases h
  | item p =>
    simp only
    generalize ((Poll.item p).distinct (v.alive (.sync (Currency.key c))) SyncState.same id last).2 = last'
    have hrest : SyncFeed.poll c v ⟨{ feed.feed with throttle := some t' }, none⟩ =
        SyncFeed.pollChannel c v { feed.feed with throttle := some t' } := SyncFeed.poll_of_known rfl rfl
    rw [SyncFeed.pollChannel_rest rfl (hcaught rfl)] at hrest
    refine ⟨(Poll.rest (v.alive (.sync (Currency.key c)))).map .sync, ?_, ?_⟩
    · rw [Poll.item?_map, Poll.item?_rest, Option.map_none]
    · rw [Synced.poll_sync, hrest, Poll.distinct_of_none _ _ _ _ (Poll.item?_rest _)]

/-- Where only one of them gives an item it has nothing more to give. Such feeds do not wait, since those that wait
are answered in one spelling as in the other, but for the code. -/
theorem rest_of_alone (hk : Kindred c c' s items s' items') (h : Currency.key c = Currency.key c') {v : View}
    {i : Item} (nothing : (s.poll v).1.item? = none) (item : (s'.poll v).1.item? = some i) :
    ∃ r : Poll Item, r.item? = none ∧ (s'.poll v).2.poll v = (r, (s'.poll v).2) := by
  cases hk with
  | @waiting feed wallet hwaiting =>
    have hboth : (((Subscription.sync c feed none).poll v).1.item?).isSome =
        (((Subscription.sync c' feed none).poll v).1.item?).isSome := by
      simp only [Synced.poll_sync, ← h]
      rcases SyncFeed.poll_congr (s := feed) (v := v) h with hsame | ⟨_, _, b, -, hmade⟩
      · rw [hsame]
      · rw [hmade c rfl, hmade c' h]
        rfl
    rw [nothing, item] at hboth
    exact nomatch hboth
  | madeUp asked known | settled asked known => exact rest_of_item asked known _ v (Poll.eq_item item)

/-- **What asking for items until there is none makes of them.** -/
theorem drain (hk : Kindred c c' s items s' items') (h : Currency.key c = Currency.key c') (v : View) (count : Nat) :
    Kindred c c' (s.drain v count).2.2 (items ++ (s.drain v count).1) (s'.drain v count).2.2
        (items' ++ (s'.drain v count).1) ∧
      ((s'.drain v count).1 = (s.drain v count).1 ∧ (s'.drain v count).2.1 = (s.drain v count).2.1 ∨
        ∃ i ∈ items ++ (s.drain v count).1, i.madeUp c) := by
  induction count generalizing s s' items items' with
  | zero =>
    simp only [Subscription.drain, List.append_nil]
    exact ⟨hk, Or.inl ⟨trivial, trivial⟩⟩
  | succ count ih =>
    obtain ⟨hnext, hanswer⟩ := hk.poll h v
    cases hi : (s.poll v).1.item? with
    | none =>
      rw [hi, Option.toList_none, List.append_nil] at hnext hanswer
      rw [drain_of_none _ hi, List.append_nil]
      cases hi' : (s'.poll v).1.item? with
      | none =>
        rw [hi', Option.toList_none, List.append_nil] at hnext
        rw [drain_of_none _ hi', List.append_nil]
        exact ⟨hnext, hanswer.imp (fun heq => ⟨rfl, congrArg some heq⟩) id⟩
      | some i' =>
        obtain ⟨hitems, hend⟩ := drain_of_alone hi' (hk.rest_of_alone h hi hi') count
        rw [hi', Option.toList_some] at hnext
        rw [hitems, hend]
        refine ⟨hnext, Or.inr (hanswer.resolve_left fun heq => ?_)⟩
        rw [heq, hi] at hi'
        cases hi'
    | some i =>
      rw [hi, Option.toList_some] at hnext hanswer
      cases hi' : (s'.poll v).1.item? with
      | none =>
        obtain ⟨hitems, hend⟩ := drain_of_alone hi (hk.symm.rest_of_alone h.symm hi' hi) count
        rw [hi', Option.toList_none, List.append_nil] at hnext
        rw [drain_of_none _ hi', hitems, hend, List.append_nil]
        refine ⟨hnext, Or.inr (hanswer.resolve_left fun heq => ?_)⟩
        rw [heq, hi] at hi'
        cases hi'
      | some i' =>
        rw [hi', Option.toList_some] at hnext
        obtain ⟨hend, hsame⟩ := ih hnext
        rw [List.append_assoc, List.append_assoc] at hend
        rw [List.append_assoc] at hsame
        rw [drain_of_item _ (Prod.ext (Poll.eq_item hi) rfl), drain_of_item _ (Prod.ext (Poll.eq_item hi') rfl)]
        refine ⟨hend, ?_⟩
        rcases hanswer with heq | ⟨j, hj, hmade⟩
        · rw [heq, hi] at hi'
          obtain rfl := Option.some.inj hi'
          exact hsame.imp (fun hsame => ⟨congrArg (i :: ·) hsame.1, hsame.2⟩) id
        · refine Or.inr ⟨j, ?_, hmade⟩
          rw [List.append_cons]
          exact List.mem_append_left _ hj

end Kindred

end Subscription

/-! ### Runs -/

namespace Respelt

variable {c c' : String} {k k' : Heard}

/-- What is heard of both alike leaves them so. -/
theorem after (h : Respelt c c' k.items k'.items) (name : String) (e : Move × Reply) :
    Respelt c c' (k.after name e).items (k'.after name e).items := by
  unfold Heard.after
  split
  · split
    · exact .same _
    · exact h
  · split
    · exact h.append _
    · exact h
  · split
    · exact h.append _
    · exact h
  · exact h

theorem foldl (h : Respelt c c' k.items k'.items) (name : String) (past : Past) :
    Respelt c c' (past.foldl (Heard.after name) k).items (past.foldl (Heard.after name) k').items := by
  induction past generalizing k k' with
  | nil => exact h
  | cons e past ih => exact ih (h.after name e)

end Respelt

/-- Two records, after `k` and `k'` were heard of a subscription to progress in two spellings. They are the same
but for what is said to this subscription, and that is the same as long as nothing was made up for it. -/
structure Past.Kindred (name c c' : String) (k k' : Heard) (past past' : Past) : Prop where
  others : past'.filter (fun e => e.1.subscriber? != some name) = past.filter fun e => e.1.subscriber? != some name
  respelt : Respelt c c' (past.foldl (Heard.after name) k).items (past'.foldl (Heard.after name) k').items
  same : (∀ i ∈ k.items, ¬i.madeUp c) → (∀ e ∈ past, ∀ i ∈ (heard name [e]).items, ¬i.madeUp c) → past' = past

namespace Past.Kindred

variable {name c c' : String} {k k' : Heard} {past past' : Past} {m : Move} {r r' : Reply}

theorem refl (h : Respelt c c' k.items k'.items) (past : Past) : Kindred name c c' k k' past past :=
  ⟨rfl, h.foldl name past, fun _ _ => rfl⟩

/-- Something else happens in both. -/
theorem cons (h : Kindred name c c' k k' past past') (silent : ∀ x : Heard, x.after name (m, r) = x) :
    Kindred name c c' k k' ((m, r) :: past) ((m, r) :: past') where
  others := by rw [List.filter_cons, List.filter_cons, h.others]
  respelt := by
    rw [List.foldl_cons, List.foldl_cons, silent, silent]
    exact h.respelt
  same found more := by rw [h.same found fun e he => more e (List.mem_cons_of_mem _ he)]

/-- What is said to the subscription is left out of the rest. -/
theorem filter_cons_of_own (own : m.subscriber? = some name) (r : Reply) (past : Past) :
    ((m, r) :: past).filter (fun e => e.1.subscriber? != some name) =
      past.filter fun e => e.1.subscriber? != some name :=
  List.filter_cons_of_neg (by simp [own])

/-- The subscription is asked, and gives items in both. -/
theorem asked {items items' : List Item} (h : Kindred name c c' (k.hear items) (k'.hear items') past past')
    (own : m.subscriber? = some name) (given : ∀ x : Heard, x.after name (m, r) = x.hear items)
    (given' : ∀ x : Heard, x.after name (m, r') = x.hear items')
    (said : r' = r ∨ ∃ i ∈ k.items ++ items, i.madeUp c) :
    Kindred name c c' k k' ((m, r) :: past) ((m, r') :: past') where
  others := by rw [filter_cons_of_own own, filter_cons_of_own own, h.others]
  respelt := by
    rw [List.foldl_cons, List.foldl_cons, given, given']
    exact h.respelt
  same found more := by
    have hitems : ∀ i ∈ items, ¬i.madeUp c := by
      have hfirst := more _ List.mem_cons_self
      rwa [heard, List.foldl_cons, given, List.foldl_nil, Heard.hear] at hfirst
    have hall : ∀ i ∈ k.items ++ items, ¬i.madeUp c := fun i hi =>
      (List.mem_append.mp hi).elim (found i) (hitems i)
    rw [said.resolve_right fun hmade => hmade.elim fun i hi => hall i hi.1 hi.2,
      h.same hall fun e he => more e (List.mem_cons_of_mem _ he)]

end Past.Kindred

namespace World

variable {φ σ : Type} [WalletSystem σ] [SystemFactory φ σ] [Steering φ σ] {w w' : World φ σ} {name c c' : String}

/-- Whoever subscribes to something else makes a twin. -/
theorem twins_subscribe (w : World φ σ) (name : String) {topic topic' : Topic}
    (kin : Subscription → Subscription → Prop) (needs : topic'.needsHub = topic.needsHub)
    (akin : ∀ period transferPeriod, kin (.create period transferPeriod topic) (.create period transferPeriod topic')) :
    (w.go (.act (.subscribe name topic'))).1 = (w.go (.act (.subscribe name topic))).1 ∧
      (w.go (.act (.subscribe name topic))).2.Twins name kin (w.go (.act (.subscribe name topic'))).2 := by
  cases hhub : w.hub with
  | some h =>
    have hput := Twins.of_put name kin w
      ⟨.create h.config.throttle h.config.transferThrottle topic, w.dropped, none⟩
      (akin h.config.throttle h.config.transferThrottle)
    simp only [amid, hhub] at hput
    simp only [go, act, subscribe, hhub]
    exact ⟨trivial, hput⟩
  | none =>
    cases hneeds : topic.needsHub with
    | true =>
      simp only [go, act, subscribe, hhub, hneeds, needs, if_true]
      exact ⟨trivial, .same⟩
    | false =>
      have hput := Twins.of_put name kin w ⟨.create 0 0 topic, w.dropped, none⟩ (akin 0 0)
      simp only [amid, hhub] at hput
      simp only [go, act, subscribe, hhub, hneeds, needs, Bool.false_eq_true, if_false]
      exact ⟨trivial, hput⟩

/-- Twins in which a subscription is spelt in two ways have the same run. -/
theorem records_of_spelt (h : Currency.key c = Currency.key c') (htwins : w.Twins name (Subscription.Spelt c c') w')
    (moves : List Move) : w'.records moves = w.records moves := by
  induction moves generalizing w w' with
  | nil => rfl
  | cons m moves ih =>
    rcases htwins.parallel (fun _ _ hs => hs.holds_eq h) m with rfl | hparallel
    · rfl
    · rw [records, records]
      cases hparallel with
      | same _ reply twins => rw [reply, ih twins]
      | merged reply world => rw [reply, world]
      | next v akin _ reply reply' twins =>
        obtain ⟨hanswer, hnext⟩ := akin.poll h v
        rw [reply, reply', hanswer, ih (twins _ hnext)]
      | drain v akin _ reply reply' twins =>
        obtain ⟨hitems, hstop, hend⟩ := akin.drain h v drainLimit
        rw [reply, reply', hitems, hstop, ih (twins _ hend)]

/-- Twins in which a subscription to progress is spelt in two ways have kindred records. -/
theorem records_of_kindred (h : Currency.key c = Currency.key c') {k k' : Heard}
    (htwins : w.Twins name (fun s s' => Subscription.Kindred c c' s k.items s' k'.items) w')
    (hk : Respelt c c' k.items k'.items) (moves : List Move) :
    Past.Kindred name c c' k k' (w.records moves) (w'.records moves) := by
  induction moves generalizing w w' k k' with
  | nil => exact .refl hk []
  | cons m moves ih =>
    rcases htwins.parallel (fun _ _ hs => hs.holds_eq h) m with rfl | hparallel
    · exact .refl hk _
    rw [records, records]
    cases hparallel with
    | same silent reply twins =>
      rw [reply]
      exact (ih twins hk).cons silent
    | merged reply world =>
      rw [reply, world]
      exact .refl hk _
    | next v akin asked reply reply' twins =>
      obtain ⟨hend, hanswer⟩ := akin.poll h v
      subst asked
      rw [reply, reply']
      exact (ih (twins _ hend) hend.respelt).asked rfl (fun _ => if_pos rfl) (fun _ => if_pos rfl)
        (hanswer.imp (congrArg Reply.polled) id)
    | drain v akin asked reply reply' twins =>
      obtain ⟨hend, hanswer⟩ := akin.drain h v drainLimit
      subst asked
      rw [reply, reply']
      exact (ih (twins _ hend) hend.respelt).asked rfl (fun _ => if_pos rfl) (fun _ => if_pos rfl)
        (hanswer.imp (fun hsame => by rw [hsame.1, hsame.2]) id)

/-! ### The same answers in all spellings -/

/-- **The letter case of a code does not matter, but where progress is made up.** Whoever subscribes to the
wallet, the transfers, a transfer or the updates of a code is told the same in every spelling, whenever he asks,
and so is everybody else. A subscription to progress is told the same as long as no state is made up for it.
What it gives in two spellings can differ in nothing but that the state that is made up has the code as the
user has spelt it, and that the next one may be given in one spelling only (`Respelt`). -/
theorem told_in_all_spellings (w : World φ σ) (h : Currency.key c = Currency.key c') (name : String)
    (moves : List Move) :
    (∀ topic : Topic, (∀ code, topic ≠ .sync code) →
      (w.records (.act (.subscribe name (topic.respell c')) :: moves)).map Prod.snd =
        (w.records (.act (.subscribe name (topic.respell c)) :: moves)).map Prod.snd) ∧
    let r := w.records (.act (.subscribe name (.sync c)) :: moves)
    let r' := w.records (.act (.subscribe name (.sync c')) :: moves)
    ((∀ e ∈ r, ∀ i ∈ (heard name [e]).items, ¬i.madeUp c) → r'.map Prod.snd = r.map Prod.snd) ∧
      Respelt c c' (heard name r).items (heard name r').items ∧
      r'.filter (fun e => e.1.subscriber? != some name) = r.filter fun e => e.1.subscriber? != some name := by
  refine ⟨fun topic other => ?_, ?_⟩
  · have hneeds : (topic.respell c').needsHub = (topic.respell c).needsHub := by cases topic <;> rfl
    obtain ⟨hreply, htwins⟩ := w.twins_subscribe name (Subscription.Spelt c c') hneeds
      fun period transferPeriod => Subscription.Spelt.create period transferPeriod other
    rw [records, records, List.map_cons, List.map_cons, hreply, records_of_spelt h htwins]
  · have hneeds : (Topic.sync c').needsHub = (Topic.sync c).needsHub := rfl
    obtain ⟨hreply, htwins⟩ := w.twins_subscribe name
      (fun s s' => Subscription.Kindred c c' s Heard.silence.items s' Heard.silence.items) hneeds
      fun period transferPeriod => .waiting rfl
    obtain ⟨hothers, hheard, hsame⟩ := records_of_kindred h htwins (.same _) moves
    have hmade (code : String) (r : Reply) :
        Heard.silence.after name (.act (.subscribe name (.sync code)), r) = .silence := by
      cases r <;> simp only [Heard.after, ite_self]
    refine ⟨fun hfound => ?_, ?_, ?_⟩
    · have hmore := hsame (fun _ hi => (List.not_mem_nil hi).elim) fun e he => hfound e (List.mem_cons_of_mem _ he)
      rw [records, records, List.map_cons, List.map_cons, hreply, hmore]
    · rw [records, records, heard, heard, List.foldl_cons, List.foldl_cons, hmade, hmade]
      exact hheard
    · rw [records, records, Past.Kindred.filter_cons_of_own rfl, Past.Kindred.filter_cons_of_own rfl, hothers]

end World

/-- The hub is open and has a wallet. -/
def stocked : MemoryWorld :=
  (neverOpen.play [.act (.openHub ⟨"alice", ⟨0, 0⟩, [1]⟩),
    .act (.command (.addWallet ⟨"bitcoin", "btc", "Bitcoin", 8⟩)),
    .deliver, .deliver, .deliver, .deliver, .deliver]).2

/-- The subscription is asked before and after the wallet catches up. -/
def askedTwice : List Move :=
  [.act (.next "mine"), .act (.command (.setManagerState "btc" .syncing)), .deliver, .deliver,
    .act (.command (.setManagerState "btc" .connected)), .deliver, .deliver, .act (.next "mine")]

/-- The state that the item tells of. -/
def Item.progress? : Item → Option SyncState
  | .sync s => some s
  | _ => none

/-- The user who spells the code as the wallet does is given one item, and the other one two. -/
theorem progress_tells_the_spelling :
    let r := stocked.records (.act (.subscribe "mine" (.sync "btc")) :: askedTwice)
    let r' := stocked.records (.act (.subscribe "mine" (.sync "BTC")) :: askedTwice)
    Respelt "btc" "BTC" (heard "mine" r).items (heard "mine" r').items ∧
      (heard "mine" r).items.map Item.progress? = [some (.initial "btc" false)] ∧
      (heard "mine" r').items.map Item.progress? = [some (.initial "BTC" false), some (.completed "btc")] := by
  have hkey : Currency.key "btc" = Currency.key "BTC" := by decide +kernel
  refine ⟨(World.told_in_all_spellings stocked hkey "mine" askedTwice).2.2.1, ?_, ?_⟩
  · decide +kernel
  · decide +kernel

end WalletHub
