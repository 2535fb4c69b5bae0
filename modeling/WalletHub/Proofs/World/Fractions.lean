import Mathlib.Data.List.Chain
import WalletHub.Proofs.Number.Fraction
import WalletHub.Proofs.Subscription.Sync
import WalletHub.Proofs.World.Currencies

/-!
# What progress shows

A hub publishes progress at openings and for callbacks of managers (`World.announced`). What it publishes of a
percentage of any size is a fraction from zero to one, and what a subscription gives is one of these states, or
says that nothing or all is done; no two items that come one after the other are the same. Only where a manager
reports a percentage that is no number the state shows none either. Such a state does not even compare as equal to
itself, so it may be given again and again (`Course.progress_shown`).

## What is proved

* `SyncState.shows_progress`: what is shown of a percentage is a fraction, unless the percentage is no number.
* `World.sync_go`: what a move announces for a currency is what comes onto its channel, and `Board.mem_announced`
  says which states these can be.
* `Subscription.given_of_poll`, `Subscription.given_of_drain`: what a stream of progress gives was published last,
  or is what the wallet says.
* `Subscription.Attentive.poll`: no two items of such a stream that follow one another are the same.
* `World.Vouches.go`, `Course.vouches`: what is true of all that is announced is true of all that is newest.
* `Course.progress_shown`: all of this for every course.

`no_number_is_given_twice` is a run in which a percentage that is no number is given again.
-/

namespace WalletHub

/-! ### States -/

namespace SyncState

/-- The states have the same fields, fractions with the same bits. -/
structure Identical (p q : SyncState) : Prop where
  code : p.code = q.code
  fraction : p.fraction.bits? = q.fraction.bits?
  timestamp : p.timestamp = q.timestamp
  syncing : p.syncing = q.syncing

/-- The state shows a fraction, or else no number, which takes what is said in `excuse`. -/
structure Shows (excuse : Prop) (p : SyncState) : Prop where
  canonical : p.fraction.Canonical
  fraction : p.fraction.IsFraction ∨ p.fraction = .nan ∧ excuse

variable {excuse : Prop} {p q : SyncState}

theorem shows_initial (excuse : Prop) (code : String) (syncing : Bool) : (initial code syncing).Shows excuse := by
  cases syncing with
  | true => exact ⟨Binary.canonical_zero, Or.inl Binary.isFraction_zero⟩
  | false => exact ⟨Binary.canonical_one, Or.inl Binary.isFraction_one⟩

theorem progress_nan (code : String) (time : Option Instant) : (progress code .nan time).fraction = .nan :=
  Binary.clamp_nan

/-- Of a percentage that is a number a fraction is shown. -/
theorem isFraction_progress (code : String) {percent : Single} (number : percent ≠ .nan) (time : Option Instant) :
    (progress code percent time).fraction.IsFraction :=
  Binary.isFraction_clamp (Binary.scale_ne_nan number _)

/-- **What is shown of a percentage is a fraction**, unless the percentage is no number. -/
theorem shows_progress (code : String) (percent : Single) (time : Option Instant)
    (excused : percent = .nan → excuse) : (progress code percent time).Shows excuse where
  canonical := by
    show ((percent.scale (1 / 100)).clamp .zero .one).Canonical
    rcases Binary.clamp_cases (percent.scale (1 / 100)) .zero .one with h | h | h
    · rw [h]
      exact Binary.canonical_zero
    · rw [h]
      exact Binary.canonical_one
    · rw [h]
      exact Binary.canonical_scale percent (by norm_num)
  fraction := by
    by_cases hnan : percent = .nan
    · subst hnan
      exact Or.inr ⟨progress_nan code time, excused rfl⟩
    · exact Or.inl (isFraction_progress code hnan time)

/-- States that are the same are taken to be the same, if they show a fraction. -/
theorem Identical.same_of_isFraction (h : p.Identical q) (hp : p.fraction.Canonical) (hq : q.fraction.Canonical)
    (number : p.fraction.IsFraction) : p.same q = true := by
  have hfraction : q.fraction = p.fraction := (Binary.bits?_injective hp hq h.fraction).symm
  simp only [same, h.code, h.timestamp, h.syncing, hfraction, Binary.same_self number.ne_nan, beq_self_eq_true,
    Bool.and_self]

/-- A state that shows no number is given. -/
theorem distinct_of_nan (hp : p.fraction = .nan) (alive : Bool) (last : Option SyncState) :
    ((Poll.item p).distinct alive same id last).1 = .item p := by
  rcases distinct_cases alive last p with hgiven | ⟨i, -, hsame, -⟩
  · rw [hgiven]
  · have hnot : i.fraction.same .nan = false := by cases i.fraction <;> rfl
    simp only [same, hp, hnot, Bool.and_false, Bool.false_and] at hsame
    cases hsame

/-- Publishes some states, one after the other. -/
def publish (states : List SyncState) (cs : Channels SyncState) : Channels SyncState :=
  states.foldl (fun cs p => cs.offer p.code p) cs

variable {states : List SyncState} {code : String}

theorem publish_append (states states' : List SyncState) (cs : Channels SyncState) :
    publish (states ++ states') cs = publish states' (publish states cs) :=
  List.foldl_append

/-- States of one currency come onto its channel. -/
theorem get_publish (own : ∀ p ∈ states, Currency.key p.code = Currency.key code) (cs : Channels SyncState) :
    (publish states cs).get code = states.foldl (fun c p => Channel.offer p c) (cs.get code) := by
  induction states generalizing cs with
  | nil => rfl
  | cons p states ih =>
    have hp : Currency.key p.code = Currency.key code := own p List.mem_cons_self
    have hfirst : (cs.offer p.code p).get code = Channel.offer p (cs.get code) := by
      rw [Channels.get_offer, if_pos hp.symm, Channels.get_congr cs hp]
    rw [List.foldl_cons, ← hfirst]
    exact ih (fun q hq => own q (List.mem_cons_of_mem p hq)) _

end SyncState

/-- What was published last was there before, or is among what was published. -/
theorem Channel.mem_of_latest {α : Type} {as : List α} {c : Channel α} {a : α}
    (h : (as.foldl (fun c a => Channel.offer a c) c).latest = some a) : a ∈ as ∨ c.latest = some a := by
  induction as generalizing c with
  | nil => exact Or.inr h
  | cons first as ih =>
    rcases ih h with hmem | hlatest
    · exact Or.inl (List.mem_cons_of_mem first hmem)
    · obtain rfl := Option.some.inj hlatest
      exact Or.inl List.mem_cons_self

/-! ### What is announced -/

/-- The entry is about a currency. -/
def Entry.IsAbout (code : String) : Entry → Prop
  | .opened wallets => ∀ w ∈ wallets, w.currency.hasCode code = true
  | .told callback => callback.isAbout code = true

namespace Board

/-- The states that are published when the wallets of an opening come, one after the other. -/
def stale (b : Board) : List Wallet → List SyncState
  | [] => []
  | w :: ws => (b.staleSync w).toList ++ (b.refresh w).stale ws

/-- The states that are published when an entry is made. -/
def states (b : Board) : Entry → List SyncState
  | .opened wallets => b.stale wallets
  | .told callback => callback.progress.map Prod.snd

/-- The states that are published when some entries are made, the oldest first. -/
def announced (b : Board) : List Entry → List SyncState
  | [] => []
  | e :: es => b.states e ++ (b.enter e).announced es

variable {b : Board} {code : String} {p : SyncState}

theorem eq_initial_of_staleSync {w : Wallet} (h : b.staleSync w = some p) : p = .initial w.code w.isSyncing := by
  unfold staleSync at h
  split at h
  · split at h
    · cases h
    · exact (Option.some.inj h).symm
  · cases h

theorem sync_refresh (b : Board) (w : Wallet) :
    (b.refresh w).sync = SyncState.publish (b.staleSync w).toList b.sync := by
  cases hstale : b.staleSync w with
  | none => simp only [refresh, hstale, Option.toList_none, SyncState.publish, List.foldl_nil]
  | some p =>
    obtain rfl := eq_initial_of_staleSync hstale
    simp only [refresh, hstale, Option.toList_some, SyncState.publish, List.foldl_cons, List.foldl_nil]
    rfl

theorem sync_foldl_refresh (ws : List Wallet) (b : Board) :
    (ws.foldl refresh b).sync = SyncState.publish (b.stale ws) b.sync := by
  induction ws generalizing b with
  | nil => rfl
  | cons w ws ih =>
    rw [List.foldl_cons, ih, sync_refresh, stale, SyncState.publish_append]

/-- **What an entry publishes** of progress. -/
theorem sync_enter (b : Board) (e : Entry) : (b.enter e).sync = SyncState.publish (b.states e) b.sync := by
  cases e with
  | opened ws => exact sync_foldl_refresh ws b
  | told c =>
    have hreceived : (b.receive [] c).sync = c.progress.foldl (fun cs u => cs.offer u.1 u.2) b.sync :=
      progressNews.received [] b c
    rw [enter, hreceived]
    cases c with
    | manager m event =>
      simp only [states, Callback.progress, SyncState.publish, List.map_map, List.foldl_map, Function.comp_apply]
    | _ => rfl

theorem sync_foldl_enter (es : List Entry) (b : Board) :
    (es.foldl enter b).sync = SyncState.publish (b.announced es) b.sync := by
  induction es generalizing b with
  | nil => rfl
  | cons e es ih =>
    rw [List.foldl_cons, ih, sync_enter, announced, SyncState.publish_append]

theorem mem_stale {ws : List Wallet} (h : p ∈ b.stale ws) : ∃ w ∈ ws, p = .initial w.code w.isSyncing := by
  induction ws generalizing b with
  | nil => cases h
  | cons w ws ih =>
    rcases List.mem_append.mp h with hfirst | hrest
    · exact ⟨w, List.mem_cons_self, eq_initial_of_staleSync (Option.mem_toList.mp hfirst)⟩
    · obtain ⟨w', hw', hp⟩ := ih hrest
      exact ⟨w', List.mem_cons_of_mem w hw', hp⟩

end Board

/-- What a callback tells of progress: that nothing or all is done, or a percentage. -/
theorem Callback.mem_progress {c : Callback} {p : SyncState} (h : p ∈ c.progress.map Prod.snd) :
    (∃ code syncing, p = .initial code syncing) ∨
      ∃ manager time percent, c = .manager manager (.syncProgress time percent) ∧
        p = .progress manager.currency.code percent time := by
  obtain ⟨u, hu, rfl⟩ := List.mem_map.mp h
  cases c with
  | manager m event =>
    obtain ⟨p, hp, rfl⟩ := List.mem_map.mp hu
    cases event with
    | syncProgress time percent => exact Or.inr ⟨m, time, percent, rfl, List.mem_singleton.mp hp⟩
    | changed old new =>
      rcases List.mem_append.mp hp with hold | hnew
      · split at hold
        · exact Or.inl ⟨_, _, List.mem_singleton.mp hold⟩
        · cases hold
      · split at hnew
        · exact Or.inl ⟨_, _, List.mem_singleton.mp hnew⟩
        · cases hnew
    | _ => cases hp
  | _ => cases hu

namespace Board

variable {b : Board} {code : String} {p : SyncState} {es : List Entry}

/-- **All that is announced** says that nothing or all is done, or shows a percentage that was told. -/
theorem mem_announced (h : p ∈ b.announced es) :
    (∃ code syncing, p = .initial code syncing) ∨
      ∃ manager time percent, .told (.manager manager (.syncProgress time percent)) ∈ es ∧
        p = .progress manager.currency.code percent time := by
  induction es generalizing b with
  | nil => cases h
  | cons e es ih =>
    rcases List.mem_append.mp h with hfirst | hrest
    · cases e with
      | opened ws =>
        obtain ⟨w, -, rfl⟩ := mem_stale hfirst
        exact Or.inl ⟨_, _, rfl⟩
      | told c =>
        rcases Callback.mem_progress hfirst with hinitial | ⟨manager, time, percent, rfl, rfl⟩
        · exact Or.inl hinitial
        · exact Or.inr ⟨manager, time, percent, List.mem_cons_self, rfl⟩
    · rcases ih hrest with hinitial | ⟨manager, time, percent, hmem, rfl⟩
      · exact Or.inl hinitial
      · exact Or.inr ⟨manager, time, percent, List.mem_cons_of_mem e hmem, rfl⟩

/-- Every percentage that is told is announced. -/
theorem progress_mem_announced {manager : Manager} {time : Option Instant} {percent : Single} (b : Board)
    (told : .told (.manager manager (.syncProgress time percent)) ∈ es) :
    .progress manager.currency.code percent time ∈ b.announced es := by
  induction es generalizing b with
  | nil => cases told
  | cons e es ih =>
    rcases List.mem_cons.mp told with rfl | hrest
    · exact List.mem_append_left _ (List.mem_singleton.mpr rfl)
    · exact List.mem_append_right _ (ih _ hrest)

/-- What is announced by entries about a currency is of this currency. -/
theorem key_of_mem_announced (about : ∀ e ∈ es, e.IsAbout code) (h : p ∈ b.announced es) :
    Currency.key p.code = Currency.key code := by
  induction es generalizing b with
  | nil => cases h
  | cons e es ih =>
    have hfirst := about e List.mem_cons_self
    rcases List.mem_append.mp h with hp | hrest
    · cases e with
      | opened ws =>
        obtain ⟨w, hw, rfl⟩ := mem_stale hp
        exact (Currency.hasCode_iff _ _).mp (hfirst w hw)
      | told c =>
        obtain ⟨u, hu, rfl⟩ := List.mem_map.mp hp
        have hown : c.code? = some u.1 := progressNews.own c u hu
        have hcode : u.2.code = u.1 := by
          cases c with
          | manager m event =>
            obtain ⟨p, -, rfl⟩ := List.mem_map.mp hu
            rfl
          | _ => cases hu
        have habout : c.isAbout code = true := hfirst
        rw [Callback.isAbout, hown, Option.any_some, beq_iff_eq] at habout
        rw [hcode, habout]
    · exact ih (fun e' he' => about e' (List.mem_cons_of_mem e he')) hrest

/-- Whatever is newest for a currency has the property. -/
def Newest (code : String) (holds : SyncState → Prop) (b : Board) : Prop :=
  ∀ p, (b.sync.get code).latest = some p → holds p

end Board

/-! ### What a subscription gives -/

/-- What a feed without a seed gives is what is newest on the channel. -/
theorem Feed.latest_of_poll {α : Type} {f : Feed} {now : Nat} {alive : Bool} {c : Channel α} {a : α}
    (h : (f.poll now alive c none).1.item? = some a) : c.latest = some a := by
  cases hthrottle : f.throttle with
  | none =>
    have hrest : (f.poll now alive c none).1 = .rest alive := by simp only [poll, hthrottle]
    rw [hrest, Poll.item?_rest] at h
    cases h
  | some t =>
    rw [poll_of_throttle hthrottle] at h
    rcases Throttle.poll_eq_emit_or f.period now alive c t with hemit | hnone
    · simp only [hemit, Throttle.emit] at h
      split at h
      · next hlatest => rw [hlatest, ← h, Poll.item?]
      · cases h
    · rw [hnone] at h
      cases h

namespace SyncFeed

variable {code : String} {v : View} {s : SyncFeed} {p : SyncState}

theorem given_of_pollOn (h : (s.pollOn code v).1.item? = some p) :
    (∃ syncing, p = .initial code syncing) ∨ (v.board.sync.get code).latest = some p := by
  have hchannel (h : (pollChannel code v s.feed).1.item? = some p) :
      (∃ syncing, p = .initial code syncing) ∨ (v.board.sync.get code).latest = some p :=
    Or.inr (Feed.latest_of_poll h)
  unfold pollOn at h
  split at h
  · exact hchannel h
  · split at h
    · exact Or.inl ⟨_, (Option.some.inj h).symm⟩
    · cases h
    · exact hchannel h

/-- **What a feed of progress gives** is what was published last, or what the wallet says. -/
theorem given_of_poll (h : (s.poll code v).1.item? = some p) :
    (∃ syncing, p = .initial code syncing) ∨ (v.board.sync.get code).latest = some p := by
  unfold SyncFeed.poll at h
  split at h
  · exact given_of_pollOn h
  · simp only at h
    split at h
    · next hlatest => exact Or.inr (hlatest.trans h)
    · exact given_of_pollOn h

end SyncFeed

namespace Subscription

variable {code : String} {v : View} {s : Subscription} {p : SyncState}

theorem given_of_poll (topic : s.topic = .sync code) (h : (s.poll v).1.item? = some (.sync p)) :
    (∃ syncing, p = .initial code syncing) ∨ (v.board.sync.get code).latest = some p := by
  cases s with
  | sync own feed last =>
    obtain rfl : own = code := Topic.sync.inj topic
    rw [Synced.poll_sync, Poll.item?_map] at h
    obtain ⟨q, hq, hp⟩ := Option.map_eq_some_iff.mp h
    obtain rfl := Item.sync.inj hp
    cases hitem : (feed.poll own v).1.item? with
    | none =>
      rw [Poll.distinct_of_none _ _ _ _ hitem, hitem] at hq
      cases hq
    | some a =>
      rw [Poll.eq_item hitem] at hq
      rcases SyncState.distinct_cases (v.alive (.sync (Currency.key own))) last a with hgiven | ⟨-, -, -, hdropped⟩
      · rw [hgiven] at hq
        obtain rfl : a = q := Option.some.inj hq
        exact SyncFeed.given_of_poll hitem
      · rw [hdropped, Poll.item?_rest] at hq
        cases hq
  | _ => cases topic

/-- So is all that is given until there is no item. -/
theorem given_of_drain (topic : s.topic = .sync code) {count : Nat} (h : .sync p ∈ (s.drain v (count + 1)).1) :
    (∃ syncing, p = .initial code syncing) ∨ (v.board.sync.get code).latest = some p := by
  have hkeeps := keeps_drain (s := s) (v := v) (k := .silence)
    (fun s k => s.topic = .sync code ∧ ∀ p, .sync p ∈ k.items →
      (∃ syncing, p = .initial code syncing) ∨ (v.board.sync.get code).latest = some p)
    (fun s k hs => by
      refine ⟨(topic_poll v s).trans hs.1, fun p hp => ?_⟩
      rcases List.mem_append.mp hp with hbefore | hgiven
      · exact hs.2 p hbefore
      · exact given_of_poll hs.1 (Option.mem_toList.mp hgiven))
    count ⟨topic, nofun⟩
  exact hkeeps.2 p h

theorem drain_one (v : View) (s : Subscription) :
    (s.drain v 1).1 = (s.poll v).1.item?.toList ∧ (s.drain v 1).2.2 = (s.poll v).2 := by
  cases hitem : (s.poll v).1.item? with
  | none =>
    rw [drain_of_none 0 hitem]
    exact ⟨rfl, rfl⟩
  | some i =>
    rw [drain_of_item 0 (Prod.ext (Poll.eq_item hitem) rfl)]
    exact ⟨rfl, rfl⟩

/-- Where the subscription is one to progress it remembers the last item, and no two items one after the other
are taken to be the same. -/
def Attentive (k : Heard) : Subscription → Prop
  | .sync _ _ last => k.items.getLast? = last.map Item.sync ∧
      k.items.IsChain fun i j => ∀ p q, i = .sync p → j = .sync q → p.same q = false
  | _ => True

/-- Two items one after the other are not taken to be the same. -/
theorem Attentive.not_same {k : Heard} (h : s.Attentive k) (topic : s.topic = .sync code) {before after : List Item}
    {p q : SyncState} (items : k.items = before ++ .sync p :: .sync q :: after) : p.same q = false := by
  cases s with
  | sync own feed last =>
    have hchain := h.2
    rw [items, List.isChain_append_cons_cons] at hchain
    exact hchain.2.1 p q rfl rfl
  | _ => cases topic

theorem attentive_create (period transferPeriod : Nat) (topic : Topic) :
    (create period transferPeriod topic).Attentive .silence := by
  cases topic with
  | sync => exact ⟨rfl, .nil⟩
  | _ => trivial

/-- **A poll keeps the subscription attentive.** -/
theorem Attentive.poll {k : Heard} (h : s.Attentive k) (v : View) :
    (s.poll v).2.Attentive (k.hear (s.poll v).1.item?.toList) := by
  cases s with
  | sync code feed last =>
    obtain ⟨hlast, hchain⟩ := h
    rw [Synced.poll_sync]
    generalize feed.poll code v = polled
    obtain ⟨answer, feed'⟩ := polled
    have hsilent : Attentive (k.hear []) (.sync code feed' last) := by
      rw [Attentive, Heard.hear, List.append_nil]
      exact ⟨hlast, hchain⟩
    cases hitem : answer.item? with
    | none =>
      rw [Poll.distinct_of_none _ _ _ _ hitem, Poll.item?_map, hitem]
      exact hsilent
    | some a =>
      obtain rfl := Poll.eq_item hitem
      by_cases hsame : last.any (fun i => i.same a) = true
      · simp only [Poll.distinct, id, hsame, if_true, Poll.item?_map, Poll.item?_rest]
        exact hsilent
      · simp only [Poll.distinct, id, hsame]
        refine ⟨List.getLast?_concat, List.isChain_append.mpr ⟨hchain, List.isChain_singleton _, ?_⟩⟩
        intro i hi j hj p q hp hq
        subst hp hq
        rw [hlast] at hi
        obtain ⟨p', hp', hp⟩ := Option.map_eq_some_iff.mp hi
        obtain rfl := Item.sync.inj hp
        obtain rfl : a = q := Item.sync.inj (Option.some.inj hj)
        rw [hp', Option.any_some] at hsame
        exact Bool.eq_false_iff.mpr hsame
  | enabled seen =>
    simp only [Subscription.poll]
    split <;> trivial
  | _ => trivial

end Subscription

/-! ### Runs -/

variable {φ σ : Type} [WalletSystem σ] [SystemFactory φ σ] [Steering φ σ]

namespace World

variable {code name : String} {w w' : World φ σ} {m : Move} {r : Reply} {k : Heard} {holds : SyncState → Prop}

/-- What is noted at the moves of a run, the oldest first. -/
def along {α : Type} (noted : World φ σ → Move → List α) (w : World φ σ) : List Move → List α
  | [] => []
  | m :: moves => noted w m ++ (w.go m).2.along noted moves

theorem along_concat {α : Type} (noted : World φ σ → Move → List α) (w : World φ σ) (moves : List Move) (m : Move) :
    w.along noted (moves ++ [m]) = w.along noted moves ++ noted (w.after moves) m := by
  induction moves generalizing w with
  | nil => simp only [List.nil_append, along, after, List.append_nil]
  | cons first moves ih => rw [List.cons_append, along, along, ih, after, List.append_assoc]

theorem mem_along {α : Type} {noted : World φ σ → Move → List α} {w : World φ σ} {moves : List Move} {a : α} :
    a ∈ w.along noted moves ↔ ∃ before m after, moves = before ++ m :: after ∧ a ∈ noted (w.after before) m := by
  induction moves generalizing w with
  | nil => simp [along]
  | cons first moves ih =>
    rw [along, List.mem_append, ih]
    constructor
    · rintro (hfirst | ⟨before, m, after, rfl, hm⟩)
      · exact ⟨[], first, moves, rfl, hfirst⟩
      · exact ⟨first :: before, m, after, rfl, hm⟩
    · rintro ⟨before, m, after, hmoves, hm⟩
      cases before with
      | nil =>
        obtain ⟨rfl, rfl⟩ := List.cons.inj hmoves
        exact Or.inl hm
      | cons first' before =>
        obtain ⟨rfl, rfl⟩ := List.cons.inj hmoves
        exact Or.inr ⟨before, m, after, rfl, hm⟩

/-- The states of progress that a move publishes for a currency. -/
def announced (code : String) (w : World φ σ) (m : Move) : List SyncState :=
  (w.shown.getD .empty).announced (w.entries code m)

/-- The entries for a currency are about it. -/
theorem about_entries (w : World φ σ) (m : Move) : ∀ e ∈ w.entries code m, e.IsAbout code := by
  have hnoted (callbacks : List Callback) : ∀ e ∈ w.noted code callbacks, e.IsAbout code := by
    intro e he
    unfold noted at he
    split at he
    · obtain ⟨c, hc, rfl⟩ := List.mem_map.mp he
      exact (Bool.and_eq_true_iff.mp (List.mem_filter.mp hc).2).2
    · cases he
  cases m with
  | act a =>
    cases a with
    | openHub account =>
      intro e he
      simp only [entries] at he
      split at he
      · obtain rfl := List.mem_singleton.mp he
        exact fun x hx => (List.mem_filter.mp hx).2
      · cases he
    | _ => exact hnoted _
  | deliver | task | forget => exact hnoted _

/-- **What is announced is what comes onto the channel** of the currency, as long as the hub is there. -/
theorem sync_go (code : String) (w : World φ σ) {m : Move} (kept : m.drops = false) {b' : Board}
    (hb' : (w.go m).2.shown = some b') : ∃ b, w.shown = some b ∧
    b'.sync.get code = (w.announced code m).foldl (fun c p => Channel.offer p c) (b.sync.get code) := by
  obtain ⟨b, hb, hsame⟩ := w.shows_go kept b' hb'
  refine ⟨b, hb, ?_⟩
  rw [hsame.sync, Board.sync_foldl_enter, announced, hb, Option.getD_some]
  exact SyncState.get_publish (fun p hp => Board.key_of_mem_announced (w.about_entries m) hp) b.sync

/-- What becomes of the subscriber of a name, and what is heard of it by then. -/
inductive Lot (name : String) (w : World φ σ) (k : Heard) : Subscriber → Heard → Prop where
  | left {s : Subscriber} (made : w.subscribers.lookup name = some s) : Lot name w k s k
  /-- The hub is dropped. -/
  | bereft {s : Subscriber} {b : Board} (made : w.subscribers.lookup name = some s) (shown : w.shown = some b) :
      Lot name w k { s with frozen := s.frozen.or (some b) } k
  | made (subscription : Subscription) (hub : Nat) : Lot name w k ⟨subscription, hub, none⟩ .silence
  /-- It is asked for items, until there is none or for some time. -/
  | asked {s : Subscriber} (made : w.subscribers.lookup name = some s) (count : Nat) :
      Lot name w k { s with subscription := (s.subscription.drain (w.view name s) (count + 1)).2.2 }
        (k.hear (s.subscription.drain (w.view name s) (count + 1)).1)

/-- **Nothing else becomes of a subscriber.** -/
theorem lot_go (moved : w.go m = (r, w')) {s' : Subscriber} (made' : w'.subscribers.lookup name = some s') :
    Lot name w k s' (k.after name (m, r)) := by
  have hput {other : String} {x : Subscriber} {k' : Heard}
      (subscribers : w'.subscribers = Entries.put other x w.subscribers) (own : name = other → Lot name w k x k')
      (others : name ≠ other → k' = k) : Lot name w k s' k' := by
    rw [subscribers, Entries.lookup_put] at made'
    by_cases hname : name = other
    · rw [if_pos hname] at made'
      obtain rfl := Option.some.inj made'
      exact own hname
    · rw [if_neg hname] at made'
      rw [others hname]
      exact .left made'
  cases Upshot.upshot_go moved with
  | stay _ _ subscribers _ unheard | change _ _ _ _ subscribers _ unheard | make _ _ _ subscribers _ unheard =>
    rw [unheard]
    exact .left (subscribers ▸ made')
  | drop hub _ _ frozen _ unheard =>
    rw [unheard]
    rw [frozen] at made'
    obtain ⟨s, hs, rfl⟩ := Option.map_eq_some_iff.mp made'
    exact .bereft hs (by rw [shown, hub]; rfl)
  | @unsubscribe other _ subscribers unheard =>
    rw [unheard]
    rw [subscribers, Entries.lookup_drop] at made'
    split at made'
    · cases made'
    · exact .left made'
  | @subscribe h other topic made hub still subscribers =>
    obtain ⟨rfl, rfl⟩ := made
    refine hput subscribers ?_ fun hname => if_neg (Ne.symm hname)
    rintro rfl
    rw [Heard.after, if_pos rfl]
    exact .made _ _
  | @subscribeAlone other topic made alone hub still subscribers =>
    obtain ⟨rfl, rfl⟩ := made
    refine hput subscribers ?_ fun hname => if_neg (Ne.symm hname)
    rintro rfl
    rw [Heard.after, if_pos rfl]
    exact .made _ _
  | @next other s made asked still subscribers =>
    obtain ⟨rfl, rfl⟩ := asked
    refine hput subscribers ?_ fun hname => if_neg (Ne.symm hname)
    rintro rfl
    obtain ⟨hitems, hlast⟩ := s.subscription.drain_one (w.view name s)
    rw [Heard.after, if_pos rfl, ← hitems, ← hlast]
    exact .asked made 0
  | @drain other s made asked still subscribers =>
    obtain ⟨rfl, rfl⟩ := asked
    refine hput subscribers ?_ fun hname => if_neg (Ne.symm hname)
    rintro rfl
    rw [Heard.after, if_pos rfl]
    exact .asked made 19

/-- All that is newest for a currency has the property, on the board of the hub and on the one that the subscriber
of a name keeps, and so has all that was given of it. -/
structure Vouches (code name : String) (holds : SyncState → Prop) (w : World φ σ) (k : Heard) : Prop where
  hub : ∀ b, w.shown = some b → b.Newest code holds
  frozen : ∀ s, w.subscribers.lookup name = some s → ∀ b, s.frozen = some b → b.Newest code holds
  given : ∀ s, w.subscribers.lookup name = some s → s.subscription.topic = .sync code →
    ∀ p, .sync p ∈ k.items → holds p

omit [WalletSystem σ] [SystemFactory φ σ] [Steering φ σ] in
/-- Where nothing has happened there is nothing to vouch for. -/
theorem vouches_start {config : Config} {factory : φ} {disk : Disk} {wall : Instant} {enabled : List String}
    {withHub : Bool} (holds : SyncState → Prop) :
    (World.start config factory disk wall enabled withHub : World φ σ).Vouches code name holds .silence where
  hub := by
    intro b hb p hp
    have hboard : b = .empty := by
      rw [shown, start] at hb
      cases withHub with
      | true => exact (Option.some.inj hb).symm
      | false => cases hb
    subst hboard
    cases hp
  frozen s hs := by cases hs
  given s hs := by cases hs

omit [SystemFactory φ σ] [Steering φ σ] in
/-- What a subscriber reads has the property. -/
theorem Vouches.view (h : w.Vouches code name holds k) {s : Subscriber} (made : w.subscribers.lookup name = some s) :
    (w.view name s).board.Newest code holds := by
  rw [(w.board_view name s).1, boardFor]
  cases hfrozen : s.frozen with
  | some b => exact h.frozen s made b hfrozen
  | none =>
    cases hhub : w.hub with
    | some hub => exact h.hub hub.board (by rw [shown, hhub]; rfl)
    | none =>
      intro p hp
      cases hp

/-- **Every move keeps this**, if all that is announced has the property. -/
theorem Vouches.go (h : w.Vouches code name holds k) (initial : ∀ syncing, holds (.initial code syncing))
    (announced : ∀ p ∈ w.announced code m, holds p) (moved : w.go m = (r, w')) :
    w'.Vouches code name holds (k.after name (m, r)) where
  hub := by
    intro b' hb' p hp
    obtain rfl : w' = (w.go m).2 := by rw [moved]
    cases hdrops : m.drops with
    | true =>
      obtain rfl := w.shown_drops hdrops hb'
      cases hp
    | false =>
      obtain ⟨b, hb, hget⟩ := w.sync_go code hdrops hb'
      rw [hget] at hp
      rcases Channel.mem_of_latest hp with hnew | hold
      · exact announced p hnew
      · exact h.hub b hb p hold
  frozen := by
    intro s' made' b hb
    have hlot : Lot name w k s' (k.after name (m, r)) := lot_go moved made'
    generalize k.after name (m, r) = k' at hlot
    cases hlot with
    | left made => exact h.frozen s' made b hb
    | @bereft s b₁ made shown =>
      cases hfrozen : s.frozen with
      | some b₂ =>
        rw [hfrozen, Option.some_or] at hb
        exact h.frozen s made b (hfrozen.trans hb)
      | none =>
        rw [hfrozen, Option.none_or] at hb
        exact h.hub b (shown.trans hb)
    | made => cases hb
    | asked made => exact h.frozen _ made b hb
  given := by
    intro s' made' topic p hp
    have hlot : Lot name w k s' (k.after name (m, r)) := lot_go moved made'
    generalize k.after name (m, r) = k' at hlot hp
    cases hlot with
    | left made => exact h.given s' made topic p hp
    | bereft made => exact h.given _ made topic p hp
    | made => cases hp
    | @asked s made count =>
      have htopic : s.subscription.topic = .sync code := (Subscription.topic_drain _ _ _).symm.trans topic
      rcases List.mem_append.mp hp with hbefore | hnow
      · exact h.given s made htopic p hbefore
      · rcases Subscription.given_of_drain htopic hnow with ⟨syncing, rfl⟩ | hlatest
        · exact initial syncing
        · exact h.view made p hlatest

/-- What stays true of a subscriber to progress. -/
theorem attends_attentive (name : String) (topic : Topic) :
    World.Attends (fun _ : World φ σ => True) name topic fun _ s k => s.subscription.Attentive k where
  create _ := Subscription.attentive_create _ _ topic
  alone _ _ := Subscription.attentive_create _ _ topic
  poll _ h := h.poll _
  leave _ leaves h := leaves.subscription ▸ h

end World

/-! ### Courses -/

namespace World

/-- The hub was told, for a currency, of a percentage that is no number. -/
def Unnumbered (code : String) (start : World φ σ) (past : Past) : Prop :=
  ∃ manager time, .told (.manager manager (.syncProgress time .nan)) ∈
    start.along (entries code) (past.map Prod.fst)

/-- What is known of the progress of a currency in a run: of the states that the hub publishes, one by one, and of
the items that a subscription has given. -/
structure ShowsProgress (code : String) (start : World φ σ) (past : Past) (w : World φ σ) : Prop where
  /-- What is announced is what comes onto the channel, as long as the hub is there. -/
  onChannel : ∀ m, m.drops = false → ∀ b', (w.go m).2.shown = some b' → ∃ b, w.shown = some b ∧
    b'.sync.get code = (w.announced code m).foldl (fun c p => Channel.offer p c) (b.sync.get code)
  published : ∀ p ∈ start.along (announced code) (past.map Prod.fst),
    p.fraction.IsFraction ∨ p.fraction = .nan ∧ start.Unnumbered code past
  /-- Some state shows no number, if a percentage was none. -/
  unnumbered : start.Unnumbered code past →
    ∃ p ∈ start.along (announced code) (past.map Prod.fst), p.fraction = .nan
  given : ∀ name s, w.subscribers.lookup name = some s → s.subscription.topic = .sync code →
    ∀ p, .sync p ∈ (heard name past).items →
      p.fraction.IsFraction ∨ p.fraction = .nan ∧ start.Unnumbered code past
  /-- No fraction is given twice in a row with all else the same. -/
  distinct : ∀ name s, w.subscribers.lookup name = some s → s.subscription.topic = .sync code →
    ∀ before p q after, (heard name past).items = before ++ .sync p :: .sync q :: after → p.Identical q →
      p.fraction = .nan
  /-- A state that shows no number is given whenever it comes. -/
  repeated : ∀ name s, w.subscribers.lookup name = some s → ∀ feed last, s.subscription = .sync code feed last →
    ∀ p, (feed.poll code (w.view name s)).1 = .item p → p.fraction = .nan →
      (w.go (.act (.next name))).1 = .polled (.item (.sync p))

end World

namespace Course

variable {start w : World φ σ} {past : Past} {code name : String}

/-- **What is newest, and what is given, has every property of what is announced**, if the state of a wallet that
has reported nothing has it. -/
theorem vouches {holds : SyncState → Prop} (course : Course start past w)
    (first : start.Vouches code name holds .silence) (initial : ∀ syncing, holds (.initial code syncing))
    (announced : ∀ p ∈ start.along (World.announced code) (past.map Prod.fst), holds p) :
    w.Vouches code name holds (heard name past) := by
  induction course with
  | start => exact first
  | @move past w w' course m r moved ih =>
    rw [List.map_append, List.map_singleton, World.along_concat, ← course.eq_after] at announced
    rw [heard_snoc]
    exact (ih fun p hp => announced p (List.mem_append_left _ hp)).go initial
      (fun p hp => announced p (List.mem_append_right _ hp)) moved

/-- What is announced in a run says that nothing or all is done, or shows a percentage that was told. -/
theorem announced_cases {moves : List Move} {p : SyncState} (h : p ∈ start.along (World.announced code) moves) :
    (∃ own syncing, p = .initial own syncing) ∨
      ∃ manager time percent,
        .told (.manager manager (.syncProgress time percent)) ∈ start.along (World.entries code) moves ∧
          p = .progress manager.currency.code percent time := by
  obtain ⟨before, m, after, hmoves, hp⟩ := World.mem_along.mp h
  rcases Board.mem_announced hp with hinitial | ⟨manager, time, percent, hmem, rfl⟩
  · exact Or.inl hinitial
  · exact Or.inr ⟨manager, time, percent, World.mem_along.mpr ⟨before, m, after, hmoves, hmem⟩, rfl⟩

/-- All that is announced shows a fraction, or no number if a percentage was none. -/
theorem shows_of_announced {p : SyncState} (h : p ∈ start.along (World.announced code) (past.map Prod.fst)) :
    p.Shows (start.Unnumbered code past) := by
  rcases announced_cases h with ⟨own, syncing, rfl⟩ | ⟨manager, time, percent, hmem, rfl⟩
  · exact SyncState.shows_initial _ own syncing
  · refine SyncState.shows_progress _ percent time ?_
    rintro rfl
    exact ⟨manager, time, hmem⟩

/-- A percentage that is no number is announced. -/
theorem exists_announced_of_unnumbered (h : start.Unnumbered code past) :
    ∃ p ∈ start.along (World.announced code) (past.map Prod.fst), p.fraction = .nan := by
  obtain ⟨manager, time, hmem⟩ := h
  obtain ⟨before, m, after, hmoves, htold⟩ := World.mem_along.mp hmem
  refine ⟨.progress manager.currency.code .nan time, ?_, SyncState.progress_nan _ _⟩
  exact World.mem_along.mpr ⟨before, m, after, hmoves, Board.progress_mem_announced _ htold⟩

/-- All that is given shows a fraction, or no number if a percentage was none. -/
theorem shows_of_given {config : Config} {factory : φ} {disk : Disk} {wall : Instant} {enabled : List String}
    {withHub : Bool} (course : Course (.start config factory disk wall enabled withHub) past w) {s : Subscriber}
    (made : w.subscribers.lookup name = some s) (topic : s.subscription.topic = .sync code) {p : SyncState}
    (given : .sync p ∈ (heard name past).items) :
    p.Shows (World.Unnumbered code (.start config factory disk wall enabled withHub) past) :=
  (course.vouches (World.vouches_start _) (SyncState.shows_initial _ code) fun _ => shows_of_announced).given
    s made topic p given

/-- **Progress is shown as a fraction from zero to one, unless a percentage was no number.** In every run, over
systems of any kind and with percentages of any size, each state that the hub publishes for a currency and each item
of a subscription to its progress shows a fraction, or else no number, and this only if the hub has taken in a
callback with a percentage that is no number. Two items that come one after the other differ in some field, be it in
the bits of the fraction, if they show one; a state that shows no number is given whenever it comes. -/
theorem progress_shown {config : Config} {factory : φ} {disk : Disk} {wall : Instant} {enabled : List String}
    {withHub : Bool} (course : Course (.start config factory disk wall enabled withHub) past w) (code : String) :
    World.ShowsProgress code (.start config factory disk wall enabled withHub) past w := by
  constructor
  · exact fun m kept b' hb' => w.sync_go code kept hb'
  · exact fun p hp => (shows_of_announced hp).fraction
  · exact exists_announced_of_unnumbered
  · exact fun name s made topic p hp => (course.shows_of_given made topic hp).fraction
  · intro name s made topic before p q after hitems identical
    have hattentive : s.subscription.Attentive (heard name past) :=
      course.attending (World.attends_attentive name (.sync code)) rfl (fun _ => trivial) s made topic
    have hp := course.shows_of_given made topic (hitems ▸ List.mem_append_right _ List.mem_cons_self)
    have hq := course.shows_of_given made topic
      (hitems ▸ List.mem_append_right _ (List.mem_cons_of_mem _ List.mem_cons_self))
    refine (hp.fraction.resolve_left fun number => ?_).1
    have hsame := identical.same_of_isFraction hp.canonical hq.canonical number
    rw [hattentive.not_same topic hitems] at hsame
    cases hsame
  · intro name s made feed last hsub p hitem hnan
    have hpoll : (s.subscription.poll (w.view name s)).1 = .item (.sync p) := by
      rw [hsub, Synced.poll_sync, hitem]
      exact congrArg (Poll.map Item.sync) (SyncState.distinct_of_nan hnan _ last)
    simp only [World.go, World.act, World.next, made, hpoll]

end Course

/-- A subscription to progress is asked for an item, and then twice more, each time after the wallet system has
reported a percentage that is no number. -/
def unnumbered : Past × MemoryWorld :=
  neverOpen.play [.act (.openHub ⟨"alice", ⟨0, 0⟩, [1]⟩),
    .act (.command (.addWallet ⟨"bitcoin", "btc", "Bitcoin", 8⟩)),
    .deliver, .deliver, .deliver, .deliver, .deliver,
    .act (.subscribe "mine" (.sync "btc")), .act (.next "mine"),
    .act (.command (.syncProgress "btc" .nan none)), .deliver, .deliver, .act (.next "mine"),
    .act (.advance 100), .act (.command (.syncProgress "btc" .nan none)), .deliver, .deliver, .act (.next "mine")]

/-- One and the same state is given twice, and it shows no number. -/
theorem no_number_is_given_twice : ∃ p, p.Identical p ∧
    (heard "mine" unnumbered.1).items = [.sync (.completed "btc"), .sync p, .sync p] ∧
      p.fraction = .nan ∧ neverOpen.Unnumbered "btc" unnumbered.1 := by
  have course : Course neverOpen unnumbered.1 unnumbered.2 := (Run.play_any _ _).course
  obtain ⟨s, made⟩ : ∃ s, unnumbered.2.subscribers.lookup "mine" = some s :=
    Option.isSome_iff_exists.mp (by decide +kernel)
  have htopic : (unnumbered.2.subscribers.lookup "mine").map (fun s => s.subscription.topic) = some (.sync "btc") := by
    decide +kernel
  rw [made, Option.map_some, Option.some.injEq] at htopic
  have hitems : (heard "mine" unnumbered.1).items = [.sync (.completed "btc")] ++
      .sync ⟨"btc", .nan, 0, true⟩ :: .sync ⟨"btc", .nan, 0, true⟩ :: [] := by with_unfolding_all rfl
  have hshown := course.progress_shown "btc"
  have hnan := hshown.distinct "mine" s made htopic _ _ _ _ hitems ⟨rfl, rfl, rfl, rfl⟩
  have hgiven := hshown.given "mine" s made htopic ⟨"btc", .nan, 0, true⟩
    (hitems ▸ List.mem_append_right _ List.mem_cons_self)
  refine ⟨_, ⟨rfl, rfl, rfl, rfl⟩, hitems, hnan, ?_⟩
  exact (hgiven.resolve_left fun number => number.ne_nan hnan).2

end WalletHub
