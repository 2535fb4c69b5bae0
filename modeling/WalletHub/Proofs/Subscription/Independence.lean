import WalletHub.Proofs.World.Onlookers

/-!
# Subscriptions are lazy, and independent of each other

As long as the hub is there a subscription is answered what it and the hub give (`World.go_serve`). What other
subscriptions there are plays no part in it, and neither does the time at which the subscription was made.
So a run can be compared with one in which other subscriptions are left out, or in which one is made later:
`Alike` says what the worlds of both have in common, `Alike.own` and `Alike.skip` that every move keeps it,
and `subscriptions_lazy_and_independent` what follows for the answers.

Of one run there are three versions with the same answers: the run itself, in which the subscription is made
after `before` and left alone during `between`; the run in which it is made only after `between`; and one in which,
besides, nothing is done for any other subscription, an earlier one of its name included. In all of them everybody
who is there is answered the same.

## What is proved

* `Subscription.poll_held`, `Subscription.drain_held`: while the hub is there it does not matter who holds its
  channels.
* `World.go_serve`, `World.lookup_go_of_ne`: what is answered for a name comes from its subscription and the hub
  alone (`Hub.serve`), and other subscriptions stay as they are.
* `Alike.other`, `Alike.own`, `Alike.skip`, `Alike.records`: worlds that are alike stay so by every move, done in
  both or left out in one.
* `Alike.deferred`: so they do if a subscription is made later that was not asked yet.
* `World.subscriptions_lazy_and_independent`: the three versions, and that an action for a subscription changes
  nothing but subscriptions.
* `late_listener_hears_the_same`: an instance with two subscribers.
-/

namespace WalletHub

/-! ### Asking while the hub is there -/

section

variable {α : Type} {v : View}

theorem View.alive_of_hub (alive : v.hubAlive = true) (c : ChannelName) : v.alive c = true := by
  rw [View.alive, alive, Bool.true_or]

namespace Subscription

/-- Who holds which channel is of no interest as long as the hub is there. -/
theorem poll_held (alive : v.hubAlive = true) (held : List ChannelName) (s : Subscription) :
    s.poll { v with held := held } = s.poll v := by
  have halive (c : ChannelName) : View.alive { v with held := held } c = v.alive c :=
    (View.alive_of_hub (v := { v with held := held }) alive c).trans (View.alive_of_hub alive c).symm
  have hwallets (f : Feed) : f.pollWallets { v with held := held } = f.pollWallets v := by
    simp only [Feed.pollWallets, halive]
  have hwallet (code : String) (f : Feed) : f.pollWallet code { v with held := held } = f.pollWallet code v := by
    simp only [Feed.pollWallet, hwallets, halive]
  cases s with
  | sync code feed last =>
    have hchannel (f : Feed) : SyncFeed.pollChannel code { v with held := held } f =
        SyncFeed.pollChannel code v f := by
      simp only [SyncFeed.pollChannel, halive]
    have hon (f : SyncFeed) : f.pollOn code { v with held := held } = f.pollOn code v := by
      simp only [SyncFeed.pollOn, hchannel, hwallet]
    have hfeed (f : SyncFeed) : f.poll code { v with held := held } = f.poll code v := by
      simp only [SyncFeed.poll, hon]
    simp only [poll, hfeed, halive]
  | wallets | wallet | codes => simp only [poll, hwallets, hwallet, halive]
  | transfers => simp only [poll, Feed.pollTransfers, View.wallet?, halive]
  | transfer => simp only [poll, Feed.pollTransfer, View.wallet?, halive]
  | updates => simp only [poll, Feed.pollUpdates, halive]
  | _ => simp only [poll, halive]

theorem drain_held (alive : v.hubAlive = true) (held : List ChannelName) (count : Nat) (s : Subscription) :
    s.drain { v with held := held } count = s.drain v count := by
  induction count generalizing s with
  | zero => rfl
  | succ count ih => simp only [drain, poll_held alive, ih]

end Subscription

end

variable {φ σ : Type} [WalletSystem σ] [SystemFactory φ σ] [Steering φ σ]

/-! ### What a subscription is answered -/

/-- What is answered to an action for a subscription, and what becomes of it, where it sees `v` and the hub
has the number `n`. -/
def Hub.serve (h : Hub σ) (n : Nat) (v : View) : Move → Option Subscriber → Reply × Option Subscriber
  | .act (.subscribe _ topic), _ =>
    (.nothing, some ⟨.create h.config.throttle h.config.transferThrottle topic, n, none⟩)
  | .act (.unsubscribe _), s => (.flag s.isSome, none)
  | .act (.next _), some s =>
    let (answer, subscription) := s.subscription.poll v
    (.polled answer, some { s with subscription := subscription })
  | .act (.drain _), some s =>
    let (items, stop, subscription) := s.subscription.drain v drainLimit
    (.drained items stop, some { s with subscription := subscription })
  | .act (.next _), none | .act (.drain _), none => (.noStream, none)
  | _, s => (.nothing, s)

omit [WalletSystem σ] in
/-- A subscription that has not lost its hub does not do so by being asked. -/
theorem Hub.frozen_serve {h : Hub σ} {n : Nat} {v : View} {m : Move} {before : Option Subscriber}
    (whole : ∀ s ∈ before, s.frozen = none) {s : Subscriber} (hs : s ∈ (h.serve n v m before).2) :
    s.frozen = none := by
  revert hs
  unfold Hub.serve
  split
  · rintro ⟨⟩
    rfl
  · rintro ⟨⟩
  · next s' =>
    rintro ⟨⟩
    exact whole s' rfl
  · next s' =>
    rintro ⟨⟩
    exact whole s' rfl
  · rintro ⟨⟩
  · rintro ⟨⟩
  · exact whole s

namespace World

/-- What can be seen of a hub that is there. -/
def sight (h : Hub σ) (w : World φ σ) : View :=
  ⟨w.now, true, [], h.board, h.handle.map fun s => (WalletSystem.account s, WalletSystem.wallets s),
    w.provider, w.tracker⟩

variable {w : World φ σ} {h : Hub σ} {name : String} {m : Move}

omit [SystemFactory φ σ] [Steering φ σ] in
/-- A subscription that has not lost its hub sees the hub as it is, and who else holds a channel. -/
theorem view_of_whole (hub : w.hub = some h) {s : Subscriber} (whole : s.frozen = none) :
    w.view name s = { w.sight h with held := w.heldBeside name s.hub } := by
  simp only [view, whole, hub, sight]

/-- **What a subscription is answered depends on nothing but itself and its hub.** -/
theorem go_serve (hub : w.hub = some h) (own : m.subscriber? = some name)
    (whole : ∀ s ∈ w.subscribers.lookup name, s.frozen = none) :
    (w.go m).1 = (h.serve w.dropped (w.sight h) m (w.subscribers.lookup name)).1 ∧
      (w.go m).2.subscribers.lookup name = (h.serve w.dropped (w.sight h) m (w.subscribers.lookup name)).2 := by
  cases m with
  | act a =>
    cases a with
    | subscribe name topic =>
      obtain rfl := Option.some.inj own
      simp only [go, act, subscribe, hub, Hub.serve, Entries.lookup_put, if_true, and_self]
    | unsubscribe name =>
      obtain rfl := Option.some.inj own
      simp only [go, act, unsubscribe, Hub.serve, Entries.lookup_drop, if_true, and_self]
    | next name =>
      obtain rfl := Option.some.inj own
      cases hlookup : w.subscribers.lookup name with
      | none => simp only [go, act, next, hlookup, Hub.serve, and_self]
      | some s =>
        have hpoll : s.subscription.poll (w.view name s) = s.subscription.poll (w.sight h) := by
          rw [view_of_whole hub (whole s hlookup), Subscription.poll_held rfl]
        simp only [go, act, next, hlookup, hpoll, Hub.serve, Entries.lookup_put, if_true, and_self]
    | drain name =>
      obtain rfl := Option.some.inj own
      cases hlookup : w.subscribers.lookup name with
      | none => simp only [go, act, drain, hlookup, Hub.serve, and_self]
      | some s =>
        have hdrain : s.subscription.drain (w.view name s) drainLimit =
            s.subscription.drain (w.sight h) drainLimit := by
          rw [view_of_whole hub (whole s hlookup), Subscription.drain_held rfl]
        simp only [go, act, drain, hlookup, hdrain, Hub.serve, Entries.lookup_put, if_true, and_self]
    | _ => cases own
  | deliver | task | forget => cases own

/-- An action for a subscription leaves those of other names alone. -/
theorem lookup_go_of_ne {other : String} (own : m.subscriber? = some name) (hne : other ≠ name) :
    (w.go m).2.subscribers.lookup other = w.subscribers.lookup other := by
  cases m with
  | act a =>
    cases a with
    | subscribe name topic =>
      obtain rfl := Option.some.inj own
      cases hhub : w.hub with
      | some h => simp only [go, act, subscribe, hhub, Entries.lookup_put, if_neg hne]
      | none =>
        cases hneeds : topic.needsHub with
        | true => simp only [go, act, subscribe, hhub, hneeds, if_true]
        | false =>
          simp only [go, act, subscribe, hhub, hneeds, Bool.false_eq_true, if_false, Entries.lookup_put, if_neg hne]
    | unsubscribe name =>
      obtain rfl := Option.some.inj own
      simp only [go, act, unsubscribe, Entries.lookup_drop, if_neg hne]
    | next name =>
      obtain rfl := Option.some.inj own
      cases hlookup : w.subscribers.lookup name with
      | none => simp only [go, act, next, hlookup]
      | some s => simp only [go, act, next, hlookup, Entries.lookup_put, if_neg hne]
    | drain name =>
      obtain rfl := Option.some.inj own
      cases hlookup : w.subscribers.lookup name with
      | none => simp only [go, act, drain, hlookup]
      | some s => simp only [go, act, drain, hlookup, Entries.lookup_put, if_neg hne]
    | _ => cases own
  | deliver | task | forget => cases own

/-- As long as nothing is done for a subscription it stays as it is. -/
theorem lookup_go (kept : m.drops = false) (unasked : m.subscriber? ≠ some name) :
    (w.go m).2.subscribers.lookup name = w.subscribers.lookup name := by
  cases hm : m.subscriber? with
  | none => rw [(go_of_other w hm kept).1]
  | some other => exact lookup_go_of_ne hm fun hsame => unasked (hsame ▸ hm)

theorem dropped_go (kept : m.drops = false) : (w.go m).2.dropped = w.dropped := by
  cases hm : m.subscriber? with
  | none => exact (go_of_other w hm kept).2
  | some other =>
    rw [go_of_subscriber w (by rw [hm]; rfl)]
    rfl

theorem hub_go (kept : m.drops = false) (hub : w.hub.isSome = true) : (w.go m).2.hub.isSome = true := by
  obtain ⟨h, hh⟩ := Option.isSome_iff_exists.mp hub
  have hupshot : Upshot w m (w.go m).1 (w.go m).2 := Upshot.upshot_go rfl
  obtain ⟨h', hh', -⟩ := hupshot.step_of_kept (dropped_go kept) hh
  exact Option.isSome_iff_exists.mpr ⟨h', hh'⟩

/-! ### Runs as lists of moves -/

/-- The moves with what is answered to them. -/
def records (w : World φ σ) : List Move → Past
  | [] => []
  | m :: moves => (m, (w.go m).1) :: (w.go m).2.records moves

theorem records_append (w : World φ σ) (moves moves' : List Move) :
    w.records (moves ++ moves') = w.records moves ++ (w.after moves).records moves' := by
  induction moves generalizing w with
  | nil => rfl
  | cons m moves ih => exact congrArg _ (ih (w.go m).2)

theorem map_fst_records (w : World φ σ) (moves : List Move) : (w.records moves).map Prod.fst = moves := by
  induction moves generalizing w with
  | nil => rfl
  | cons m moves ih => exact congrArg (m :: ·) (ih (w.go m).2)

theorem course_records (w : World φ σ) (moves : List Move) : Course w (w.records moves) (w.after moves) := by
  induction moves generalizing w with
  | nil => exact .start
  | cons m moves ih => exact Course.trans (.move .start rfl) (ih (w.go m).2)

variable {moves : List Move}

theorem lookup_after (kept : ∀ m ∈ moves, m.drops = false) (unasked : ∀ m ∈ moves, m.subscriber? ≠ some name) :
    (w.after moves).subscribers.lookup name = w.subscribers.lookup name := by
  induction moves generalizing w with
  | nil => rfl
  | cons m moves ih =>
    have hrest := ih (w := (w.go m).2) (fun m' hm' => kept m' (List.mem_cons_of_mem _ hm'))
      fun m' hm' => unasked m' (List.mem_cons_of_mem _ hm')
    exact hrest.trans (lookup_go (kept m List.mem_cons_self) (unasked m List.mem_cons_self))

theorem dropped_after (kept : ∀ m ∈ moves, m.drops = false) : (w.after moves).dropped = w.dropped := by
  induction moves generalizing w with
  | nil => rfl
  | cons m moves ih =>
    exact (ih (w := (w.go m).2) fun m' hm' => kept m' (List.mem_cons_of_mem _ hm')).trans
      (dropped_go (kept m List.mem_cons_self))

/-- A hub that is not dropped keeps its settings. -/
theorem hub_after (kept : ∀ m ∈ moves, m.drops = false) (hub : w.hub = some h) :
    ∃ h', (w.after moves).hub = some h' ∧ h'.config = h.config :=
  (w.course_records moves).keeps (dropped_after kept) hub (fun h' => h'.config = h.config) rfl
    fun _ _ _ _ _ hconfig step => step.config_eq.trans hconfig

end World

/-! ### Two runs -/

/-- The move is done to the world, or for a subscription of such a name. -/
def Move.concerns (shared : String → Bool) (m : Move) : Bool := m.subscriber?.all shared

theorem Move.filter_concerns {shared : String → Bool} {moves : List Move}
    (h : ∀ m ∈ moves, ∀ name ∈ m.subscriber?, shared name = true) : moves.filter (Move.concerns shared) = moves := by
  refine List.filter_eq_self.mpr fun m hm => ?_
  rw [Move.concerns, Option.all_eq_true]
  exact h m hm

theorem World.filter_records {shared : String → Bool} {moves : List Move}
    (h : ∀ m ∈ moves, ∀ name ∈ m.subscriber?, shared name = true) (w : World φ σ) :
    (w.records moves).filter (fun e => e.1.concerns shared) = w.records moves := by
  refine List.filter_eq_self.mpr fun e he => ?_
  have hmem : e.1 ∈ moves := by
    rw [← World.map_fst_records w moves]
    exact List.mem_map_of_mem he
  rw [Move.concerns, Option.all_eq_true]
  exact h e.1 hmem

/-- Both worlds are the same but for the subscriptions, with a hub that is there, and the subscriptions of
certain names are the same as well. -/
structure Alike (shared : String → Bool) (w w' : World φ σ) : Prop where
  same : w' = w.amid w.dropped w'.subscribers
  hub : w.hub.isSome = true
  lookup : ∀ name, shared name = true → w'.subscribers.lookup name = w.subscribers.lookup name
  /-- Those subscriptions have not lost their hub. -/
  whole : ∀ name, shared name = true → ∀ s ∈ w.subscribers.lookup name, s.frozen = none

namespace Alike

variable {shared : String → Bool} {w w' : World φ σ} {m : Move} {name : String}

omit [WalletSystem σ] [SystemFactory φ σ] [Steering φ σ] in
theorem refl (hub : w.hub.isSome = true)
    (whole : ∀ name, shared name = true → ∀ s ∈ w.subscribers.lookup name, s.frozen = none) : Alike shared w w :=
  ⟨rfl, hub, fun _ _ => rfl, whole⟩

omit [WalletSystem σ] [SystemFactory φ σ] [Steering φ σ] in
theorem exists_amid (h : Alike shared w w') : ∃ l, w' = w.amid w.dropped l := ⟨_, h.same⟩

/-- What is done to the world is done in both, with the same answer. -/
theorem other (h : Alike shared w w') (other : m.subscriber? = none) (kept : m.drops = false) :
    (w'.go m).1 = (w.go m).1 ∧ Alike shared (w.go m).2 (w'.go m).2 := by
  obtain ⟨l, rfl⟩ := h.exists_amid
  obtain ⟨hsubs, hdropped⟩ := World.go_of_other w other kept
  rw [World.go_amid _ _ w other kept]
  refine ⟨rfl, ?_, World.hub_go kept h.hub, ?_, ?_⟩
  · rw [hdropped]
    rfl
  · rw [hsubs]
    exact h.lookup
  · rw [hsubs]
    exact h.whole

/-- A subscription of both is answered the same. -/
theorem own (h : Alike shared w w') (own : m.subscriber? = some name) (common : shared name = true) :
    (w'.go m).1 = (w.go m).1 ∧ Alike shared (w.go m).2 (w'.go m).2 := by
  have hsome : m.subscriber?.isSome = true := by
    rw [own]
    rfl
  obtain ⟨hub, hhub⟩ := Option.isSome_iff_exists.mp h.hub
  have hwhole := h.whole name common
  have hlookup := h.lookup name common
  obtain ⟨l, rfl⟩ := h.exists_amid
  obtain ⟨hreply, hleft⟩ := World.go_serve hhub own hwhole
  have hwhole' : ∀ s ∈ (w.amid w.dropped l).subscribers.lookup name, s.frozen = none := by
    rw [hlookup]
    exact hwhole
  have hhub' : (w.amid w.dropped l).hub = some hub := hhub
  obtain ⟨hreply', hleft'⟩ := World.go_serve hhub' own hwhole'
  have hsight : (w.amid w.dropped l).sight hub = w.sight hub := rfl
  rw [hlookup, hsight, World.dropped_amid] at hreply' hleft'
  refine ⟨hreply'.trans hreply.symm, ?_, ?_, ?_, ?_⟩
  · rw [World.go_of_subscriber w hsome, World.go_of_subscriber (w.amid w.dropped l) hsome]
    rfl
  · rw [World.go_of_subscriber w hsome]
    exact h.hub
  · intro other hother
    by_cases hname : other = name
    · rw [hname, hleft, hleft']
    · rw [World.lookup_go_of_ne own hname, World.lookup_go_of_ne own hname, h.lookup other hother]
  · intro other hother s hs
    by_cases hname : other = name
    · rw [hname, hleft] at hs
      exact Hub.frozen_serve hwhole hs
    · rw [World.lookup_go_of_ne own hname] at hs
      exact h.whole other hother s hs

/-- What is done for any other subscription can be left out. -/
theorem skip (h : Alike shared w w') (own : m.subscriber? = some name) (apart : shared name = false) :
    Alike shared (w.go m).2 w' := by
  have hne {other : String} (hother : shared other = true) : other ≠ name := by
    rintro rfl
    exact Bool.false_ne_true (apart.symm.trans hother)
  have hgo := World.go_of_subscriber w (m := m) (by rw [own]; rfl)
  refine ⟨?_, ?_, ?_, ?_⟩
  · rw [hgo]
    exact h.same
  · rw [hgo]
    exact h.hub
  · intro other hother
    rw [World.lookup_go_of_ne own (hne hother), h.lookup other hother]
  · intro other hother
    rw [World.lookup_go_of_ne own (hne hother)]
    exact h.whole other hother

/-- **A run without the actions for other subscriptions has the same answers as the whole run.** Each move is made in
both runs or left out in one. -/
theorem records (h : Alike shared w w') {moves : List Move} (kept : ∀ m ∈ moves, m.drops = false) :
    w'.records (moves.filter (Move.concerns shared)) =
        (w.records moves).filter (fun e => e.1.concerns shared) ∧
      Alike shared (w.after moves) (w'.after (moves.filter (Move.concerns shared))) := by
  induction moves generalizing w w' with
  | nil => exact ⟨rfl, h⟩
  | cons m moves ih =>
    have hkept := kept m List.mem_cons_self
    have hrest {x x' : World φ σ} (hx : Alike shared x x') :=
      ih hx fun m' hm' => kept m' (List.mem_cons_of_mem _ hm')
    have hcases : m.concerns shared = true ∧ (w'.go m).1 = (w.go m).1 ∧ Alike shared (w.go m).2 (w'.go m).2 ∨
        m.concerns shared = false ∧ Alike shared (w.go m).2 w' := by
      cases hm : m.subscriber? with
      | none => exact Or.inl ⟨by rw [Move.concerns, hm]; rfl, h.other hm hkept⟩
      | some name =>
        have hconcerns : m.concerns shared = shared name := by
          rw [Move.concerns, hm]
          rfl
        cases hshared : shared name with
        | true => exact Or.inl ⟨hconcerns.trans hshared, h.own hm hshared⟩
        | false => exact Or.inr ⟨hconcerns.trans hshared, h.skip hm hshared⟩
    rcases hcases with ⟨hconcerns, hreply, hx⟩ | ⟨hconcerns, hx⟩
    · obtain ⟨hrecords, hafter⟩ := hrest hx
      have hfilter : (m :: moves).filter (Move.concerns shared) = m :: moves.filter (Move.concerns shared) :=
        List.filter_cons_of_pos hconcerns
      rw [hfilter]
      refine ⟨?_, hafter⟩
      rw [World.records, World.records, List.filter_cons_of_pos (by exact hconcerns), hreply, hrecords]
    · obtain ⟨hrecords, hafter⟩ := hrest hx
      have hneg : ¬m.concerns shared = true := by
        rw [hconcerns]
        exact Bool.false_ne_true
      rw [List.filter_cons_of_neg hneg]
      refine ⟨?_, hafter⟩
      rw [World.records, List.filter_cons_of_neg (by exact hneg), hrecords]

omit [WalletSystem σ] [SystemFactory φ σ] [Steering φ σ] in
/-- At the start there are no subscriptions. -/
theorem start (shared : String → Bool) (config : Config) (factory : φ) (disk : Disk) (wall : Instant)
    (enabled : List String) :
    Alike shared (.start config factory disk wall enabled true : World φ σ)
      (.start config factory disk wall enabled true) := by
  refine refl rfl fun name _ s hs => ?_
  have hnone : none = some s := hs
  exact nomatch hnone

omit [WalletSystem σ] [SystemFactory φ σ] [Steering φ σ] in
/-- Fewer names are asked for less. -/
theorem mono (h : Alike shared w w') (fewer : String → Bool) (himp : ∀ name, fewer name = true → shared name = true) :
    Alike fewer w w' :=
  ⟨h.same, h.hub, fun name hname => h.lookup name (himp name hname),
    fun name hname => h.whole name (himp name hname)⟩

/-- A subscription that one of them has is made in the other. -/
theorem joined (h : Alike shared w w') {topic : Topic} {hub : Hub σ} (hhub : w.hub = some hub)
    (hlookup : w.subscribers.lookup name =
      some ⟨.create hub.config.throttle hub.config.transferThrottle topic, w.dropped, none⟩) :
    (w'.go (.act (.subscribe name topic))).1 = .nothing ∧
      Alike (fun other => shared other || other == name) w (w'.go (.act (.subscribe name topic))).2 := by
  obtain ⟨l, rfl⟩ := h.exists_amid
  have hgo : (w.amid w.dropped l).go (.act (.subscribe name topic)) = (.nothing, w.amid w.dropped
      (Entries.put name ⟨.create hub.config.throttle hub.config.transferThrottle topic, w.dropped, none⟩ l)) := by
    simp only [World.go, World.act, World.subscribe, hhub, World.amid]
  have hcases {other : String} (hother : (shared other || other == name) = true) (hne : other ≠ name) :
      shared other = true := by
    rwa [beq_false_of_ne hne, Bool.or_false] at hother
  rw [hgo]
  refine ⟨rfl, rfl, h.hub, ?_, ?_⟩
  · intro other hother
    rw [World.subscribers_amid, Entries.lookup_put]
    by_cases hname : other = name
    · rw [if_pos hname, hname, hlookup]
    · rw [if_neg hname]
      exact h.lookup other (hcases hother hname)
  · intro other hother s hs
    by_cases hname : other = name
    · rw [hname, hlookup] at hs
      obtain rfl := Option.some.inj hs
      rfl
    · exact h.whole other (hcases hother hname) s hs

/-- **A subscription that is made later is answered the same**, as long as it was not asked in the meantime,
whether or not other subscriptions are there. -/
theorem deferred (h : Alike shared w w') (apart : shared name = false) (topic : Topic) {between after : List Move}
    (kept : ∀ m ∈ between, m.drops = false) (kept' : ∀ m ∈ after, m.drops = false)
    (unasked : ∀ m ∈ between, m.subscriber? ≠ some name) :
    w'.records (between.filter (Move.concerns shared) ++ .act (.subscribe name topic) ::
        after.filter (Move.concerns fun other => shared other || other == name)) =
      ((w.go (.act (.subscribe name topic))).2.records between).filter (fun e => e.1.concerns shared) ++
        (.act (.subscribe name topic), .nothing) ::
          (((w.go (.act (.subscribe name topic))).2.after between).records after).filter
            (fun e => e.1.concerns fun other => shared other || other == name) := by
  obtain ⟨hub, hhub⟩ := Option.isSome_iff_exists.mp h.hub
  have hgo : (w.go (.act (.subscribe name topic))).2 = w.amid w.dropped
      (Entries.put name ⟨.create hub.config.throttle hub.config.transferThrottle topic, w.dropped, none⟩
        w.subscribers) := by
    simp only [World.go, World.act, World.subscribe, hhub, World.amid]
  obtain ⟨hbetween, hx⟩ := (h.skip (m := .act (.subscribe name topic)) rfl apart).records kept
  obtain ⟨hub', hhub', hconfig⟩ := World.hub_after (w := (w.go (.act (.subscribe name topic))).2) kept
    (by rw [hgo]; exact hhub)
  have hlookup := World.lookup_after (w := (w.go (.act (.subscribe name topic))).2) kept unasked
  have hdropped := World.dropped_after (w := (w.go (.act (.subscribe name topic))).2) kept
  rw [hgo, World.subscribers_amid, Entries.lookup_put, if_pos rfl, ← hgo, ← hconfig] at hlookup
  rw [hgo, World.dropped_amid, ← hgo] at hdropped
  rw [← hdropped] at hlookup
  obtain ⟨hreply, hjoined⟩ := hx.joined hhub' hlookup
  rw [World.records_append, hbetween, World.records, hreply, (hjoined.records kept').1]

end Alike

/-! ### Laziness and independence -/

/-- The moves that are for no subscription. -/
abbrev Move.aside : Move → Bool := Move.concerns fun _ => false

/-- The moves that are for no subscription but the one of a name. -/
abbrev Move.asideFrom (name : String) : Move → Bool := Move.concerns fun other => other == name

/-- **Subscriptions are lazy and independent.** As long as the hub is not dropped, what a subscription and
everybody else is answered is the same if the subscription is made only where it is first asked; and what it is
answered stays the same if nothing is done for any other subscription. No action for a subscription changes
anything but the subscriptions. -/
theorem World.subscriptions_lazy_and_independent {config : Config} {factory : φ} {disk : Disk} {wall : Instant}
    {enabled : List String} (name : String) (topic : Topic) {before between after : List Move}
    (kept : ∀ m ∈ before ++ between ++ after, m.drops = false)
    (unasked : ∀ m ∈ between, m.subscriber? ≠ some name) :
    (∃ r₁ r₂ r₃ : Past,
      r₁.map Prod.fst = before ∧ r₂.map Prod.fst = between ∧ r₃.map Prod.fst = after ∧
        let w : World φ σ := .start config factory disk wall enabled true
        let made : Move × Reply := (.act (.subscribe name topic), .nothing)
        w.records (before ++ made.1 :: (between ++ after)) = r₁ ++ made :: (r₂ ++ r₃) ∧
          w.records (before ++ (between ++ made.1 :: after)) = r₁ ++ (r₂ ++ made :: r₃) ∧
          w.records (before.filter Move.aside ++
              (between.filter Move.aside ++ made.1 :: after.filter (Move.asideFrom name))) =
            r₁.filter (fun e => e.1.aside) ++
              (r₂.filter (fun e => e.1.aside) ++ made :: r₃.filter fun e => e.1.asideFrom name)) ∧
      ∀ (w : World φ σ) (m : Move), m.subscriber?.isSome = true →
        (w.go m).2 = { w with subscribers := (w.go m).2.subscribers } := by
  refine ⟨?_, fun w m hm => go_of_subscriber w hm⟩
  have hbefore : ∀ m ∈ before, m.drops = false := fun m hm =>
    kept m (List.mem_append_left _ (List.mem_append_left _ hm))
  have hbetween : ∀ m ∈ between, m.drops = false := fun m hm =>
    kept m (List.mem_append_left _ (List.mem_append_right _ hm))
  have hafter : ∀ m ∈ after, m.drops = false := fun m hm => kept m (List.mem_append_right _ hm)
  have hnew (shared : String → Bool) := Alike.start (σ := σ) shared config factory disk wall enabled
  generalize (World.start config factory disk wall enabled true : World φ σ) = w at hnew ⊢
  obtain ⟨hub, hhub⟩ := Option.isSome_iff_exists.mp (hnew fun _ => true).hub
  have hreply : ((w.after before).go (.act (.subscribe name topic))).1 = .nothing := by
    obtain ⟨hub', hhub', -⟩ := hub_after hbefore hhub
    simp only [go, act, subscribe, hhub']
  refine ⟨w.records before, ((w.after before).go (.act (.subscribe name topic))).2.records between,
    (((w.after before).go (.act (.subscribe name topic))).2.after between).records after,
    map_fst_records _ _, map_fst_records _ _, map_fst_records _ _, ?_, ?_, ?_⟩
  · rw [records_append, records, records_append, hreply]
  · have hothers : ∀ m ∈ between, ∀ other ∈ m.subscriber?, (other != name) = true := fun m hm other hother =>
      bne_iff_ne.mpr fun hsame => unasked m hm (hsame ▸ hother)
    have hall : ∀ m ∈ after, ∀ other ∈ m.subscriber?, (other != name || other == name) = true :=
      fun _ _ other _ => by rw [Bool.or_comm, bne, Bool.or_not_self]
    have hsame := ((hnew fun _ => true).records hbefore).2.mono (fun other => other != name) fun _ _ => rfl
    rw [Move.filter_concerns fun _ _ _ _ => rfl] at hsame
    have hlater := hsame.deferred (bne_self_eq_false name) topic hbetween hafter unasked
    rw [Move.filter_concerns hothers, Move.filter_concerns hall, filter_records hothers, filter_records hall] at hlater
    rw [records_append, hlater]
  · obtain ⟨hfirst, hbare⟩ := (hnew fun _ => false).records hbefore
    have hlater := hbare.deferred (show (fun _ => false) name = false from rfl) topic hbetween hafter unasked
    simp only [Bool.false_or] at hlater
    rw [records_append, hlater, hfirst]

/-- The hub is opened, and somebody asks for the codes of its wallets. -/
def beforehand : List Move :=
  [.act (.openHub ⟨"alice", ⟨0, 0⟩, [1]⟩), .act (.subscribe "other" .codes), .act (.next "other")]

/-- A wallet is added, and somebody asks again. -/
def meantime : List Move :=
  [.act (.command (.addWallet ⟨"bitcoin", "btc", "Bitcoin", 8⟩)), .deliver, .deliver, .deliver, .deliver, .deliver,
    .act (.next "other")]

/-- Somebody else asks for the codes, for the first time. -/
def asking : List Move := [.act (.next "mine"), .act (.unsubscribe "other")]

/-- A subscription that was made before the wallet was added hears of it when it is first asked, and so does
one that was made afterwards, and one that is alone. -/
theorem late_listener_hears_the_same : ∃ r₁ r₂ r₃ : Past,
    let made : Move × Reply := (.act (.subscribe "mine" .codes), .nothing)
    neverOpen.records (beforehand ++ made.1 :: (meantime ++ asking)) = r₁ ++ made :: (r₂ ++ r₃) ∧
      neverOpen.records (beforehand ++ (meantime ++ made.1 :: asking)) = r₁ ++ (r₂ ++ made :: r₃) ∧
      neverOpen.records (beforehand.filter Move.aside ++
          (meantime.filter Move.aside ++ made.1 :: asking.filter (Move.asideFrom "mine"))) =
        r₁.filter (fun e => e.1.aside) ++
          (r₂.filter (fun e => e.1.aside) ++ made :: r₃.filter fun e => e.1.asideFrom "mine") ∧
      r₃.map Prod.snd = [.polled (.item (.codes ["btc"])), .flag true] := by
  have kept : ∀ m ∈ beforehand ++ meantime ++ asking, m.drops = false := by decide
  have unasked : ∀ m ∈ meantime, m.subscriber? ≠ some "mine" := by decide
  have hall := @World.subscriptions_lazy_and_independent MemoryFactory MemorySystem _ _ _ (.ofDirectory "data")
    (.start []) .empty ⟨1600000000, 0⟩ [] "mine" .codes beforehand meantime asking kept unasked
  obtain ⟨⟨r₁, r₂, r₃, h₁, h₂, -, hnow, hlater, halone⟩, -⟩ := hall
  refine ⟨r₁, r₂, r₃, hnow, hlater, halone, ?_⟩
  have hlength : (r₁ ++ (.act (.subscribe "mine" .codes), Reply.nothing) :: r₂).length = 11 := by
    rw [List.length_append, List.length_cons, ← List.length_map Prod.fst, h₁, ← List.length_map Prod.fst, h₂]
    rfl
  have hlast : ((r₁ ++ (.act (.subscribe "mine" .codes), Reply.nothing) :: r₂) ++ r₃).drop 11 = r₃ :=
    List.drop_left' hlength
  rw [List.append_assoc, List.cons_append, ← hnow] at hlast
  rw [← hlast]
  rfl

end WalletHub
