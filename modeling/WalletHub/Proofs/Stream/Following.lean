import WalletHub.Stream.Throttle

/-!
# How a feed follows its channel

A feed that was polled has either seen all that was published, or it will give the newest of it at the
first poll that is a period later (`CaughtUp.poll_eq`, `Punctual.poll_due`). `Feed.Follows` is what
stays true of a feed in the meantime: it waits for no longer than a period, and once it has seen all, a
property of the newest value holds that came with this value. What the feed has not seen yet
(`Feed.unread`) is what it gives after a period, and nothing is left then (`Follows.poll_due`).

## What is proved

* `Channel.Grown.version_le`, `Channel.Grown.eq_of_version_le`: a channel only grows, and one whose version has
  not risen is the same.
* `Throttle.CaughtUp.poll_eq`: a throttle that has seen all gives nothing and stays as it is.
* `Throttle.poll_cases`: what a poll can come to.
* `Throttle.Punctual.poll`, `Throttle.Punctual.poll_due`: a throttle waits for no longer than a period, and a
  period later it has seen all.
* `Feed.Follows.offer`, `Feed.Follows.grown`, `Feed.Follows.poll`: publications and polls keep a feed following.
* `Feed.Follows.poll_due`: what it has not seen is what it gives a period later.

All subscriptions to a hub are feeds with stages behind them, so everything that is proved of what they come to
goes back to the last two.
-/

namespace WalletHub

variable {α : Type}

/-- The channel after any number of publications. -/
inductive Channel.Grown (c : Channel α) : Channel α → Prop where
  | same : Grown c c
  | offer {c' : Channel α} (grown : Grown c c') (a : α) : Grown c (c'.offer a)

theorem Channel.Grown.trans {c c' c'' : Channel α} (h : c.Grown c') (h' : c'.Grown c'') : c.Grown c'' := by
  induction h' with
  | same => exact h
  | offer _ a ih => exact ih.offer a

theorem Channel.Grown.version_le {c c' : Channel α} (h : c.Grown c') : c.version ≤ c'.version := by
  induction h with
  | same => exact Nat.le_refl _
  | offer _ a ih => exact Nat.le_succ_of_le ih

/-- Where no newer version is there nothing was published. -/
theorem Channel.Grown.eq_of_version_le {c c' : Channel α} (h : c.Grown c') (same : c'.version ≤ c.version) :
    c' = c := by
  cases h with
  | same => rfl
  | offer grown a =>
    have hle := grown.version_le
    rw [Channel.version_offer] at same
    omega

namespace Throttle

/-- All that was published has been seen, and nothing is held back. -/
def CaughtUp (c : Channel α) (t : Throttle) : Prop := t.phase = .idle ∧ t.seen = c.version

instance (c : Channel α) (t : Throttle) : Decidable (t.CaughtUp c) :=
  inferInstanceAs (Decidable (_ ∧ _))

/-- The throttle has seen nothing of the future, and waits for no longer than a period. -/
structure Punctual (period now version : Nat) (t : Throttle) : Prop where
  seen : t.seen ≤ version
  last : ∀ last, t.last = some last → last ≤ now
  wake : ∀ wake, t.phase = .sleeping wake → wake ≤ now + period

/-! ### Polls -/

/-- Where all was seen there is nothing to give. -/
theorem CaughtUp.poll_eq {c : Channel α} {t : Throttle} (h : t.CaughtUp c) (period now : Nat) (alive : Bool) :
    t.poll period now alive c = (.rest alive, t) := by
  obtain ⟨hphase, hseen⟩ := h
  simp only [poll, hphase, hseen, if_true]

theorem caughtUp_emit (now : Nat) (c : Channel α) : (emit now c).2.CaughtUp c := by
  unfold emit
  cases c.latest with
  | some a => exact ⟨rfl, rfl⟩
  | none => exact ⟨rfl, rfl⟩

/-- A poll gives the newest value and has seen all then, or it finds that nothing was published at
all, or it gives nothing and has seen all only if it had before. -/
theorem poll_cases (period now : Nat) (alive : Bool) (c : Channel α) (t : Throttle) :
    (∃ a, c.latest = some a ∧ (t.poll period now alive c).1 = .item a ∧ ¬t.CaughtUp c) ∨
      c.latest = none ∧ (t.poll period now alive c).1.item? = none ∨
      (t.poll period now alive c).1.item? = none ∧
        ((t.poll period now alive c).2.CaughtUp c → t.CaughtUp c) := by
  by_cases hcaught : t.CaughtUp c
  · refine Or.inr (Or.inr ⟨?_, fun _ => hcaught⟩)
    rw [hcaught.poll_eq]
    cases alive <;> rfl
  have hemit : (∃ a, c.latest = some a ∧ (emit now c).1 = .item a ∧ ¬t.CaughtUp c) ∨
      c.latest = none ∧ (emit now c).1.item? = none := by
    unfold emit
    cases hlatest : c.latest with
    | some a => exact Or.inl ⟨a, rfl, rfl, hcaught⟩
    | none => exact Or.inr ⟨rfl, rfl⟩
  unfold poll
  cases hphase : t.phase with
  | sleeping wake =>
    simp only
    by_cases hwake : wake ≤ now
    · rw [if_pos hwake]
      exact hemit.imp_right Or.inl
    · rw [if_neg hwake]
      exact Or.inr (Or.inr ⟨rfl, id⟩)
  | idle =>
    have hseen : t.seen ≠ c.version := fun hseen => hcaught ⟨hphase, hseen⟩
    simp only [hseen, if_false]
    cases hlast : t.last with
    | none => exact hemit.imp_right Or.inl
    | some last =>
      simp only
      by_cases hperiod : last + period ≤ now
      · rw [if_pos hperiod]
        exact hemit.imp_right Or.inl
      · rw [if_neg hperiod]
        exact Or.inr (Or.inr ⟨rfl, fun h => nomatch h.1⟩)

namespace Punctual

variable {period now now' version : Nat} {t : Throttle}

theorem subscribe (period now : Nat) (c : Channel α) :
    (Throttle.subscribe c).Punctual period now c.version :=
  ⟨Nat.le_refl _, nofun, nofun⟩

theorem later (h : t.Punctual period now version) (hnow : now ≤ now') : t.Punctual period now' version :=
  ⟨h.seen, fun last hlast => Nat.le_trans (h.last last hlast) hnow,
    fun wake hwake => Nat.le_trans (h.wake wake hwake) (Nat.add_le_add_right hnow period)⟩

theorem poll {c : Channel α} (h : t.Punctual period now c.version) (alive : Bool) :
    (t.poll period now alive c).2.Punctual period now c.version := by
  have hemit : (emit now c).2.Punctual period now c.version := by
    have hfields : (emit now c).2 = ⟨.idle, c.version, some now⟩ := by
      unfold emit
      cases c.latest <;> rfl
    rw [hfields]
    exact ⟨Nat.le_refl _, fun last hlast => Nat.le_of_eq (Option.some.inj hlast).symm, nofun⟩
  unfold Throttle.poll
  split
  · split
    · exact hemit
    · exact h
  · split
    · exact h
    · split
      · exact hemit
      · next last hlast =>
        split
        · exact hemit
        · refine ⟨Nat.le_refl _, h.last, ?_⟩
          intro wake hwake
          obtain rfl := Phase.sleeping.inj hwake
          exact Nat.add_le_add_right (h.last last hlast) period

/-- **A period later all has been seen**, and what had not been seen before is given. -/
theorem poll_due {c : Channel α} (h : t.Punctual period now c.version) (hnow : now + period ≤ now')
    (alive : Bool) : (t.poll period now' alive c).2.CaughtUp c := by
  by_cases hcaught : t.CaughtUp c
  · rw [hcaught.poll_eq]
    exact hcaught
  · unfold Throttle.poll
    cases hphase : t.phase with
    | sleeping wake =>
      have hwake : wake ≤ now' := Nat.le_trans (h.wake wake hphase) hnow
      simp only [hwake, if_true]
      exact caughtUp_emit now' c
    | idle =>
      have hseen : t.seen ≠ c.version := fun hseen => hcaught ⟨hphase, hseen⟩
      simp only [hseen, if_false]
      cases hlast : t.last with
      | none => exact caughtUp_emit now' c
      | some last =>
        have hperiod : last + period ≤ now' :=
          Nat.le_trans (Nat.add_le_add_right (h.last last hlast) period) hnow
        simp only [hperiod, if_true]
        exact caughtUp_emit now' c

end Punctual

end Throttle

namespace Feed

/-- A feed that was polled goes on with its throttle. -/
theorem poll_of_throttle {f : Feed} {t : Throttle} (ht : f.throttle = some t) (now : Nat) (alive : Bool)
    (c : Channel α) (seed : Option α) :
    f.poll now alive c seed = ((t.poll f.period now alive c).1,
      { f with throttle := some (t.poll f.period now alive c).2 }) := by
  unfold poll
  rw [ht]

/-- A feed that was polled has a throttle. -/
theorem isSome_poll (now : Nat) (alive : Bool) (c : Channel α) (seed : Option α) (f : Feed) :
    (f.poll now alive c seed).2.throttle.isSome = true := by
  unfold poll
  split
  · rfl
  · split <;> rfl

/-- The newest value of the channel, if a feed that was polled has not seen it yet. -/
def unread (c : Channel α) (f : Feed) : Option α :=
  match f.throttle with
  | some t => if t.CaughtUp c then none else c.latest
  | none => none

theorem unread_of_throttle {f : Feed} {t : Throttle} (ht : f.throttle = some t) (c : Channel α) :
    f.unread c = if t.CaughtUp c then none else c.latest := by
  simp only [unread, ht]

/-- The feed is punctual, and where it has seen all of the channel the newest value has a property. -/
structure Follows (period now : Nat) (c : Channel α) (holds : α → Prop) (f : Feed) : Prop where
  paced : f.period = period
  punctual : ∀ t, f.throttle = some t → t.Punctual period now c.version
  heard : ∀ t, f.throttle = some t → t.CaughtUp c → ∀ a, c.latest = some a → holds a

namespace Follows

variable {period now now' : Nat} {c : Channel α} {holds holds' : α → Prop} {f : Feed}

theorem fresh (period now : Nat) (c : Channel α) (holds : α → Prop) :
    (Feed.fresh period).Follows period now c holds :=
  ⟨rfl, nofun, nofun⟩

theorem later (h : f.Follows period now c holds) (hnow : now ≤ now') : f.Follows period now' c holds :=
  ⟨h.paced, fun t ht => (h.punctual t ht).later hnow, h.heard⟩

/-- Of a newer value nothing has to hold, since it was not seen yet. -/
theorem offer (h : f.Follows period now c holds) (a : α) :
    f.Follows period now (Channel.offer a c) holds' := by
  refine ⟨h.paced, ?_, ?_⟩
  · intro t ht
    obtain ⟨hseen, hlast, hwake⟩ := h.punctual t ht
    exact ⟨Nat.le_succ_of_le hseen, hlast, hwake⟩
  · intro t ht hcaught
    have hseen := (h.punctual t ht).seen
    rw [hcaught.2, Channel.version_offer] at hseen
    omega

theorem grown (h : f.Follows period now c holds) {c' : Channel α} (hgrown : c.Grown c') :
    f.Follows period now c' holds := by
  induction hgrown with
  | same => exact h
  | offer _ a ih => exact ih.offer a

theorem imp (h : f.Follows period now c holds) (himp : ∀ a, holds a → holds' a) :
    f.Follows period now c holds' :=
  ⟨h.paced, h.punctual, fun t ht hcaught a ha => himp a (h.heard t ht hcaught a ha)⟩

/-- **A poll keeps the feed following** if what was heard is passed on. -/
theorem poll (h : f.Follows period now c holds) (alive : Bool) (seed : Option α)
    (first : f.throttle = none → ∀ a, c.latest = some a → holds' a)
    (kept : (f.poll now alive c seed).1.item? = none → ∀ a, holds a → holds' a)
    (given : ∀ t a, f.throttle = some t → ¬t.CaughtUp c → c.latest = some a →
      (f.poll now alive c seed).1 = .item a → holds' a) :
    (f.poll now alive c seed).2.Follows period now c holds' := by
  cases hthrottle : f.throttle with
  | none =>
    unfold Feed.poll
    rw [hthrottle]
    have hsubscribe : (Feed.mk f.period (some (.subscribe c))).Follows period now c holds' := by
      refine ⟨h.paced, ?_, fun _ _ _ => first hthrottle⟩
      intro t ht
      obtain rfl := Option.some.inj ht
      exact .subscribe period now c
    cases seed with
    | some a => exact hsubscribe
    | none => exact hsubscribe
  | some t =>
    rw [poll_of_throttle hthrottle] at kept given ⊢
    refine ⟨h.paced, ?_, ?_⟩
    · intro t' ht'
      obtain rfl := Option.some.inj ht'
      rw [h.paced]
      exact (h.punctual t hthrottle).poll alive
    · intro t' ht' hcaught a ha
      obtain rfl := Option.some.inj ht'
      rcases Throttle.poll_cases f.period now alive c t with
        ⟨b, hb, hitem, hbehind⟩ | ⟨hnone, -⟩ | ⟨hitem, himp⟩
      · obtain rfl := Option.some.inj (hb.symm.trans ha)
        exact given t b hthrottle hbehind hb hitem
      · exact nomatch hnone.symm.trans ha
      · exact kept hitem a (h.heard t hthrottle (himp hcaught) a ha)

/-- **A period later the feed gives what it has not seen**, and has seen all then. -/
theorem poll_due (h : f.Follows period now c holds) {t : Throttle} (ht : f.throttle = some t)
    (hnow : now + period ≤ now') (alive : Bool) (seed : Option α) :
    (f.poll now' alive c seed).1.item? = f.unread c ∧
      ∃ t', (f.poll now' alive c seed).2.throttle = some t' ∧ t'.CaughtUp c := by
  have hdue := (h.punctual t ht).poll_due hnow alive
  rw [poll_of_throttle ht, unread_of_throttle ht, h.paced]
  refine ⟨?_, _, rfl, hdue⟩
  by_cases hcaught : t.CaughtUp c
  · rw [if_pos hcaught, hcaught.poll_eq]
    cases alive <;> rfl
  · rw [if_neg hcaught]
    rcases Throttle.poll_cases period now' alive c t with ⟨a, ha, hitem, -⟩ | ⟨hnone, hitem⟩ | ⟨-, himp⟩
    · rw [ha, hitem]
      rfl
    · rw [hnone, hitem]
    · exact absurd (himp hdue) hcaught

end Follows

end Feed

end WalletHub
