import WalletHub.Proofs.Stream.Following
import WalletHub.Proofs.World.Listening

/-!
# Asking a subscription

What can be said of the answers of all subscriptions: what becomes of an item on its way through a
stream (`Poll.item?_map`, `Poll.item?_pick`, `Poll.item?_distinct`), and how asking for items comes to
an end (`Subscription.drain_of_rest`, `World.drain_later`).

## What is proved

* `Poll.item?_map`, `Poll.item?_pick`, `Poll.item?_distinct`, `Poll.key_distinct`: the item that is left of a
  poll when it has gone through a stage, and what the stage remembers of it.
* `Throttle.poll_ne_ended`, `Feed.poll_ne_ended`, and the same for the stages: as long as the sender is there
  nothing ends.
* `Subscription.drain_of_rest`: a subscription that has an item and then none is drained by two polls.
* `World.queue_of_waiting`: in a world in which nothing waits nothing waits in its system.
* `World.drain_later`: to let time pass and then drain a subscription is to drain it at the later time.
-/

namespace WalletHub

/-! ### Items on their way -/

namespace Poll

variable {α β κ : Type}

theorem item?_map (f : α → β) (p : Poll α) : (p.map f).item? = p.item?.map f := by
  cases p <;> rfl

theorem item?_rest (alive : Bool) : (rest alive : Poll α).item? = none := by
  cases alive <;> rfl

theorem item?_pick (alive : Bool) (f : α → Option β) (p : Poll α) :
    (p.pick alive f).item? = p.item?.bind f := by
  cases p with
  | item a =>
    cases hf : f a with
    | some b => simp only [pick, hf, item?, Option.bind_some]
    | none =>
      have hpick : pick alive f (.item a) = rest alive := by simp only [pick, hf]
      rw [hpick, item?_rest, item?, Option.bind_some, hf]
  | pending => rfl
  | ended => rfl

theorem item?_distinct [DecidableEq κ] [BEq κ] [LawfulBEq κ] (alive : Bool) (key : α → κ)
    (last : Option κ) (p : Poll α) :
    (p.distinct alive (fun a b => a == b) key last).1.item? =
      p.item?.bind fun a => if last = some (key a) then none else some a := by
  cases p with
  | item a =>
    cases last with
    | none => rfl
    | some k =>
      by_cases hk : k = key a
      · subst hk
        have hdrop : (distinct alive (fun a b => a == b) key (some (key a)) (.item a)).1 = rest alive := by
          simp [distinct]
        rw [hdrop, item?_rest, item?, Option.bind_some, if_pos rfl]
      · simp [distinct, hk, item?]
  | pending => rfl
  | ended => rfl

/-- The key of a stream of distinct items is the one of the last item that came, given or not. -/
theorem key_distinct [BEq κ] [LawfulBEq κ] (alive : Bool) (key : α → κ) (last : Option κ) (p : Poll α) :
    (p.distinct alive (fun a b => a == b) key last).2 = (p.item?.map key).or last := by
  cases p with
  | item a =>
    cases last with
    | none => rfl
    | some k =>
      by_cases hk : k = key a
      · simp [distinct, hk, item?]
      · simp [distinct, hk, item?]
  | pending => rfl
  | ended => rfl

theorem distinct_of_none (alive : Bool) (same : κ → κ → Bool) (key : α → κ) (last : Option κ) {p : Poll α}
    (h : p.item? = none) : p.distinct alive same key last = (p, last) := by
  cases p with
  | item => exact nomatch h
  | pending | ended => rfl

/-- As long as more may come no answer is the end. -/
theorem map_ne_ended {p : Poll α} (h : p ≠ .ended) (f : α → β) : p.map f ≠ .ended := by
  cases p with
  | item | pending => exact nofun
  | ended => exact absurd rfl h

theorem pick_ne_ended {p : Poll α} (h : p ≠ .ended) (f : α → Option β) : p.pick true f ≠ .ended := by
  cases p with
  | item a =>
    rw [pick]
    split <;> exact nofun
  | pending => exact nofun
  | ended => exact absurd rfl h

theorem distinct_ne_ended {p : Poll α} (h : p ≠ .ended) (same : κ → κ → Bool) (key : α → κ)
    (last : Option κ) : (p.distinct true same key last).1 ≠ .ended := by
  cases p with
  | item a =>
    rw [distinct]
    split <;> exact nofun
  | pending => exact nofun
  | ended => exact absurd rfl h

end Poll

theorem Throttle.poll_ne_ended {α : Type} (period now : Nat) (c : Channel α) (t : Throttle) :
    (t.poll period now true c).1 ≠ .ended := by
  have hemit : (emit now c).1 ≠ .ended := by
    unfold emit
    split <;> exact nofun
  unfold poll
  split
  · split
    · exact hemit
    · exact nofun
  · split
    · exact nofun
    · split
      · exact hemit
      · split
        · exact hemit
        · exact nofun

theorem Feed.poll_ne_ended {α : Type} (now : Nat) (c : Channel α) (seed : Option α) (f : Feed) :
    (f.poll now true c seed).1 ≠ .ended := by
  unfold poll
  split
  · exact Throttle.poll_ne_ended _ _ _ _
  · split <;> exact nofun

/-! ### Asking until there is no item -/

/-- Where there is nothing after the first answer, asking ends there. -/
theorem Subscription.drain_of_rest {v : View} {s : Subscription} (count : Nat)
    (first : (s.poll v).1 ≠ .ended) (rest : (s.poll v).2.poll v = (.pending, (s.poll v).2)) :
    s.drain v (count + 2) = ((s.poll v).1.item?.toList, some .pending, (s.poll v).2) := by
  obtain ⟨answer, s', hpoll⟩ : ∃ answer s', s.poll v = (answer, s') := ⟨_, _, rfl⟩
  rw [hpoll] at first rest
  simp only at first rest
  cases answer with
  | item i => simp only [drain, hpoll, rest, Poll.item?, Option.toList]
  | pending => simp only [drain, hpoll, Poll.item?, Option.toList]
  | ended => exact absurd rfl first

/-- Where no job waits the system of the hub has none. -/
theorem World.queue_of_waiting {w : MemoryWorld} {h : Hub MemorySystem} {s : MemorySystem}
    (hub : w.hub = some h) (kept : h.handle = some s) (settled : w.waiting = 0) : s.queue = [] := by
  have hwaiting : w.waiting = s.queue.length := by
    simp only [World.waiting, World.lastSystem, hub, Option.bind_some, kept]
    rfl
  exact List.length_eq_zero_iff.mp (hwaiting ▸ settled)

/-- After some time the items of a subscription come as what can be seen then says. -/
theorem World.drain_later {w : MemoryWorld} {name : String} {s : Subscriber}
    (hs : w.subscribers.lookup name = some s) (ms : Nat) {items : List Item} {s' : Subscription}
    (hdrain : s.subscription.drain (World.view name s { w with now := w.now + ms }) drainLimit =
      (items, some .pending, s')) :
    (World.move (w.move (.act (.advance ms))).2 (.act (.drain name))).1 = .drained items (some .pending) := by
  simp only [World.move, World.act, World.drain, hs, hdrain]

end WalletHub
