import WalletHub.Proofs.Stream.Following

/-!
# What a throttle gives, and when

A throttle that is asked too early goes to sleep: it has marked a version as seen that it has not given, and
while it sleeps newer values may be published, or the sender may go. Nobody who asks it can tell. What it
answers follows from what was published since the subscription and what was given (`History.rule`), in
whatever order values are published, time passes, the throttle is asked and the sender goes
(`History.answers_by_rule`). `History.Kept` is what holds between the throttle and its past at every point.

## What is proved

* `History.Kept.polled`: a poll gives the newest value, or is too early, or finds nothing new, or finds the end;
  by what was published and given, and whether the throttle sleeps or not.
* `History.Kept.answer_eq`: so it answers by the rule.
* `History.Kept.publish`, `History.Kept.poll`, `History.Kept.step`, `History.Kept.run`: what holds between a
  throttle and its past is kept by everything that can happen, and so at every point.
* `History.Kept.pause`, `History.Kept.poll_due`: a value that is still the newest when the period is over is
  given by the next poll, and not before.
* `History.answers_by_rule`: the rule for all histories, and what follows for the values given: they are
  published ones, in order, none twice, a period apart, and the last of them is not overtaken.
* `History.answers_by_rule_sleeping`: a history in which the throttle is asleep when it is asked.
-/

namespace WalletHub.Throttle

variable {α : Type}

/-! ### A throttle and its past -/

/-- What can happen to a channel and a throttle on it. -/
inductive Occurrence (α : Type) where
  | publish (a : α)
  /-- Milliseconds pass. -/
  | wait (ms : Nat)
  /-- The throttle is asked. -/
  | poll
  /-- The sender goes. Nothing is published any more. -/
  | drop
  deriving DecidableEq

/-- A value that was given. -/
structure Emission (α : Type) where
  time : Nat
  /-- How many values had been published by then. The value is the last of them. -/
  number : Nat
  value : α
  deriving DecidableEq

/-- A channel with a throttle on it, and what has happened since the subscription. -/
structure History (α : Type) where
  channel : Channel α
  /-- The sender is there. -/
  alive : Bool
  now : Nat
  throttle : Throttle
  /-- The values that were published, the oldest first. -/
  published : List α
  /-- The values that were given, the oldest first. -/
  given : List (Emission α)

namespace History

/-- Somebody has just subscribed. -/
def start (c : Channel α) (now : Nat) : History α := ⟨c, true, now, .subscribe c, [], []⟩

/-- What the throttle answers when it is asked. -/
def answer (period : Nat) (x : History α) : Poll α := (x.throttle.poll period x.now x.alive x.channel).1

/-- The history after one more occurrence. -/
def step (period : Nat) (x : History α) : Occurrence α → History α
  | .publish a =>
    if x.alive then { x with channel := Channel.offer a x.channel, published := x.published ++ [a] } else x
  | .wait ms => { x with now := x.now + ms }
  | .poll => { x with
      throttle := (x.throttle.poll period x.now x.alive x.channel).2
      given := x.given ++ ((x.answer period).item?.map fun a => ⟨x.now, x.published.length, a⟩).toList }
  | .drop => { x with alive := false }

/-- The history after some more occurrences. -/
def run (period : Nat) (x : History α) (os : List (Occurrence α)) : History α := os.foldl (step period) x

/-- How many values had been published when the last value was given. -/
def reached (x : History α) : Nat := (x.given.getLast?.map Emission.number).getD 0

/-- What is to be answered, going by what was published and given alone: where nothing was published since the
last value was given there is nothing, and where something was it is the newest, but not within a period. -/
def rule (period : Nat) (x : History α) : Poll α :=
  match (x.published.drop x.reached).getLast? with
  | none => .rest x.alive
  | some a => if x.given.getLast?.any fun e => x.now < e.time + period then .pending else .item a

/-! ### What holds between them -/

/-- What holds between a throttle and its past, where `first` is the version of the channel at the
subscription. -/
structure Kept (period first : Nat) (x : History α) : Prop where
  version : x.channel.version = first + x.published.length
  latest : x.published ≠ [] → x.channel.latest = x.published.getLast?
  last : x.throttle.last = x.given.getLast?.map Emission.time
  bounded : x.reached ≤ x.published.length
  /-- An idle throttle has seen what it has given. -/
  idle : x.throttle.phase = .idle → x.throttle.seen = first + x.reached
  /-- A throttle only sleeps on something, and until a period after the last value. -/
  sleeping : ∀ wake, x.throttle.phase = .sleeping wake →
    x.reached < x.published.length ∧ ∃ e, x.given.getLast? = some e ∧ wake = e.time + period
  past : ∀ e ∈ x.given, e.time ≤ x.now
  numbered : ∀ e ∈ x.given, 0 < e.number ∧ x.published[e.number - 1]? = some e.value
  spaced : x.given.Pairwise fun e e' => e.time + period ≤ e'.time ∧ e.number < e'.number

theorem kept_start (period : Nat) (c : Channel α) (now : Nat) : (start c now).Kept period c.version where
  version := rfl
  latest := fun h => absurd rfl h
  last := rfl
  bounded := Nat.le_refl 0
  idle := fun _ => rfl
  sleeping := nofun
  past := nofun
  numbered := nofun
  spaced := .nil

/-- How a poll ends: there is nothing new, or it is too early, or the newest value is given. -/
inductive Polled (period : Nat) (x : History α) : Poll α × Throttle → Prop where
  | nothing (all : x.reached = x.published.length) : Polled period x (.rest x.alive, x.throttle)
  | early {e : Emission α} (seen : Nat) (new : x.reached < x.published.length) (given : x.given.getLast? = some e)
      (soon : x.now < e.time + period) :
      Polled period x (.pending, ⟨.sleeping (e.time + period), seen, x.throttle.last⟩)
  | item {a : α} (new : x.reached < x.published.length) (newest : x.published.getLast? = some a)
      (due : ∀ e, x.given.getLast? = some e → e.time + period ≤ x.now) :
      Polled period x (.item a, ⟨.idle, x.channel.version, some x.now⟩)

variable {period first : Nat} {x : History α}

theorem exists_newest (new : x.reached < x.published.length) : ∃ a, x.published.getLast? = some a :=
  Option.ne_none_iff_exists'.mp
    (mt List.getLast?_eq_none_iff.mp (List.ne_nil_of_length_pos (Nat.zero_lt_of_lt new)))

/-- **A poll ends in one of these ways**, whether the throttle sleeps or not. -/
theorem Kept.polled (h : x.Kept period first) :
    x.Polled period (x.throttle.poll period x.now x.alive x.channel) := by
  have hgiven (new : x.reached < x.published.length)
      (due : ∀ e, x.given.getLast? = some e → e.time + period ≤ x.now) :
      x.Polled period (emit x.now x.channel) := by
    have hsome : x.published ≠ [] := List.ne_nil_of_length_pos (Nat.zero_lt_of_lt new)
    obtain ⟨a, ha⟩ := exists_newest new
    have hlatest : x.channel.latest = some a := (h.latest hsome).trans ha
    simp only [emit, hlatest]
    exact .item new ha due
  unfold Throttle.poll
  cases hphase : x.throttle.phase with
  | sleeping wake =>
    obtain ⟨hnew, e, he, rfl⟩ := h.sleeping wake hphase
    simp only
    split
    · next hdue =>
      refine hgiven hnew fun e' he' => ?_
      obtain rfl := Option.some.inj (he.symm.trans he')
      exact hdue
    · next hsoon =>
      have hasleep : x.throttle = ⟨.sleeping (e.time + period), x.throttle.seen, x.throttle.last⟩ := by
        rw [← hphase]
      rw [hasleep]
      exact .early _ hnew he (Nat.lt_of_not_le hsoon)
  | idle =>
    have hseen := h.idle hphase
    have hversion := h.version
    have hreached := h.bounded
    simp only
    split
    · exact .nothing (by omega)
    · have hnew : x.reached < x.published.length := by omega
      cases hlast : x.given.getLast? with
      | none =>
        rw [h.last, hlast]
        refine hgiven hnew fun e he => ?_
        rw [hlast] at he
        cases he
      | some e =>
        have hthrottle : x.throttle.last = some e.time := by rw [h.last, hlast, Option.map_some]
        rw [hthrottle]
        simp only
        split
        · next hdue =>
          refine hgiven hnew fun e' he' => ?_
          obtain rfl := Option.some.inj (hlast.symm.trans he')
          exact hdue
        · next hsoon =>
          rw [← hthrottle]
          exact .early _ hnew hlast (Nat.lt_of_not_le hsoon)

/-- What is new is what was published after the last value was given. -/
theorem getLast?_drop_reached (x : History α) : (x.published.drop x.reached).getLast? =
    if x.reached < x.published.length then x.published.getLast? else none := by
  rw [List.getLast?_drop]
  split <;> split <;> first | rfl | omega

/-- **A throttle goes by the rule.** -/
theorem Kept.answer_eq (h : x.Kept period first) : x.answer period = x.rule period := by
  have hend := h.polled
  unfold answer rule
  rw [getLast?_drop_reached]
  generalize x.throttle.poll period x.now x.alive x.channel = polled at hend
  cases hend with
  | nothing all => rw [if_neg (by omega)]
  | @early e seen new given soon =>
    rw [if_pos new]
    obtain ⟨a, ha⟩ := exists_newest new
    rw [ha]
    simp only [given, Option.any_some, decide_eq_true soon, if_true]
  | @item a new newest due =>
    rw [if_pos new, newest]
    cases hgiven : x.given.getLast? with
    | none => rfl
    | some e =>
      have hdue := due e hgiven
      simp only [Option.any_some, decide_eq_false (Nat.not_lt_of_le hdue), Bool.false_eq_true, if_false]

/-! ### Steps -/

theorem Kept.publish (h : x.Kept period first) (a : α) : (x.step period (.publish a)).Kept period first := by
  simp only [step]
  split
  · refine { h with version := ?_, latest := ?_, bounded := ?_, sleeping := ?_, numbered := ?_ }
    · rw [Channel.version_offer, h.version, List.length_append, List.length_singleton, Nat.add_assoc]
    · intro _
      rw [Channel.latest_offer, List.getLast?_concat]
    · exact Nat.le_trans h.bounded (by simp)
    · intro wake hwake
      obtain ⟨hnew, hlast⟩ := h.sleeping wake hwake
      exact ⟨Nat.lt_of_lt_of_le hnew (by simp), hlast⟩
    · intro e he
      obtain ⟨hpos, hvalue⟩ := h.numbered e he
      refine ⟨hpos, ?_⟩
      obtain ⟨hlt, -⟩ := List.getElem?_eq_some_iff.mp hvalue
      rw [List.getElem?_append_left hlt, hvalue]
  · exact h

/-- Nothing was given later than the last value. -/
theorem Kept.le_last (h : x.Kept period first) {e : Emission α} (he : e ∈ x.given) :
    ∃ l, x.given.getLast? = some l ∧ e.time ≤ l.time ∧ e.number ≤ l.number := by
  obtain ⟨l, hl⟩ := Option.ne_none_iff_exists'.mp (mt List.getLast?_eq_none_iff.mp (List.ne_nil_of_mem he))
  refine ⟨l, hl, ?_⟩
  obtain ⟨earlier, hgiven⟩ := List.getLast?_eq_some_iff.mp hl
  have hspaced := h.spaced
  rw [hgiven] at he hspaced
  rcases List.mem_append.mp he with he | he
  · obtain ⟨htime, hnumber⟩ := (List.pairwise_append.mp hspaced).2.2 e he l List.mem_cons_self
    exact ⟨Nat.le_trans (Nat.le_add_right _ _) htime, Nat.le_of_lt hnumber⟩
  · rw [List.mem_singleton.mp he]
    exact ⟨Nat.le_refl _, Nat.le_refl _⟩

theorem Kept.poll (h : x.Kept period first) : (x.step period .poll).Kept period first := by
  have hend := h.polled
  simp only [step, answer]
  generalize x.throttle.poll period x.now x.alive x.channel = polled at hend
  cases hend with
  | nothing all =>
    have hnone : (Poll.rest x.alive : Poll α).item? = none := by cases x.alive <;> rfl
    simp only [hnone, Option.map_none, Option.toList_none, List.append_nil]
    exact h
  | @early e seen new given soon =>
    simp only [Poll.item?, Option.map_none, Option.toList_none, List.append_nil]
    refine { h with idle := fun hidle => ?_, sleeping := fun wake hwake => ?_ }
    · cases hidle
    · exact ⟨new, e, given, (Phase.sleeping.inj hwake).symm⟩
  | @item a new newest due =>
    simp only [Poll.item?, Option.map_some, Option.toList_some]
    have hlast : (x.given ++ [(⟨x.now, x.published.length, a⟩ : Emission α)]).getLast? =
        some ⟨x.now, x.published.length, a⟩ := List.getLast?_concat
    refine ⟨h.version, h.latest, ?_, ?_, fun _ => ?_, fun _ hwake => ?_, ?_, ?_, ?_⟩
    · rw [hlast, Option.map_some]
    · simp only [reached, hlast, Option.map_some, Option.getD_some, Nat.le_refl]
    · simp only [reached, hlast, Option.map_some, Option.getD_some, h.version]
    · cases hwake
    · intro e he
      rcases List.mem_append.mp he with he | he
      · exact h.past e he
      · obtain rfl := List.mem_singleton.mp he
        exact Nat.le_refl x.now
    · intro e he
      rcases List.mem_append.mp he with he | he
      · exact h.numbered e he
      · obtain rfl := List.mem_singleton.mp he
        exact ⟨Nat.zero_lt_of_lt new, by rw [← List.getLast?_eq_getElem?, newest]⟩
    · refine List.pairwise_append.mpr ⟨h.spaced, List.pairwise_singleton _ _, ?_⟩
      intro e he e' he'
      obtain rfl := List.mem_singleton.mp he'
      obtain ⟨l, hl, htime, hnumber⟩ := h.le_last he
      have hreached : x.reached = l.number := by rw [reached, hl, Option.map_some, Option.getD_some]
      rw [hreached] at new
      exact ⟨Nat.le_trans (Nat.add_le_add_right htime period) (due l hl), Nat.lt_of_le_of_lt hnumber new⟩

theorem Kept.step (h : x.Kept period first) (o : Occurrence α) : (x.step period o).Kept period first := by
  cases o with
  | publish a => exact h.publish a
  | wait ms => exact { h with past := fun e he => Nat.le_trans (h.past e he) (Nat.le_add_right _ _) }
  | poll => exact h.poll
  | drop => exact { h with }

theorem Kept.run (h : x.Kept period first) (os : List (Occurrence α)) : (x.run period os).Kept period first := by
  induction os generalizing x with
  | nil => exact h
  | cons o os ih => exact ih (h.step o)

/-! ### Pauses -/

/-- A poll gives nothing, or the newest value. -/
theorem Kept.given_poll (h : x.Kept period first) :
    (x.step period .poll).given = x.given ∨ (x.step period .poll).reached = x.published.length := by
  have hend := h.polled
  simp only [History.step, answer, reached]
  generalize x.throttle.poll period x.now x.alive x.channel = polled at hend
  cases hend with
  | nothing all =>
    left
    cases x.alive <;> exact List.append_nil _
  | early seen new given soon => exact Or.inl (List.append_nil _)
  | item new newest due =>
    right
    simp only [Poll.item?, Option.map_some, Option.toList_some, List.getLast?_concat, Option.getD_some]

/-- While nothing is published the newest value stays the newest, and it is given or nothing is. -/
theorem Kept.pause (h : x.Kept period first) {os : List (Occurrence α)} (quiet : ∀ a, .publish a ∉ os) :
    (x.run period os).published = x.published ∧
      ((x.run period os).given = x.given ∨ (x.run period os).reached = x.published.length) := by
  induction os generalizing x with
  | nil => exact ⟨rfl, Or.inl rfl⟩
  | cons o os ih =>
    obtain ⟨hpublished, hgiven⟩ := ih (h.step o) fun a ha => quiet a (List.mem_cons_of_mem o ha)
    cases o with
    | publish a => exact absurd List.mem_cons_self (quiet a)
    | wait | drop => exact ⟨hpublished, hgiven⟩
    | poll =>
      refine ⟨hpublished, ?_⟩
      rcases hgiven with hsame | hall
      · rcases h.given_poll with hnothing | hnewest
        · exact Or.inl (hsame.trans hnothing)
        · right
          rw [← hnewest, reached, reached]
          exact congrArg (fun given => (given.getLast?.map Emission.number).getD 0) hsame
      · exact Or.inr hall

/-- Where all was reached the newest value was given last. -/
theorem Kept.last_eq (h : x.Kept period first) (all : x.reached = x.published.length) {a : α}
    (newest : x.published.getLast? = some a) :
    x.given.getLast?.map (fun e => (e.number, e.value)) = some (x.published.length, a) := by
  have hpos : 0 < x.published.length := List.length_pos_of_mem (List.mem_of_getLast? newest)
  cases hlast : x.given.getLast? with
  | none =>
    have hzero : x.reached = 0 := by rw [reached, hlast, Option.map_none, Option.getD_none]
    omega
  | some e =>
    have hnumber : e.number = x.published.length := by
      rw [← all, reached, hlast, Option.map_some, Option.getD_some]
    have hvalue := (h.numbered e (List.mem_of_getLast? hlast)).2
    rw [hnumber, ← List.getLast?_eq_getElem?, newest] at hvalue
    rw [Option.map_some, hnumber, Option.some.inj hvalue]

/-- A throttle that is asked when nothing keeps it from giving the newest value has given it then: it goes by the rule,
and the rule gives this value unless it was given. -/
theorem Kept.poll_due (h : x.Kept period first) {a : α} (newest : x.published.getLast? = some a)
    (due : x.reached < x.published.length → ∀ e, x.given.getLast? = some e → e.time + period ≤ x.now) :
    (x.step period .poll).given.getLast?.map (fun e => (e.number, e.value)) = some (x.published.length, a) := by
  have hafter := h.poll
  rcases h.given_poll with hsame | hall
  · refine hafter.last_eq ?_ newest
    have hanswer := h.answer_eq
    rcases Nat.lt_or_ge x.reached x.published.length with hnew | hall
    · have hitem : x.answer period = .item a := by
        rw [hanswer, rule, getLast?_drop_reached, if_pos hnew, newest]
        refine if_neg ?_
        rw [Bool.not_eq_true, Option.any_eq_false]
        intro e he
        exact decide_eq_false (Nat.not_lt_of_le (due hnew e he))
      have hgiven : (x.step period .poll).given = x.given ++ [⟨x.now, x.published.length, a⟩] := by
        simp only [History.step, hitem, Poll.item?, Option.map_some, Option.toList_some]
      rw [reached, hgiven, List.getLast?_concat, Option.map_some, Option.getD_some]
      rfl
    · rw [reached, hsame]
      exact Nat.le_antisymm h.bounded hall
  · exact hafter.last_eq hall newest

/-! ### The throttle, with all its past -/

/-- **A throttle answers by a rule that knows nothing of its sleep.** Whatever happened since the subscription,
it answers by what was published and given alone. What it gives is a period apart, in the order in which it was
published and nothing twice. After any pause of a period, whether the sender goes or the throttle is asked in
it or not, the last value published before has been given. -/
theorem answers_by_rule (period now : Nat) (c : Channel α) (os : List (Occurrence α)) :
    let x := (start c now).run period os
    x.answer period = x.rule period ∧
      x.given.Pairwise (fun e e' => e.time + period ≤ e'.time ∧ e.number < e'.number) ∧
      (∀ e ∈ x.given, 0 < e.number ∧ x.published[e.number - 1]? = some e.value) ∧
      ∀ pause a, (∀ b, .publish b ∉ pause) → x.now + period ≤ (x.run period pause).now →
        x.published.getLast? = some a →
          (x.run period (pause ++ [.poll])).given.getLast?.map (fun e => (e.number, e.value)) =
            some (x.published.length, a) := by
  intro x
  have h : x.Kept period c.version := (kept_start period c now).run os
  refine ⟨h.answer_eq, h.spaced, h.numbered, fun pause a quiet long newest => ?_⟩
  have hpause := h.run pause
  obtain ⟨hpublished, hgiven⟩ := h.pause quiet
  have hrun : x.run period (pause ++ [.poll]) = (x.run period pause).step period .poll := by
    rw [run, List.foldl_append]
    rfl
  rw [hrun, ← hpublished]
  rw [← hpublished] at newest
  refine hpause.poll_due newest fun hnew e he => ?_
  rcases hgiven with hsame | hall
  · rw [hsame] at he
    have hpast : e.time ≤ x.now := h.past e (List.mem_of_getLast? he)
    omega
  · rw [hall, hpublished] at hnew
    exact absurd hnew (Nat.lt_irrefl _)

/-- A value is given and the next one sleeps in the throttle when a third is published and the sender goes.
After the period it is the third that comes. -/
theorem answers_by_rule_sleeping :
    let x := (start (Channel.empty : Channel Nat) 0).run 100 [.publish 1, .poll, .publish 2, .poll, .publish 3, .drop]
    x.throttle.phase = .sleeping 100 ∧ x.answer 100 = x.rule 100 ∧
      ((x.run 100 ([.wait 50, .poll, .wait 50] ++ [.poll])).given.getLast?.map fun e => (e.number, e.value)) =
        some (3, 3) := by
  have h := answers_by_rule 100 0 (Channel.empty : Channel Nat)
    [.publish 1, .poll, .publish 2, .poll, .publish 3, .drop]
  exact ⟨rfl, h.1, h.2.2.2 [.wait 50, .poll, .wait 50] 3 (by simp) (by decide) rfl⟩

end History

end WalletHub.Throttle
