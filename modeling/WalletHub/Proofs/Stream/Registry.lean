import Mathlib.Data.List.Induction
import WalletHub.Stream.Channels

/-!
# One channel for every currency code

`Channels` says what is read on the channel of a code. Here the channels are things that someone can hold: each is
made when its code is looked up for the first time, has a number of its own, and is filed under the folded code
(`Registry`). A lookup goes in two steps, so that others can come in between: `find` looks whether there is a
channel, and where there is none `enter` looks again and makes one. Whoever was given a channel may publish on it
at any later time.

Whatever the order of all this (`History`), two codes are given one channel exactly if they are the same up to
letter case, a channel that was given for a code stays the channel of the code, and it holds what was published
under all spellings of the code (`Sound`). So it is the channel that `Channels` has for the code
(`codes_have_one_channel`).

## What is proved

* `Registry.number?_enter`: what entering a code does to the numbers of all codes.
* `Registry.Sound.enter`, `Registry.Sound.offer`, `Registry.Sound.visit`: every visit keeps the channels sound,
  those by which nothing is found or published included.
* `Registry.History.sound`: so they are after any history.
* `Registry.get_channels`, `Registry.Sound.read_eq`: what is read is what was published under any spelling, here
  and in `Channels`.
* `Registry.codes_have_one_channel`: one channel for codes that are the same, different channels for others, for
  good.
* `other_spelling_is_read`: two who look up one code at the same time in two spellings.
-/

namespace WalletHub

variable {α : Type}

/-! ### Publications on one channel -/

/-- The channel after some publications. -/
def Channel.offerAll (as : List α) (c : Channel α) : Channel α := as.foldl (fun c a => c.offer a) c

namespace Channel

theorem offerAll_append (as bs : List α) (c : Channel α) : offerAll (as ++ bs) c = offerAll bs (offerAll as c) :=
  List.foldl_append

theorem latest_offerAll (as : List α) (c : Channel α) : (offerAll as c).latest = as.getLast?.or c.latest := by
  induction as using List.reverseRecOn with
  | nil => rfl
  | append_singleton as a =>
    rw [offerAll_append, List.getLast?_concat]
    rfl

theorem version_offerAll (as : List α) (c : Channel α) : (offerAll as c).version = c.version + as.length := by
  induction as generalizing c with
  | nil => rfl
  | cons a as ih =>
    refine (ih (c.offer a)).trans ?_
    rw [version_offer, List.length_cons]
    omega

/-- Who has read a channel, or subscribed to it, reads of what was published since the newest. -/
theorem read_offerAll (as : List α) (c : Channel α) :
    ((offerAll as c).read (some c.version)).1 = as.getLast?.map some := by
  rw [Watch.read, version_offerAll]
  cases has : as.getLast? with
  | none =>
    rw [List.getLast?_eq_none_iff.mp has, List.length_nil, Nat.add_zero, if_pos rfl]
    rfl
  | some a =>
    have hlength : 0 < as.length := List.length_pos_of_mem (List.mem_of_getLast? has)
    have hvalue : (offerAll as c).value = some a := by
      have hlatest := latest_offerAll as c
      rwa [has, Option.some_or] at hlatest
    rw [if_neg fun heq => by have := Option.some.inj heq; omega, hvalue]
    rfl

end Channel

/-! ### The channels and their numbers -/

/-- The channels that were made, and the numbers under which they are filed. -/
structure Registry (α : Type) where
  /-- The number of the channel of a folded code. -/
  filed : List (String × Nat)
  /-- The channels by their numbers, in the order in which they were made. -/
  made : List (Channel α)

namespace Registry

/-- No channel was made. -/
def empty : Registry α := ⟨[], []⟩

/-- The number of the channel of a code, if it was made. -/
def number? (code : String) (r : Registry α) : Option Nat := r.filed.lookup (Currency.key code)

/-- The number of the channel of a code, which is made if there is none. -/
def enter (code : String) (r : Registry α) : Nat × Registry α :=
  match r.number? code with
  | some n => (n, r)
  | none => (r.made.length, ⟨Entries.put (Currency.key code) r.made.length r.filed, r.made ++ [.empty]⟩)

/-- Publishes a value on the channel of a number. -/
def offer (n : Nat) (a : α) (r : Registry α) : Registry α := { r with made := r.made.modify n (Channel.offer a) }

/-- What is read on the channel of a code. Nothing was published on a channel that was not made. -/
def read (code : String) (r : Registry α) : Channel α := ((r.number? code).bind fun n => r.made[n]?).getD .empty

/-! ### Visits -/

/-- What is done with the channels at once. -/
inductive Visit (α : Type) where
  /-- Someone looks whether there is a channel for a code. -/
  | find (code : String)
  /-- Someone looks for the channel of a code, and makes it if there is none. -/
  | enter (code : String)
  /-- Someone who was given the channel of a number for a code publishes a value on it. -/
  | offer (code : String) (n : Nat) (a : α)
  deriving DecidableEq

/-- The number that is given to a visitor, and the channels after the visit. -/
def receive (r : Registry α) : Visit α → Option Nat × Registry α
  | .find code => (r.number? code, r)
  | .enter code => (some (r.enter code).1, (r.enter code).2)
  | .offer _ n a => (none, r.offer n a)

/-- Visits, with the numbers that were given, the oldest first. -/
abbrev Past (α : Type) := List (Visit α × Option Nat)

/-- The channel of a number was given to someone who had asked for a code. -/
def Given (code : String) (n : Nat) (past : Past α) : Prop :=
  (.find code, some n) ∈ past ∨ (.enter code, some n) ∈ past

/-- Whoever publishes was given the channel before. -/
def Visit.Fair (past : Past α) : Visit α → Prop
  | .offer code n _ => Given code n past
  | .find _ | .enter _ => True

/-- What can have been done with the channels since there were none. -/
inductive History : Past α → Registry α → Prop where
  | start : History [] .empty
  | visit {past : Past α} {r : Registry α} (history : History past r) (v : Visit α) (fair : v.Fair past) :
      History (past ++ [(v, (r.receive v).1)]) (r.receive v).2

/-- The value that is published under a code in any spelling. -/
def Visit.published? (code : String) : Visit α → Option α
  | .offer other _ a => if Text.sameLetters other code then some a else none
  | .find _ | .enter _ => none

/-- All that was published under a code in any spelling. -/
def published (code : String) (past : Past α) : List α := past.filterMap fun e => e.1.published? code

/-- The channels by code after the publications of the past. -/
def channels (past : Past α) : Channels α :=
  past.foldl (fun cs e => match e.1 with
    | .offer code _ a => cs.offer code a
    | .find _ | .enter _ => cs) .empty

/-! ### What stays true -/

/-- What stays true of the channels: different codes have different channels, a channel that was given for a code
is that of the code, and it holds what was published under the code. -/
structure Sound (past : Past α) (r : Registry α) : Prop where
  apart {code code' : String} {n : Nat} : r.number? code = some n → r.number? code' = some n →
    Currency.key code = Currency.key code'
  given {code : String} {n : Nat} : Given code n past → r.number? code = some n
  holds {code : String} {n : Nat} : r.number? code = some n →
    r.made[n]? = some (.offerAll (published code past) .empty)
  unmade {code : String} : r.number? code = none → published code past = []

variable {past past' : Past α} {r r' : Registry α} {code code' : String} {n : Nat}

theorem number?_congr (same : Currency.key code = Currency.key code') : r.number? code = r.number? code' := by
  rw [number?, number?, same]

/-- A publication counts for the codes that are filed where its own code is. -/
theorem published?_offer (code code' : String) (n : Nat) (a : α) : (Visit.offer code n a).published? code' =
    if Currency.key code = Currency.key code' then some a else none :=
  if_congr (Text.sameLetters_iff_fold_eq code code') rfl rfl

theorem published_concat (code : String) (past : Past α) (v : Visit α) (answer : Option Nat) :
    published code (past ++ [(v, answer)]) = published code past ++ (v.published? code).toList := by
  rw [published, List.filterMap_append, List.filterMap_cons, List.filterMap_nil]
  cases v.published? code <;> rfl

theorem given_concat {v : Visit α} {answer : Option Nat} : Given code n (past ++ [(v, answer)]) ↔
    Given code n past ∨ (v = .find code ∨ v = .enter code) ∧ answer = some n := by
  simp only [Given, List.mem_append, List.mem_singleton, Prod.mk.injEq]
  grind

/-- A channel is filed under its code in every spelling; the other codes keep what they have. -/
theorem number?_enter (r : Registry α) (code code' : String) : (r.enter code).2.number? code' =
    if Currency.key code' = Currency.key code then some (r.enter code).1 else r.number? code' := by
  by_cases same : Currency.key code' = Currency.key code
  · rw [if_pos same, number?_congr same, enter]
    split
    · assumption
    · rw [number?, Entries.lookup_put, if_pos rfl]
  · rw [if_neg same, enter]
    split
    · rfl
    · rw [number?, Entries.lookup_put, if_neg same]
      rfl

/-- Nothing changes with a visit at which nothing is published, and at which a number is given only for a code
that has it. -/
theorem Sound.idle (h : Sound past r) {v : Visit α} {answer : Option Nat}
    (silent : ∀ code, v.published? code = none)
    (known : ∀ code n, (v = .find code ∨ v = .enter code) → answer = some n → r.number? code = some n) :
    Sound (past ++ [(v, answer)]) r where
  apart := h.apart
  given hgiven := (given_concat.mp hgiven).elim h.given fun hnew => known _ _ hnew.1 hnew.2
  holds {code} _ hnumber := by
    rw [published_concat, silent code, Option.toList_none, List.append_nil]
    exact h.holds hnumber
  unmade {code} hnumber := by
    rw [published_concat, silent code, h.unmade hnumber]
    rfl

theorem Sound.lt_length (h : Sound past r) (hnumber : r.number? code = some n) : n < r.made.length :=
  (List.getElem?_eq_some_iff.mp (h.holds hnumber)).1

/-- What a code has after a channel was made: the new one, if this was made for the code, or else what it had. -/
theorem number?_made (hnone : r.number? code = none) : (r.enter code).2.number? code' = some n ↔
    Currency.key code' = Currency.key code ∧ n = r.made.length ∨
      Currency.key code' ≠ Currency.key code ∧ r.number? code' = some n := by
  have hfresh : (r.enter code).1 = r.made.length := by rw [enter, hnone]
  rw [number?_enter, hfresh]
  by_cases same : Currency.key code' = Currency.key code
  · simp [same, eq_comm]
  · simp [same]

theorem ne_of_number? (hnone : r.number? code = none) (hnumber : r.number? code' = some n) :
    Currency.key code' ≠ Currency.key code := by
  intro same
  rw [number?_congr same, hnone] at hnumber
  exact Option.some_ne_none _ hnumber.symm

/-- A channel that is made for a code gets a number that no other has, and nothing was published under the code. -/
theorem Sound.enter (h : Sound past r) (hnone : r.number? code = none) :
    Sound (past ++ [(.enter code, some (r.enter code).1)]) (r.enter code).2 := by
  have hfresh : (r.enter code).1 = r.made.length := by rw [Registry.enter, hnone]
  have hmade : (r.enter code).2.made = r.made ++ [.empty] := by rw [Registry.enter, hnone]
  have hpublished (other : String) : published other (past ++ [(.enter code, some (r.enter code).1)]) =
      published other past := by
    rw [published_concat]
    exact List.append_nil _
  constructor
  case apart =>
    intro a b n ha hb
    rcases (number?_made hnone).mp ha with ⟨hac, rfl⟩ | ⟨-, ha⟩ <;>
      rcases (number?_made hnone).mp hb with ⟨hbc, hn⟩ | ⟨-, hb⟩
    · rw [hac, hbc]
    · exact absurd (h.lt_length hb) (Nat.lt_irrefl _)
    · exact absurd (hn ▸ h.lt_length ha) (Nat.lt_irrefl _)
    · exact h.apart ha hb
  case given =>
    intro other n hgiven
    rw [number?_made hnone]
    rcases given_concat.mp hgiven with hbefore | ⟨hcode, hanswer⟩
    · exact .inr ⟨ne_of_number? hnone (h.given hbefore), h.given hbefore⟩
    · obtain rfl : code = other := Visit.enter.inj (hcode.resolve_left nofun)
      exact .inl ⟨rfl, (Option.some.inj hanswer).symm.trans hfresh⟩
  case holds =>
    intro other n hother
    rw [hpublished, hmade]
    rcases (number?_made hnone).mp hother with ⟨same, rfl⟩ | ⟨-, hold⟩
    · rw [List.getElem?_concat_length, h.unmade ((number?_congr same).trans hnone)]
      rfl
    · rw [List.getElem?_append_left (h.lt_length hold)]
      exact h.holds hold
  case unmade =>
    intro other hother
    rw [hpublished]
    refine h.unmade (Option.eq_none_iff_forall_ne_some.mpr fun n hold => ?_)
    have hstill := (number?_made hnone).mpr (.inr ⟨ne_of_number? hnone hold, hold⟩)
    exact Option.some_ne_none _ (hstill.symm.trans hother)

/-- A publication on the channel that was given for a code reaches the channel of the code and no other. -/
theorem Sound.offer (h : Sound past r) (hgiven : Given code n past) (a : α) :
    Sound (past ++ [(.offer code n a, none)]) (r.offer n a) := by
  have hcode : r.number? code = some n := h.given hgiven
  constructor
  case apart => exact h.apart
  case given =>
    intro other n' hother
    exact h.given ((given_concat.mp hother).resolve_right nofun)
  case holds =>
    intro other n' hother
    have hchannel := h.holds hother
    rw [published_concat, published?_offer, Channel.offerAll_append]
    by_cases same : Currency.key code = Currency.key other
    · obtain rfl : n = n' := Option.some.inj (hcode.symm.trans ((number?_congr same).trans hother))
      rw [if_pos same, Registry.offer, List.getElem?_modify_eq, hchannel]
      rfl
    · have hne : n ≠ n' := by
        rintro rfl
        exact same (h.apart hcode hother)
      rw [if_neg same, Registry.offer, List.getElem?_modify_ne _ _ hne, hchannel]
      rfl
  case unmade =>
    intro other hother
    have differs : Currency.key code ≠ Currency.key other := ne_of_number? hother hcode
    rw [published_concat, published?_offer, if_neg differs, h.unmade hother]
    rfl

theorem Sound.visit (h : Sound past r) (v : Visit α) (fair : v.Fair past) :
    Sound (past ++ [(v, (r.receive v).1)]) (r.receive v).2 := by
  cases v with
  | find code => exact h.idle (fun _ => rfl) (by grind [receive])
  | enter code =>
    cases hnumber : r.number? code with
    | none => exact h.enter hnumber
    | some n =>
      have hsame : r.enter code = (n, r) := by rw [Registry.enter, hnumber]
      rw [receive, hsame]
      exact h.idle (fun _ => rfl) (by grind)
  | offer code n a => exact h.offer fair a

theorem History.sound (history : History past r) : Sound past r := by
  induction history with
  | start => exact ⟨nofun, nofun, nofun, fun _ => rfl⟩
  | visit _ v fair ih => exact ih.visit v fair

/-! ### One channel for every code -/

theorem published_append (code : String) (past past' : Past α) :
    published code (past ++ past') = published code past ++ published code past' := List.filterMap_append

theorem Given.append (given : Given code n past) (past' : Past α) : Given code n (past ++ past') :=
  given.imp (List.mem_append_left past') (List.mem_append_left past')

/-- The channel of a code holds what was published under the code, also where it was not made. -/
theorem Sound.read_eq (h : Sound past r) (code : String) : r.read code = .offerAll (published code past) .empty := by
  rw [read]
  cases hnumber : r.number? code with
  | none =>
    rw [h.unmade hnumber]
    rfl
  | some n =>
    rw [Option.bind_some, h.holds hnumber]
    rfl

/-- The channels by code hold the same. -/
theorem get_channels (code : String) (past : Past α) :
    (channels past).get code = .offerAll (published code past) .empty := by
  induction past using List.reverseRecOn with
  | nil => rfl
  | append_singleton past e ih =>
    obtain ⟨v, answer⟩ := e
    rw [published_concat, channels, List.foldl_append]
    cases v with
    | find other | enter other => exact ih.trans (congrArg (Channel.offerAll · .empty) (List.append_nil _).symm)
    | offer other n a =>
      have hget := Channels.get_offer (channels past) other code a
      rw [published?_offer, Channel.offerAll_append]
      by_cases same : Currency.key other = Currency.key code
      · rw [if_pos same.symm, Channels.get_congr _ same, ih] at hget
        rw [if_pos same]
        exact hget
      · rw [if_neg (Ne.symm same), ih] at hget
        rw [if_neg same]
        exact hget

/-- Whoever looks for the channel of a code that was made is given it, and no channel is made. -/
theorem receive_of_number? (hnumber : r.number? code = some n) {v : Visit α}
    (looks : v = .find code ∨ v = .enter code) : r.receive v = (some n, r) := by
  obtain rfl | rfl := looks
  · rw [receive, hnumber]
  · rw [receive, enter, hnumber]

/-- Filing and matching of codes agree, and two visitors are given one channel exactly if their codes match. On the
channel of a code, which is also the one in `Channels`, the newest value is the last that was published under a
matching code. Later visitors with a matching code are given the channel that was given before, with all that it
held, and who subscribed to it then reads the last that was published since. -/
theorem codes_have_one_channel (history : History past r) :
    (∀ (c : Currency) (code : String), c.hasCode code = true ↔ Currency.key c.code = Currency.key code) ∧
    (∀ (code code' : String) (n n' : Nat), Given code n past → Given code' n' past →
      (n = n' ↔ Text.sameLetters code code' = true)) ∧
    (∀ code : String, (channels past).get code = r.read code ∧
      (r.read code).latest = (published code past).getLast?) ∧
    (∀ (code : String) (n : Nat), Given code n past → r.made[n]? = some (r.read code)) ∧
    (∀ (past' : Past α) (r' : Registry α), History (past ++ past') r' →
      ∀ (code : String) (n : Nat), Given code n past →
        (∀ (code' : String) (v : Visit α), Text.sameLetters code code' = true → v = .find code' ∨ v = .enter code' →
          r'.receive v = (some n, r')) ∧
        r'.made[n]? = some (.offerAll (published code past') (r.read code)) ∧
        ((r'.read code).read (some (r.read code).version)).1 = (published code past').getLast?.map some) := by
  have h := history.sound
  refine ⟨Currency.hasCode_iff, fun code code' n n' hgiven hgiven' => ⟨?_, fun same => ?_⟩,
    fun code => ⟨?_, ?_⟩, fun code n hgiven => ?_, fun past' r' history' code n hgiven => ?_⟩
  · rintro rfl
    exact (Text.sameLetters_iff_fold_eq _ _).mpr (h.apart (h.given hgiven) (h.given hgiven'))
  · have hkey : Currency.key code = Currency.key code' := (Text.sameLetters_iff_fold_eq _ _).mp same
    exact Option.some.inj ((h.given hgiven).symm.trans ((number?_congr hkey).trans (h.given hgiven')))
  · rw [get_channels, h.read_eq]
  · rw [h.read_eq, Channel.latest_offerAll]
    exact Option.or_none
  · rw [h.holds (h.given hgiven), h.read_eq]
  · have h' := history'.sound
    have hnumber : r'.number? code = some n := h'.given (hgiven.append past')
    have hread : r'.read code = .offerAll (published code past') (r.read code) := by
      rw [h'.read_eq, h.read_eq, published_append, Channel.offerAll_append]
    refine ⟨fun code' v same looks => ?_, ?_, ?_⟩
    · have hkey : Currency.key code = Currency.key code' := (Text.sameLetters_iff_fold_eq _ _).mp same
      exact receive_of_number? ((number?_congr hkey).symm.trans hnumber) looks
    · rw [h'.holds hnumber, ← h'.read_eq, hread]
    · rw [hread, Channel.read_offerAll]

/-- Two spellings of a code are looked up at once, and another code; then something is published. -/
def raced : Past Nat :=
  [(.find "ETH", none), (.find "eth", none), (.enter "eth", some 0), (.enter "ETH", some 0), (.enter "btc", some 1),
    (.offer "ETH" 0 7, none)]

/-- One channel was made for the two spellings. -/
def afterRace : Registry Nat := ⟨[("eth", 0), ("btc", 1)], [⟨some 7, 1⟩, ⟨none, 0⟩]⟩

theorem history_raced : History raced afterRace :=
  have asked := (History.start.visit (.find "ETH") trivial).visit (.find "eth") trivial
  have made := ((asked.visit (.enter "eth") trivial).visit (.enter "ETH") trivial).visit (.enter "btc") trivial
  made.visit (.offer "ETH" 0 (7 : Nat)) (.inr (by decide +kernel))

/-- Who subscribed under one spelling reads what is published under the other, and nothing of other codes. -/
theorem other_spelling_is_read :
    History raced afterRace ∧ Given "ETH" 0 raced ∧ (afterRace.read "Eth").latest = some 7 ∧
      ∃ r : Registry Nat, History (raced ++ [(.offer "eth" 0 8, none), (.offer "btc" 1 9, none)]) r ∧
        r.receive (.enter "Eth") = (some 0, r) ∧ ((r.read "ETH").read (some 1)).1 = some (some 8) := by
  have hgiven : Given "ETH" 0 raced := .inr (by decide +kernel)
  have hlater := (history_raced.visit (.offer "eth" 0 8) (.inr (by decide +kernel))).visit (.offer "btc" 1 9)
    (.inr (by decide +kernel))
  obtain ⟨-, -, hread, -, hlasting⟩ := codes_have_one_channel history_raced
  obtain ⟨hlooks, -, hsubscribed⟩ := hlasting _ _ hlater "ETH" 0 hgiven
  exact ⟨history_raced, hgiven, (hread "Eth").2, _, hlater, hlooks "Eth" _ (by decide +kernel) (.inr rfl), hsubscribed⟩

end Registry

end WalletHub
