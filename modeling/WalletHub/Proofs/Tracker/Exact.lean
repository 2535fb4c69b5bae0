import WalletHub.Proofs.Tracker.Learning

/-!
# What the tracker will know and no more

What the jobs of a command say last of a currency is what is the case afterwards: there is a wallet of it, or
there is none any more. Where they say nothing of it nothing has changed (`MemorySystem.truthful_of_run`). So a
tracker that will not believe in a wallet that is not there never comes to do so (`Tracker.Sound`), and once it
will know of all wallets as well, the ids are just those of the wallets (`Tracker.Sound.mem_ids_iff`).

## What is proved

* `Incident.truthful`: the job of an incident is truthful, one case for each kind of incident.
* `truthful_of_turn`, `truthful_of_turns`, `truthful_of_run`: so are the jobs of a turn, of all turns, and of a
  command.
* `Tracker.Sound.run`, `Tracker.Sound.learn`, `Tracker.Sound.ended`: a command and the delivery of what waits
  keep a tracker sound.
* `Tracker.Sound.mem_ids_iff`: where nothing waits its ids are exactly those of the wallets.
* `Tracker.Ordered.learn`, `Tracker.Ordered.foldl_learn`: they are in increasing order, whatever was learned.

That no wallet is removed which shares its currency with another is asked of the command: the last word about the
currency would then be that there is no manager for it, although there is one.
-/

namespace WalletHub

namespace MemorySystem

open Tracker (words)

/-! ### The last word -/

/-- There is a wallet of the currency of a folded id. -/
def holds (id : String) (ws : List Wallet) : Bool := ws.any fun w => Text.fold w.id == id

theorem holds_iff {id : String} {ws : List Wallet} : holds id ws = true ↔ ∃ w ∈ ws, Text.fold w.id = id := by
  simp only [holds, List.any_eq_true, beq_iff_eq]

theorem holds_append (id : String) (ws ws' : List Wallet) :
    holds id (ws ++ ws') = (holds id ws || holds id ws') := by
  rw [holds, List.any_append, holds, holds]

theorem holds_cons (id : String) (w : Wallet) (ws : List Wallet) :
    holds id (w :: ws) = (Text.fold w.id == id || holds id ws) := rfl

/-- The last that the jobs say of a currency is whether there is a wallet of it; if they say nothing of it
that is as it was. -/
def Truthful (ws : List Wallet) (jobs : List Job) (ws' : List Wallet) : Prop :=
  ∀ id, holds id ws' = (words id jobs).getLast?.getD (holds id ws)

theorem Truthful.refl (ws : List Wallet) : Truthful ws [] ws := fun _ => rfl

theorem Truthful.trans {ws ws' ws'' : List Wallet} {jobs jobs' : List Job} (h : Truthful ws jobs ws')
    (h' : Truthful ws' jobs' ws'') : Truthful ws (jobs ++ jobs') ws'' := by
  intro id
  rw [h' id, h id, Tracker.words_append, List.getLast?_append]
  cases (words id jobs').getLast? <;> rfl

/-- A job that speaks of one currency only is truthful if its last word is, and if nothing has happened to the
others. -/
theorem truthful_of_words {ws ws' : List Wallet} {job : Job} (own : String) {said : List Bool} {last : Bool}
    (told : ∀ id, words id [job] = if Text.fold own = id then said else []) (final : said.getLast? = some last)
    (own_eq : holds (Text.fold own) ws' = last)
    (others : ∀ id, Text.fold own ≠ id → holds id ws' = holds id ws) : Truthful ws [job] ws' := by
  intro id
  rw [told id]
  by_cases hid : Text.fold own = id
  · rw [if_pos hid, final, ← hid, own_eq, Option.getD_some]
  · rw [if_neg hid, others id hid]
    rfl

/-- **The job of an incident is truthful**, as long as no wallet is removed that shares its currency with
another. -/
theorem Incident.truthful {c : Command} {s : MemorySystem} {ws : List Wallet} {job : Job}
    (h : Incident c s ws job) (apart : ∀ code, c = .removeWallet code → Apart s.wallets) :
    Truthful s.wallets [job] ws := by
  cases h with
  | announced network => exact fun _ => rfl
  | added w new blank =>
    refine truthful_of_words w.id (words_of_added · (s.manager w) w) rfl ?_ ?_
    · exact holds_iff.mpr ⟨w, List.mem_append_right _ List.mem_cons_self, rfl⟩
    · intro id hother
      rw [holds_append, holds_cons, beq_false_of_ne hother]
      exact Bool.or_false _
  | altered before after w w' job split altered =>
    have hid : w'.id = w.id := by rw [Wallet.id, altered.currency_eq, Wallet.id]
    have hsame (id : String) : holds id (before ++ w' :: after) = holds id s.wallets := by
      rw [split, holds_append, holds_append, holds_cons, holds_cons, hid]
    intro id
    rcases words_of_altered id rfl altered with ⟨hsilent, -⟩ | hmoved
    · rw [hsilent]
      exact hsame id
    · rw [hmoved]
      split
      · next hown => exact holds_iff.mpr ⟨w', List.mem_append_right _ List.mem_cons_self, hown⟩
      · exact hsame id
  | removed code m w asked found same =>
    have hwords (id : String) : words id [[.wallet m w .deleted, .manager m (.walletDeleted w.currency),
        .manager m .deleted]] = if Text.fold w.id = id then [true, false] else [] := by
      rw [words_singleton, Wallet.id, ← same]
      by_cases hown : Text.fold m.currency.id = id
      · simp [List.filterMap_cons, Callback.managed?, hown]
      · simp [List.filterMap_cons, Callback.managed?, hown]
    refine truthful_of_words w.id hwords (show [true, false].getLast? = some false from rfl) ?_ ?_
    · rw [Bool.eq_false_iff]
      intro hheld
      obtain ⟨y, hy, hown⟩ := holds_iff.mp hheld
      exact (apart code asked).erased found hy hown.symm
    · intro id hother
      obtain ⟨before, after, hsplit, herased⟩ := exists_split_of_find found
      rw [herased, hsplit, holds_append, holds_append, holds_cons, beq_false_of_ne hother, Bool.false_or]
  | progressed code percent time w asked found =>
    refine truthful_of_words w.id (words_of_progressed · (s.manager w) time percent) rfl ?_
      fun _ _ => rfl
    exact holds_iff.mpr ⟨w, List.mem_of_find?_eq_some found, rfl⟩

theorem truthful_of_turn {c : Command} {s s' : MemorySystem} (h : Turn c s s')
    (apart : ∀ code, c = .removeWallet code → Apart s.wallets) :
    ∃ jobs, s'.queue = s.queue ++ jobs ∧ Truthful s.wallets jobs s'.wallets := by
  rcases h.happened with ⟨hwallets, hqueue⟩ | ⟨job, hqueue, hincident⟩
  · exact ⟨[], by rw [hqueue, List.append_nil], hwallets ▸ .refl _⟩
  · exact ⟨[job], hqueue, hincident.truthful apart⟩

theorem truthful_of_turns {c : Command} {s s' : MemorySystem} (h : Turns c s s')
    (stays : ∀ code, c ≠ .removeWallet code) :
    ∃ jobs, s'.queue = s.queue ++ jobs ∧ Truthful s.wallets jobs s'.wallets := by
  induction h with
  | refl => exact ⟨[], (List.append_nil _).symm, .refl _⟩
  | tail _ turn ih =>
    obtain ⟨jobs, hqueue, htruthful⟩ := ih
    obtain ⟨more, hmore, hnext⟩ := truthful_of_turn turn fun code hc => absurd hc (stays code)
    exact ⟨jobs ++ more, by rw [hmore, hqueue, List.append_assoc], htruthful.trans hnext⟩

/-- **The jobs of a command are truthful**, as long as no wallet is removed that shares its currency with
another. -/
theorem truthful_of_run {now : Instant} {c : Command} {s s' : MemorySystem} (h : run now c s = .ok s')
    (apart : ∀ code, c = .removeWallet code → Apart s.wallets) :
    ∃ jobs, s'.queue = s.queue ++ jobs ∧ Truthful s.wallets jobs s'.wallets := by
  cases c with
  | removeWallet code => exact truthful_of_turn (turn_of_removeWallet h) apart
  | _ => exact truthful_of_turns (turns_of_run h) nofun

end MemorySystem

namespace Tracker

open MemorySystem (Apart Command Truthful holds holds_iff)

/-! ### No more than there is -/

/-- The tracker will know of no wallet that is not there. -/
def Sound (s : MemorySystem) (t : Tracker) : Prop :=
  ∀ id, t.expects id s.queue = true → holds id s.wallets = true

variable {s s' : MemorySystem} {t : Tracker} {jobs : List Job}

theorem expects_append (id : String) (jobs jobs' : List Job) (t : Tracker) :
    t.expects id (jobs ++ jobs') = (words id jobs').getLast?.getD (t.expects id jobs) := by
  rw [expects, words_append, List.getLast?_append, expects]
  cases (words id jobs').getLast? <;> rfl

/-- A tracker that knows of nothing, and of which nothing waits, will know of nothing. -/
theorem Sound.blank (ids : t.ids = []) (queue : s.queue = []) : t.Sound s := by
  intro id hexpects
  rw [expects, queue, ids] at hexpects
  cases hexpects

theorem Sound.truthful (h : t.Sound s) (queue : s'.queue = s.queue ++ jobs)
    (truthful : Truthful s.wallets jobs s'.wallets) : t.Sound s' := by
  intro id
  rw [queue, expects_append, truthful id]
  cases (words id jobs).getLast? with
  | none => exact h id
  | some last => exact fun hlast => hlast

theorem Sound.run {now : Instant} {c : Command} (h : t.Sound s) (ran : MemorySystem.run now c s = .ok s')
    (apart : ∀ code, c = .removeWallet code → Apart s.wallets) : t.Sound s' := by
  obtain ⟨jobs, hqueue, htruthful⟩ := MemorySystem.truthful_of_run ran apart
  exact h.truthful hqueue htruthful

theorem Sound.learn {c : Callback} {job : Job} (h : t.Sound s) (queue : s.queue = (c :: job) :: jobs) :
    (t.learn c).Sound { s with queue := job :: jobs } := by
  intro id
  rw [expects_cons, ← queue]
  exact h id

theorem Sound.ended (h : t.Sound s) (queue : s.queue = [] :: jobs) : t.Sound { s with queue := jobs } := by
  intro id
  have hwords : words id jobs = words id s.queue := by
    rw [queue]
    rfl
  rw [expects, hwords]
  exact h id

/-- **Where nothing waits, a tracker that will know of all wallets and of nothing else has the ids of the
wallets.** -/
theorem Sound.mem_ids_iff (sound : t.Sound s) (knows : t.Knows true s) (queue : s.queue = []) (id : String) :
    id ∈ t.ids ↔ ∃ w ∈ s.wallets, Text.fold w.id = id := by
  constructor
  · intro hid
    apply holds_iff.mp
    apply sound id
    rw [queue]
    exact List.contains_iff_mem.mpr hid
  · rintro ⟨w, hw, rfl⟩
    exact knows.mem_ids queue hw

/-! ### The order of the ids -/

/-- The ids are in increasing order. -/
def Ordered (t : Tracker) : Prop := t.ids.Pairwise (· < ·)

theorem pairwise_enter {id : String} {ids : List String} (new : id ∉ ids) (h : ids.Pairwise (· < ·)) :
    (enter id ids).Pairwise (· < ·) := by
  induction ids with
  | nil => exact List.pairwise_singleton _ id
  | cons x xs ih =>
    obtain ⟨hx, hxs⟩ := List.pairwise_cons.mp h
    obtain ⟨hne, hnew⟩ := not_or.mp (mt List.mem_cons.mpr new)
    unfold enter
    split
    · next hlt =>
      refine List.pairwise_cons.mpr ⟨?_, h⟩
      intro y hy
      rcases List.mem_cons.mp hy with rfl | hy
      · exact hlt
      · exact String.lt_trans hlt (hx y hy)
    · next hlt =>
      refine List.pairwise_cons.mpr ⟨?_, ih hnew hxs⟩
      intro y hy
      rcases (mem_enter id y xs).mp hy with rfl | hy
      · exact Std.lt_of_le_of_ne (String.not_lt.mp hlt) (Ne.symm hne)
      · exact hx y hy

theorem Ordered.learn (h : t.Ordered) (c : Callback) : (t.learn c).Ordered := by
  have hadd (other : String) : (t.add other).Ordered := by
    unfold add
    by_cases hknown : t.ids.contains (Text.fold other) = true
    · rwa [if_pos hknown]
    · rw [if_neg hknown]
      exact pairwise_enter (fun hmem => hknown (List.contains_iff_mem.mpr hmem)) h
  have hremove (other : String) : (t.remove other).Ordered := by
    unfold remove
    by_cases hknown : t.ids.contains (Text.fold other) = true
    · rw [if_pos hknown]
      exact h.sublist List.filter_sublist
    · rwa [if_neg hknown]
  cases c with
  | system event =>
    cases event with
    | managerAdded m => exact hadd m.currency.id
    | _ => exact h
  | manager m event =>
    cases event with
    | deleted => exact hremove m.currency.id
    | _ => exact hadd m.currency.id
  | network | wallet | transfer => exact h

/-- **However many callbacks it learns, the ids stay in order.** -/
theorem Ordered.foldl_learn (cs : List Callback) (h : t.Ordered) :
    (cs.foldl (fun t c => t.learn c) t).Ordered := by
  induction cs generalizing t with
  | nil => exact h
  | cons c cs ih => exact ih (h.learn c)

end Tracker

end WalletHub
