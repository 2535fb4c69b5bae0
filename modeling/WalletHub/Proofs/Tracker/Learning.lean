import WalletHub.Proofs.Memory.Sole
import WalletHub.Tracker

/-!
# What the tracker will know

The tracker hears of managers late, by the callbacks that wait in the queue of the system, and so what
counts is what it will know when all of them were delivered (`Tracker.expects`): a delivery does not change
it (`expects_cons`), and the newest word in the queue about a currency decides. A system lines up such a
word with nearly all that it does to a wallet (`MemorySystem.Heralded`), and takes none back as long as no
two wallets are of the same currency (`heralded_of_run`).

## What is proved

* `Tracker.contains_learn`: what one callback does to what is known of a currency.
* `Tracker.expects_cons`: a delivery does not change what will be known.
* `Tracker.expects_of_told`, `Tracker.expects_of_silent`: the last new word decides, and where there is none it
  stays.
* `Incident.heralded`: every wallet that is there after an incident is heralded by its job, or was there before.
* `heralded_of_run`: so it is with a command, by induction over its turns.
* `Tracker.Knows.run`, `Tracker.Knows.connect`, `Tracker.Knows.disconnect`, `Tracker.Knows.learn`,
  `Tracker.Knows.ended`: what a tracker will know of the wallets of a system is kept by all that can happen to
  the system, and is all of them once it is connected.
* `Tracker.Knows.mem_ids`: where nothing waits every wallet is among the ids.
-/

namespace WalletHub

/-! ### Words about a currency -/

/-- What the callback says of the currency of a folded id: that there is a manager for it, or that there is
none any more. -/
def Callback.managed? (id : String) : Callback → Option Bool
  | .system (.managerAdded m) => if Text.fold m.currency.id = id then some true else none
  | .manager m .deleted => if Text.fold m.currency.id = id then some false else none
  | .manager m _ => if Text.fold m.currency.id = id then some true else none
  | .system _ | .network .. | .wallet .. | .transfer .. => none

namespace Tracker

/-- What the callbacks of some jobs say of a currency, the oldest first. -/
def words (id : String) (jobs : List Job) : List Bool := jobs.flatten.filterMap (Callback.managed? id)

/-- The currency will be a managed one when the jobs were delivered. -/
def expects (id : String) (jobs : List Job) (t : Tracker) : Bool :=
  (words id jobs).getLast?.getD (t.ids.contains id)

theorem words_append (id : String) (jobs jobs' : List Job) :
    words id (jobs ++ jobs') = words id jobs ++ words id jobs' := by
  simp only [words, List.flatten_append, List.filterMap_append]

theorem contains_add (id other : String) (t : Tracker) :
    (t.add other).ids.contains id = if Text.fold other = id then true else t.ids.contains id := by
  unfold add
  by_cases hknown : t.ids.contains (Text.fold other) = true
  · rw [if_pos hknown]
    split
    · next hid => rw [← hid, hknown]
    · rfl
  · rw [if_neg hknown, Bool.eq_iff_iff, List.contains_iff_mem]
    show id ∈ enter (Text.fold other) t.ids ↔ _
    rw [mem_enter]
    split
    · next hid => exact iff_of_true (Or.inl hid.symm) rfl
    · next hid => rw [or_iff_right (Ne.symm hid), List.contains_iff_mem]

theorem contains_remove (id other : String) (t : Tracker) :
    (t.remove other).ids.contains id = if Text.fold other = id then false else t.ids.contains id := by
  unfold remove
  by_cases hknown : t.ids.contains (Text.fold other) = true
  · rw [if_pos hknown, Bool.eq_iff_iff, List.contains_iff_mem]
    show id ∈ t.ids.filter (fun x => x != Text.fold other) ↔ _
    rw [List.mem_filter, bne_iff_ne]
    split
    · next hid => exact iff_of_false (fun h => h.2 hid.symm) Bool.false_ne_true
    · next hid => rw [and_iff_left (Ne.symm hid), List.contains_iff_mem]
  · rw [if_neg hknown]
    split
    · next hid => rw [← hid, Bool.eq_false_iff.mpr hknown]
    · rfl

/-- What is learned of a callback is what it says. -/
theorem contains_learn (id : String) (c : Callback) (t : Tracker) :
    (t.learn c).ids.contains id = (c.managed? id).getD (t.ids.contains id) := by
  have hadd (other : String) : (t.add other).ids.contains id =
      (if Text.fold other = id then some true else none).getD (t.ids.contains id) := by
    rw [contains_add]
    split <;> rfl
  have hremove (other : String) : (t.remove other).ids.contains id =
      (if Text.fold other = id then some false else none).getD (t.ids.contains id) := by
    rw [contains_remove]
    split <;> rfl
  cases c with
  | system event =>
    cases event with
    | managerAdded m => exact hadd m.currency.id
    | _ => rfl
  | manager m event =>
    cases event with
    | deleted => exact hremove m.currency.id
    | _ => exact hadd m.currency.id
  | network | wallet | transfer => rfl

/-- **A delivery does not change what the tracker will know.** -/
theorem expects_cons (id : String) (c : Callback) (job : Job) (jobs : List Job) (t : Tracker) :
    (t.learn c).expects id (job :: jobs) = t.expects id ((c :: job) :: jobs) := by
  have hwords : words id ((c :: job) :: jobs) = (c.managed? id).toList ++ words id (job :: jobs) := by
    simp only [words, List.flatten_cons, List.cons_append, List.filterMap_cons]
    cases c.managed? id <;> rfl
  rw [expects, expects, hwords, contains_learn, List.getLast?_append]
  cases (words id (job :: jobs)).getLast? with
  | some b => rfl
  | none => cases c.managed? id <;> rfl

theorem expects_of_told {id : String} {jobs jobs' : List Job} (told : (words id jobs').getLast? = some true)
    (t : Tracker) : t.expects id (jobs ++ jobs') = true := by
  rw [expects, words_append, List.getLast?_append, told]
  rfl

theorem expects_of_silent {id : String} {jobs jobs' : List Job} (silent : words id jobs' = []) (t : Tracker) :
    t.expects id (jobs ++ jobs') = t.expects id jobs := by
  rw [expects, expects, words_append, silent, List.append_nil]

end Tracker

namespace MemorySystem

open Tracker (words)

/-- No two wallets are of the same currency. -/
def Apart (ws : List Wallet) : Prop := ws.Pairwise fun a b => Text.fold a.id ≠ Text.fold b.id

instance (ws : List Wallet) : Decidable (Apart ws) := inferInstanceAs (Decidable (ws.Pairwise _))

/-- The jobs tell that there is a manager for the wallet's currency; or they say nothing of it, and the
wallet was there before, with its manager in the same state. -/
def Heralded (ws : List Wallet) (jobs : List Job) (y : Wallet) : Prop :=
  (words (Text.fold y.id) jobs).getLast? = some true ∨ words (Text.fold y.id) jobs = [] ∧
    ∃ x ∈ ws, Text.fold x.id = Text.fold y.id ∧ x.managerState = y.managerState

theorem heralded_of_mem {ws : List Wallet} {jobs : List Job} {y : Wallet} (hy : y ∈ ws)
    (h : words (Text.fold y.id) jobs = []) : Heralded ws jobs y :=
  Or.inr ⟨h, y, hy, rfl, rfl⟩

/-- What is heralded twice in succession is heralded by all the jobs. -/
theorem Heralded.trans {ws ws' : List Wallet} {jobs jobs' : List Job} {y : Wallet}
    (h : ∀ x ∈ ws', Heralded ws jobs x) (h' : Heralded ws' jobs' y) : Heralded ws (jobs ++ jobs') y := by
  rcases h' with htold | ⟨hsilent, x, hx, hid, hstate⟩
  · left
    rw [Tracker.words_append, List.getLast?_append, htold, Option.some_or]
  · rw [Heralded, Tracker.words_append, hsilent, List.append_nil, ← hid, ← hstate]
    exact h x hx

theorem words_singleton (id : String) (job : Job) : words id [job] = job.filterMap (Callback.managed? id) := by
  rw [words, List.flatten_cons, List.flatten_nil, List.append_nil]

/-- A job whose last word is that the currency of `own` has a manager heralds all that was there, and what
is of this currency. -/
theorem heralded_of_words {ws : List Wallet} {job : Job} {y : Wallet} {own : String} {said : List Bool}
    (told : words (Text.fold y.id) [job] = if Text.fold own = Text.fold y.id then said else [])
    (last : said.getLast? = some true) (old : Text.fold own ≠ Text.fold y.id → y ∈ ws) :
    Heralded ws [job] y := by
  by_cases hown : Text.fold own = Text.fold y.id
  · rw [if_pos hown] at told
    exact Or.inl (by rw [told, last])
  · rw [if_neg hown] at told
    exact heralded_of_mem (old hown) told

/-- The job of an alteration tells of the manager if it has moved. -/
theorem words_of_altered (id : String) {m : Manager} {w w' : Wallet} {job : Job} (same : m.currency = w'.currency)
    (h : w.Altered m w' job) :
    words id [job] = [] ∧ w'.managerState = w.managerState ∨
      words id [job] = if Text.fold w'.id = id then [true] else [] := by
  cases h with
  | balance _ changed told | submitted _ changed told | entered _ _ _ _ changed told | removed _ changed told =>
    subst changed told
    exact Or.inl ⟨rfl, rfl⟩
  | moved state changed told =>
    subst told
    right
    rw [words_singleton, Wallet.id, ← same]
    by_cases hid : Text.fold m.currency.id = id
    · simp [Callback.managed?, hid]
    · simp [Callback.managed?, hid]

theorem words_of_added (id : String) (m : Manager) (w : Wallet) :
    words id [[.system (.managerAdded m), .manager m .created, .wallet m w .created,
      .manager m (.walletAdded w.currency)]] =
    if Text.fold m.currency.id = id then [true, true, true] else [] := by
  rw [words_singleton]
  by_cases hid : Text.fold m.currency.id = id
  · simp [List.filterMap_cons, Callback.managed?, hid]
  · simp [List.filterMap_cons, Callback.managed?, hid]

theorem words_of_progressed (id : String) (m : Manager) (time : Option Instant) (percent : WalletHub.Single) :
    words id [[.manager m (.syncProgress time percent)]] =
    if Text.fold m.currency.id = id then [true] else [] := by
  rw [words_singleton]
  by_cases hid : Text.fold m.currency.id = id
  · simp [Callback.managed?, hid]
  · simp [Callback.managed?, hid]

/-- The wallet that is taken out stood between others. -/
theorem exists_split_of_find {ws : List Wallet} {code : String} {w : Wallet}
    (found : Wallet.find? ws code = some w) : ∃ before after, ws = before ++ w :: after ∧
      ws.eraseP (fun w => w.currency.hasCode code) = before ++ after := by
  obtain ⟨hcode, before, after, rfl, hbefore⟩ := List.find?_eq_some_iff_append.mp found
  exact ⟨before, after, rfl, eraseP_of_first (fun x hx => (Bool.not_eq_true' _).mp (hbefore x hx)) hcode after⟩

/-- No other wallet is of the currency of the one that is taken out. -/
theorem Apart.erased {ws : List Wallet} {code : String} {w y : Wallet} (apart : Apart ws)
    (found : Wallet.find? ws code = some w) (hy : y ∈ ws.eraseP fun w => w.currency.hasCode code) :
    Text.fold w.id ≠ Text.fold y.id := by
  obtain ⟨before, after, rfl, herased⟩ := exists_split_of_find found
  rw [herased] at hy
  obtain ⟨-, hafter, hapart⟩ := List.pairwise_append.mp apart
  rcases List.mem_append.mp hy with hy | hy
  · exact Ne.symm (hapart y hy w List.mem_cons_self)
  · exact (List.pairwise_cons.mp hafter).1 y hy

/-- **Every wallet that is there after an incident is heralded by its job.** -/
theorem Incident.heralded {c : Command} {s : MemorySystem} {ws : List Wallet} {job : Job}
    (h : Incident c s ws job) (apart : ∀ code, c = .removeWallet code → Apart s.wallets) :
    ∀ y ∈ ws, Heralded s.wallets [job] y := by
  intro y hy
  cases h with
  | announced network => exact heralded_of_mem hy rfl
  | added w new blank =>
    refine heralded_of_words (words_of_added _ (s.manager w) w) rfl ?_
    intro hother
    rcases List.mem_append.mp hy with hold | hnew
    · exact hold
    · rw [List.mem_singleton.mp hnew] at hother
      exact absurd rfl hother
  | altered before after w w' job split altered =>
    have hid : w'.id = w.id := by rw [Wallet.id, altered.currency_eq, Wallet.id]
    have hold (hne : y ≠ w') : y ∈ s.wallets := by
      rw [split]
      rcases List.mem_append.mp hy with hbefore | hafter
      · exact List.mem_append_left _ hbefore
      · exact List.mem_append_right _ (List.mem_cons_of_mem _ (List.mem_of_ne_of_mem hne hafter))
    rcases words_of_altered (Text.fold y.id) rfl altered with ⟨hsilent, hstate⟩ | hmoved
    · by_cases hy' : y = w'
      · subst hy'
        refine Or.inr ⟨hsilent, w, ?_, by rw [hid], hstate.symm⟩
        rw [split]
        exact List.mem_append_right _ List.mem_cons_self
      · exact heralded_of_mem (hold hy') hsilent
    · exact heralded_of_words hmoved rfl fun hother => hold fun hy' => hother (by rw [hy'])
  | removed code m w asked found same =>
    have hother : Text.fold m.currency.id ≠ Text.fold y.id := by
      rw [same]
      exact (apart code asked).erased found hy
    refine heralded_of_mem (List.mem_of_mem_eraseP hy) ?_
    rw [words_singleton]
    simp [Callback.managed?, hother]
  | progressed code percent time w asked found =>
    exact heralded_of_words (words_of_progressed _ (s.manager w) time percent) rfl fun _ => hy

theorem heralded_of_turn {c : Command} {s s' : MemorySystem} (h : Turn c s s')
    (apart : ∀ code, c = .removeWallet code → Apart s.wallets) :
    ∃ jobs, s'.queue = s.queue ++ jobs ∧ ∀ y ∈ s'.wallets, Heralded s.wallets jobs y := by
  rcases h.happened with ⟨hwallets, hqueue⟩ | ⟨job, hqueue, hincident⟩
  · refine ⟨[], by rw [hqueue, List.append_nil], ?_⟩
    intro y hy
    exact heralded_of_mem (hwallets ▸ hy) rfl
  · exact ⟨[job], hqueue, hincident.heralded apart⟩

theorem heralded_of_turns {c : Command} {s s' : MemorySystem} (h : Turns c s s')
    (stays : ∀ code, c ≠ .removeWallet code) :
    ∃ jobs, s'.queue = s.queue ++ jobs ∧ ∀ y ∈ s'.wallets, Heralded s.wallets jobs y := by
  induction h with
  | refl => exact ⟨[], (List.append_nil _).symm, fun y hy => heralded_of_mem hy rfl⟩
  | tail _ turn ih =>
    obtain ⟨jobs, hqueue, hheralded⟩ := ih
    obtain ⟨more, hmore, hnext⟩ := heralded_of_turn turn fun code hc => absurd hc (stays code)
    refine ⟨jobs ++ more, by rw [hmore, hqueue, List.append_assoc], ?_⟩
    intro y hy
    exact .trans hheralded (hnext y hy)

/-- **Every wallet that is there after a command is heralded by its jobs**, as long as no wallet is removed
that shares its currency with another. -/
theorem heralded_of_run {now : Instant} {c : Command} {s s' : MemorySystem} (h : run now c s = .ok s')
    (apart : ∀ code, c = .removeWallet code → Apart s.wallets) :
    ∃ jobs, s'.queue = s.queue ++ jobs ∧ ∀ y ∈ s'.wallets, Heralded s.wallets jobs y := by
  cases c with
  | removeWallet code => exact heralded_of_turn (turn_of_removeWallet h) apart
  | _ => exact heralded_of_turns (turns_of_run h) nofun

end MemorySystem

/-! ### Wallets that will be known -/

namespace Tracker

open MemorySystem (Apart Command Heralded)

/-- The tracker will know of all wallets. Of those of a closed hub it need not, as long as their managers
are not connected. -/
def Knows (isOpen : Bool) (s : MemorySystem) (t : Tracker) : Prop :=
  ∀ w ∈ s.wallets, t.expects (Text.fold w.id) s.queue = true ∨
    isOpen = false ∧ w.managerState ≠ .connected

variable {isOpen : Bool} {s s' : MemorySystem} {t : Tracker} {jobs : List Job}

theorem Knows.heralded (h : t.Knows isOpen s) (queue : s'.queue = s.queue ++ jobs)
    (heralded : ∀ y ∈ s'.wallets, Heralded s.wallets jobs y) : t.Knows isOpen s' := by
  intro y hy
  rw [queue]
  rcases heralded y hy with htold | ⟨hsilent, x, hx, hid, hstate⟩
  · exact Or.inl (expects_of_told htold t)
  · rw [expects_of_silent hsilent, ← hid, ← hstate]
    exact h x hx

theorem Knows.run {now : Instant} {c : Command} (h : t.Knows isOpen s) (ran : MemorySystem.run now c s = .ok s')
    (apart : ∀ code, c = .removeWallet code → Apart s.wallets) : t.Knows isOpen s' := by
  obtain ⟨jobs, hqueue, hheralded⟩ := MemorySystem.heralded_of_run ran apart
  exact h.heralded hqueue hheralded

/-- **When the hub is opened the tracker will know of all wallets**, since all managers are connected. -/
theorem Knows.connect (h : t.Knows isOpen s) : t.Knows true s.connect := by
  obtain ⟨jobs, hqueue, hheralded⟩ := MemorySystem.heralded_of_turns (MemorySystem.turns_of_connect s) nofun
  intro y hy
  rcases h.heralded hqueue hheralded y hy with hexpects | ⟨-, hunconnected⟩
  · exact Or.inl hexpects
  · obtain ⟨w, -, rfl⟩ := List.mem_map.mp hy
    exact absurd rfl hunconnected

theorem Knows.disconnect (h : t.Knows true s) : t.Knows false s.disconnect := by
  obtain ⟨jobs, hqueue, hheralded⟩ :=
    MemorySystem.heralded_of_turns (MemorySystem.turns_of_disconnect s) nofun
  intro y hy
  rcases h.heralded hqueue hheralded y hy with hexpects | ⟨hclosed, -⟩
  · exact Or.inl hexpects
  · exact nomatch hclosed

theorem Knows.learn {c : Callback} {job : Job} (h : t.Knows isOpen s) (queue : s.queue = (c :: job) :: jobs) :
    (t.learn c).Knows isOpen { s with queue := job :: jobs } := by
  intro w hw
  rw [expects_cons, ← queue]
  exact h w hw

theorem Knows.ended (h : t.Knows isOpen s) (queue : s.queue = [] :: jobs) :
    t.Knows isOpen { s with queue := jobs } := by
  intro w hw
  have hwords : words (Text.fold w.id) jobs = words (Text.fold w.id) s.queue := by
    rw [queue]
    rfl
  rw [expects, hwords]
  exact h w hw

/-- Where nothing waits in the queue of an open hub the tracker knows of all wallets. -/
theorem Knows.mem_ids (h : t.Knows true s) (queue : s.queue = []) {w : Wallet} (hw : w ∈ s.wallets) :
    Text.fold w.id ∈ t.ids := by
  rcases h w hw with hexpects | ⟨hclosed, -⟩
  · rw [queue] at hexpects
    exact List.contains_iff_mem.mp hexpects
  · exact nomatch hclosed

end Tracker

end WalletHub
