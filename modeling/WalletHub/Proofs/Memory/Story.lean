import WalletHub.Proofs.Memory.Held
import WalletHub.Proofs.World.Moves

/-!
# What the callbacks of a system tell

Someone who knows the wallets that a system started with, and from then on only listens, can keep a list
of the wallets for himself: `Callback.retell` says what he makes of one callback. As long as there are no
two wallets of a code, and no two transfers of a hash in one wallet, his list is that of the system
whenever he has heard all that was lined up, and what a callback says of the time before it agrees with
his list at that moment (`Chronicle.faithful`).

The proof goes command by command: the jobs that a command lines up lead from the wallets before it to
those after it (`story_of_run`). Since jobs are delivered in the order in which they were lined up, what
was heard and what still waits make up one story at any time.

## What is proved

* `Story.append`, `Story.foldl_eq`, `Story.recalls_of_split`: stories can be put together; the listener ends with
  the wallets at which a story ends, and each callback agrees with his list of that moment.
* `single_of_turns`: no two transfers of a hash arise, and no two wallets of a code.
* `story_of_addWallet`, `story_of_removeWallet`, `story_of_changeWallet`, `story_of_moveAll`,
  `story_of_configure`: the commands one by one.
* `story_of_run`: every command lines up a story.
* `Chronicle.story`, `Chronicle.faithful`: by induction, so do all commands together, with deliveries between
  them.
* `tells_comingsAndGoings`: an instance with a command that fails and a wallet that goes and comes back.
* `Run.chronicle`: what a world without a hub notes in a run is what was heard in such a chronicle.
-/

namespace WalletHub

namespace Callback

/-- What someone who listens makes of the callback. A wallet that was created comes last, one that was
deleted is taken out, and any other report on a wallet brings it as it is now; of the reports on managers
only those of a change matter, which bring the new state. -/
def retell (ws : List Wallet) : Callback → List Wallet
  | .wallet _ w .created => ws ++ [w]
  | .wallet _ w .deleted => ws.filter fun x => !x.currency.hasCode w.code
  | .wallet _ w _ => ws.map fun x => if x.currency.hasCode w.code then w else x
  | .manager m (.changed _ state) =>
    ws.map fun x => if x.currency.hasCode m.currency.code then { x with managerState := state } else x
  | .manager .. | .system _ | .network .. | .transfer .. => ws

/-- What the callback says of the time before it agrees with the wallets. -/
def Recalls (ws : List Wallet) : Callback → Prop
  | .manager m (.changed old _) => (Wallet.find? ws m.currency.code).map Wallet.managerState = some old
  | .transfer _ w t (.changed old _) => (MemorySystem.held w.code t.hash ws).map Transfer.state = some old
  | .manager .. | .transfer .. | .wallet .. | .system _ | .network .. => True

end Callback

namespace MemorySystem

/-! ### Stories -/

/-- The callbacks lead someone who listens from some wallets to others, and what each of them says of the
time before it agrees with the wallets that he has then. -/
inductive Story : List Wallet → List Callback → List Wallet → Prop where
  | nil (ws : List Wallet) : Story ws [] ws
  | cons {ws ws' : List Wallet} {c : Callback} {cs : List Callback} (recalls : c.Recalls ws)
      (rest : Story (c.retell ws) cs ws') : Story ws (c :: cs) ws'

namespace Story

variable {ws ws' ws'' : List Wallet} {cs cs' : List Callback}

theorem append (h : Story ws cs ws') (h' : Story ws' cs' ws'') : Story ws (cs ++ cs') ws'' := by
  induction h with
  | nil => exact h'
  | cons recalls _ ih => exact .cons recalls (ih h')

theorem foldl_eq (h : Story ws cs ws') : cs.foldl Callback.retell ws = ws' := by
  induction h with
  | nil => rfl
  | cons _ _ ih => exact ih

/-- A callback agrees with what was made of those before it. -/
theorem recalls_of_split {before after : List Callback} {c : Callback} (h : Story ws cs ws')
    (split : cs = before ++ c :: after) : c.Recalls (before.foldl Callback.retell ws) := by
  induction before generalizing ws cs with
  | nil =>
    subst split
    cases h with
    | cons recalls => exact recalls
  | cons b before ih =>
    subst split
    cases h with
    | cons _ rest => exact ih rest rfl

/-- One callback that says nothing of the time before it. -/
theorem single_of_recalls {c : Callback} (recalls : c.Recalls ws) (told : c.retell ws = ws') :
    Story ws [c] ws' := by
  subst told
  exact .cons recalls (.nil _)

end Story

/-! ### Distinct wallets and transfers -/

/-- There are no two wallets of any code, nor two transfers of a hash in any wallet. -/
structure Distinct (ws : List Wallet) : Prop where
  wallets : ws.Pairwise fun w w' => w.currency.hasCode w'.code = false
  transfers : ∀ w ∈ ws, (w.transfers.map Transfer.hash).Nodup

/-- At most one element has a property that no two elements share. -/
theorem length_filter_of_pairwise {α : Type} {R : α → α → Prop} {as : List α} {p : α → Bool}
    (h : as.Pairwise R) (excluded : ∀ a b, p a = true → p b = true → ¬R a b) : (as.filter p).length ≤ 1 := by
  have hfilter := h.filter p
  cases hfound : as.filter p with
  | nil => exact Nat.zero_le 1
  | cons a rest => cases rest with
    | nil => exact Nat.le_refl 1
    | cons b rest =>
      have hp (x : α) (hx : x ∈ as.filter p) : p x = true := (List.mem_filter.mp hx).2
      rw [hfound] at hfilter hp
      have hab : R a b := List.rel_of_pairwise_cons hfilter List.mem_cons_self
      exact absurd hab (excluded a b (hp a List.mem_cons_self) (hp b (List.mem_cons_of_mem a List.mem_cons_self)))

theorem Distinct.single {ws : List Wallet} (h : Distinct ws) (code hash : String) : Single code hash ws := by
  constructor
  · refine length_filter_of_pairwise h.wallets ?_
    intro w w' hw hw'
    have hsame := (Currency.hasCode_iff _ _).mp hw
    rw [← (Currency.hasCode_iff _ _).mp hw'] at hsame
    have hcode : w.currency.hasCode w'.code = true := (Currency.hasCode_iff _ _).mpr hsame
    rw [hcode]
    exact Bool.noConfusion
  · intro w hw _
    refine length_filter_of_pairwise (List.pairwise_map.mp (h.transfers w hw)) ?_
    intro t t' ht ht'
    rw [beq_iff_eq] at ht ht'
    exact not_not_intro (ht.trans ht'.symm)

/-- Whether there are two wallets of a code is a matter of their currencies. -/
theorem sole_of_currencies {code : String} {ws ws' : List Wallet}
    (h : ws.map Wallet.currency = ws'.map Wallet.currency) (sole : Sole code ws) : Sole code ws' := by
  have hcount (xs : List Wallet) : (xs.filter fun w => w.currency.hasCode code).length =
      (xs.map Wallet.currency).countP fun c => c.hasCode code := by
    rw [List.countP_map, List.countP_eq_length_filter]
    rfl
  rw [Sole, hcount] at sole ⊢
  rwa [← h]

/-- Turns make no second wallet of a code and no second transfer of a hash. -/
theorem single_of_turns {c : Command} {s s' : MemorySystem} (h : Turns c s s')
    (single : ∀ code hash, Single code hash s.wallets) (code hash : String) : Single code hash s'.wallets :=
  (h.held_eq (single code hash)).1

/-! ### Callbacks on one wallet -/

section OneWallet

variable {before after : List Wallet} {w w' : Wallet} {m : Manager}

/-- What is done to all wallets of a code is done to the only one. -/
theorem map_of_sole {code : String} (f : Wallet → Wallet) (sole : Sole code (before ++ w :: after))
    (found : w.currency.hasCode code = true) :
    ((before ++ w :: after).map fun x => if x.currency.hasCode code then f x else x) =
      before ++ f w :: after := by
  have hothers := others_of_sole sole found
  have hsame (xs : List Wallet) (h : ∀ x ∈ xs, x ∈ before ++ after) :
      (xs.map fun x => if x.currency.hasCode code then f x else x) = xs := by
    refine (List.map_congr_left fun x hx => ?_).trans (List.map_id xs)
    rw [hothers x (h x hx), if_neg Bool.false_ne_true, id]
  rw [List.map_append, List.map_cons, if_pos found, hsame before fun x hx => List.mem_append_left _ hx,
    hsame after fun x hx => List.mem_append_right _ hx]

/-- A report on a wallet that is neither new nor gone puts it in its place. -/
theorem retell_of_wallet {event : WalletEvent} (sole : Sole w.code (before ++ w :: after))
    (currency : w'.currency = w.currency) (kept : event ≠ .created ∧ event ≠ .deleted) :
    (Callback.wallet m w' event).retell (before ++ w :: after) = before ++ w' :: after := by
  have hcode : w'.code = w.code := by rw [Wallet.code, currency, Wallet.code]
  have hmap := map_of_sole (fun _ => w') sole (Currency.hasCode_iff w.currency w.code |>.mpr rfl)
  cases event with
  | created => exact absurd rfl kept.1
  | deleted => exact absurd rfl kept.2
  | balanceUpdated | feeBasisUpdated | transferAdded | transferChanged | transferSubmitted
  | transferDeleted =>
    rw [← hcode] at hmap
    exact hmap

/-- A change of a manager changes the state in its wallet. -/
theorem story_of_changed {state : ManagerState} (sole : Sole w.code (before ++ w :: after))
    (currency : m.currency = w.currency) :
    Story (before ++ w :: after) [.manager m (.changed w.managerState state)]
      (before ++ { w with managerState := state } :: after) := by
  have hcode : m.currency.code = w.code := by rw [currency, Wallet.code]
  have hfound : w.currency.hasCode w.code = true := (Currency.hasCode_iff _ _).mpr rfl
  refine .single_of_recalls ?_ ?_
  · show (Wallet.find? _ m.currency.code).map Wallet.managerState = some w.managerState
    rw [hcode, find?_split after (first_of_sole sole hfound) hfound, Option.map_some]
  · have hmap := map_of_sole (fun x => { x with managerState := state }) sole hfound
    rw [← hcode] at hmap
    exact hmap

end OneWallet

/-! ### Commands -/

/-- A command that changes one wallet tells the story that its job tells. -/
theorem story_of_changeWallet {α : Type} {code : String}
    {change : Wallet → Except RuntimeError α × Wallet} {job : Manager → Wallet → α → Job}
    {s s' : MemorySystem} (h : s.changeWallet code change job = (.ok (), s'))
    (tells : ∀ before after w w' a m, s.wallets = before ++ w :: after → change w = (.ok a, w') →
      m.currency = w'.currency → Story (before ++ w :: after) (job m w' a) (before ++ w' :: after)) :
    ∃ jobs, s'.queue = s.queue ++ jobs ∧ Story s.wallets jobs.flatten s'.wallets := by
  obtain ⟨before, after, w, w', a, hsplit, -, hchange, rfl⟩ := exists_of_changeWallet h
  have hstory := tells before after w w' a (s.manager w') hsplit hchange rfl
  refine ⟨[job (s.manager w') w' a], rfl, ?_⟩
  rw [List.flatten_singleton, hsplit]
  exact hstory

/-- What adding a wallet tells. -/
theorem story_of_addWallet (currency : Currency) (s : MemorySystem) :
    ∃ jobs, (s.addWallet currency).queue = s.queue ++ jobs ∧
      Story s.wallets jobs.flatten (s.addWallet currency).wallets := by
  unfold addWallet
  split
  · exact ⟨[], (List.append_nil _).symm, .nil _⟩
  · refine ⟨_, rfl, ?_⟩
    rw [List.flatten_singleton]
    exact .cons trivial (.cons trivial (.cons trivial (.cons trivial (.nil _))))

/-- What removing a wallet tells. -/
theorem story_of_removeWallet {code : String} {s s' : MemorySystem} (sole : Sole code s.wallets)
    (h : s.removeWallet code = (.ok (), s')) :
    ∃ jobs, s'.queue = s.queue ++ jobs ∧ Story s.wallets jobs.flatten s'.wallets := by
  unfold removeWallet at h
  split at h
  · cases (Prod.mk.inj h).1
  · next w hfound =>
    obtain ⟨-, rfl⟩ := Prod.mk.inj h
    have hcode : w.currency.hasCode code = true := hasCode_of_find? hfound
    have hcongr (x : Wallet) : x.currency.hasCode w.code = x.currency.hasCode code :=
      hasCode_congr ((Currency.hasCode_iff _ _).mp hcode) x.currency
    obtain ⟨before, after, hsplit⟩ := List.append_of_mem (List.mem_of_find?_eq_some hfound)
    rw [hsplit] at sole
    have hothers := others_of_sole sole hcode
    have hkept (xs : List Wallet) (hxs : ∀ x ∈ xs, x ∈ before ++ after) :
        (xs.filter fun x => !x.currency.hasCode w.code) = xs :=
      List.filter_eq_self.mpr fun x hx => by rw [hcongr, hothers x (hxs x hx), Bool.not_false]
    have htold : (s.wallets.filter fun x => !x.currency.hasCode w.code) =
        s.wallets.eraseP fun x => x.currency.hasCode code := by
      rw [hsplit, List.filter_append, List.filter_cons_of_neg (by rw [hcongr, hcode]; exact Bool.false_ne_true),
        hkept before fun x hx => List.mem_append_left _ hx, hkept after fun x hx => List.mem_append_right _ hx,
        eraseP_of_first (first_of_sole sole hcode) hcode]
    refine ⟨_, rfl, ?_⟩
    rw [List.flatten_singleton]
    refine .cons trivial (.cons trivial (.cons trivial ?_))
    show Story (s.wallets.filter _) [] _
    rw [htold]
    exact .nil _

/-- What moving all managers tells. They are moved one after the other, those of `done` before those of `rest`. -/
theorem story_of_moveAll (state : ManagerState) {s : MemorySystem} (sole : ∀ code, Sole code s.wallets) :
    ∃ jobs, (s.moveAll state).queue = s.queue ++ jobs ∧
      Story s.wallets jobs.flatten (s.moveAll state).wallets := by
  refine ⟨_, rfl, ?_⟩
  let moved (w : Wallet) : Wallet := { w with managerState := state }
  let job (w : Wallet) : Job := [.manager (s.manager (moved w)) (.changed w.managerState state)]
  have hrest (done rest : List Wallet) (hsole : ∀ code, Sole code (done ++ rest)) :
      Story (done ++ rest) (((rest.filter fun w => w.managerState != state).map job).flatten)
        (done ++ rest.map moved) := by
    induction rest generalizing done with
    | nil => exact .nil _
    | cons w rest ih =>
      have hsole' (code : String) : Sole code ((done ++ [moved w]) ++ rest) := by
        refine sole_of_currencies ?_ (hsole code)
        rw [List.append_assoc, List.map_append, List.map_append]
        rfl
      have hnext := ih (done ++ [moved w]) hsole'
      rw [List.append_assoc, List.append_assoc] at hnext
      by_cases hstate : w.managerState = state
      · have hsame : moved w = w := by subst hstate; rfl
        rw [List.filter_cons_of_neg (by simp [hstate]), List.map_cons, hsame]
        rwa [hsame] at hnext
      · rw [List.filter_cons_of_pos (by simpa using hstate)]
        have hfirst : Story (done ++ w :: rest) (job w) (done ++ moved w :: rest) :=
          story_of_changed (hsole w.code) rfl
        exact hfirst.append hnext
  exact hrest [] s.wallets sole

/-- What a configuration tells. -/
theorem story_of_configure (currencies : List Currency) (s : MemorySystem) :
    ∃ jobs, (s.configure currencies).queue = s.queue ++ jobs ∧
      Story s.wallets jobs.flatten (s.configure currencies).wallets := by
  have hfold (s' : MemorySystem) : ∃ jobs,
      (currencies.foldl (fun s c => s.addWallet c) s').queue = s'.queue ++ jobs ∧
        Story s'.wallets jobs.flatten (currencies.foldl (fun s c => s.addWallet c) s').wallets := by
    induction currencies generalizing s' with
    | nil => exact ⟨[], (List.append_nil _).symm, .nil _⟩
    | cons currency currencies ih =>
      obtain ⟨jobs, hqueue, hstory⟩ := story_of_addWallet currency s'
      obtain ⟨more, hmore, hrest⟩ := ih (s'.addWallet currency)
      refine ⟨jobs ++ more, ?_, ?_⟩
      · rw [List.foldl_cons, hmore, hqueue, List.append_assoc]
      · rw [List.flatten_append]
        exact hstory.append hrest
  exact hfold _

/-- The transfer of a hash is the first one that has it, as long as it is the only one. -/
theorem held_of_find? {before after : List Wallet} {w : Wallet} {hash : String} {t : Transfer}
    (single : Single w.code hash (before ++ w :: after))
    (found : (w.transfers.find? fun t => t.hash == hash) = some t) :
    held w.code hash (before ++ w :: after) = some t := by
  have hcode : w.currency.hasCode w.code = true := (Currency.hasCode_iff _ _).mpr rfl
  have honly := single.transfers w (List.mem_append_right _ List.mem_cons_self) hcode
  rw [← List.head?_filter] at found
  have hfilter : (w.transfers.filter fun t => t.hash == hash) = [t] := by
    obtain ⟨rest, hrest⟩ := List.head?_eq_some_iff.mp found
    rw [hrest, List.length_cons] at honly
    rw [hrest, List.length_eq_zero_iff.mp (by omega : rest.length = 0)]
  rw [held, find?_split after (first_of_sole single.wallets hcode) hcode, Option.bind_some]
  exact transfer?_of_filter hfilter

theorem hash_moveTo (t : Transfer) (state : TransferState) (now : Instant) :
    (t.moveTo state now).hash = t.hash := by
  unfold Transfer.moveTo
  simp only
  split <;> rfl

/-- **What a command lines up tells all that it does.** -/
theorem story_of_run {now : Instant} {c : Command} {s s' : MemorySystem}
    (single : ∀ code hash, Single code hash s.wallets) (h : run now c s = .ok s') :
    ∃ jobs, s'.queue = s.queue ++ jobs ∧ Story s.wallets jobs.flatten s'.wallets := by
  have hsole (code : String) : Sole code s.wallets := (single code "").wallets
  have hdone := run_eq_ok_iff.mp h
  cases c with
  | addWallet currency =>
    obtain rfl := Except.ok.inj h
    exact story_of_addWallet currency s
  | removeWallet code => exact story_of_removeWallet (hsole code) hdone
  | updateBalance code amount =>
    rw [carryOut, updateBalance] at hdone
    refine story_of_changeWallet hdone ?_
    intro before after w w' a m hsplit hchange hm
    obtain ⟨-, rfl⟩ := Prod.mk.inj hchange
    exact .single_of_recalls trivial (retell_of_wallet (hsplit ▸ hsole w.code) rfl (by simp))
  | submitTransfer code t =>
    rw [carryOut, submitTransfer] at hdone
    refine story_of_changeWallet hdone ?_
    intro before after w w' a m hsplit hchange hm
    obtain ⟨-, rfl⟩ := Prod.mk.inj hchange
    exact .single_of_recalls trivial (retell_of_wallet (hsplit ▸ hsole w.code) rfl (by simp))
  | addTransfer code t =>
    rw [carryOut, addTransfer] at hdone
    refine story_of_changeWallet hdone ?_
    intro before after w w' a m hsplit hchange hm
    obtain ⟨hresult, rfl⟩ := Prod.mk.inj hchange
    obtain rfl := Except.ok.inj hresult
    refine .cons trivial ?_
    exact .single_of_recalls trivial (retell_of_wallet (hsplit ▸ hsole w.code) rfl (by simp))
  | changeTransfer code hash state =>
    rw [carryOut, changeTransfer] at hdone
    refine story_of_changeWallet hdone ?_
    intro before after w w' a m hsplit hchange hm
    simp only at hchange
    split at hchange
    · cases (Prod.mk.inj hchange).1
    · next old hfound =>
      obtain ⟨hresult, rfl⟩ := Prod.mk.inj hchange
      obtain rfl := Except.ok.inj hresult
      have hhash : (old.moveTo state now).hash = hash := by
        rw [hash_moveTo]
        simpa using List.find?_some hfound
      refine .cons ?_ ?_
      · show (held w.code (old.moveTo state now).hash _).map Transfer.state = some old.state
        rw [hhash, held_of_find? (hsplit ▸ single w.code hash) hfound, Option.map_some]
      · exact .single_of_recalls trivial (retell_of_wallet (hsplit ▸ hsole w.code) rfl (by simp))
  | deleteTransfer code hash =>
    rw [carryOut, deleteTransfer] at hdone
    refine story_of_changeWallet hdone ?_
    intro before after w w' a m hsplit hchange hm
    simp only [Wallet.remove] at hchange
    split at hchange
    · cases (Prod.mk.inj hchange).1
    · next t x hremove =>
      obtain ⟨-, rfl⟩ := Prod.mk.inj hremove
      obtain ⟨hresult, rfl⟩ := Prod.mk.inj hchange
      obtain rfl := Except.ok.inj hresult
      refine .cons trivial ?_
      exact .single_of_recalls trivial (retell_of_wallet (hsplit ▸ hsole w.code) rfl (by simp))
  | setManagerState code state =>
    rw [carryOut, setManagerState] at hdone
    refine story_of_changeWallet hdone ?_
    intro before after w w' a m hsplit hchange hm
    obtain ⟨hresult, rfl⟩ := Prod.mk.inj hchange
    obtain rfl := Except.ok.inj hresult
    exact story_of_changed (hsplit ▸ hsole w.code) hm
  | syncProgress code percent time =>
    rw [carryOut, syncProgress] at hdone
    refine story_of_changeWallet hdone ?_
    intro before after w w' a m hsplit hchange hm
    obtain ⟨-, rfl⟩ := Prod.mk.inj hchange
    exact .single_of_recalls trivial rfl
  | announceNetwork network =>
    obtain rfl := Except.ok.inj h
    exact ⟨_, rfl, .cons trivial (.cons trivial (.nil _))⟩
  | configure currencies =>
    obtain rfl := Except.ok.inj h
    exact story_of_configure currencies s
  | connect =>
    obtain rfl := Except.ok.inj h
    exact story_of_moveAll .connected (s := { s with connectCount := s.connectCount + 1, connected := true }) hsole
  | disconnect =>
    obtain rfl := Except.ok.inj h
    exact story_of_moveAll (.disconnected "disconnect requested")
      (s := { s with disconnectCount := s.disconnectCount + 1, connected := false }) hsole

/-! ### Any number of commands -/

/-- The system after a command, which may have failed. -/
def perform (now : Instant) (s : MemorySystem) (c : Command) : MemorySystem := (s.carryOut now c).2

/-- A system that is told to do things while its callbacks are delivered, one at a time, to someone who
never breaks off: what he has heard so far, the oldest first. -/
inductive Chronicle (first : MemorySystem) : List Callback → MemorySystem → Prop where
  | start : Chronicle first [] first
  | command {heard : List Callback} {s : MemorySystem} (before : Chronicle first heard s) (now : Instant)
      (c : Command) : Chronicle first heard (s.perform now c)
  /-- The next callback of the oldest job is delivered. -/
  | deliver {heard : List Callback} {s : MemorySystem} (before : Chronicle first heard s) {c : Callback}
      {job : Job} {jobs : List Job} (queue : s.queue = (c :: job) :: jobs) :
      Chronicle first (heard ++ [c]) { s with queue := job :: jobs }
  /-- The oldest job ends. -/
  | finish {heard : List Callback} {s : MemorySystem} (before : Chronicle first heard s) {jobs : List Job}
      (queue : s.queue = [] :: jobs) : Chronicle first heard { s with queue := jobs }

/-- What was heard and what still waits make up one story, from the first wallets to those of now. -/
theorem Chronicle.story {first s : MemorySystem} {heard : List Callback} (h : Chronicle first heard s)
    (silent : first.queue = []) (distinct : Distinct first.wallets) :
    (∀ code hash, Single code hash s.wallets) ∧ Story first.wallets (heard ++ s.queue.flatten) s.wallets := by
  induction h with
  | start =>
    rw [silent]
    exact ⟨distinct.single, .nil _⟩
  | @command heard s _ now c ih =>
    obtain ⟨hsingle, hstory⟩ := ih
    rw [perform, carryOut_eq]
    cases hrun : run now c s with
    | error e => exact ⟨hsingle, hstory⟩
    | ok s' =>
      obtain ⟨jobs, hqueue, htold⟩ := story_of_run hsingle hrun
      refine ⟨single_of_turns (turns_of_run hrun) hsingle, ?_⟩
      show Story _ (heard ++ s'.queue.flatten) s'.wallets
      rw [hqueue, List.flatten_append, ← List.append_assoc]
      exact hstory.append htold
  | @deliver heard s _ c job jobs hqueue ih =>
    obtain ⟨hsingle, hstory⟩ := ih
    refine ⟨hsingle, ?_⟩
    rw [hqueue] at hstory
    simpa only [List.flatten_cons, List.append_assoc, List.cons_append, List.nil_append] using hstory
  | @finish heard s _ jobs hqueue ih =>
    obtain ⟨hsingle, hstory⟩ := ih
    refine ⟨hsingle, ?_⟩
    rwa [hqueue, List.flatten_cons, List.nil_append] at hstory

/-- **The callbacks tell the whole story.** Of a system that starts without two wallets of a code and
without two transfers of a hash in a wallet, whoever listens has the very list of wallets when nothing
waits for delivery; and whenever he hears of a change, the state that the callback says to be the old one
is the one that he has at this moment. -/
theorem Chronicle.faithful {first s : MemorySystem} {heard : List Callback} (h : Chronicle first heard s)
    (silent : first.queue = []) (distinct : Distinct first.wallets) :
    (s.queue.flatten = [] → heard.foldl Callback.retell first.wallets = s.wallets) ∧
      ∀ before c after, heard = before ++ c :: after →
        c.Recalls (before.foldl Callback.retell first.wallets) := by
  obtain ⟨-, hstory⟩ := h.story silent distinct
  constructor
  · intro hdelivered
    rw [hdelivered, List.append_nil] at hstory
    exact hstory.foldl_eq
  · intro before c after hsplit
    have hwhole : heard ++ s.queue.flatten = before ++ c :: (after ++ s.queue.flatten) := by
      rw [hsplit, List.append_assoc, List.cons_append]
    exact hstory.recalls_of_split hwhole

namespace Chronicle

variable {first s : MemorySystem} {heard : List Callback}

theorem commands (h : Chronicle first heard s) (now : Instant) (cs : List Command) :
    Chronicle first heard (cs.foldl (perform now) s) := by
  induction cs generalizing s with
  | nil => exact h
  | cons c cs ih => exact ih (h.command now c)

/-- All that waits can be delivered. -/
theorem flushed {jobs : List Job} (h : Chronicle first heard s) (queue : s.queue = jobs) :
    Chronicle first (heard ++ jobs.flatten) { s with queue := [] } := by
  induction jobs generalizing heard s with
  | nil =>
    rw [List.flatten_nil, List.append_nil, ← queue]
    exact h
  | cons job jobs ih =>
    induction job generalizing heard s with
    | nil =>
      have hrest := ih (h.finish queue) rfl
      exact hrest
    | cons c job ihjob =>
      have hnext := ihjob (h.deliver queue) rfl
      rwa [List.append_assoc] at hnext

end Chronicle

/-- A system with one wallet, which holds a transfer. -/
def oneTransfer : MemorySystem :=
  ⟨⟨"alice", ⟨0, 0⟩, [1]⟩, false, "data/wallets.json",
    [⟨⟨"bitcoin", "btc", "Bitcoin", 8⟩, .zero, .created, [.create "t1" .zero .received]⟩], [], [], false, 0, 0, 0, []⟩

/-- Commands of which one fails; a wallet is changed, removed and added again. -/
def comingsAndGoings : List Command :=
  [.addWallet ⟨"ethereum", "eth", "Ethereum", 18⟩, .changeTransfer "BTC" "t1" (.included 5), .removeWallet "xyz",
    .connect, .removeWallet "btc", .configure [⟨"bitcoin", "btc", "Bitcoin", 8⟩], .setManagerState "Btc" .syncing]

/-- The system after these commands. -/
def afterComingsAndGoings : MemorySystem := comingsAndGoings.foldl (perform ⟨1600000000, 0⟩) oneTransfer

/-- Someone who listens has the two wallets, in their new order, though the first was away for a while. -/
theorem tells_comingsAndGoings :
    (afterComingsAndGoings.queue.flatten.foldl Callback.retell oneTransfer.wallets =
        afterComingsAndGoings.wallets ∧
      afterComingsAndGoings.wallets.map (fun w => (w.code, w.managerState)) =
        [("eth", .connected), ("btc", .syncing)]) ∧
      ∀ before c after, afterComingsAndGoings.queue.flatten = before ++ c :: after →
        c.Recalls (before.foldl Callback.retell oneTransfer.wallets) := by
  have hstart : Chronicle oneTransfer [] oneTransfer := .start
  have hchronicle := (hstart.commands ⟨1600000000, 0⟩ comingsAndGoings).flushed rfl
  have hdistinct : Distinct oneTransfer.wallets := by
    refine ⟨List.pairwise_singleton _ _, ?_⟩
    intro w hw
    rw [List.mem_singleton.mp hw]
    exact List.pairwise_singleton _ _
  obtain ⟨hlist, hrecalls⟩ := Chronicle.faithful hchronicle rfl hdistinct
  exact ⟨⟨hlist rfl, by rfl⟩, hrecalls⟩

end MemorySystem

/-! ### In a run -/

/-- A system on its own is told to do things, or its callbacks are delivered and do not break off. -/
def alone (_ : MemoryWorld) (m : Move) (r : Reply) : Prop :=
  m = .deliver ∧ r ≠ .broke ∨ ∃ c, m = .act (.command c)

/-- The last system of a run after a command is that after the command. -/
theorem World.loose_runCommand {w : MemoryWorld} {l : Loose MemorySystem} (hnone : w.hub = none)
    (hloose : w.loose = some l) (c : MemorySystem.Command) :
    (w.runCommand c).2.hub = none ∧ (w.runCommand c).2.seen = w.seen ∧
      ∃ now, (w.runCommand c).2.loose = some { l with system := l.system.perform now c } := by
  have hlast (x : MemoryWorld) (hx : x.hub = none) (hl : x.loose = w.loose) : x.lastSystem = some l.system := by
    simp only [lastSystem, hx, hl, hloose, Option.bind_none, Option.map_some]
  have hset (x : MemoryWorld) (hx : x.hub = none) (hl : x.loose = w.loose) (s : MemorySystem) :
      x.setMemorySystem s = { x with loose := some { l with system := s } } := by
    simp only [setMemorySystem, hlast x hx hl, setSystem_of_loose (w := x) (by rw [hx]; rfl), hl, hloose,
      Option.map_some]
    rfl
  have hmemory : w.memorySystem? = some l.system := by
    rw [memorySystem?, hlast w hnone rfl]
    rfl
  cases c with
  | disconnect =>
    simp only [runCommand, hmemory, hset w hnone rfl]
    exact ⟨hnone, rfl, w.wall, rfl⟩
  | addWallet currency =>
    have hafter : (w.runCommand (.addWallet currency)).2 = w.setMemorySystem (l.system.addWallet currency) := by
      simp only [runCommand, hmemory]
    rw [hafter, hset w hnone rfl]
    exact ⟨hnone, rfl, w.wall, rfl⟩
  | removeWallet | updateBalance | submitTransfer | addTransfer | changeTransfer | deleteTransfer
  | setManagerState | syncProgress | announceNetwork | configure | connect =>
    simp only [runCommand, hmemory, MemorySystem.perform]
    split
    · next s hdone =>
      rw [hset { w with wall := w.wall.later 1 } hnone rfl]
      exact ⟨hnone, rfl, w.wall, by rw [hdone]⟩
    · next e s hfailed =>
      rw [hset w hnone rfl]
      exact ⟨hnone, rfl, w.wall, by rw [hfailed]⟩

/-- **A run of a system on its own is such a chronicle**: what was noted in the run is what was heard. -/
theorem Run.chronicle {start w : MemoryWorld} {past : Past} (run : Run alone start past w)
    (single : start.hub = none) {first : MemorySystem} (created : start.loose = some ⟨first, true⟩)
    (fresh : start.seen = []) :
    w.hub = none ∧ ∃ s, w.loose = some ⟨s, true⟩ ∧ MemorySystem.Chronicle first w.seen s := by
  induction run with
  | start => exact ⟨single, first, created, fresh ▸ .start⟩
  | @move past w w' _ m r moved ok ih =>
    obtain ⟨hhub, s, hloose, hbefore⟩ := ih
    rcases ok with ⟨rfl, hwhole⟩ | ⟨c, rfl⟩
    · have hlast : w.lastSystem = some s := by
        simp only [World.lastSystem, hhub, hloose, Option.bind_none, Option.map_some]
      have hset (s' : MemorySystem) : w.setSystem s' = { w with loose := some ⟨s', true⟩ } := by
        rw [World.setSystem_of_loose (by rw [hhub]; rfl), hloose, Option.map_some]
      simp only [World.move, World.deliverOne, hlast] at moved
      split at moved
      · obtain ⟨rfl, rfl⟩ := Prod.mk.inj moved
        exact ⟨hhub, s, hloose, hbefore⟩
      · next jobs hqueue =>
        obtain ⟨rfl, rfl⟩ := Prod.mk.inj moved
        rw [hset]
        exact ⟨hhub, _, rfl, hbefore.finish hqueue⟩
      · next c job jobs hqueue =>
        rw [hset, World.deliver_of_loose (by rw [hhub]; rfl)] at moved
        simp only [Option.any_some, if_true, World.note_eq] at moved
        split at moved
        · next x hnote =>
          obtain ⟨rfl, rfl⟩ := Prod.mk.inj moved
          split at hnote
          · cases hnote
          · obtain ⟨-, rfl⟩ := Prod.mk.inj hnote
            exact ⟨hhub, _, rfl, hbefore.deliver hqueue⟩
        · obtain ⟨rfl, rfl⟩ := Prod.mk.inj moved
          exact absurd rfl hwhole
    · obtain ⟨rfl, rfl⟩ := Prod.mk.inj moved
      obtain ⟨hnone, hseen, now, hafter⟩ := World.loose_runCommand hhub hloose c
      refine ⟨hnone, _, hafter, ?_⟩
      show MemorySystem.Chronicle first (w.runCommand c).2.seen _
      rw [hseen]
      exact hbefore.command now c

end WalletHub
