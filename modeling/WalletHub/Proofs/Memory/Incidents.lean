import Mathlib.Logic.Relation
import WalletHub.Memory.System

/-!
# What a command does to a system in memory

Every command comes down to turns (`Turn`), in each of which one thing happens to the wallets and one job
is lined up that tells of it (`Incident`): a wallet is added, removed or altered, a manager reports how far
it has come, or a network is announced. `turns_of_run` takes every command apart into such turns. Only the
command that removes a wallet takes one away, and only the one that reports progress reports it, so the
command stands in the incident.

What is proved of all commands is therefore proved of an incident, one case for each constructor of `Incident`,
and then holds of turns by induction, whatever command they belong to. A new command is a new case of
`turns_of_run` and nothing else, if what it does is one of these incidents.

## What is proved

* `alter_eq_ok`, `alter_of_error`: the change of one wallet in a list has changed just the first wallet of its
  code, or has failed and left the list as it was.
* `run_eq_ok_iff`, `run_eq_error_iff`: a command is carried out in front of the jobs that waited, or fails.
* `carryOut_of_error`: a command that fails leaves the system as it was. The wallet that a change was tried on is
  put back with the result, so this is proved and not built in.
* `turns_of_addWallet`, `turns_of_configure`, `turns_of_moveAll`, `turn_of_removeWallet`, `turn_of_syncProgress`,
  `turns_of_altered`: the turns of the commands.
* `turns_of_run`: every command that succeeds is a number of turns.
* `Turns.origin_eq`: what the system was told when it was created stays.
-/

namespace WalletHub

/-- What is done to one wallet, and the job that tells of it. The manager `m` is the one of the wallet
afterwards. -/
inductive Wallet.Altered (m : Manager) (w w' : Wallet) (job : Job) : Prop where
  | balance (amount : Decimal) (changed : w' = { w with balance := amount })
      (told : job = [.wallet m w' (.balanceUpdated amount)])
  | submitted (t : Transfer) (changed : w' = w.upsert t) (told : job = [.wallet m w' (.transferSubmitted t)])
  | entered (t : Transfer) (event : TransferEvent) (walletEvent : WalletEvent)
      (carried : walletEvent.transfer? = some t) (changed : w' = w.upsert t)
      (told : job = MemorySystem.transferJob m w' (t, event, walletEvent))
  | removed (t : Transfer)
      (changed : w' = { w with transfers := w.transfers.eraseP fun u => u.hash == t.hash })
      (told : job = MemorySystem.transferJob m w' (t, .deleted, .transferDeleted t))
  | moved (state : ManagerState) (changed : w' = { w with managerState := state })
      (told : job = [.manager m (.changed w.managerState state)])

theorem Wallet.Altered.currency_eq {m : Manager} {w w' : Wallet} {job : Job} (h : w.Altered m w' job) :
    w'.currency = w.currency := by
  cases h with
  | balance _ changed | submitted _ changed | entered _ _ _ _ changed | removed _ changed
  | moved _ changed =>
    subst changed
    rfl

namespace MemorySystem

/-- What the system was told when it was created. -/
def origin (s : MemorySystem) : Account × Bool × String := (s.account, s.mainnet, s.file)

/-! ### Incidents -/

/-- One thing that happens to the wallets of a system while a command is run, and the job that tells of
it. -/
inductive Incident (c : Command) (s : MemorySystem) : List Wallet → Job → Prop where
  | announced (network : Network) :
      Incident c s s.wallets [.network network .created, .system (.networkAdded network)]
  | added (w : Wallet) (new : Wallet.find? s.wallets w.code = none) (blank : w.transfers = []) :
      Incident c s (s.wallets ++ [w]) [.system (.managerAdded (s.manager w)), .manager (s.manager w) .created,
        .wallet (s.manager w) w .created, .manager (s.manager w) (.walletAdded w.currency)]
  | altered (before after : List Wallet) (w w' : Wallet) (job : Job) (split : s.wallets = before ++ w :: after)
      (altered : w.Altered (s.manager w') w' job) : Incident c s (before ++ w' :: after) job
  /-- The first wallet of a code is taken out. -/
  | removed (code : String) (m : Manager) (w : Wallet) (asked : c = .removeWallet code)
      (found : Wallet.find? s.wallets code = some w) (same : m.currency = w.currency) :
      Incident c s (s.wallets.eraseP fun w => w.currency.hasCode code)
        [.wallet m w .deleted, .manager m (.walletDeleted w.currency), .manager m .deleted]
  /-- The first wallet of a code reports how far it has come. -/
  | progressed (code : String) (percent : Single) (time : Option Instant) (w : Wallet)
      (asked : c = .syncProgress code percent time) (found : Wallet.find? s.wallets code = some w) :
      Incident c s s.wallets [.manager (s.manager w) (.syncProgress time percent)]

/-- One turn of a system while a command is run: one thing happens to its wallets, or nothing that
anyone is told of. -/
structure Turn (c : Command) (s s' : MemorySystem) : Prop where
  origin : s'.origin = s.origin
  happened : s'.wallets = s.wallets ∧ s'.queue = s.queue ∨
    ∃ job, s'.queue = s.queue ++ [job] ∧ Incident c s s'.wallets job

/-- Any number of turns. -/
abbrev Turns (c : Command) : MemorySystem → MemorySystem → Prop := Relation.ReflTransGen (Turn c)

/-- Nothing makes a system belong to another account. -/
theorem Turns.origin_eq {c : Command} {s s' : MemorySystem} (h : Turns c s s') : s'.origin = s.origin := by
  induction h with
  | refl => rfl
  | tail _ turn ih => exact turn.origin.trans ih

/-! ### Changing one wallet -/

section Changing

variable {α : Type} {code : String} {change : Wallet → Except RuntimeError α × Wallet}

theorem alter_eq_ok {ws ws' : List Wallet} {a : α} (h : alter code change ws = (.ok a, ws')) :
    ∃ before after w w', ws = before ++ w :: after ∧ Wallet.find? ws code = some w ∧
      change w = (.ok a, w') ∧ ws' = before ++ w' :: after := by
  induction ws generalizing ws' with
  | nil => exact nomatch h
  | cons w ws ih =>
    rw [alter] at h
    cases hcode : w.currency.hasCode code with
    | true =>
      rw [if_pos hcode] at h
      obtain ⟨hresult, rfl⟩ := Prod.mk.inj h
      have hfound : Wallet.find? (w :: ws) code = some w := List.find?_cons_of_pos hcode
      exact ⟨[], ws, w, (change w).2, rfl, hfound, Prod.ext hresult rfl, rfl⟩
    | false =>
      have hskip : ¬w.currency.hasCode code = true := by rw [hcode]; exact Bool.false_ne_true
      rw [if_neg hskip] at h
      obtain ⟨hresult, rfl⟩ := Prod.mk.inj h
      have hrest : alter code change ws = (.ok a, (alter code change ws).2) := Prod.ext hresult rfl
      obtain ⟨before, after, x, x', hsplit, hfound, hchange, hws'⟩ := ih hrest
      have hfound' : Wallet.find? (w :: ws) code = some x := by
        rw [← hfound]
        exact List.find?_cons_of_neg hskip
      exact ⟨w :: before, after, x, x', by rw [hsplit]; rfl, hfound', hchange, by rw [hws']; rfl⟩

/-- Where a change leaves every wallet as it was when it fails, so does the change of the first wallet of a code. -/
theorem alter_of_error (keeps : ∀ w e, (change w).1 = .error e → (change w).2 = w) {ws : List Wallet}
    {e : RuntimeError} (failed : (alter code change ws).1 = .error e) : (alter code change ws).2 = ws := by
  induction ws with
  | nil => rfl
  | cons w ws ih =>
    rw [alter] at failed ⊢
    split at failed
    · next hcode =>
      rw [if_pos hcode]
      exact congrArg (· :: ws) (keeps w e failed)
    · next hcode =>
      rw [if_neg hcode]
      exact congrArg (w :: ·) (ih failed)

variable {job : Manager → Wallet → α → Job} {s s' : MemorySystem}

/-- A command that changes one wallet lines up the job that is made of the change. -/
theorem exists_of_changeWallet (h : s.changeWallet code change job = (.ok (), s')) :
    ∃ before after w w' a, s.wallets = before ++ w :: after ∧ Wallet.find? s.wallets code = some w ∧
      change w = (.ok a, w') ∧
      s' = { s with wallets := before ++ w' :: after }.notify (job (s.manager w') w' a) := by
  simp only [changeWallet] at h
  split at h
  · next told ws' halter =>
    obtain ⟨-, rfl⟩ := Prod.mk.inj h
    obtain ⟨before, after, w, w', hsplit, hfound, htell, rfl⟩ := alter_eq_ok halter
    split at htell
    · next a w'' hchange =>
      obtain ⟨htold, rfl⟩ := Prod.mk.inj htell
      obtain rfl := Except.ok.inj htold
      exact ⟨before, after, w, w'', a, hsplit, hfound, hchange, rfl⟩
    · cases (Prod.mk.inj htell).1
  · cases (Prod.mk.inj h).1

/-- Where the change leaves every wallet as it was when it fails, so does the command. -/
theorem changeWallet_unchanged (keeps : ∀ w e, (change w).1 = .error e → (change w).2 = w) {e : RuntimeError}
    (failed : (s.changeWallet code change job).1 = .error e) : (s.changeWallet code change job).2 = s := by
  simp only [changeWallet] at failed ⊢
  split at failed
  · cases failed
  · next e' ws' halter =>
    have hsame := alter_of_error ?_ (congrArg Prod.fst halter)
    · rw [halter] at hsame
      exact congrArg (fun ws => { s with wallets := ws }) hsame
    · intro w e hfailed
      split at hfailed
      · cases hfailed
      · next e' w' hchange =>
        have hkept := keeps w e' (congrArg Prod.fst hchange)
        rwa [hchange] at hkept

/-- Such a command is a turn in which the wallet is altered. -/
theorem turns_of_altered {c : Command} (h : s.changeWallet code change job = (.ok (), s'))
    (sound : ∀ w w' a m, change w = (.ok a, w') → w.Altered m w' (job m w' a)) : Turns c s s' := by
  obtain ⟨before, after, w, w', a, hsplit, -, hchange, rfl⟩ := exists_of_changeWallet h
  have haltered := sound w w' a (s.manager w') hchange
  exact .single ⟨rfl, Or.inr ⟨_, rfl, .altered before after w w' _ hsplit haltered⟩⟩

end Changing

/-! ### Failing -/

/-- A command that succeeds leaves the system that `run` gives. -/
theorem run_eq_ok_iff {now : Instant} {c : Command} {s s' : MemorySystem} :
    run now c s = .ok s' ↔ s.carryOut now c = (.ok (), s') := by
  unfold run
  split
  · next heq => rw [heq, Except.ok.injEq, Prod.mk.injEq, eq_self, true_and]
  · next heq => simp [heq]

theorem run_eq_error_iff {now : Instant} {c : Command} {s : MemorySystem} {e : RuntimeError} :
    run now c s = .error e ↔ (s.carryOut now c).1 = .error e := by
  unfold run
  split
  · next heq => simp [heq]
  · next heq => rw [heq, Except.error.injEq, Except.error.injEq]

/-- **A command that fails leaves the system as it was**, though it has had its wallets in hand. -/
theorem carryOut_of_error {now : Instant} {c : Command} {s : MemorySystem} {e : RuntimeError}
    (failed : (s.carryOut now c).1 = .error e) : (s.carryOut now c).2 = s := by
  cases c with
  | addWallet | announceNetwork | configure | connect | disconnect => cases failed
  | removeWallet code =>
    simp only [carryOut, removeWallet] at failed ⊢
    split at failed
    · rfl
    · cases failed
  | updateBalance | submitTransfer | addTransfer | setManagerState | syncProgress =>
    refine changeWallet_unchanged ?_ failed
    intro w e hfailed
    cases hfailed
  | changeTransfer code hash state =>
    refine changeWallet_unchanged ?_ failed
    intro w e hfailed
    simp only at hfailed ⊢
    split at hfailed
    · rfl
    · cases hfailed
  | deleteTransfer code hash =>
    refine changeWallet_unchanged ?_ failed
    intro w e hfailed
    simp only at hfailed ⊢
    split at hfailed
    · next w' hremove =>
      obtain ⟨habsent, rfl⟩ := Prod.mk.inj hremove
      have hkept : w.transfers.eraseP (fun t => t.hash == hash) = w.transfers :=
        List.eraseP_of_forall_not (List.find?_eq_none.mp habsent)
      simp only [hkept]
    · cases hfailed

/-- The system after a command is carried out is the one that `run` gives, or the one before. -/
theorem carryOut_eq (now : Instant) (c : Command) (s : MemorySystem) :
    s.carryOut now c = match run now c s with
      | .ok s' => (.ok (), s')
      | .error e => (.error e, s) := by
  cases hrun : run now c s with
  | ok s' => exact run_eq_ok_iff.mp hrun
  | error e => exact Prod.ext (run_eq_error_iff.mp hrun) (carryOut_of_error (run_eq_error_iff.mp hrun))

/-! ### Commands in turns -/

theorem turns_of_addWallet (c : Command) (currency : Currency) (s : MemorySystem) :
    Turns c s (s.addWallet currency) := by
  unfold addWallet
  split
  · exact .refl
  · next hnew => exact .single ⟨rfl, Or.inr ⟨_, rfl, .added _ hnew rfl⟩⟩

/-- All managers are moved one after the other, those that are in the state already excepted. -/
theorem turns_of_moveAll (c : Command) (state : ManagerState) (s : MemorySystem) :
    Turns c s (s.moveAll state) := by
  have hrest (done rest : List Wallet) (queue : List Job) :
      Turns c { s with wallets := done ++ rest, queue := queue }
        { s with
          wallets := done ++ rest.map fun w => { w with managerState := state }
          queue := queue ++ (rest.filter fun w => w.managerState != state).map fun w =>
            [Callback.manager (s.manager { w with managerState := state })
              (.changed w.managerState state)] } := by
    induction rest generalizing done queue with
    | nil =>
      rw [List.map_nil, List.filter_nil, List.map_nil, List.append_nil, List.append_nil]
    | cons w rest ih =>
      let w' : Wallet := { w with managerState := state }
      have hnext (jobs : List Job) := ih (done ++ [w']) (queue ++ jobs)
      simp only [List.append_assoc, List.singleton_append] at hnext
      by_cases hstate : w.managerState = state
      · rw [List.filter_cons_of_neg (by simp [hstate])]
        subst hstate
        have hsame := hnext []
        rwa [List.append_nil, List.nil_append] at hsame
      · let job : Job := [.manager (s.manager w') (.changed w.managerState state)]
        have hturn : Turn c { s with wallets := done ++ w :: rest, queue := queue }
            { s with wallets := done ++ w' :: rest, queue := queue ++ [job] } :=
          ⟨rfl, Or.inr ⟨job, rfl, .altered done rest w w' job rfl (.moved state rfl rfl)⟩⟩
        rw [List.filter_cons_of_pos (by simpa using hstate)]
        exact .head hturn (hnext [job])
  exact hrest [] s.wallets s.queue

theorem turns_of_configure (currencies : List Currency) (s : MemorySystem) :
    Turns (.configure currencies) s (s.configure currencies) := by
  have hfold (c : Command) (s' : MemorySystem) :
      Turns c s' (currencies.foldl (fun s c => s.addWallet c) s') := by
    induction currencies generalizing s' with
    | nil => exact .refl
    | cons currency currencies ih => exact (turns_of_addWallet c currency s').trans (ih _)
  have hcount : Turn (.configure currencies) s
      { s with configureCount := s.configureCount + 1, configured := currencies } :=
    ⟨rfl, Or.inl ⟨rfl, rfl⟩⟩
  exact .head hcount (hfold _ _)

theorem turns_of_connect (s : MemorySystem) : Turns .connect s s.connect := by
  have hcount : Turn .connect s { s with connectCount := s.connectCount + 1, connected := true } :=
    ⟨rfl, Or.inl ⟨rfl, rfl⟩⟩
  exact .head hcount (turns_of_moveAll _ .connected _)

theorem turns_of_disconnect (s : MemorySystem) : Turns .disconnect s s.disconnect := by
  have hcount : Turn .disconnect s { s with disconnectCount := s.disconnectCount + 1, connected := false } :=
    ⟨rfl, Or.inl ⟨rfl, rfl⟩⟩
  exact .head hcount (turns_of_moveAll _ _ _)

theorem turn_of_syncProgress {now : Instant} {code : String} {percent : Single} {time : Option Instant}
    {s s' : MemorySystem} (h : run now (.syncProgress code percent time) s = .ok s') :
    Turn (.syncProgress code percent time) s s' := by
  have hdone := run_eq_ok_iff.mp h
  rw [carryOut, syncProgress] at hdone
  obtain ⟨before, after, w, w', a, hsplit, hfound, hchange, rfl⟩ := exists_of_changeWallet hdone
  obtain ⟨-, rfl⟩ := Prod.mk.inj hchange
  refine ⟨rfl, Or.inr ⟨_, rfl, ?_⟩⟩
  rw [← hsplit]
  exact .progressed code percent time w rfl hfound

theorem turn_of_removeWallet {now : Instant} {code : String} {s s' : MemorySystem}
    (h : run now (.removeWallet code) s = .ok s') : Turn (.removeWallet code) s s' := by
  have hdone := run_eq_ok_iff.mp h
  simp only [carryOut, removeWallet] at hdone
  split at hdone
  · cases (Prod.mk.inj hdone).1
  · next w hfound =>
    obtain ⟨-, rfl⟩ := Prod.mk.inj hdone
    exact ⟨rfl, Or.inr ⟨_, rfl, .removed code _ w rfl hfound rfl⟩⟩

/-- **Every command is a number of turns.** -/
theorem turns_of_run {now : Instant} {c : Command} {s s' : MemorySystem} (h : run now c s = .ok s') :
    Turns c s s' := by
  have hdone := run_eq_ok_iff.mp h
  cases c with
  | addWallet currency =>
    obtain rfl := Except.ok.inj h
    exact turns_of_addWallet _ currency s
  | removeWallet code => exact .single (turn_of_removeWallet h)
  | updateBalance code amount =>
    rw [carryOut, updateBalance] at hdone
    refine turns_of_altered hdone ?_
    intro w w' a m hchange
    obtain ⟨-, rfl⟩ := Prod.mk.inj hchange
    exact .balance amount rfl rfl
  | submitTransfer code t =>
    rw [carryOut, submitTransfer] at hdone
    refine turns_of_altered hdone ?_
    intro w w' a m hchange
    obtain ⟨-, rfl⟩ := Prod.mk.inj hchange
    exact .submitted _ rfl rfl
  | addTransfer code t =>
    rw [carryOut, addTransfer] at hdone
    refine turns_of_altered hdone ?_
    intro w w' a m hchange
    obtain ⟨hresult, rfl⟩ := Prod.mk.inj hchange
    obtain rfl := Except.ok.inj hresult
    exact .entered t _ _ rfl rfl rfl
  | changeTransfer code hash state =>
    rw [carryOut, changeTransfer] at hdone
    refine turns_of_altered hdone ?_
    intro w w' a m hchange
    split at hchange
    · cases (Prod.mk.inj hchange).1
    · obtain ⟨hresult, rfl⟩ := Prod.mk.inj hchange
      obtain rfl := Except.ok.inj hresult
      exact .entered _ _ _ rfl rfl rfl
  | deleteTransfer code hash =>
    rw [carryOut, deleteTransfer] at hdone
    refine turns_of_altered hdone ?_
    intro w w' a m hchange
    simp only [Wallet.remove] at hchange
    split at hchange
    · cases (Prod.mk.inj hchange).1
    · next t w'' hremove =>
      obtain ⟨hfind, rfl⟩ := Prod.mk.inj hremove
      obtain ⟨hresult, rfl⟩ := Prod.mk.inj hchange
      obtain rfl := Except.ok.inj hresult
      have hhash : t.hash = hash := by simpa using List.find?_some hfind
      exact .removed { t with state := .deleted } (by rw [hhash]) rfl
  | setManagerState code state =>
    rw [carryOut, setManagerState] at hdone
    refine turns_of_altered hdone ?_
    intro w w' a m hchange
    obtain ⟨hresult, rfl⟩ := Prod.mk.inj hchange
    obtain rfl := Except.ok.inj hresult
    exact .moved state rfl rfl
  | syncProgress code percent time => exact .single (turn_of_syncProgress h)
  | announceNetwork network =>
    obtain rfl := Except.ok.inj h
    exact .single ⟨rfl, Or.inr ⟨_, rfl, .announced network⟩⟩
  | configure currencies =>
    obtain rfl := Except.ok.inj h
    exact turns_of_configure currencies s
  | connect =>
    obtain rfl := Except.ok.inj h
    exact turns_of_connect s
  | disconnect =>
    obtain rfl := Except.ok.inj h
    exact turns_of_disconnect s

end MemorySystem

end WalletHub
