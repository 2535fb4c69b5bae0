import WalletHub.Memory.System

/-!
# What a command does not depend on

A command looks neither at the jobs that wait nor, with one exception, at the clock. Jobs that wait already
stay in front of those that it lines up (`run_behind`). Only a transfer that becomes part of the chain for the
first time is stamped with the instant of the command (`confirms`), so that every other command has the same
outcome at any time (`run_congr`).

## What is proved

* `notify_behind`, `addWallet_behind`, `moveAll_behind`, `configure_behind`, `changeWallet_behind`,
  `carryOut_behind`, `run_behind`: for the parts of a command and then for all commands, that the jobs in front
  come through untouched.
* `alter_congr`, `changeWallet_congr`: a change of a wallet that is the same on the wallet of the code has the
  same outcome.
* `moveTo_congr`: a transfer that is not confirmed for the first time takes no time over from the command.
* `run_congr`: a command that stamps no transfer is the same at any two instants.

Both laws are needed where the order of things is varied, as in `WalletHub.Proofs.World.Schedules`: jobs may be
delivered earlier or later, and the clock may stand elsewhere.
-/

namespace WalletHub.MemorySystem

/-! ### The queue -/

/-- The system with more jobs in front of those that wait. -/
def behind (jobs : List Job) (s : MemorySystem) : MemorySystem := { s with queue := jobs ++ s.queue }

theorem notify_behind (jobs : List Job) (s : MemorySystem) (job : Job) :
    (s.behind jobs).notify job = (s.notify job).behind jobs := by
  simp only [behind, notify, List.append_assoc]

theorem addWallet_behind (jobs : List Job) (currency : Currency) (s : MemorySystem) :
    (s.behind jobs).addWallet currency = (s.addWallet currency).behind jobs := by
  simp only [addWallet]
  have hwallets : (s.behind jobs).wallets = s.wallets := rfl
  rw [hwallets]
  split
  · rfl
  · exact notify_behind jobs { s with wallets := _ } _

theorem moveAll_behind (jobs : List Job) (state : ManagerState) (s : MemorySystem) :
    (s.behind jobs).moveAll state = (s.moveAll state).behind jobs := by
  simp only [moveAll, behind, List.append_assoc]
  rfl

theorem configure_behind (jobs : List Job) (currencies : List Currency) (s : MemorySystem) :
    (s.behind jobs).configure currencies = (s.configure currencies).behind jobs := by
  have hfold (s : MemorySystem) : currencies.foldl (fun s c => s.addWallet c) (s.behind jobs) =
      (currencies.foldl (fun s c => s.addWallet c) s).behind jobs := by
    induction currencies generalizing s with
    | nil => rfl
    | cons currency currencies ih => rw [List.foldl_cons, List.foldl_cons, addWallet_behind, ih]
  exact hfold { s with configureCount := s.configureCount + 1, configured := currencies }

theorem changeWallet_behind {α : Type} (jobs : List Job) (code : String)
    (change : Wallet → Except RuntimeError α × Wallet) (job : Manager → Wallet → α → Job) (s : MemorySystem) :
    (s.behind jobs).changeWallet code change job = (s.changeWallet code change job).map id (behind jobs) := by
  simp only [changeWallet]
  have hmanager : (s.behind jobs).manager = s.manager := rfl
  have hwallets : (s.behind jobs).wallets = s.wallets := rfl
  rw [hmanager, hwallets]
  split
  · exact congrArg (Prod.mk (Except.ok ())) (notify_behind jobs { s with wallets := _ } _)
  · rfl

theorem carryOut_behind (jobs : List Job) (now : Instant) (c : Command) (s : MemorySystem) :
    (s.behind jobs).carryOut now c = (s.carryOut now c).map id (behind jobs) := by
  cases c with
  | addWallet currency => exact congrArg (Prod.mk (Except.ok ())) (addWallet_behind jobs currency s)
  | removeWallet code =>
    simp only [carryOut, removeWallet]
    have hwallets : (s.behind jobs).wallets = s.wallets := rfl
    rw [hwallets]
    split
    · rfl
    · exact congrArg (Prod.mk (Except.ok ())) (notify_behind jobs { s with wallets := _ } _)
  | updateBalance | submitTransfer | addTransfer | changeTransfer | deleteTransfer | setManagerState
  | syncProgress =>
    simp only [carryOut, updateBalance, submitTransfer, addTransfer, changeTransfer, deleteTransfer,
      setManagerState, syncProgress]
    exact changeWallet_behind jobs _ _ _ s
  | announceNetwork network =>
    exact congrArg (Prod.mk (Except.ok ()))
      (notify_behind jobs { s with networks := s.networks ++ [network] } _)
  | configure currencies => exact congrArg (Prod.mk (Except.ok ())) (configure_behind jobs currencies s)
  | connect =>
    exact congrArg (Prod.mk (Except.ok ()))
      (moveAll_behind jobs _ { s with connectCount := s.connectCount + 1, connected := true })
  | disconnect =>
    exact congrArg (Prod.mk (Except.ok ()))
      (moveAll_behind jobs _ { s with disconnectCount := s.disconnectCount + 1, connected := false })

/-- **Jobs that wait already stay in front**, and a command does not look at them. -/
theorem run_behind (jobs : List Job) (now : Instant) (c : Command) (s : MemorySystem) :
    run now c (s.behind jobs) = (run now c s).map (behind jobs) := by
  simp only [run, carryOut_behind]
  obtain ⟨result, s'⟩ := s.carryOut now c
  cases result with
  | ok => rfl
  | error => rfl

/-! ### The clock -/

/-- The command stamps a transfer with the instant at which it is run: the transfer becomes part of the
chain and has no time of confirmation. -/
def confirms (s : MemorySystem) : Command → Bool
  | .changeTransfer code hash (.included _) =>
    match Wallet.find? s.wallets code with
    | some w => match w.transfers.find? fun t => t.hash == hash with
      | some t => t.confirmedAt.isNone
      | none => false
    | none => false
  | _ => false

/-- The jobs that wait have no part in it. -/
theorem confirms_behind (jobs : List Job) (s : MemorySystem) (c : Command) :
    (s.behind jobs).confirms c = s.confirms c := by
  cases c with
  | changeTransfer code hash state => cases state <;> rfl
  | _ => rfl

/-- Changes that do the same to the wallet of the code do the same to the list. -/
theorem alter_congr {α : Type} {code : String} {change change' : Wallet → Except RuntimeError α × Wallet}
    {ws : List Wallet} (h : ∀ w, Wallet.find? ws code = some w → change w = change' w) :
    alter code change ws = alter code change' ws := by
  induction ws with
  | nil => rfl
  | cons w ws ih =>
    by_cases hcode : w.currency.hasCode code = true
    · have hw : change w = change' w := h w (List.find?_cons_of_pos hcode)
      rw [alter, alter, if_pos hcode, if_pos hcode, hw]
    · have hskip : Wallet.find? (w :: ws) code = Wallet.find? ws code := List.find?_cons_of_neg hcode
      rw [alter, alter, if_neg hcode, if_neg hcode, ih (fun x hx => h x (hskip.trans hx))]

theorem changeWallet_congr {α : Type} {code : String} {change change' : Wallet → Except RuntimeError α × Wallet}
    (job : Manager → Wallet → α → Job) {s : MemorySystem}
    (h : ∀ w, Wallet.find? s.wallets code = some w → change w = change' w) :
    s.changeWallet code change job = s.changeWallet code change' job := by
  simp only [changeWallet]
  rw [alter_congr]
  intro w hw
  rw [h w hw]

/-- A transfer that is not confirmed by it has the same future at any time. -/
theorem moveTo_congr {t : Transfer} {state : TransferState}
    (h : ({ t with state := state } : Transfer).isConfirmed = true → t.confirmedAt.isNone = false)
    (now now' : Instant) : t.moveTo state now = t.moveTo state now' := by
  simp only [Transfer.moveTo]
  cases hconfirmed : ({ t with state := state } : Transfer).isConfirmed with
  | false => simp only [Bool.false_and, Bool.false_eq_true, if_false]
  | true => simp only [h hconfirmed, Bool.and_false, Bool.false_eq_true, if_false]

theorem carryOut_congr {s : MemorySystem} {c : Command} {now now' : Instant}
    (same : s.confirms c = true → now = now') : s.carryOut now c = s.carryOut now' c := by
  cases c with
  | changeTransfer code hash state =>
    cases hconfirms : s.confirms (.changeTransfer code hash state) with
    | true => rw [same hconfirms]
    | false =>
      refine changeWallet_congr transferJob ?_
      intro w hw
      split
      · rfl
      · next old hold =>
        have hmove : old.moveTo state now = old.moveTo state now' := by
          refine moveTo_congr ?_ now now'
          intro hconfirmed
          cases state with
          | included height =>
            simp only [confirms, hw] at hconfirms
            rw [hold] at hconfirms
            exact hconfirms
          | created | signed | submitted | failed | deleted => exact nomatch hconfirmed
        rw [hmove]
  | _ => rfl

/-- **A command that stamps no transfer has the same outcome at any time.** -/
theorem run_congr {s : MemorySystem} {c : Command} {now now' : Instant}
    (same : s.confirms c = true → now = now') : run now c s = run now' c s := by
  rw [run, run, carryOut_congr same]

end WalletHub.MemorySystem
