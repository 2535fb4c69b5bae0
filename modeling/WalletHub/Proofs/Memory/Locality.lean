import WalletHub.Proofs.Memory.Story

/-!
# Commands for one wallet

Eight commands are for the wallet of a code, and two of them for a transfer in it. Each is done as a whole or not
at all, and it reaches no further than to what it is for (`AllOrNothing`): it fails exactly if the wallet or the
transfer is not there, and then nothing has changed; otherwise one job is lined up, and of the wallets only the
one of the code is another one, or is gone. All that the commands may do to this wallet is listed in `Touched`.

A wallet is looked up by the commands in two ways, and so is a transfer. `exists_first` says for both what it
means that one is found.

## What is proved

* `exists_first`: there is none of a kind in a list, or a first one, with all that this means for looking it up
  and for changing it.
* `find?_of_first_hash`, `enter_of_first`, `alter_of_first`, `changeWallet_of_ok`, `removeWallet_of_first`: what
  the parts of a command come to when the first one is named, and beside them the lemmas for when there is none.
* `run_of_absent`: without a wallet of the code a command fails.
* `run_of_first`: with one it is done, or lacks a transfer; one case for each of the eight commands.
* `runCommand_of_target`: a world answers as its system does.
* `command_is_all_or_nothing`: what the world answers and what it is afterwards, for all such commands.
* `unknown_transfer_changes_nothing`: a command for a transfer that is not there.
-/

namespace WalletHub.MemorySystem

/-! ### What the commands are for -/

/-- The code of the wallet that the command is for, and the hash of the transfer that it needs to find there. -/
def Command.target? : Command → Option (String × Option String)
  | .removeWallet code | .updateBalance code _ | .submitTransfer code _ | .addTransfer code _
  | .setManagerState code _ | .syncProgress code .. => some (code, none)
  | .changeTransfer code hash _ | .deleteTransfer code hash => some (code, some hash)
  | .addWallet _ | .announceNetwork _ | .configure _ | .connect | .disconnect => none

/-- A transfer is entered in a list of transfers. -/
inductive Entered (t : Transfer) : List Transfer → List Transfer → Prop where
  /-- There is none of its hash, so it comes last. -/
  | last (ts : List Transfer) (absent : ∀ u ∈ ts, u.hash ≠ t.hash) : Entered t ts (ts ++ [t])
  /-- It stands where the first of its hash stood. -/
  | instead (before after : List Transfer) (old : Transfer) (first : ∀ u ∈ before, u.hash ≠ t.hash)
      (same : old.hash = t.hash) : Entered t (before ++ old :: after) (before ++ t :: after)

/-- What stands in the place of the wallet `x` when the command that was for it has been done, at the instant
`now`. -/
inductive Touched (now : Instant) (x : Wallet) : Command → List Wallet → Prop where
  | removed (code : String) : Touched now x (.removeWallet code) []
  | balanced (code : String) (amount : Decimal) :
      Touched now x (.updateBalance code amount) [{ x with balance := amount }]
  | submitted (code : String) (t : Transfer) (ts : List Transfer)
      (entered : Entered { t with state := .submitted } x.transfers ts) :
      Touched now x (.submitTransfer code t) [{ x with transfers := ts }]
  | added (code : String) (t : Transfer) (ts : List Transfer) (entered : Entered t x.transfers ts) :
      Touched now x (.addTransfer code t) [{ x with transfers := ts }]
  | changed (code hash : String) (state : TransferState) (before after : List Transfer) (old : Transfer)
      (split : x.transfers = before ++ old :: after) (first : ∀ u ∈ before, u.hash ≠ hash)
      (found : old.hash = hash) : Touched now x (.changeTransfer code hash state)
        [{ x with transfers := before ++ old.moveTo state now :: after }]
  | deleted (code hash : String) (before after : List Transfer) (old : Transfer)
      (split : x.transfers = before ++ old :: after) (first : ∀ u ∈ before, u.hash ≠ hash)
      (found : old.hash = hash) :
      Touched now x (.deleteTransfer code hash) [{ x with transfers := before ++ after }]
  | moved (code : String) (state : ManagerState) :
      Touched now x (.setManagerState code state) [{ x with managerState := state }]
  | progressed (code : String) (percent : WalletHub.Single) (time : Option Instant) :
      Touched now x (.syncProgress code percent time) [x]

/-- What a command for the wallet of a code does to a system that has this wallet. One job is lined up. The
wallets of other codes stay as they are and where they are. -/
inductive LocalChange (now : Instant) (c : Command) (code : String) (s : MemorySystem) : MemorySystem → Prop where
  | intro {before after stands : List Wallet} {x : Wallet} {job : Job} (split : s.wallets = before ++ x :: after)
      (found : x.currency.hasCode code = true)
      (others : ∀ y ∈ before ++ after, y.currency.hasCode code = false) (touched : Touched now x c stands)
      (told : job ≠ []) : LocalChange now c code s { s with
        wallets := before ++ stands ++ after
        queue := s.queue ++ [job] }

/-- What a command for the wallet of a code, which needs a transfer of the hash `needed` there if any, has to do
with the system `s` of the world `w`. It is answered and leaves the world as `r` says. -/
structure AllOrNothing (w : MemoryWorld) (s : MemorySystem) (c : Command) (code : String) (needed : Option String)
    (r : Reply × MemoryWorld) : Prop where
  unknownWallet (code' : String) : r.1 = .runtimeError (.unknownWallet code') ↔
    code' = code ∧ ∀ x ∈ s.wallets, x.currency.hasCode code = false
  unknownTransfer (code' hash : String) : r.1 = .runtimeError (.unknownTransfer code' hash) ↔
    code' = code ∧ needed = some hash ∧
      ∃ x ∈ s.wallets, x.currency.hasCode code = true ∧ ∀ t ∈ x.transfers, t.hash ≠ hash
  /-- There is no other way to fail. -/
  answered : r.1 = .ok ∨ (∃ code', r.1 = .runtimeError (.unknownWallet code')) ∨
    ∃ code' hash, r.1 = .runtimeError (.unknownTransfer code' hash)
  failed (e : RuntimeError) : r.1 = .runtimeError e → r.2 = w
  done : r.1 = .ok → ∃ s', LocalChange w.wall c code s s' ∧ r.2.lastSystem = some s' ∧
    r.2 = { w with wall := w.wall.later 1 }.setSystem s'

/-! ### The first of a kind -/

/-- There is none of a kind, or there is a first one. -/
theorem exists_first {α : Type} (p : α → Bool) (as : List α) :
    (∀ a ∈ as, p a = false) ∨
      ∃ before a after, as = before ++ a :: after ∧ p a = true ∧ ∀ b ∈ before, p b = false := by
  cases h : as.find? p with
  | none => exact Or.inl fun a ha => Bool.eq_false_iff.mpr (List.find?_eq_none.mp h a ha)
  | some a =>
    obtain ⟨ha, before, after, hsplit, hfirst⟩ := List.find?_eq_some_iff_append.mp h
    exact Or.inr ⟨before, a, after, hsplit, ha, fun b hb => (Bool.not_eq_true' _).mp (hfirst b hb)⟩

/-- There is no transfer of a hash, or there is a first one. -/
theorem exists_first_of_hash (hash : String) (ts : List Transfer) :
    (∀ t ∈ ts, t.hash ≠ hash) ∨
      ∃ before t after, ts = before ++ t :: after ∧ t.hash = hash ∧ ∀ u ∈ before, u.hash ≠ hash := by
  have h := exists_first (fun t : Transfer => t.hash == hash) ts
  simpa only [beq_eq_false_iff_ne, beq_iff_eq] using h

theorem find?_of_absent_hash {hash : String} {ts : List Transfer} (absent : ∀ t ∈ ts, t.hash ≠ hash) :
    ts.find? (fun t => t.hash == hash) = none :=
  List.find?_eq_none.mpr fun t ht => by simpa using absent t ht

theorem find?_of_first_hash {hash : String} {before : List Transfer} {t : Transfer}
    (first : ∀ u ∈ before, u.hash ≠ hash) (found : t.hash = hash) (after : List Transfer) :
    (before ++ t :: after).find? (fun t => t.hash == hash) = some t :=
  List.find?_eq_some_iff_append.mpr ⟨beq_iff_eq.mpr found, before, after, rfl, by simpa using first⟩

theorem enter_of_first {before : List Transfer} {t old : Transfer} (first : ∀ u ∈ before, u.hash ≠ t.hash)
    (same : old.hash = t.hash) (after : List Transfer) :
    Wallet.enter t (before ++ old :: after) = before ++ t :: after := by
  induction before with
  | nil => exact if_pos same
  | cons u before ih =>
    obtain ⟨hu, hbefore⟩ := List.forall_mem_cons.mp first
    rw [List.cons_append, Wallet.enter, if_neg hu, ih hbefore, List.cons_append]

theorem enter_of_absent {ts : List Transfer} {t : Transfer} (absent : ∀ u ∈ ts, u.hash ≠ t.hash) :
    Wallet.enter t ts = ts ++ [t] := by
  induction ts with
  | nil => rfl
  | cons u ts ih =>
    obtain ⟨hu, hts⟩ := List.forall_mem_cons.mp absent
    rw [Wallet.enter, if_neg hu, ih hts, List.cons_append]

theorem entered_enter (t : Transfer) (ts : List Transfer) : Entered t ts (Wallet.enter t ts) := by
  rcases exists_first_of_hash t.hash ts with habsent | ⟨before, old, after, rfl, hsame, hfirst⟩
  · rw [enter_of_absent habsent]
    exact .last ts habsent
  · rw [enter_of_first hfirst hsame]
    exact .instead before after old hfirst hsame

/-! ### Changing one wallet -/

section Change

variable {α : Type} {code : String} {change : Wallet → Except RuntimeError α × Wallet}
  {job : Manager → Wallet → α → Job} {s : MemorySystem} {before : List Wallet} {x : Wallet}

theorem alter_of_absent {ws : List Wallet} (absent : ∀ w ∈ ws, w.currency.hasCode code = false) :
    (alter code change ws).1 = .error (.unknownWallet code) := by
  induction ws with
  | nil => rfl
  | cons w ws ih =>
    obtain ⟨hw, hws⟩ := List.forall_mem_cons.mp absent
    rw [alter, hw, if_neg Bool.false_ne_true]
    exact ih hws

theorem alter_of_first (first : ∀ w ∈ before, w.currency.hasCode code = false)
    (found : x.currency.hasCode code = true) (after : List Wallet) :
    alter code change (before ++ x :: after) = ((change x).1, before ++ (change x).2 :: after) := by
  induction before with
  | nil => rw [List.nil_append, alter, if_pos found, List.nil_append]
  | cons w before ih =>
    obtain ⟨hw, hbefore⟩ := List.forall_mem_cons.mp first
    rw [List.cons_append, alter, hw, if_neg Bool.false_ne_true, ih hbefore, List.cons_append]

theorem changeWallet_of_absent (absent : ∀ w ∈ s.wallets, w.currency.hasCode code = false) :
    (s.changeWallet code change job).1 = .error (.unknownWallet code) := by
  simp only [changeWallet]
  split
  · next halter =>
    have herror := (congrArg Prod.fst halter).symm.trans (alter_of_absent absent)
    cases herror
  · next halter =>
    have herror := (congrArg Prod.fst halter).symm.trans (alter_of_absent absent)
    rw [Except.error.inj herror]

variable {after : List Wallet} (split : s.wallets = before ++ x :: after)
  (first : ∀ w ∈ before, w.currency.hasCode code = false) (found : x.currency.hasCode code = true)

include split first found

/-- A change is made to the first wallet of a code. -/
theorem changeWallet_of_ok {x' : Wallet} {a : α} (changed : change x = (.ok a, x')) :
    s.changeWallet code change job = (.ok (), { s with
      wallets := before ++ [x'] ++ after
      queue := s.queue ++ [job (s.manager x') x' a] }) := by
  simp only [changeWallet, split, alter_of_first first found, changed]
  rw [List.append_assoc, List.singleton_append]
  rfl

/-- If it fails there, all fails. -/
theorem changeWallet_of_error {e : RuntimeError} (failed : (change x).1 = .error e) :
    (s.changeWallet code change job).1 = .error e := by
  obtain ⟨x', hfailed⟩ : ∃ x', change x = (.error e, x') := ⟨_, Prod.ext failed rfl⟩
  simp only [changeWallet, split, alter_of_first first found, hfailed]

omit α change job in
/-- The first wallet of a code is taken out. -/
theorem removeWallet_of_first : s.removeWallet code = (.ok (), { s with
    wallets := before ++ [] ++ after
    queue := s.queue ++ [[.wallet { s.manager x with state := .deleted } x .deleted,
      .manager { s.manager x with state := .deleted } (.walletDeleted x.currency),
      .manager { s.manager x with state := .deleted } .deleted]] }) := by
  simp only [removeWallet, split, find?_split after first found, eraseP_of_first first found]
  rw [List.append_nil]
  rfl

end Change

/-! ### The commands -/

section Commands

variable {now : Instant} {c : Command} {code : String} {needed : Option String} {s : MemorySystem}

/-- Without a wallet of the code every command fails for this reason. -/
theorem run_of_absent (target : c.target? = some (code, needed))
    (absent : ∀ w ∈ s.wallets, w.currency.hasCode code = false) :
    run now c s = .error (.unknownWallet code) := by
  apply run_eq_error_iff.mpr
  cases c with
  | removeWallet =>
    obtain ⟨rfl, -⟩ := Prod.mk.inj (Option.some.inj target)
    have hnone : Wallet.find? s.wallets _ = none :=
      List.find?_eq_none.mpr fun w hw => Bool.eq_false_iff.mp (absent w hw)
    simp only [carryOut, removeWallet, hnone]
  | updateBalance | submitTransfer | addTransfer | changeTransfer | deleteTransfer | setManagerState
  | syncProgress =>
    obtain ⟨rfl, -⟩ := Prod.mk.inj (Option.some.inj target)
    exact changeWallet_of_absent absent
  | addWallet | announceNetwork | configure | connect | disconnect => cases target

/-- **What a command does to the first wallet of its code.** It needs a transfer that is not there, or it is
done. -/
theorem run_of_first (now : Instant) {before after : List Wallet} {x : Wallet}
    (target : c.target? = some (code, needed)) (split : s.wallets = before ++ x :: after)
    (first : ∀ w ∈ before, w.currency.hasCode code = false)
    (found : x.currency.hasCode code = true) :
    (∃ hash, needed = some hash ∧ (∀ t ∈ x.transfers, t.hash ≠ hash) ∧
        run now c s = .error (.unknownTransfer code hash)) ∨
      (∀ hash, needed = some hash → ∃ t ∈ x.transfers, t.hash = hash) ∧
        ∃ stands job, run now c s = .ok { s with
          wallets := before ++ stands ++ after
          queue := s.queue ++ [job] } ∧ Touched now x c stands ∧ job ≠ [] := by
  simp only [run_eq_error_iff, run_eq_ok_iff]
  cases c with
  | removeWallet =>
    obtain ⟨rfl, rfl⟩ := Prod.mk.inj (Option.some.inj target)
    exact Or.inr ⟨nofun, [], _, removeWallet_of_first split first found, .removed _, List.cons_ne_nil _ _⟩
  | updateBalance code amount =>
    obtain ⟨rfl, rfl⟩ := Prod.mk.inj (Option.some.inj target)
    rw [carryOut, updateBalance]
    exact Or.inr ⟨nofun, _, _, changeWallet_of_ok split first found rfl, .balanced _ amount, List.cons_ne_nil _ _⟩
  | submitTransfer code t =>
    obtain ⟨rfl, rfl⟩ := Prod.mk.inj (Option.some.inj target)
    rw [carryOut, submitTransfer]
    exact Or.inr ⟨nofun, _, _, changeWallet_of_ok split first found rfl, .submitted _ t _ (entered_enter _ _),
      List.cons_ne_nil _ _⟩
  | addTransfer code t =>
    obtain ⟨rfl, rfl⟩ := Prod.mk.inj (Option.some.inj target)
    rw [carryOut, addTransfer]
    exact Or.inr ⟨nofun, _, _, changeWallet_of_ok split first found rfl, .added _ t _ (entered_enter _ _),
      List.cons_ne_nil _ _⟩
  | changeTransfer code hash state =>
    obtain ⟨rfl, rfl⟩ := Prod.mk.inj (Option.some.inj target)
    rw [carryOut, changeTransfer]
    rcases exists_first_of_hash hash x.transfers with habsent | ⟨earlier, old, later, htransfers, hfound, hfirst⟩
    · exact Or.inl ⟨hash, rfl, habsent,
        changeWallet_of_error split first found (by simp only [find?_of_absent_hash habsent])⟩
    · have hhash : (old.moveTo state now).hash = hash := (hash_moveTo old state now).trans hfound
      have hupsert : x.upsert (old.moveTo state now) =
          { x with transfers := earlier ++ old.moveTo state now :: later } := by
        rw [Wallet.upsert, htransfers, enter_of_first (by rwa [hhash]) (by rw [hhash, hfound])]
      have hfind := find?_of_first_hash hfirst hfound later
      rw [← htransfers] at hfind
      refine Or.inr ⟨?_, _, _, changeWallet_of_ok split first found (by simp only [hfind]; rfl), ?_,
        List.cons_ne_nil _ _⟩
      · rintro _ ⟨⟩
        exact ⟨old, htransfers ▸ List.mem_append_right _ List.mem_cons_self, hfound⟩
      · rw [hupsert]
        exact .changed _ hash state earlier later old htransfers hfirst hfound
  | deleteTransfer code hash =>
    obtain ⟨rfl, rfl⟩ := Prod.mk.inj (Option.some.inj target)
    rw [carryOut, deleteTransfer]
    rcases exists_first_of_hash hash x.transfers with habsent | ⟨earlier, old, later, htransfers, hfound, hfirst⟩
    · exact Or.inl ⟨hash, rfl, habsent,
        changeWallet_of_error split first found (by simp only [Wallet.remove, find?_of_absent_hash habsent])⟩
    · have hfind := find?_of_first_hash hfirst hfound later
      rw [← htransfers] at hfind
      refine Or.inr ⟨?_, _, _, changeWallet_of_ok split first found (by simp only [Wallet.remove, hfind]; rfl), ?_,
        List.cons_ne_nil _ _⟩
      · rintro _ ⟨⟩
        exact ⟨old, htransfers ▸ List.mem_append_right _ List.mem_cons_self, hfound⟩
      · rw [htransfers, eraseP_of_first (by simpa using hfirst) (by simpa using hfound)]
        exact .deleted _ hash earlier later old htransfers hfirst hfound
  | setManagerState code state =>
    obtain ⟨rfl, rfl⟩ := Prod.mk.inj (Option.some.inj target)
    rw [carryOut, setManagerState]
    exact Or.inr ⟨nofun, _, _, changeWallet_of_ok split first found rfl, .moved _ state, List.cons_ne_nil _ _⟩
  | syncProgress code percent time =>
    obtain ⟨rfl, rfl⟩ := Prod.mk.inj (Option.some.inj target)
    rw [carryOut, syncProgress]
    exact Or.inr ⟨nofun, _, _, changeWallet_of_ok split first found rfl, .progressed _ percent time,
      List.cons_ne_nil _ _⟩
  | addWallet | announceNetwork | configure | connect | disconnect => cases target

/-- A command for one wallet changes the system and nothing else in the world, but for the clock. -/
theorem runCommand_of_target {w : MemoryWorld} (last : w.lastSystem = some s)
    (target : c.target? = some (code, needed)) :
    w.runCommand c = match run w.wall c s with
      | .ok s' => (.ok, { w with wall := w.wall.later 1 }.setSystem s')
      | .error e => (.runtimeError e, w) := by
  have hmemory : w.memorySystem? = some s := by
    rw [World.memorySystem?, last]
    rfl
  have hset (s' : MemorySystem) :
      { w with wall := w.wall.later 1 }.setMemorySystem s' = { w with wall := w.wall.later 1 }.setSystem s' := by
    have hlast : ({ w with wall := w.wall.later 1 } : MemoryWorld).lastSystem = some s := last
    rw [World.setMemorySystem, hlast]
    rfl
  have hrun : w.runCommand c = match run w.wall c s with
      | .ok s' => (.ok, { w with wall := w.wall.later 1 }.setMemorySystem s')
      | .error e => (.runtimeError e, w) := by
    rw [World.runCommand_eq, hmemory]
    cases c with
    | removeWallet | updateBalance | submitTransfer | addTransfer | changeTransfer | deleteTransfer
    | setManagerState | syncProgress => rfl
    | addWallet | announceNetwork | configure | connect | disconnect => cases target
  simp only [hrun, hset]

end Commands

/-- **A command for one wallet is done as a whole or not at all, and it reaches no further.** The wallets of the
system are of distinct codes. -/
theorem command_is_all_or_nothing {w : MemoryWorld} {s : MemorySystem} (last : w.lastSystem = some s)
    (sole : ∀ code, Sole code s.wallets) {c : Command} {code : String} {needed : Option String}
    (target : c.target? = some (code, needed)) : AllOrNothing w s c code needed (w.move (.act (.command c))) := by
  show AllOrNothing w s c code needed (w.runCommand c)
  rw [runCommand_of_target last target]
  rcases exists_first (fun x : Wallet => x.currency.hasCode code) s.wallets with
    habsent | ⟨before, x, after, hsplit, hfound, hfirst⟩
  · rw [run_of_absent target habsent]
    refine ⟨fun code' => ?_, fun code' hash => ?_, Or.inr (Or.inl ⟨code, rfl⟩), fun e _ => rfl, nofun⟩
    · constructor
      · rintro ⟨⟩
        exact ⟨rfl, habsent⟩
      · rintro ⟨rfl, -⟩
        rfl
    · constructor
      · exact nofun
      · rintro ⟨-, -, x, hx, hcode, -⟩
        rw [habsent x hx] at hcode
        exact nomatch hcode
  · have hothers := others_of_sole (hsplit ▸ sole code) hfound
    have hx : x ∈ s.wallets := hsplit ▸ List.mem_append_right _ List.mem_cons_self
    have hpresent : ¬∀ y ∈ s.wallets, y.currency.hasCode code = false := by
      intro hnone
      rw [hnone x hx] at hfound
      exact nomatch hfound
    rcases run_of_first w.wall target hsplit hfirst hfound with
      ⟨hash, rfl, hmissing, hrun⟩ | ⟨hneeded, stands, job, hrun, htouched, htold⟩
    · rw [hrun]
      refine ⟨fun code' => ?_, fun code' hash' => ?_, Or.inr (Or.inr ⟨code, hash, rfl⟩), fun e _ => rfl, nofun⟩
      · exact ⟨nofun, fun h => absurd h.2 hpresent⟩
      · constructor
        · rintro ⟨⟩
          exact ⟨rfl, rfl, x, hx, hfound, hmissing⟩
        · rintro ⟨rfl, hhash, -⟩
          rw [Option.some.inj hhash]
    · rw [hrun]
      refine ⟨fun code' => ?_, fun code' hash => ?_, Or.inl rfl, nofun, fun _ => ?_⟩
      · exact ⟨nofun, fun h => absurd h.2 hpresent⟩
      · refine ⟨nofun, ?_⟩
        rintro ⟨-, rfl, y, hy, hcode, hmissing⟩
        have hfind : Wallet.find? s.wallets code = some x := hsplit ▸ find?_split after hfirst hfound
        obtain rfl : x = y := Option.some.inj (hfind.symm.trans (find?_of_sole (sole code) hy hcode))
        obtain ⟨t, ht, hhash⟩ := hneeded hash rfl
        exact absurd hhash (hmissing t ht)
      · refine ⟨_, .intro hsplit hfound hothers htouched htold, ?_, rfl⟩
        exact World.lastSystem_setSystem (w := { w with wall := w.wall.later 1 }) last _

/-- A world in which there is a system without a hub, with one wallet. -/
def withOneTransfer : MemoryWorld := { neverOpen with loose := some ⟨oneTransfer, true⟩ }

/-- A transfer that is not there cannot be changed, and nothing else is. -/
theorem unknown_transfer_changes_nothing :
    withOneTransfer.move (.act (.command (.changeTransfer "BTC" "t2" (.included 5)))) =
      (.runtimeError (.unknownTransfer "BTC" "t2"), withOneTransfer) := by
  have hsole (code : String) : Sole code oneTransfer.wallets := List.length_filter_le _ _
  have hmove : AllOrNothing withOneTransfer oneTransfer (.changeTransfer "BTC" "t2" (.included 5)) "BTC" (some "t2")
      (withOneTransfer.move (.act (.command (.changeTransfer "BTC" "t2" (.included 5))))) :=
    command_is_all_or_nothing rfl hsole rfl
  have hreply := (hmove.unknownTransfer "BTC" "t2").mpr
    ⟨rfl, rfl, _, List.mem_cons_self, by decide +kernel, List.forall_mem_singleton.mpr (by decide +kernel)⟩
  exact Prod.ext hreply (hmove.failed _ hreply)

end WalletHub.MemorySystem
