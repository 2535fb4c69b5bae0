import WalletHub.Proofs.Memory.Story
import WalletHub.Proofs.Memory.Sharing

/-!
# The order in which wallets stand

A wallet comes into a system from the file, by a seed, or by a command, and may go and come back. Whatever
happens, no two wallets of a code and no two transfers of a hash in a wallet come about, as long as there are
none in the file. A list of wallets only grows at its end, and what goes is taken out of its middle, so the
wallets that stay keep their order, and those that have come later stand after them: the list after some time
is that of the wallets that have stayed, and then others (`currencies_after`).

Hence the wallets of the file stand first, then those of the seeds, then all that were added since
(`no_duplicates_arise`). A wallet that was removed and added again counts as added.

## What is proved

* `Distinct.afterDeed`, `Distinct.after`: one deed, and so any number of them, brings about no two wallets of a
  code and no two transfers of a hash in a wallet.
* `transfer?_eq_some_iff`: where the transfers of a wallet are distinct, looking one up finds it exactly if it is
  there.
* `currencies_afterDeed`: by one deed wallets are added at the end of the list, or one is taken out of it.
* `currencies_after`, `filter_currencies_after`: the induction over the deeds, and that wallets that stay keep
  their order.
* `pairwise_arrival`: the list is ordered by how the wallets came (`Arrival.rank`).
* `no_duplicates_arise`: all of this of a system that was created from a file and by seeds.
* `no_duplicates_arise_for_alice`: an instance, in which seeds repeat codes and a wallet is removed and added
  again.
-/

namespace WalletHub.MemorySystem

/-! ### What happens to a system -/

/-- One thing that happens to a system. -/
inductive Deed where
  /-- It is told to do something, at this instant. -/
  | command (now : Instant) (c : Command)
  /-- Some callbacks are delivered, so that these jobs wait. -/
  | delivery (queue : List Job)

/-- The system after one thing has happened to it. -/
def afterDeed (s : MemorySystem) : Deed → MemorySystem
  | .command now c => s.perform now c
  | .delivery queue => { s with queue := queue }

/-- The system after all this has happened to it. -/
def after (s : MemorySystem) (deeds : List Deed) : MemorySystem := deeds.foldl afterDeed s

/-- The currencies of the wallets, in their order. -/
def currencies (s : MemorySystem) : List Currency := s.wallets.map Wallet.currency

/-- There is a wallet of the code. -/
def has (code : String) (s : MemorySystem) : Bool := s.currencies.any fun c => c.hasCode code

/-- There is a wallet of the code, and it stays there whatever of this happens. -/
def stays (code : String) : MemorySystem → List Deed → Bool
  | s, [] => s.has code
  | s, deed :: deeds => s.has code && (s.afterDeed deed).stays code deeds

theorem has_of_stays {code : String} {s : MemorySystem} {deeds : List Deed} (h : s.stays code deeds = true) :
    s.has code = true := by
  cases deeds with
  | nil => exact h
  | cons deed deeds => exact (Bool.and_eq_true_iff.mp h).1

theorem has_of_mem {s : MemorySystem} {c : Currency} (h : c ∈ s.currencies) : s.has c.code = true :=
  List.any_eq_true.mpr ⟨c, h, (Currency.hasCode_iff c c.code).mpr rfl⟩

theorem has_eq_false_iff (code : String) (s : MemorySystem) :
    s.has code = false ↔ Wallet.find? s.wallets code = none := by
  rw [has, currencies, List.any_map, List.any_eq_false, Wallet.find?, List.find?_eq_none]
  rfl

/-! ### Distinct wallets and transfers -/

/-- If no code has two wallets, and no hash two transfers in a wallet, all are distinct. -/
theorem distinct_of_single {ws : List Wallet} (single : ∀ code hash, Single code hash ws) : Distinct ws := by
  constructor
  · have hsole (code : String) : Sole code ws := (single code "").wallets
    clear single
    induction ws with
    | nil => exact .nil
    | cons w ws ih =>
      refine .cons ?_ (ih fun code => ?_)
      · intro x hx
        obtain ⟨before, after, rfl⟩ := List.append_of_mem hx
        have hfirst : ∀ y ∈ w :: before, y.currency.hasCode x.code = false :=
          first_of_sole (hsole x.code) ((Currency.hasCode_iff x.currency x.code).mpr rfl)
        exact hfirst w List.mem_cons_self
      · exact Nat.le_trans ((List.sublist_cons_self w ws).filter _).length_le (hsole code)
  · intro w hw
    rw [List.nodup_iff_count_le_one]
    intro hash
    rw [List.count_eq_countP, List.countP_map, List.countP_eq_length_filter]
    exact (single w.code hash).transfers w hw ((Currency.hasCode_iff w.currency w.code).mpr rfl)

/-- Nothing that happens makes two wallets of a code, or two transfers of a hash. -/
theorem Distinct.afterDeed {s : MemorySystem} (distinct : Distinct s.wallets) (deed : Deed) :
    Distinct (s.afterDeed deed).wallets := by
  cases deed with
  | delivery queue => exact distinct
  | command now c =>
    show Distinct (s.perform now c).wallets
    rw [perform, carryOut_eq]
    cases hrun : run now c s with
    | error e => exact distinct
    | ok s' => exact distinct_of_single (single_of_turns (turns_of_run hrun) distinct.single)

theorem Distinct.after {s : MemorySystem} (distinct : Distinct s.wallets) (deeds : List Deed) :
    Distinct (s.after deeds).wallets := by
  induction deeds generalizing s with
  | nil => exact distinct
  | cons deed deeds ih => exact ih (distinct.afterDeed deed)

/-- A wallet without two transfers of a hash finds a transfer exactly if it has it. -/
theorem transfer?_eq_some_iff {w : Wallet} (nodup : (w.transfers.map Transfer.hash).Nodup) (hash : String)
    (t : Transfer) : w.transfer? hash = some t ↔ t ∈ w.transfers ∧ t.hash = hash := by
  constructor
  · intro h
    have hmem : t ∈ w.transfers.filter fun t => t.hash == hash := by
      rw [filter_of_transfer? h]
      exact List.mem_singleton_self t
    exact (List.mem_filter.mp hmem).imp_right beq_iff_eq.mp
  · rintro ⟨hmem, rfl⟩
    obtain ⟨before, after, hsplit⟩ := List.append_of_mem hmem
    rw [hsplit, List.map_append, List.map_cons, List.nodup_middle, List.nodup_cons, ← List.map_append] at nodup
    have hothers : ∀ u ∈ before ++ after, ¬(u.hash == t.hash) = true := by
      intro u hu heq
      exact nodup.1 (List.mem_map.mpr ⟨u, hu, beq_iff_eq.mp heq⟩)
    rw [List.forall_mem_append] at hothers
    apply transfer?_of_filter
    rw [hsplit, List.filter_append, List.filter_cons, if_pos (beq_self_eq_true t.hash),
      List.filter_eq_nil_iff.mpr hothers.1, List.filter_eq_nil_iff.mpr hothers.2, List.nil_append]

/-! ### One thing happens -/

/-- An incident adds wallets at the end, if any, unless the command removes one. -/
theorem Incident.currencies_eq {c : Command} {s : MemorySystem} {ws : List Wallet} {job : Job}
    (h : Incident c s ws job) (other : ∀ code, c ≠ .removeWallet code) :
    ∃ new, ws.map Wallet.currency = s.currencies ++ new ∧ ∀ x ∈ new, s.has x.code = false := by
  cases h with
  | announced | progressed => exact ⟨[], (List.append_nil _).symm, nofun⟩
  | added w new =>
    refine ⟨[w.currency], List.map_append, ?_⟩
    rw [List.forall_mem_singleton]
    exact (has_eq_false_iff _ _).mpr new
  | altered before after w w' job split altered =>
    refine ⟨[], ?_, nofun⟩
    rw [currencies, split, List.append_nil, List.map_append, List.map_append, List.map_cons, List.map_cons,
      altered.currency_eq]
  | removed code _ _ asked => exact absurd asked (other code)

/-- A command that removes no wallet adds some at the end, if any, of codes that there were not. -/
theorem Turns.currencies_eq {c : Command} {s s' : MemorySystem} (h : Turns c s s')
    (other : ∀ code, c ≠ .removeWallet code) :
    ∃ new, s'.currencies = s.currencies ++ new ∧ ∀ x ∈ new, s.has x.code = false := by
  induction h with
  | refl => exact ⟨[], (List.append_nil _).symm, nofun⟩
  | @tail s₁ s₂ _ turn ih =>
    obtain ⟨new, hnew, hfresh⟩ := ih
    rcases turn.happened with ⟨hwallets, -⟩ | ⟨job, -, hincident⟩
    · exact ⟨new, by rw [currencies, hwallets]; exact hnew, hfresh⟩
    · obtain ⟨more, hmore, hmorefresh⟩ := hincident.currencies_eq other
      refine ⟨new ++ more, ?_, ?_⟩
      · rw [currencies, hmore, hnew, List.append_assoc]
      · rw [List.forall_mem_append]
        refine ⟨hfresh, fun x hx => ?_⟩
        have habsent := hmorefresh x hx
        rw [has, hnew, List.any_append, Bool.or_eq_false_iff] at habsent
        exact habsent.1

/-- The wallet that is removed is taken out of its place, and there is none of its code then. -/
theorem currencies_of_removeWallet {now : Instant} {code : String} {s s' : MemorySystem}
    (sole : Sole code s.wallets) (h : run now (.removeWallet code) s = .ok s') :
    s'.currencies = s.currencies.eraseP (fun c => c.hasCode code) ∧ s'.has code = false := by
  have hwallets : s'.wallets = s.wallets.eraseP fun w => w.currency.hasCode code := by
    have hdone := run_eq_ok_iff.mp h
    simp only [carryOut, removeWallet] at hdone
    split at hdone
    · cases (Prod.mk.inj hdone).1
    · obtain ⟨-, rfl⟩ := Prod.mk.inj hdone
      rfl
  constructor
  · rw [currencies, currencies, hwallets, List.eraseP_map]
    rfl
  · rw [has_eq_false_iff, hwallets, Wallet.find?, ← List.head?_filter, filter_eraseP_self,
      List.head?_eq_none_iff]
    exact List.length_eq_zero_iff.mp (by rw [List.length_tail]; exact Nat.sub_eq_zero_of_le sole)

/-- **Whatever happens, wallets are added at the end, or one is taken out**, of whose code there is none then. -/
theorem currencies_afterDeed {s : MemorySystem} (distinct : Distinct s.wallets) (deed : Deed) :
    (∃ new, (s.afterDeed deed).currencies = s.currencies ++ new ∧ ∀ x ∈ new, s.has x.code = false) ∨
      ∃ code, (s.afterDeed deed).currencies = s.currencies.eraseP (fun c => c.hasCode code) ∧
        (s.afterDeed deed).has code = false := by
  have hsame : ∃ new, s.currencies = s.currencies ++ new ∧ ∀ x ∈ new, s.has x.code = false :=
    ⟨[], (List.append_nil _).symm, nofun⟩
  cases deed with
  | delivery queue => exact Or.inl hsame
  | command now c =>
    simp only [afterDeed, perform, carryOut_eq]
    cases hrun : run now c s with
    | error e => exact Or.inl hsame
    | ok s' =>
      by_cases hremove : ∃ code, c = .removeWallet code
      · obtain ⟨code, rfl⟩ := hremove
        exact Or.inr ⟨code, currencies_of_removeWallet (distinct.single code "").wallets hrun⟩
      · exact Or.inl ((turns_of_run hrun).currencies_eq fun code hc => hremove ⟨code, hc⟩)

/-! ### Any number of things happen -/

/-- **The list is that of the wallets that have stayed, and then others.** -/
theorem currencies_after {s : MemorySystem} (distinct : Distinct s.wallets) (deeds : List Deed) :
    ∃ fresh, (s.after deeds).currencies = (s.currencies.filter fun c => s.stays c.code deeds) ++ fresh ∧
      ∀ c ∈ fresh, s.stays c.code deeds = false := by
  induction deeds generalizing s with
  | nil =>
    refine ⟨[], ?_, nofun⟩
    rw [List.append_nil]
    exact (List.filter_eq_self.mpr fun c hc => has_of_mem hc).symm
  | cons deed deeds ih =>
    obtain ⟨fresh, hafter, hfresh⟩ := ih (distinct.afterDeed deed)
    have hstays (code : String) :
        s.stays code (deed :: deeds) = (s.has code && (s.afterDeed deed).stays code deeds) := rfl
    have hkept : (s.currencies.filter fun c => s.stays c.code (deed :: deeds)) =
        s.currencies.filter fun c => (s.afterDeed deed).stays c.code deeds := by
      refine List.filter_congr fun c hc => ?_
      rw [hstays, has_of_mem hc, Bool.true_and]
    have hlate : ∀ c ∈ fresh, s.stays c.code (deed :: deeds) = false := fun c hc => by
      rw [hstays, hfresh c hc, Bool.and_false]
    rcases currencies_afterDeed distinct deed with ⟨new, hnew, habsent⟩ | ⟨code, herased, hgone⟩
    · refine ⟨(new.filter fun c => (s.afterDeed deed).stays c.code deeds) ++ fresh, ?_, ?_⟩
      · rw [hkept, ← List.append_assoc, ← List.filter_append, ← hnew]
        exact hafter
      · rw [List.forall_mem_append]
        refine ⟨fun c hc => ?_, hlate⟩
        rw [hstays, habsent c (List.mem_of_mem_filter hc), Bool.false_and]
    · refine ⟨fresh, ?_, hlate⟩
      have hother (c : Currency) (hc : c.hasCode code = true) :
          (s.afterDeed deed).stays c.code deeds = false := by
        rw [← Bool.not_eq_true]
        intro hstay
        have hhas := has_of_stays hstay
        rw [has_eq_false_iff, ← find?_congr ((Currency.hasCode_iff c code).mp hc), ← has_eq_false_iff, hhas] at hgone
        exact Bool.noConfusion hgone
      rw [hkept, ← filter_eraseP_of_disjoint s.currencies hother, ← herased]
      exact hafter

/-- The wallets that stay keep their order. -/
theorem filter_currencies_after {s : MemorySystem} (distinct : Distinct s.wallets) (deeds : List Deed) :
    ((s.after deeds).currencies.filter fun c => s.stays c.code deeds) =
      s.currencies.filter fun c => s.stays c.code deeds := by
  obtain ⟨fresh, hafter, hfresh⟩ := currencies_after distinct deeds
  have hnone : (fresh.filter fun c => s.stays c.code deeds) = [] :=
    List.filter_eq_nil_iff.mpr fun c hc => by rw [hfresh c hc]; exact Bool.false_ne_true
  rw [hafter, List.filter_append, hnone, List.append_nil, List.filter_filter]
  exact List.filter_congr fun c _ => Bool.and_self _

/-! ### Where the wallets come from -/

/-- How a wallet came into a system. -/
inductive Arrival where
  /-- It was in the file. -/
  | restored
  /-- A seed has made it when the system was created. -/
  | seeded
  /-- A command has added it. -/
  | added
  deriving DecidableEq, Repr

/-- The place of the wallets that came in this way among all. -/
def Arrival.rank : Arrival → Nat
  | .restored => 0
  | .seeded => 1
  | .added => 2

/-- How the wallet of a code came into a system that was created with the wallets `stored` of a file, when all
this has happened to it since. One that was away in the meantime was added. -/
def arrival (stored : List Wallet) (first : MemorySystem) (deeds : List Deed) (code : String) : Arrival :=
  if first.stays code deeds then
    if (Wallet.find? stored code).isSome then .restored else .seeded
  else .added

/-- Seeds make no two wallets of a code. -/
theorem Distinct.foldl_seed {ws : List Wallet} (distinct : Distinct ws) (seeds : List Currency) :
    Distinct (seeds.foldl seed ws) := by
  induction seeds generalizing ws with
  | nil => exact distinct
  | cons currency seeds ih =>
    apply ih
    unfold seed
    split
    · exact distinct
    · next hnew =>
      constructor
      · rw [List.pairwise_append]
        refine ⟨distinct.wallets, List.pairwise_singleton _ _, fun w hw x hx => ?_⟩
        rw [List.mem_singleton.mp hx]
        exact Bool.eq_false_iff.mpr (List.find?_eq_none.mp hnew w hw)
      · rw [List.forall_mem_append, List.forall_mem_singleton]
        exact ⟨distinct.transfers, List.nodup_nil⟩

/-- Among distinct wallets, those that come after some are not of their codes. -/
theorem find?_of_distinct_append {before after : List Wallet} (distinct : Distinct (before ++ after)) {w : Wallet}
    (hw : w ∈ after) : Wallet.find? before w.code = none := by
  refine List.find?_eq_none.mpr fun x hx => ?_
  rw [(List.pairwise_append.mp distinct.wallets).2.2 x hx w hw]
  exact Bool.false_ne_true

/-- Wallets of the file stand before those of the seeds, and these before those that were added. -/
theorem pairwise_arrival {stored seeded : List Wallet} {first : MemorySystem}
    (split : first.wallets = stored ++ seeded) (distinct : Distinct first.wallets) (deeds : List Deed) :
    (first.after deeds).currencies.Pairwise fun c c' =>
      (arrival stored first deeds c.code).rank ≤ (arrival stored first deeds c'.code).rank := by
  obtain ⟨fresh, hafter, hfresh⟩ := currencies_after distinct deeds
  have hrestored : ∀ c ∈ (stored.map Wallet.currency).filter (fun c => first.stays c.code deeds),
      arrival stored first deeds c.code = .restored := by
    intro c hc
    obtain ⟨hmem, hstays⟩ := List.mem_filter.mp hc
    obtain ⟨w, hw, rfl⟩ := List.mem_map.mp hmem
    have hfound : (Wallet.find? stored w.currency.code).isSome = true :=
      List.find?_isSome.mpr ⟨w, hw, (Currency.hasCode_iff _ _).mpr rfl⟩
    rw [arrival, if_pos hstays, if_pos hfound]
  have hseeded : ∀ c ∈ (seeded.map Wallet.currency).filter (fun c => first.stays c.code deeds),
      arrival stored first deeds c.code = .seeded := by
    intro c hc
    obtain ⟨hmem, hstays⟩ := List.mem_filter.mp hc
    obtain ⟨w, hw, rfl⟩ := List.mem_map.mp hmem
    have habsent := find?_of_distinct_append (split ▸ distinct) hw
    rw [arrival, if_pos hstays, ← Wallet.code, habsent, Option.isSome_none, if_neg Bool.false_ne_true]
  have hadded : ∀ c ∈ fresh, arrival stored first deeds c.code = .added := by
    intro c hc
    rw [arrival, hfresh c hc, if_neg Bool.false_ne_true]
  have hequal {cs : List Currency} {a : Arrival} (h : ∀ c ∈ cs, arrival stored first deeds c.code = a) :
      cs.Pairwise fun c c' => (arrival stored first deeds c.code).rank ≤ (arrival stored first deeds c'.code).rank :=
    List.pairwise_of_forall_mem_list fun c hc c' hc' => by rw [h c hc, h c' hc']
  rw [hafter, currencies, split, List.map_append, List.filter_append, List.pairwise_append, List.pairwise_append]
  refine ⟨⟨hequal hrestored, hequal hseeded, ?_⟩, hequal hadded, ?_⟩
  · intro c hc c' hc'
    rw [hrestored c hc]
    exact Nat.zero_le _
  · intro c hc c' hc'
    rw [hadded c' hc']
    cases arrival stored first deeds c.code <;> decide

/-- A system is created wherever the file can be loaded. -/
theorem create_of_load {params : SystemParams} {disk : Disk} {stored : List Wallet} {log : List LogEntry}
    (loaded : StoredWallets.load (StoredWallets.file params.directory) params.account.uid disk =
      .ok (stored, log)) (seeds : List Currency) :
    create params seeds disk = .ok ⟨⟨params.account, params.mainnet, StoredWallets.file params.directory,
      seeds.foldl seed stored, [], [], false, 0, 0, 0, []⟩, log⟩ := by
  simp only [create, loaded]

/-- **No duplicates ever arise, and wallets keep their places.** A system finds wallets in its file that are
distinct, and makes others by any seeds. Whatever happens to it then, it has no two wallets of a code and no two
transfers of a hash in a wallet, so a wallet finds the transfer of a hash exactly if it has one. Wallets of the
file stand before those of the seeds, and these before those that were added; and wallets that stay keep their
order, whatever happens after that. -/
theorem no_duplicates_arise {params : SystemParams} {disk : Disk} {stored : List Wallet} {log : List LogEntry}
    (loaded : StoredWallets.load (StoredWallets.file params.directory) params.account.uid disk =
      .ok (stored, log)) (distinct : Distinct stored) (seeds : List Currency) :
    ∃ made, create params seeds disk = .ok made ∧ ∀ deeds,
      Distinct (made.system.after deeds).wallets ∧
      (∀ w ∈ (made.system.after deeds).wallets, ∀ hash t,
        w.transfer? hash = some t ↔ t ∈ w.transfers ∧ t.hash = hash) ∧
      ((made.system.after deeds).currencies.Pairwise fun c c' =>
        (arrival stored made.system deeds c.code).rank ≤ (arrival stored made.system deeds c'.code).rank) ∧
      ∀ later, (((made.system.after deeds).after later).currencies.filter fun c =>
          (made.system.after deeds).stays c.code later) =
        (made.system.after deeds).currencies.filter fun c => (made.system.after deeds).stays c.code later := by
  obtain ⟨made, hmade, hwallets⟩ : ∃ made, create params seeds disk = .ok made ∧
      made.system.wallets = seeds.foldl seed stored := ⟨_, create_of_load loaded seeds, rfl⟩
  have hdistinct : Distinct made.system.wallets := hwallets ▸ distinct.foldl_seed seeds
  obtain ⟨seeded, hseeded⟩ := exists_foldl_seed seeds stored
  refine ⟨made, hmade, fun deeds => ?_⟩
  have hafter := hdistinct.after deeds
  refine ⟨hafter, fun w hw hash t => ?_, ?_, filter_currencies_after hafter⟩
  · exact transfer?_eq_some_iff (hafter.transfers w hw) hash t
  · exact pairwise_arrival (hwallets.trans hseeded) hdistinct deeds

/-- Two seeds of one code, and one of the code of Alice's wallet. -/
def twiceSeeded : List Currency :=
  [⟨"ethereum", "eth", "Ethereum", 18⟩, ⟨"ether", "ETH", "Ether", 18⟩, ⟨"bitcoin", "Btc", "Bitcoin", 8⟩]

/-- A wallet is added, a transfer is entered twice, and Alice's wallet is removed and comes back. -/
def addedAndRemoved : List Deed :=
  [.command ⟨0, 0⟩ (.addWallet ⟨"ripple", "xrp", "Ripple", 6⟩),
    .command ⟨0, 0⟩ (.addTransfer "Eth" (.create "t1" .zero .received)),
    .command ⟨0, 0⟩ (.submitTransfer "eth" (.create "t1" .zero .sent)),
    .command ⟨0, 0⟩ (.removeWallet "BTC"), .delivery [],
    .command ⟨0, 0⟩ (.configure [⟨"bitcoin", "btc", "Bitcoin", 8⟩, ⟨"ripple", "XRP", "Ripple", 6⟩])]

open Sharing in
/-- What Alice's system finds in its file. -/
theorem load_used : StoredWallets.load (StoredWallets.file "data") alice.uid used =
    .ok ([⟨bitcoin, .zero, .disconnected "disconnect requested", [.create "t1" .zero .received]⟩], []) := by
  have hwallets : filled.disconnect.wallets =
      [⟨bitcoin, .zero, .disconnected "disconnect requested", [.create "t1" .zero .received]⟩] := by rfl
  have hdates : ∀ w ∈ filled.disconnect.wallets, w.Dated := by
    intro w hw t ht time htime
    rw [hwallets, List.mem_singleton] at hw
    rw [hw, List.mem_singleton] at ht
    rw [ht] at htime
    exact nomatch htime
  have hzero : Decimal.zero.stored = .ok .zero := by decide +kernel
  have hstored : filled.disconnect.store unused = (used, []) := by rfl
  have hload := StoredWallets.load_save (save_of_store hstored) hdates
  rw [hwallets] at hload
  simp only [List.mapM_cons, List.mapM_nil, Wallet.stored, Transfer.stored, Transfer.create, hzero, Bind.bind,
    Except.bind, pure, Except.pure] at hload
  exact hload

open Sharing in
/-- Her wallet is away for a while, so it stands last in the end, after the one that was added. -/
theorem no_duplicates_arise_for_alice : ∃ stored log made,
    StoredWallets.load (StoredWallets.file "data") alice.uid used = .ok (stored, log) ∧ Distinct stored ∧
      create ⟨alice, false, "data"⟩ twiceSeeded used = .ok made ∧
      Distinct (made.system.after addedAndRemoved).wallets ∧
      (made.system.after addedAndRemoved).currencies.map
          (fun c => (c.code, arrival stored made.system addedAndRemoved c.code)) =
        [("eth", .seeded), ("xrp", .added), ("btc", .added)] := by
  have hdistinct : Distinct
      [⟨bitcoin, .zero, .disconnected "disconnect requested", [.create "t1" .zero .received]⟩] :=
    ⟨List.pairwise_singleton _ _, List.forall_mem_singleton.mpr (List.nodup_singleton _)⟩
  obtain ⟨made, hmade, hafter⟩ :=
    @no_duplicates_arise ⟨alice, false, "data"⟩ _ _ _ load_used hdistinct twiceSeeded
  refine ⟨_, _, made, load_used, hdistinct, hmade, (hafter addedAndRemoved).1, ?_⟩
  have hcreate := @create_of_load ⟨alice, false, "data"⟩ _ _ _ load_used twiceSeeded
  obtain rfl := Except.ok.inj (hmade.symm.trans hcreate)
  decide +kernel

end WalletHub.MemorySystem
