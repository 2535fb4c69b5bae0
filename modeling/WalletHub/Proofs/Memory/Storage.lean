import Mathlib.Data.List.Forall2
import WalletHub.Memory.System
import WalletHub.Proofs.Disk
import WalletHub.Proofs.Encoding.Wallet
import WalletHub.Proofs.Number.Whole
import WalletHub.Proofs.Transfer

/-!
# The wallets that come back from the file

What a system has stored is loaded again as `Wallet.stored` says, and not at all if one of the amounts
does not come back (`StoredWallets.load_save`). A system that is created there has these wallets first,
and then those of its seeds; so the wallets come back as they were exactly if all their amounts do
(`restores_of_save_iff`). Whole amounts do up to a bound (`Decimal.kept_of_whole`).

## What is proved

* `Decimal.kept_of_whole`: a whole amount is kept if ten times the amount is below 2 to the 53.
* `Transfer.kept_iff`, `Wallet.kept_iff`: a transfer and a wallet come back with what they held exactly if their
  amounts are kept; their other parts always do.
* `StoredWallets.decode_encode`: the file is read back as it was written, wallet by wallet.
* `StoredWallets.load_of_text`, `StoredWallets.load_save`: what is loaded from such a file, and for whom.
* `exists_foldl_seed`: seeds only add wallets, behind those of the file.
* `restores_of_save_iff`: the equivalence, of a save and a creation alone. Runs come in with
  `WalletHub.Proofs.Memory.Restart`.
-/

namespace WalletHub

open Json (Source Fault)

/-! ### Amounts that are kept -/

/-- The amount comes back with its value. -/
def Decimal.Kept (d : Decimal) : Prop := ∃ back, d.stored = .ok back ∧ (back == d) = true

instance (d : Decimal) : Decidable d.Kept :=
  match h : d.stored with
  | .ok back => decidable_of_iff ((back == d) = true)
    ⟨fun he => ⟨back, h, he⟩, fun ⟨_, hb, he⟩ => by rw [h] at hb; cases hb; exact he⟩
  | .error _ => .isFalse fun ⟨_, hb, _⟩ => by rw [h] at hb; cases hb

/-- **Whole amounts are kept up to a bound.** Ten times the amount has to be exact, since it is written with
one place after the point. -/
theorem Decimal.kept_of_whole {d : Decimal} (whole : d.scale = 0) (h : d.coefficient * 10 < 2 ^ 53) :
    d.Kept := by
  rcases Nat.eq_zero_or_pos d.coefficient with hzero | hpos
  · have hd : d = .zero := by
      cases d with
      | mk negative coefficient scale _ _ positive =>
        obtain rfl : scale = 0 := whole
        obtain rfl : coefficient = 0 := hzero
        obtain rfl : negative = false := positive rfl
        rfl
    rw [hd]
    decide +kernel
  · have hexact : d.coefficient < 2 ^ 53 := by omega
    have hdouble : d.toDouble = Binary.whole d.negative d.coefficient := by
      simp only [toDouble, whole, if_true, Binary.whole]
    have hback : of? d.negative d.coefficient 0 = some d := by
      cases d with
      | mk negative coefficient scale bound =>
        obtain rfl : scale = 0 := whole
        have hsign : (negative && coefficient != 0) = negative := by
          rw [bne_iff_ne.mpr (Nat.ne_of_gt hpos), Bool.and_true]
        simp [of?, bound, hsign]
    refine ⟨d, ?_, ?_⟩
    · simp only [stored, toJson, hdouble, Json.double_whole d.negative hpos hexact, ofJson,
        Json.Numeral.meaning?_whole hpos h, ofDouble?_whole d.negative hpos hexact, hback, Option.elim_some]
    · simp [BEq.beq]
example : ¬((Decimal.of? false 2000000000000001 0).getD .zero).Kept := by decide +kernel

/-- The amounts of the transfer come back with their values. -/
def Transfer.Kept (t : Transfer) : Prop := t.amount.Kept ∧ t.fee.Kept

/-- All amounts of the wallet come back with their values. -/
def Wallet.Kept (w : Wallet) : Prop := w.balance.Kept ∧ ∀ t ∈ w.transfers, t.Kept

/-- The wallet `back` holds what `w` held: the currency, the balance, and the transfers in their
order, each equal in all its parts. -/
structure Wallet.Same (w back : Wallet) : Prop where
  currency : back.currency = w.currency
  balance : (back.balance == w.balance) = true
  transfers : List.Forall₂ (fun t u => (u == t) = true) w.transfers back.transfers

/-- The wallets `new` begin with what the wallets `old` held. -/
def Wallet.Restores (old new : List Wallet) : Prop :=
  ∃ restored seeded, new = restored ++ seeded ∧ List.Forall₂ Wallet.Same old restored

theorem mapM_eq_ok_iff {α β ε : Type} {f : α → Except ε β} {as : List α} {bs : List β} :
    as.mapM f = .ok bs ↔ List.Forall₂ (fun a b => f a = .ok b) as bs := by
  induction as generalizing bs with
  | nil => simp [pure, Except.pure, eq_comm]
  | cons a as ih =>
    rw [List.mapM_cons, List.forall₂_cons_left_iff]
    constructor
    · intro h
      cases hfa : f a with
      | error fault => simp [hfa, Bind.bind, Except.bind] at h
      | ok b =>
        cases hrest : as.mapM f with
        | error fault => simp [hfa, hrest, Bind.bind, Except.bind] at h
        | ok rest =>
          have hbs : b :: rest = bs := by
            simpa [hfa, hrest, Bind.bind, Except.bind, pure, Except.pure] using h
          exact ⟨b, rest, rfl, ih.mp hrest, hbs.symm⟩
    · rintro ⟨b, rest, hfa, hrest, rfl⟩
      simp [hfa, ih.mpr hrest, Bind.bind, Except.bind, pure, Except.pure]

/-- A list is computed to related items exactly if each of its items is. -/
theorem exists_mapM_iff {α β ε : Type} {f : α → Except ε β} {R : α → β → Prop} (as : List α) :
    (∃ bs, as.mapM f = .ok bs ∧ List.Forall₂ R as bs) ↔ ∀ a ∈ as, ∃ b, f a = .ok b ∧ R a b := by
  simp only [mapM_eq_ok_iff]
  induction as with
  | nil => simp
  | cons a as ih =>
    rw [List.forall_mem_cons, ← ih]
    constructor
    · rintro ⟨bs, hf, hR⟩
      cases hf with
      | cons hfa hfs =>
        cases hR with
        | cons hb hRs => exact ⟨⟨_, hfa, hb⟩, _, hfs, hRs⟩
    · rintro ⟨⟨b, hfa, hb⟩, bs, hfs, hRs⟩
      exact ⟨b :: bs, .cons hfa hfs, .cons hb hRs⟩

/-- What each item keeps the whole list keeps. -/
theorem map_eq_of_mapM {α β γ ε : Type} {f : α → Except ε β} {g : β → γ} {g' : α → γ} {as : List α} {bs : List β}
    (h : as.mapM f = .ok bs) (same : ∀ a b, f a = .ok b → g b = g' a) : bs.map g = as.map g' := by
  rw [mapM_eq_ok_iff] at h
  induction h with
  | nil => rfl
  | cons hb _ ih => rw [List.map_cons, List.map_cons, ih, same _ _ hb]

theorem Transfer.kept_iff (t : Transfer) : (∃ u, t.stored = .ok u ∧ (u == t) = true) ↔ t.Kept := by
  constructor
  · rintro ⟨u, hu, heq⟩
    unfold Transfer.stored at hu
    cases hamount : t.amount.stored with
    | error fault => simp [hamount, Bind.bind, Except.bind] at hu
    | ok amount =>
      cases hfee : t.fee.stored with
      | error fault => simp [hamount, hfee, Bind.bind, Except.bind] at hu
      | ok fee =>
        obtain rfl : { t with amount := amount, fee := fee } = u := by
          simpa [hamount, hfee, Bind.bind, Except.bind, pure, Except.pure] using hu
        obtain ⟨-, ha, hf, -⟩ := (Transfer.beq_iff _ _).mp heq
        exact ⟨⟨amount, hamount, ha⟩, fee, hfee, hf⟩
  · rintro ⟨⟨amount, hamount, ha⟩, fee, hfee, hf⟩
    refine ⟨{ t with amount := amount, fee := fee }, ?_, ?_⟩
    · simp [Transfer.stored, hamount, hfee, Bind.bind, Except.bind, pure, Except.pure]
    · exact (Transfer.beq_iff _ _).mpr ⟨rfl, ha, hf, rfl, rfl, rfl⟩

theorem Wallet.kept_iff (w : Wallet) : (∃ u, w.stored = .ok u ∧ w.Same u) ↔ w.Kept := by
  have htransfers := exists_mapM_iff (f := Transfer.stored) (R := fun t u => (u == t) = true) w.transfers
  simp only [Transfer.kept_iff] at htransfers
  constructor
  · rintro ⟨u, hu, hsame⟩
    unfold Wallet.stored at hu
    cases hbalance : w.balance.stored with
    | error fault => simp [hbalance, Bind.bind, Except.bind] at hu
    | ok balance =>
      cases hmap : w.transfers.mapM Transfer.stored with
      | error fault => simp [hbalance, hmap, Bind.bind, Except.bind] at hu
      | ok transfers =>
        obtain rfl : { w with balance := balance, transfers := transfers } = u := by
          simpa [hbalance, hmap, Bind.bind, Except.bind, pure, Except.pure] using hu
        exact ⟨⟨balance, hbalance, hsame.balance⟩, htransfers.mp ⟨transfers, hmap, hsame.transfers⟩⟩
  · rintro ⟨⟨balance, hbalance, hb⟩, hkept⟩
    obtain ⟨transfers, hmap, ht⟩ := htransfers.mpr hkept
    refine ⟨{ w with balance := balance, transfers := transfers }, ?_, ⟨rfl, hb, ht⟩⟩
    simp [Wallet.stored, hbalance, hmap, Bind.bind, Except.bind, pure, Except.pure]

/-! ### The file -/

/-- What was written is read back wallet by wallet. -/
theorem StoredWallets.decode_encode (uid : String) {wallets : List Wallet}
    (result : Wallet → Except Fault Wallet)
    (hread : ∀ w ∈ wallets, Encoded.ofJson (.text 126) (Encoded.toJson w) = result w) :
    Encoded.decode (Encoded.encode .pretty (StoredWallets.mk uid wallets)) =
      (wallets.mapM result).map (StoredWallets.mk uid) := by
  have hitems := Json.asList_map (show (Source.text 127).Allows 1 by decide) Encoded.toJson Encoded.ofJson result
    wallets hread
  simp only [Encoded.decode, Encoded.encode, Json.parse_render]
  delta instEncodedStoredWallets
  dsimp only
  simp [Json.record, Json.fields, Source.start, Source.enter, Json.knownMembers, Json.Fields.get,
    List.lookup_cons, Json.asText_text, Bind.bind, Except.bind, pure, Except.pure, Source.inner, hitems,
    Except.map]

/-- The wallet that is read where its form stands in the file. -/
def Wallet.reread (w : Wallet) : Except Fault Wallet := Encoded.ofJson (.text 126) (Encoded.toJson w)

/-- **What is loaded where wallets were written**: they are read back all or not at all, and they are given only
to an account with the identifier under which they were written. -/
theorem StoredWallets.load_of_text {file uid owner : String} {wallets : List Wallet} {d : Disk}
    (h : d.readText? file = some (Encoded.encode .pretty (StoredWallets.mk owner wallets)))
    {result : Wallet → Except Fault Wallet} (hread : ∀ w ∈ wallets, w.reread = result w) :
    load file uid d = match wallets.mapM result with
      | .error fault => .error (.json fault)
      | .ok back => if owner = uid then .ok (back, []) else .ok ([], [.foreignFile file]) := by
  have hdecode := decode_encode owner result hread
  rw [load, if_pos (Disk.exists?_of_readText? h), h]
  simp only [hdecode]
  cases wallets.mapM result with
  | error fault => rfl
  | ok back => rfl

/-- A file that was saved holds the wallets. -/
theorem StoredWallets.readText?_of_save {file uid : String} {wallets : List Wallet} {d d' : Disk}
    (hsave : save file uid wallets d = .ok d') :
    d'.readText? file = some (Encoded.encode .pretty (StoredWallets.mk uid wallets)) := by
  unfold save at hsave
  split at hsave
  · next heq =>
    obtain rfl := Except.ok.inj hsave
    exact Disk.readText?_of_write? heq
  · exact nomatch hsave

/-- **What is saved is loaded again**, by the account that saved it. -/
theorem StoredWallets.load_save {file uid : String} {wallets : List Wallet} {d d' : Disk}
    (hsave : save file uid wallets d = .ok d') (hdates : ∀ w ∈ wallets, w.Dated) :
    load file uid d' = match wallets.mapM Wallet.stored with
      | .ok back => .ok (back, [])
      | .error fault => .error (.json fault) := by
  rw [load_of_text (readText?_of_save hsave) fun w hw => Wallet.ofJson_toJson (by decide) (hdates w hw)]
  cases wallets.mapM Wallet.stored with
  | error fault => rfl
  | ok back => exact if_pos rfl

/-! ### A system created anew -/

namespace MemorySystem

/-- The wallets of the seeds come after those that are there. -/
theorem exists_foldl_seed (seeds : List Currency) (wallets : List Wallet) :
    ∃ seeded, seeds.foldl seed wallets = wallets ++ seeded := by
  induction seeds generalizing wallets with
  | nil => exact ⟨[], (List.append_nil wallets).symm⟩
  | cons currency seeds ih =>
    have hseed : ∃ more, seed wallets currency = wallets ++ more := by
      unfold seed
      split
      · exact ⟨[], (List.append_nil wallets).symm⟩
      · exact ⟨_, rfl⟩
    obtain ⟨more, hmore⟩ := hseed
    obtain ⟨seeded, hseeded⟩ := ih (wallets ++ more)
    exact ⟨more ++ seeded, by rw [List.foldl_cons, hmore, hseeded, List.append_assoc]⟩

/-- **A system created where wallets were saved has these wallets exactly if all their amounts are
kept.** The system may be created for other networks and with other seeds. -/
theorem restores_of_save_iff {file uid : String} {wallets : List Wallet} {d d' : Disk}
    (hsave : StoredWallets.save file uid wallets d = .ok d') (hdates : ∀ w ∈ wallets, w.Dated)
    {params : SystemParams} (huid : params.account.uid = uid)
    (hfile : StoredWallets.file params.directory = file) (seeds : List Currency) :
    (∃ made, create params seeds d' = .ok made ∧ Wallet.Restores wallets made.system.wallets) ↔
      ∀ w ∈ wallets, w.Kept := by
  have hload := StoredWallets.load_save hsave hdates
  have hitems := exists_mapM_iff (f := Wallet.stored) (R := Wallet.Same) wallets
  simp only [Wallet.kept_iff] at hitems
  rw [← hitems]
  cases hback : wallets.mapM Wallet.stored with
  | error fault =>
    have hcreate : create params seeds d' = .error (.json fault) := by
      simp only [create, huid, hfile, hload, hback]
    constructor
    · rintro ⟨made, hmade, -⟩
      rw [hcreate] at hmade
      exact nomatch hmade
    · rintro ⟨bs, hbs, -⟩
      exact nomatch hbs
  | ok back =>
    obtain ⟨seeded, hseeded⟩ := exists_foldl_seed seeds back
    have hcreate : ∃ made, create params seeds d' = .ok made ∧ made.system.wallets = back ++ seeded := by
      simp only [create, huid, hfile, hload, hback]
      exact ⟨_, rfl, hseeded⟩
    obtain ⟨made, hmade, hwallets⟩ := hcreate
    constructor
    · rintro ⟨made', hmade', restored, others, hsplit, hsame⟩
      obtain rfl : made = made' := by
        rw [hmade] at hmade'
        exact Except.ok.inj hmade'
      have hlength : back.length = restored.length :=
        (mapM_eq_ok_iff.mp hback).length_eq.symm.trans hsame.length_eq
      have hprefix := List.append_inj_left (hwallets.symm.trans hsplit) hlength
      exact ⟨back, rfl, hprefix ▸ hsame⟩
    · rintro ⟨bs, hbs, hsame⟩
      obtain rfl : back = bs := Except.ok.inj hbs
      exact ⟨made, hmade, back, seeded, hwallets, hsame⟩

end MemorySystem

end WalletHub
