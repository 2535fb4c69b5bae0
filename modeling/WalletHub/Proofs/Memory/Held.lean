import WalletHub.Proofs.Memory.Sole

/-!
# One transfer of a system in memory

What a command does to the transfer of one hash in the wallet of one code. As long as there are no two
such transfers, and no two such wallets, the updates that wait in the queue tell of all that is done
to it: what the wallet holds after an edit is what the last update says (`Edit.held_eq`).

## What is proved

* `eq_of_filter_enter`, `filter_enter_of_ne`, `length_filter_enter`: entering a transfer makes no second one of
  its hash, and leaves the others alone.
* `Entry.transfer_eq`, `Entry.silent_of_ne`: what an entry does to the transfer of one hash in the wallet of the
  entry, and that it tells nothing of other wallets.
* `Edit.held_eq`: the same of an edit, which is about one wallet of the list.
* `Entry.single`, `Edit.single`: as long as there are no two such transfers none arise.
* `Turns.held_eq`: both together, for all turns of a command, by induction over them.

The last is what `WalletHub.Proofs.Hub.Updates` needs: the updates that wait in a system end with the transfer
that the wallet has.
-/

namespace WalletHub.MemorySystem

/-- The transfer of a hash in the wallet of a code, if there is exactly one. -/
def held (code hash : String) (ws : List Wallet) : Option Transfer :=
  (Wallet.find? ws code).bind fun w => w.transfer? hash

/-- The update is one of the transfer of a hash in a wallet of a code. -/
def concerns (code hash : String) (u : String × Transfer) : Bool :=
  Currency.key u.1 == Currency.key code && u.2.hash == hash

/-- The updates of one transfer that the callbacks of some jobs bring, the oldest first. -/
def updatesOf (code hash : String) (jobs : List Job) : List Transfer :=
  ((allUpdates jobs).filter (concerns code hash)).map Prod.snd

theorem updatesOf_append (code hash : String) (jobs jobs' : List Job) :
    updatesOf code hash (jobs ++ jobs') = updatesOf code hash jobs ++ updatesOf code hash jobs' := by
  simp only [updatesOf, allUpdates_append, List.filter_append, List.map_append]

/-- There are no two wallets of the code, nor two transfers of the hash in one of them. -/
structure Single (code hash : String) (ws : List Wallet) : Prop where
  wallets : Sole code ws
  transfers : ∀ w ∈ ws, w.currency.hasCode code = true →
    (w.transfers.filter fun t => t.hash == hash).length ≤ 1

/-- The transfer that is entered is the one of its hash, if there is exactly one. -/
theorem eq_of_filter_enter {t u : Transfer} {ts : List Transfer}
    (h : (Wallet.enter t ts).filter (fun x => x.hash == t.hash) = [u]) : u = t := by
  induction ts with
  | nil =>
    rw [Wallet.enter, List.filter_cons_of_pos (by simp)] at h
    exact (List.cons.inj h).1.symm
  | cons x ts ih =>
    rw [Wallet.enter] at h
    by_cases hx : x.hash = t.hash
    · rw [if_pos hx, List.filter_cons_of_pos (by simp)] at h
      exact (List.cons.inj h).1.symm
    · rw [if_neg hx, List.filter_cons_of_neg (by simpa using hx)] at h
      exact ih h

/-- Entering a transfer of another hash leaves those of a hash as they are. -/
theorem filter_enter_of_ne {t : Transfer} {hash : String} (ts : List Transfer) (h : t.hash ≠ hash) :
    (Wallet.enter t ts).filter (fun x => x.hash == hash) = ts.filter fun x => x.hash == hash := by
  induction ts with
  | nil => rw [Wallet.enter, List.filter_cons_of_neg (by simpa using h)]
  | cons x ts ih =>
    rw [Wallet.enter]
    by_cases hx : x.hash = t.hash
    · rw [if_pos hx, List.filter_cons_of_neg (by simpa using h), List.filter_cons_of_neg]
      simpa [hx] using h
    · rw [if_neg hx, List.filter_cons, List.filter_cons, ih]

/-- Entering a transfer leaves at most one of a hash, if there was no second one. -/
theorem length_filter_enter (t : Transfer) {hash : String} (ts : List Transfer)
    (h : (ts.filter fun x => x.hash == hash).length ≤ 1) :
    ((Wallet.enter t ts).filter fun x => x.hash == hash).length ≤ 1 := by
  by_cases hhash : t.hash = hash
  · subst hhash
    induction ts with
    | nil => exact List.length_filter_le _ [t]
    | cons x ts ih =>
      rw [Wallet.enter]
      by_cases hx : x.hash = t.hash
      · rw [if_pos hx, List.filter_cons_of_pos (by simp)]
        rwa [List.filter_cons_of_pos (by simpa using hx)] at h
      · rw [if_neg hx, List.filter_cons_of_neg (by simpa using hx)]
        rw [List.filter_cons_of_neg (by simpa using hx)] at h
        exact ih h
  · rwa [filter_enter_of_ne ts hhash]

/-- **What a wallet holds after an entry is what the last update says**, or what it held before if
there is no update. -/
theorem Entry.transfer_eq {code own hash : String} (hcode : Currency.key own = Currency.key code)
    {ts ts' : List Transfer} {updates : List (String × Transfer)} (h : Entry own ts updates ts')
    (single : (ts.filter fun t => t.hash == hash).length ≤ 1) {t : Transfer}
    (ht : ts'.filter (fun t => t.hash == hash) = [t]) :
    ((updates.filter (concerns code hash)).map Prod.snd).getLast? = some t ∨
      updates.filter (concerns code hash) = [] ∧ ts.filter (fun t => t.hash == hash) = [t] := by
  cases h with
  | keep silent => exact Or.inr ⟨by rw [silent, List.filter_nil], ht⟩
  | enter u told same =>
    by_cases hhash : u.hash = hash
    · subst hhash
      obtain rfl := eq_of_filter_enter ht
      have hall : updates.filter (concerns code t.hash) = updates :=
        List.filter_eq_self.mpr fun x hx => by simp [concerns, same x hx, hcode]
      have hlast := same _ (List.getLast_mem told)
      left
      rw [hall, List.getLast?_map, List.getLast?_eq_some_getLast told, hlast, Option.map_some]
    · refine Or.inr ⟨List.filter_eq_nil_iff.mpr fun x hx => ?_, ?_⟩
      · simp [concerns, same x hx, hhash]
      · rwa [filter_enter_of_ne ts hhash] at ht
  | remove hash' same =>
    by_cases hhash : hash' = hash
    · subst hhash
      rw [filter_eraseP_self] at ht
      have hlength := congrArg List.length ht
      rw [List.length_tail, List.length_singleton] at hlength
      omega
    · refine Or.inr ⟨List.filter_eq_nil_iff.mpr fun x hx => ?_, ?_⟩
      · simp [concerns, (same x hx).2, hhash]
      · rwa [filter_eraseP_of_disjoint] at ht
        intro x hx
        rw [beq_iff_eq] at hx
        exact beq_false_of_ne (by rw [hx]; exact hhash)

theorem filter_of_transfer? {w : Wallet} {hash : String} {t : Transfer} (h : w.transfer? hash = some t) :
    w.transfers.filter (fun t => t.hash == hash) = [t] := by
  unfold Wallet.transfer? at h
  split at h
  · next u heq =>
    obtain rfl := Option.some.inj h
    exact heq
  · exact nomatch h

theorem transfer?_of_filter {w : Wallet} {hash : String} {t : Transfer}
    (h : w.transfers.filter (fun t => t.hash == hash) = [t]) : w.transfer? hash = some t := by
  rw [Wallet.transfer?, h]

/-- An entry in a wallet of another code brings no updates of the code. -/
theorem Entry.silent_of_ne {code own hash : String} (hcode : Currency.key own ≠ Currency.key code)
    {ts ts' : List Transfer} {updates : List (String × Transfer)} (h : Entry own ts updates ts') :
    updates.filter (concerns code hash) = [] := by
  apply List.filter_eq_nil_iff.mpr
  intro x hx
  cases h with
  | keep silent =>
    rw [silent] at hx
    exact nomatch hx
  | enter u told same => simp [concerns, same x hx, hcode]
  | remove hash' same => simp [concerns, (same x hx).1, hcode]

/-- **What is held after an edit is what the last update says**, or what was held before if there is no
update. -/
theorem Edit.held_eq {code hash : String} {ws ws' : List Wallet} {jobs : List Job} (h : Edit ws jobs ws')
    (single : Single code hash ws) {t : Transfer} (ht : held code hash ws' = some t) :
    (updatesOf code hash jobs).getLast? = some t ∨
      updatesOf code hash jobs = [] ∧ held code hash ws = some t := by
  have hnone (silent : allUpdates jobs = []) : updatesOf code hash jobs = [] := by
    rw [updatesOf, silent, List.filter_nil, List.map_nil]
  obtain ⟨w', hfind, htransfer⟩ := Option.bind_eq_some_iff.mp ht
  cases h with
  | keep silent => exact Or.inr ⟨hnone silent, ht⟩
  | add w new blank told silent =>
    refine Or.inr ⟨hnone silent, ?_⟩
    rw [Wallet.find?, List.find?_append] at hfind
    rcases Option.or_eq_some_iff.mp hfind with hold | ⟨-, hnew⟩
    · exact Option.bind_eq_some_iff.mpr ⟨w', hold, htransfer⟩
    · obtain rfl : w = w' := List.mem_singleton.mp (List.mem_of_find?_eq_some hnew) |>.symm
      have hfilter := filter_of_transfer? htransfer
      rw [blank] at hfilter
      cases hfilter
  | remove code' told silent =>
    refine Or.inr ⟨hnone silent, ?_⟩
    rw [Wallet.find?, ← List.head?_filter] at hfind
    by_cases hcode : Currency.key code' = Currency.key code
    · have hsame : (fun w : Wallet => w.currency.hasCode code') = fun w => w.currency.hasCode code :=
        funext fun w => hasCode_congr hcode w.currency
      rw [hsame, filter_eraseP_self] at hfind
      have hlength : (ws.filter fun w => w.currency.hasCode code).length ≤ 1 := single.wallets
      cases hws : ws.filter fun w => w.currency.hasCode code with
      | nil => simp [hws] at hfind
      | cons w rest =>
        rw [hws, List.length_cons] at hlength
        obtain rfl : rest = [] := List.length_eq_zero_iff.mp (by omega)
        rw [hws] at hfind
        cases hfind
    · rw [filter_eraseP_of_disjoint] at hfind
      · rw [List.head?_filter] at hfind
        exact Option.bind_eq_some_iff.mpr ⟨w', hfind, htransfer⟩
      · intro w hw
        rw [Currency.hasCode_iff] at hw
        rw [← Bool.not_eq_true, Currency.hasCode_iff, hw]
        exact hcode
  | alter before after w w'' split currency entry told =>
    subst split
    by_cases hcode : Currency.key w.code = Currency.key code
    · have hw : w.currency.hasCode code = true := (Currency.hasCode_iff _ _).mpr hcode
      have hfirst := first_of_sole single.wallets hw
      have hfound := find?_split after hfirst (w := w'') (by rw [currency, hw])
      obtain rfl : w'' = w' := Option.some.inj (hfound.symm.trans hfind)
      have hmem : w ∈ before ++ w :: after := List.mem_append_right _ List.mem_cons_self
      rcases entry.transfer_eq hcode (single.transfers w hmem hw) (filter_of_transfer? htransfer) with
        hlast | ⟨hempty, hkept⟩
      · exact Or.inl hlast
      · refine Or.inr ⟨by rw [updatesOf, hempty, List.map_nil], ?_⟩
        exact Option.bind_eq_some_iff.mpr ⟨w, find?_split after hfirst hw, transfer?_of_filter hkept⟩
    · have hw : w.currency.hasCode code = false := by
        rw [← Bool.not_eq_true, Currency.hasCode_iff]
        exact hcode
      refine Or.inr ⟨?_, ?_⟩
      · rw [updatesOf, entry.silent_of_ne hcode, List.map_nil]
      · rw [find?_split_of_ne before after currency hw] at hfind
        exact Option.bind_eq_some_iff.mpr ⟨w', hfind, htransfer⟩

theorem Entry.single {own hash : String} {ts ts' : List Transfer} {updates : List (String × Transfer)}
    (h : Entry own ts updates ts') (single : (ts.filter fun t => t.hash == hash).length ≤ 1) :
    (ts'.filter fun t => t.hash == hash).length ≤ 1 := by
  cases h with
  | keep => exact single
  | enter t => exact length_filter_enter t ts single
  | remove => exact Nat.le_trans (List.eraseP_sublist.filter _).length_le single

/-- **No edit makes a second transfer of a hash, or a second wallet of a code.** -/
theorem Edit.single {code hash : String} {ws ws' : List Wallet} {jobs : List Job} (h : Edit ws jobs ws')
    (single : Single code hash ws) : Single code hash ws' := by
  refine ⟨h.sole single.wallets, ?_⟩
  intro x hx hcode
  cases h with
  | keep => exact single.transfers x hx hcode
  | add w new blank =>
    rcases List.mem_append.mp hx with hold | hnew
    · exact single.transfers x hold hcode
    · obtain rfl := List.mem_singleton.mp hnew
      rw [blank]
      exact Nat.zero_le 1
  | remove code' => exact single.transfers x (List.mem_of_mem_eraseP hx) hcode
  | alter before after w w' split currency entry =>
    subst split
    rcases List.mem_append.mp hx with hbefore | hafter
    · exact single.transfers x (List.mem_append_left _ hbefore) hcode
    · rcases List.mem_cons.mp hafter with rfl | hafter
      · rw [currency] at hcode
        exact entry.single (single.transfers w (List.mem_append_right _ List.mem_cons_self) hcode)
      · exact single.transfers x (List.mem_append_right _ (List.mem_cons_of_mem _ hafter)) hcode

/-- **The queue tells of all that turns do to a transfer.** -/
theorem Turns.held_eq {code hash : String} {c : Command} {s s' : MemorySystem} (h : Turns c s s')
    (single : Single code hash s.wallets) :
    Single code hash s'.wallets ∧ ∃ jobs, s'.queue = s.queue ++ jobs ∧ ∀ t,
      held code hash s'.wallets = some t → (updatesOf code hash jobs).getLast? = some t ∨
        updatesOf code hash jobs = [] ∧ held code hash s.wallets = some t := by
  induction h with
  | refl => exact ⟨single, [], (List.append_nil _).symm, fun t ht => Or.inr ⟨rfl, ht⟩⟩
  | tail _ turn ih =>
    obtain ⟨hsingle, jobs, hqueue, hheld⟩ := ih
    obtain ⟨more, hmore, hedit⟩ := turn.edit
    refine ⟨hedit.single hsingle, jobs ++ more, by rw [hmore, hqueue, List.append_assoc], ?_⟩
    intro t ht
    rw [updatesOf_append]
    rcases hedit.held_eq hsingle ht with hlast | ⟨hnone, hkept⟩
    · exact Or.inl (by rw [List.getLast?_append, hlast, Option.some_or])
    · rw [hnone, List.append_nil]
      exact hheld t hkept

end WalletHub.MemorySystem
