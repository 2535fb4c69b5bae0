import Mathlib.Data.List.Basic
import WalletHub.Wallet.Order

/-!
# Wallets in listed order

What it means to show wallets in the user's order is said without any sorting (`Wallet.Displays`): the same
wallets are there, those that are listed come first, by the last places of their ids, and wallets of one place
stand as they stood before, as do those that are not listed. Only one list does so (`Displays.unique`), and
`inListedOrder` gives it (`displays_inListedOrder`). All other laws of the order follow from these two: it does
not matter whether the wallets that are not listed are left out before or after, and a list that is in order
stays as it is (`listed_order_is_stable`).

## What is proved

* `lastPlace_eq_some_iff`, `place_eq_some_iff`, `isListed_iff`: the place of a wallet is the last one of its id,
  in any letter case.
* `notAfter_iff`, `notAfter_trans`, `notAfter_total`: the order in which wallets are sorted is that of the
  places.
* `eq_of_classes`: a list that is ordered by a key is determined by what it has of each key.
* `Displays.unique`: so there is only one list in the order of the ids.
* `displays_inListedOrder`: sorting gives it, since the sort is stable (`filter_mergeSort_of_tied`).
* `Displays.keepListed`, `Displays.append_rest`: the listed wallets may be taken before or after.
* `listed_order_is_stable`: all laws, for any list of wallets and any ids, with repetitions and strangers among
  them.
-/

namespace WalletHub.Wallet

/-! ### Places on the list -/

/-- The last place on the list where the id of the wallet stands is `i`. -/
def lastAt (ids : List String) (i : Nat) (w : Wallet) : Bool :=
  ids[i]?.any w.currency.hasId && (ids.drop (i + 1)).all fun id => !w.currency.hasId id

/-- The id of the wallet is on the list. -/
def isListed (ids : List String) (w : Wallet) : Bool := ids.any fun id => w.currency.hasId id

/-- The place by which wallets are sorted. -/
def place (ids : List String) (w : Wallet) : Option Nat := lastPlace w.id 0 ids

variable {ids : List String} {w : Wallet} {ws shown shown' : List Wallet}

theorem lastAt_zero (id : String) (ids : List String) (w : Wallet) :
    lastAt (id :: ids) 0 w = (w.currency.hasId id && !isListed ids w) := by
  rw [lastAt, isListed, List.not_any_eq_all_not]
  rfl

/-- A comparison of ids is one of their folded forms, as the places are found by. -/
theorem fold_eq_iff (id : String) (w : Wallet) : Text.fold id = Text.fold w.id ↔ w.currency.hasId id = true := by
  rw [Currency.hasId_iff, eq_comm]
  rfl

/-- No place is found for a wallet exactly when it is not listed. -/
theorem lastPlace_eq_none_iff (w : Wallet) (index : Nat) (ids : List String) :
    lastPlace w.id index ids = none ↔ isListed ids w = false := by
  induction ids generalizing index with
  | nil => exact ⟨fun _ => rfl, fun _ => rfl⟩
  | cons id ids ih =>
    rw [lastPlace, Option.or_eq_none_iff, ih]
    have hcons : isListed (id :: ids) w = (w.currency.hasId id || isListed ids w) := rfl
    cases hid : w.currency.hasId id with
    | true => simp [hcons, hid, fold_eq_iff]
    | false => simp [hcons, hid, fold_eq_iff]

/-- The place that is found is the last one. -/
theorem lastPlace_eq_some_iff (w : Wallet) (index j : Nat) (ids : List String) :
    lastPlace w.id index ids = some j ↔ ∃ i, j = index + i ∧ lastAt ids i w = true := by
  induction ids generalizing index with
  | nil => simp [lastPlace, lastAt]
  | cons id ids ih =>
    rw [lastPlace, Option.or_eq_some_iff, ih, lastPlace_eq_none_iff]
    constructor
    · rintro (⟨i, rfl, hlast⟩ | ⟨hunlisted, hhere⟩)
      · exact ⟨i + 1, by omega, hlast⟩
      · rw [Option.ite_none_right_eq_some, fold_eq_iff] at hhere
        obtain ⟨hid, hindex⟩ := hhere
        exact ⟨0, (Option.some.inj hindex).symm, by rw [lastAt_zero, hid, hunlisted]; rfl⟩
    · rintro ⟨i, rfl, hlast⟩
      cases i with
      | zero =>
        rw [lastAt_zero, Bool.and_eq_true, Bool.not_eq_true'] at hlast
        obtain ⟨hid, hunlisted⟩ := hlast
        exact Or.inr ⟨hunlisted, if_pos ((fold_eq_iff id w).mpr hid)⟩
      | succ i => exact Or.inl ⟨i, by omega, hlast⟩

theorem place_eq_some_iff (ids : List String) (w : Wallet) (i : Nat) :
    place ids w = some i ↔ lastAt ids i w = true := by
  rw [place, lastPlace_eq_some_iff]
  constructor
  · rintro ⟨j, rfl, hlast⟩
    rwa [Nat.zero_add]
  · exact fun hlast => ⟨i, (Nat.zero_add i).symm, hlast⟩

theorem place_eq_none_iff (ids : List String) (w : Wallet) : place ids w = none ↔ isListed ids w = false :=
  lastPlace_eq_none_iff w 0 ids

/-- A wallet is listed exactly when its id has a last place. -/
theorem isListed_iff (ids : List String) (w : Wallet) : isListed ids w = true ↔ ∃ i, lastAt ids i w = true := by
  rw [← Bool.not_eq_false, ← place_eq_none_iff, ← ne_eq, Option.ne_none_iff_exists']
  simp only [place_eq_some_iff]

/-- A place is before another, or the same. No place comes last. -/
def NoLater (p q : Option Nat) : Prop := ∀ j, q = some j → ∃ i ≤ j, p = some i

theorem NoLater.antisymm {p q : Option Nat} (h : NoLater p q) (h' : NoLater q p) : p = q := by
  cases p with
  | none => cases q with
    | none => rfl
    | some j =>
      obtain ⟨i, -, hi⟩ := h j rfl
      cases hi
  | some i =>
    obtain ⟨j, hji, rfl⟩ := h' i rfl
    obtain ⟨i', hij, hi'⟩ := h j rfl
    obtain rfl := Option.some.inj hi'
    exact congrArg some (Nat.le_antisymm hij hji)

/-- The comparison by which wallets are sorted is that of their places. -/
theorem notAfter_iff (ids : List String) (a b : Wallet) :
    notAfter ids a b = true ↔ NoLater (place ids a) (place ids b) := by
  unfold notAfter NoLater place
  cases lastPlace a.id 0 ids <;> cases lastPlace b.id 0 ids <;> simp

theorem notAfter_trans (ids : List String) (a b c : Wallet) (hab : notAfter ids a b = true)
    (hbc : notAfter ids b c = true) : notAfter ids a c = true := by
  rw [notAfter_iff] at hab hbc ⊢
  intro k hk
  obtain ⟨j, hjk, hj⟩ := hbc k hk
  obtain ⟨i, hij, hi⟩ := hab j hj
  exact ⟨i, Nat.le_trans hij hjk, hi⟩

theorem notAfter_total (ids : List String) (a b : Wallet) : (notAfter ids a b || notAfter ids b a) = true := by
  unfold notAfter
  cases lastPlace a.id 0 ids <;> cases lastPlace b.id 0 ids <;> simp [Nat.le_total]

/-! ### What it is to be in order -/

/-- The list `shown` has the wallets of `ws` in the order of the ids: it has no others and none less; whoever
stands before a listed wallet is listed himself, at no later place; and wallets of one place stand as they do in
`ws`, and so do those that are not listed. -/
structure Displays (ids : List String) (ws shown : List Wallet) : Prop where
  perm : shown.Perm ws
  ordered : shown.Pairwise fun a b => ∀ j, lastAt ids j b = true → ∃ i ≤ j, lastAt ids i a = true
  kept (i : Nat) : shown.filter (lastAt ids i) = ws.filter (lastAt ids i)
  rest : (shown.filter fun w => !isListed ids w) = ws.filter fun w => !isListed ids w

/-- Lists that are in order by one key are equal if for each value of the key they have the same elements in the
same order. -/
theorem eq_of_classes {α β : Type} [DecidableEq β] {key : α → β} {le : β → β → Prop}
    (antisymm : ∀ x y, le x y → le y x → x = y) {as bs : List α} (ha : as.Pairwise fun a b => le (key a) (key b))
    (hb : bs.Pairwise fun a b => le (key a) (key b))
    (same : ∀ x, (as.filter fun a => key a = x) = bs.filter fun a => key a = x) : as = bs := by
  have hmem (cs ds : List α) (same : ∀ x, (cs.filter fun a => key a = x) = ds.filter fun a => key a = x) :
      ∀ c ∈ cs, c ∈ ds := by
    intro c hc
    have hfilter : c ∈ cs.filter fun a => key a = key c := List.mem_filter.mpr ⟨hc, by simp⟩
    rw [same] at hfilter
    exact List.mem_of_mem_filter hfilter
  induction as generalizing bs with
  | nil => cases bs with
    | nil => rfl
    | cons b bs => exact nomatch hmem _ _ (fun x => (same x).symm) b List.mem_cons_self
  | cons a as ih => cases bs with
    | nil => exact nomatch hmem _ _ same a List.mem_cons_self
    | cons b bs =>
      rw [List.pairwise_cons] at ha hb
      have hkey : key a = key b := by
        rcases List.mem_cons.mp (hmem _ _ same a List.mem_cons_self) with rfl | hab
        · rfl
        · rcases List.mem_cons.mp (hmem _ _ (fun x => (same x).symm) b List.mem_cons_self) with rfl | hba
          · rfl
          · exact antisymm _ _ (ha.1 b hba) (hb.1 a hab)
      have hheads := same (key a)
      rw [List.filter_cons_of_pos (by simp), List.filter_cons_of_pos (by simp [hkey])] at hheads
      obtain rfl := (List.cons.inj hheads).1
      refine congrArg (a :: ·) (ih ha.2 hb.2 fun x => ?_)
      have hrest := same x
      by_cases hx : key a = x
      · rw [List.filter_cons_of_pos (by simpa using hx), List.filter_cons_of_pos (by simpa using hx)] at hrest
        exact (List.cons.inj hrest).2
      · rwa [List.filter_cons_of_neg (by simpa using hx), List.filter_cons_of_neg (by simpa using hx)] at hrest

namespace Displays

theorem ordered_place (h : Displays ids ws shown) :
    shown.Pairwise fun a b => NoLater (place ids a) (place ids b) := by
  refine h.ordered.imp ?_
  intro a b hab j hj
  obtain ⟨i, hij, hi⟩ := hab j ((place_eq_some_iff ids b j).mp hj)
  exact ⟨i, hij, (place_eq_some_iff ids a i).mpr hi⟩

theorem filter_place (h : Displays ids ws shown) (p : Option Nat) :
    (shown.filter fun w => place ids w = p) = ws.filter fun w => place ids w = p := by
  cases p with
  | none =>
    have hunlisted : (fun w => decide (place ids w = none)) = fun w => !isListed ids w := by
      funext w
      rw [Bool.eq_iff_iff, decide_eq_true_iff, place_eq_none_iff, Bool.not_eq_true']
    rw [hunlisted]
    exact h.rest
  | some i =>
    have hlast : (fun w => decide (place ids w = some i)) = lastAt ids i := by
      funext w
      rw [Bool.eq_iff_iff, decide_eq_true_iff, place_eq_some_iff]
    rw [hlast]
    exact h.kept i

/-- **There is one list in order.** -/
theorem unique (h : Displays ids ws shown) (h' : Displays ids ws shown') : shown = shown' := by
  refine eq_of_classes (fun _ _ => NoLater.antisymm) h.ordered_place h'.ordered_place fun p => ?_
  rw [h.filter_place, h'.filter_place]

/-- What is in order stays so when the wallets that are not listed are left out. -/
theorem keepListed (h : Displays ids ws shown) :
    Displays ids (keepListed ws ids) (Wallet.keepListed shown ids) where
  perm := h.perm.filter _
  ordered := h.ordered.filter _
  kept i := by
    rw [Wallet.keepListed, Wallet.keepListed, List.filter_comm, List.filter_comm (l := ws), h.kept]
  rest := by
    rw [Wallet.keepListed, Wallet.keepListed, List.filter_comm, List.filter_comm (l := ws), h.rest]

/-- What is in order without the wallets that are not listed is in order with them at the end. -/
theorem append_rest (h : Displays ids (Wallet.keepListed ws ids) shown) :
    Displays ids ws (shown ++ ws.filter fun w => !isListed ids w) where
  perm := (h.perm.append_right _).trans (List.filter_append_perm (isListed ids) ws)
  ordered := by
    have hlast (a b : Wallet) (hb : b ∈ ws.filter fun w => !isListed ids w) (j : Nat)
        (hj : lastAt ids j b = true) : ∃ i ≤ j, lastAt ids i a = true := by
      have hunlisted := (List.mem_filter.mp hb).2
      rw [(isListed_iff ids b).mpr ⟨j, hj⟩] at hunlisted
      cases hunlisted
    refine List.pairwise_append.mpr ⟨h.ordered, ?_, fun a _ b hb => hlast a b hb⟩
    exact List.pairwise_of_forall_mem_list fun a _ b hb => hlast a b hb
  kept i := by
    rw [List.filter_append, h.kept, Wallet.keepListed, List.filter_filter, List.filter_filter]
    have hlisted : (fun w => lastAt ids i w && isListed ids w) = lastAt ids i := by
      funext w
      cases hw : lastAt ids i w with
      | false => rfl
      | true => rw [(isListed_iff ids w).mpr ⟨i, hw⟩, Bool.and_self]
    have hunlisted : (fun w => lastAt ids i w && !isListed ids w) = fun _ => false := by
      funext w
      cases hw : lastAt ids i w with
      | false => rfl
      | true => rw [(isListed_iff ids w).mpr ⟨i, hw⟩, Bool.not_true, Bool.and_false]
    rw [hunlisted, List.filter_false, List.append_nil]
    exact congrArg (ws.filter ·) hlisted
  rest := by
    have hnone : (Wallet.keepListed ws ids).filter (fun w => !isListed ids w) = [] :=
      List.filter_eq_nil_iff.mpr fun w hw => by
        have hlisted : isListed ids w = true := (List.mem_filter.mp hw).2
        rw [hlisted]
        exact Bool.false_ne_true
    rw [List.filter_append, h.rest, hnone, List.nil_append, List.filter_filter]
    simp only [Bool.and_self]

end Displays

/-! ### Sorting -/

/-- Sorting leaves elements that are tied in the order in which they stand. -/
theorem filter_mergeSort_of_tied {α : Type} {le : α → α → Bool}
    (trans : ∀ a b c, le a b = true → le b c = true → le a c = true)
    (total : ∀ a b, (le a b || le b a) = true) {p : α → Bool}
    (tied : ∀ a b, p a = true → p b = true → le a b = true) (as : List α) :
    (as.mergeSort le).filter p = as.filter p := by
  have hsorted : (as.filter p).Pairwise fun a b => le a b = true :=
    List.pairwise_iff_forall_sublist.mpr fun hab =>
      tied _ _ (List.mem_filter.mp (hab.subset List.mem_cons_self)).2
        (List.mem_filter.mp (hab.subset (List.mem_cons_of_mem _ List.mem_cons_self))).2
  have hkept : ((as.filter p).filter p).Sublist ((as.mergeSort le).filter p) :=
    (List.sublist_mergeSort trans total hsorted List.filter_sublist).filter p
  rw [List.filter_filter] at hkept
  simp only [Bool.and_self] at hkept
  exact (hkept.eq_of_length ((List.mergeSort_perm as le).filter p).length_eq.symm).symm

/-- **The wallets come in listed order.** -/
theorem displays_inListedOrder (ws : List Wallet) (ids : List String) :
    Displays ids ws (inListedOrder ws ids) where
  perm := List.mergeSort_perm ws _
  ordered := by
    refine (List.pairwise_mergeSort (notAfter_trans ids) (notAfter_total ids) ws).imp ?_
    intro a b hab j hj
    obtain ⟨i, hij, hi⟩ := (notAfter_iff ids a b).mp hab j ((place_eq_some_iff ids b j).mpr hj)
    exact ⟨i, hij, (place_eq_some_iff ids a i).mp hi⟩
  kept i := by
    refine filter_mergeSort_of_tied (notAfter_trans ids) (notAfter_total ids) ?_ ws
    intro a b ha hb
    rw [notAfter_iff, (place_eq_some_iff ids a i).mpr ha, (place_eq_some_iff ids b i).mpr hb]
    exact fun j hj => ⟨i, Nat.le_of_eq (Option.some.inj hj), rfl⟩
  rest := by
    refine filter_mergeSort_of_tied (notAfter_trans ids) (notAfter_total ids) ?_ ws
    intro a b ha hb
    rw [Bool.not_eq_true', ← place_eq_none_iff] at ha hb
    rw [notAfter_iff, ha, hb]
    exact nofun

/-- **The listed order is a stable sort by the last place of an id.** The wallets come in the order of the ids;
once in this order they stay in it; the listed ones come first, just as they come when the others were left out,
and leaving these out afterwards is the same as before. -/
theorem listed_order_is_stable (ws : List Wallet) (ids : List String) :
    Displays ids ws (inListedOrder ws ids) ∧
      inListedOrder (inListedOrder ws ids) ids = inListedOrder ws ids ∧
      inListedOrder ws ids = inListedOrder (keepListed ws ids) ids ++ ws.filter (fun w => !isListed ids w) ∧
      keepListed (inListedOrder ws ids) ids = inListedOrder (keepListed ws ids) ids := by
  have hshown := displays_inListedOrder ws ids
  have hlisted := displays_inListedOrder (keepListed ws ids) ids
  refine ⟨hshown, ?_, ?_, ?_⟩
  · have hagain := displays_inListedOrder (inListedOrder ws ids) ids
    exact hagain.unique ⟨.refl _, hshown.ordered, fun _ => rfl, rfl⟩
  · exact hshown.unique hlisted.append_rest
  · exact hshown.keepListed.unique hlisted

end WalletHub.Wallet
