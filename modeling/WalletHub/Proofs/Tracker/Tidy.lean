import WalletHub.Proofs.Tracker.Exact
import WalletHub.Proofs.Tracker.Monitor

/-!
# Tidy ids

The ids that a tracker keeps are folded and in increasing order (`Tracker.tidy_foldl_learn`), and an id is among
them just when the last callback that said anything of its currency said that there is a manager for it
(`Tracker.mem_foldl_learn`). The ids that a monitor gives are chosen from those that it has read, and so they
are tidy too, and never those that it gave before (`Monitor.gives_poll`).

## What is proved

* `Text.fold_fold`: a folded text stays as it is when it is folded again.
* `Callback.fold_of_managed?`: a callback speaks of folded ids only.
* `Tracker.mem_foldl_learn`, `Tracker.tidy_foldl_learn`: the ids after any number of callbacks.
* `Tracker.Tidy.tracked`: what is chosen of tidy ids is tidy.
* `Monitor.Holds.looked`, `Monitor.gives_pollFor`, `Monitor.gives_poll`: a monitor that has read tidy ids gives
  tidy ids, and not those that it gave last, however many looks a poll takes.
* `Monitor.item_of_silent`: one that has given nothing yet gives something.
-/

namespace WalletHub

/-! ### Folded texts -/

namespace Text

theorem toLower_of_not_upper {c : Char} (h : ¬(65 ≤ c.val.toNat ∧ c.val.toNat ≤ 90)) : c.toLower = c := by
  unfold Char.toLower
  exact dif_neg h

theorem toLower_toLower (c : Char) : c.toLower.toLower = c.toLower := by
  by_cases hupper : 65 ≤ c.val.toNat ∧ c.val.toNat ≤ 90
  · apply toLower_of_not_upper
    have hval : c.toLower.val = c.val + 32 := by
      unfold Char.toLower
      rw [dif_pos (show c.val ≥ 'A'.val ∧ c.val ≤ 'Z'.val from hupper)]
      rfl
    have hsum : (c.val + 32).toNat = c.val.toNat + 32 := by
      rw [UInt32.toNat_add]
      exact Nat.mod_eq_of_lt (Nat.lt_of_le_of_lt (Nat.add_le_add_right hupper.2 32) (by decide))
    rw [hval, hsum]
    omega
  · rw [toLower_of_not_upper hupper, toLower_of_not_upper hupper]

/-- A folded text has no capital letters. -/
theorem fold_fold (s : String) : fold (fold s) = fold s := by
  rw [← String.toList_inj, toList_fold, toList_fold, List.map_map]
  exact List.map_congr_left fun c _ => toLower_toLower c

end Text

/-- What is said of an id is said of a folded one. -/
theorem Callback.fold_of_managed? {id : String} {c : Callback} {b : Bool} (h : c.managed? id = some b) :
    Text.fold id = id := by
  have hown {other : String} {said : Bool} (hsaid : (if Text.fold other = id then some said else none) = some b) :
      Text.fold id = id := by
    split at hsaid
    · next hid => rw [← hid, Text.fold_fold]
    · cases hsaid
  cases c with
  | system event =>
    cases event with
    | managerAdded m => exact hown h
    | _ => cases h
  | manager m event => cases event <;> exact hown h
  | network | wallet | transfer => cases h

/-! ### The tracker -/

namespace Tracker

/-- The ids are folded and in increasing order. -/
structure Tidy (ids : List String) : Prop where
  ordered : ids.Pairwise (· < ·)
  folded : ∀ id ∈ ids, Text.fold id = id

theorem Tidy.tracked {managed : List String} (h : Tidy managed) (enabled : List String) :
    Tidy (Tracker.tracked managed enabled) :=
  ⟨h.ordered.sublist List.filter_sublist, fun id hid => h.folded id (List.mem_filter.mp hid).1⟩

/-- **The last word about a currency decides** whether it has a manager. -/
theorem mem_foldl_learn (id : String) (cs : List Callback) (t : Tracker) :
    (cs.foldl (fun t c => t.learn c) t).ids.contains id =
      (cs.filterMap (Callback.managed? id)).getLast?.getD (t.ids.contains id) := by
  induction cs generalizing t with
  | nil => rfl
  | cons c cs ih =>
    rw [List.foldl_cons, ih, contains_learn]
    cases hsaid : c.managed? id with
    | none => rw [List.filterMap_cons_none hsaid, Option.getD_none]
    | some b =>
      rw [List.filterMap_cons_some hsaid, List.getLast?_cons, Option.getD_some, Option.getD_some]

/-- **However many callbacks a tracker learns its ids are tidy.** -/
theorem tidy_foldl_learn (cs : List Callback) : Tidy (cs.foldl (fun t c => t.learn c) Tracker.start).ids := by
  refine ⟨Ordered.foldl_learn cs .nil, fun id hid => ?_⟩
  have hlast := mem_foldl_learn id cs .start
  rw [List.contains_iff_mem.mpr hid] at hlast
  cases hsaid : (cs.filterMap (Callback.managed? id)).getLast? with
  | none =>
    rw [hsaid] at hlast
    cases hlast
  | some b =>
    obtain ⟨c, -, hc⟩ := List.mem_filterMap.mp (List.mem_of_getLast? hsaid)
    exact Callback.fold_of_managed? hc

/-- What is learned is written later. -/
theorem newer_foldl_learn (cs : List Callback) (t : Tracker) :
    t.managed.Newer (cs.foldl (fun t c => t.learn c) t).managed := by
  induction cs generalizing t with
  | nil => exact Or.inl rfl
  | cons c cs ih =>
    rcases ih (t.learn c) with hsame | hlater
    · rw [List.foldl_cons, hsame]
      exact t.newer_learn c
    · rcases t.newer_learn c with hsame | hlearned
      · exact Or.inr (hsame ▸ hlater)
      · exact Or.inr (Nat.lt_trans hlearned hlater)

end Tracker

/-! ### Monitors -/

namespace Monitor

open Tracker (Tidy)

variable {p : Provider} {t : Tracker} {m : Monitor}

/-- The managed ids that were read are tidy. -/
def Holds (m : Monitor) : Prop := ∀ ids, m.managed = some ids → Tidy ids

theorem Holds.tracked {ids : List String} (h : m.Holds) (tracked : m.tracked = some ids) : Tidy ids := by
  unfold Monitor.tracked at tracked
  split at tracked
  · next enabled managed _ hmanaged =>
    obtain rfl := Option.some.inj tracked
    exact (h managed hmanaged).tracked enabled
  · cases tracked

/-- What a monitor gives: tidy ids that it did not give last, or nothing. -/
inductive Gives (m : Monitor) : Poll (List String) × Monitor → Prop where
  | item {ids : List String} {m' : Monitor} (holds : m'.Holds) (tidy : Tidy ids) (other : m.last ≠ some ids)
      (given : m'.last = some ids) : Gives m (.item ids, m')
  | pending {m' : Monitor} (holds : m'.Holds) (same : m'.last = m.last) : Gives m (.pending, m')

/-- A list that is read is tidy if the tracker is. -/
theorem Holds.looked {read turned : Monitor} (h : m.Holds) (tidy : Tidy t.ids)
    (looked : Looked p t m (some read, turned)) : read.Holds ∧ read.last = m.last := by
  cases looked with
  | enabled turn _ new => exact ⟨h, rfl⟩
  | managed turn _ new =>
    refine ⟨fun ids hids => ?_, rfl⟩
    obtain rfl := Option.some.inj hids
    exact tidy

theorem gives_pollFor (looks : Nat) (h : m.Holds) (tidy : Tidy t.ids) : m.Gives (m.pollFor p t looks) := by
  induction looks generalizing m with
  | zero => exact .pending h rfl
  | succ looks ih =>
    have hlooked := looked_look p t m
    rw [pollFor]
    generalize m.look p t = result at hlooked
    obtain ⟨found, turned⟩ := result
    cases found with
    | none =>
      cases hlooked with
      | nothing turn upToDate => exact .pending h rfl
    | some read =>
      obtain ⟨hholds, hlast⟩ := h.looked tidy hlooked
      simp only
      split
      · next ids given hchange =>
        unfold change at hchange
        split at hchange
        · next current htracked =>
          split at hchange
          · cases hchange
          · next hnew =>
            obtain ⟨rfl, rfl⟩ := Prod.mk.inj (Option.some.inj hchange)
            exact .item hholds (hholds.tracked htracked) (hlast ▸ hnew) rfl
        · cases hchange
      · have hrest := ih hholds
        generalize read.pollFor p t looks = result at hrest
        cases hrest with
        | item holds tidy other given => exact .item holds tidy (hlast ▸ other) given
        | pending holds same => exact .pending holds (same.trans hlast)

/-- **A poll gives tidy ids that are not those given last**, or nothing. -/
theorem gives_poll (p : Provider) (h : m.Holds) (tidy : Tidy t.ids) : m.Gives (m.poll p t) :=
  gives_pollFor 3 h tidy

/-- **A monitor that has given nothing yet gives something** when it is asked. -/
theorem item_of_silent (h : m.Sound p t) (silent : m.last = none) : ∃ ids m', m.poll p t = (.item ids, m') := by
  have hpolled := polled_poll h
  generalize m.poll p t = result at hpolled
  cases hpolled with
  | @item m' ids => exact ⟨ids, m', rfl⟩
  | pending sound upToDate same =>
    have hlast := last_of_upToDate sound upToDate
    rw [same, silent] at hlast
    cases hlast

end Monitor

end WalletHub
