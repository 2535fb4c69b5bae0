import Mathlib.Data.List.Induction
import WalletHub.Provider

/-!
# The enabled ids as an ordered set

The list of enabled ids is a set up to letter case. What each change makes of it is listed in `Provider.Changed`,
without any comparison in a certain order: a list that is set as a whole keeps the ids that stand at their first
place (`Provider.firsts`), an id that is enabled comes last unless it is there, and one that is disabled is taken
out of its place. So no id is ever there twice (`Apart.changes`), and whether an id is there is decided by the
last change that was about it (`lists_changes_iff`).

A change that leaves the list alone also leaves the cell alone in which those who watch the list read it
(`change_of_idle`), and every other one writes it.

## What is proved

* `keepFirst_eq_firsts`: the ids that a new list keeps, found without comparing in a certain order.
* `lists_append`, `lists_congr`, `Apart.concat`, `apart_keepFirstFrom`: what is on a list, in any spelling.
* `changed_change`: what a change makes of the list, and `version_change`, that those who watch it are told.
* `change_of_idle`: a change by which nothing happens leaves the provider as it is.
* `Apart.change`, `Apart.changes`: no id is ever on the list twice.
* `lists_change`, `lists_changes`, `lists_changes_iff`: whether an id is on it, after one change and after any
  number.
-/

namespace WalletHub.Provider

/-! ### Ids on a list -/

/-- No id is on the list twice, in whatever spellings. -/
def Apart (ids : List String) : Prop := ids.Pairwise fun a b => Text.sameLetters a b = false

/-- The ids of a list that stand at their first place, as they are spelled there. -/
def firsts (ids : List String) : List String :=
  (ids.zipIdx.filter fun e => !lists (ids.take e.2) e.1).map Prod.fst

theorem sameLetters_comm (a b : String) : Text.sameLetters a b = Text.sameLetters b a := by
  rw [Bool.eq_iff_iff, Text.sameLetters_iff_fold_eq, Text.sameLetters_iff_fold_eq, eq_comm]

/-- Ids that differ in letter case only are compared alike. -/
theorem sameLetters_congr {a b : String} (h : Text.sameLetters a b = true) (other : String) :
    Text.sameLetters other a = Text.sameLetters other b := by
  rw [Text.sameLetters_iff_fold_eq] at h
  rw [Bool.eq_iff_iff, Text.sameLetters_iff_fold_eq, Text.sameLetters_iff_fold_eq, h]

theorem lists_congr {a b : String} (h : Text.sameLetters a b = true) (ids : List String) :
    lists ids a = lists ids b := by
  simp only [lists, sameLetters_congr h]

theorem lists_append (as bs : List String) (id : String) : lists (as ++ bs) id = (lists as id || lists bs id) :=
  List.any_append

theorem lists_cons (other : String) (ids : List String) (id : String) :
    lists (other :: ids) id = (Text.sameLetters other id || lists ids id) := rfl

theorem lists_singleton (other id : String) : lists [other] id = Text.sameLetters other id := Bool.or_false _

theorem lists_eq_false_iff (ids : List String) (id : String) :
    lists ids id = false ↔ ∀ other ∈ ids, Text.sameLetters other id = false := by
  rw [lists, List.any_eq_false]
  simp only [Bool.not_eq_true]

/-- An id that is not on the list can be put at its end. -/
theorem Apart.concat {ids : List String} (apart : Apart ids) {id : String} (absent : lists ids id = false) :
    Apart (ids ++ [id]) := by
  rw [Apart, List.pairwise_append]
  refine ⟨apart, List.pairwise_singleton _ _, fun other hother new hnew => ?_⟩
  rw [List.mem_singleton.mp hnew]
  exact (lists_eq_false_iff ids id).mp absent other hother

/-! ### Lists that are set -/

/-- What is added to `kept` are the ids of the list that stand at their first place, also among those that were
kept. -/
theorem keepFirstFrom_eq (kept ids : List String) :
    keepFirstFrom kept ids =
      kept ++ (ids.zipIdx.filter fun e => !lists (kept ++ ids.take e.2) e.1).map Prod.fst := by
  induction ids generalizing kept with
  | nil => exact (List.append_nil kept).symm
  | cons id ids ih =>
    have hrest (kept' : List String) (same : ∀ earlier other,
        lists (kept ++ id :: earlier) other = lists (kept' ++ earlier) other) :
        (((id :: ids).zipIdx.tail).filter fun e => !lists (kept ++ (id :: ids).take e.2) e.1).map Prod.fst =
          (ids.zipIdx.filter fun e => !lists (kept' ++ ids.take e.2) e.1).map Prod.fst := by
      rw [List.zipIdx_cons, List.tail_cons, List.zipIdx_succ, List.filter_map, List.map_map]
      simp only [Function.comp_def, List.take_succ_cons, same]
    rw [keepFirstFrom, ih, List.zipIdx_cons, List.filter_cons]
    simp only [List.take_zero, List.append_nil]
    cases hid : lists kept id with
    | true =>
      rw [if_pos rfl, Bool.not_true, if_neg Bool.false_ne_true]
      rw [← hrest kept]
      · rfl
      · intro earlier other
        rw [lists_append, lists_append, lists_cons]
        cases hsame : Text.sameLetters id other with
        | false => rw [Bool.false_or]
        | true => rw [← lists_congr hsame, hid, Bool.true_or, Bool.true_or]
    | false =>
      rw [if_neg Bool.false_ne_true, Bool.not_false, if_pos rfl, List.map_cons, List.append_assoc]
      rw [← hrest (kept ++ [id])]
      · rfl
      · intro earlier other
        rw [List.append_assoc, List.singleton_append]

theorem keepFirst_eq_firsts (ids : List String) : keepFirst ids = firsts ids := keepFirstFrom_eq [] ids

theorem apart_keepFirstFrom {kept : List String} (apart : Apart kept) (ids : List String) :
    Apart (keepFirstFrom kept ids) := by
  induction ids generalizing kept with
  | nil => exact apart
  | cons id ids ih =>
    rw [keepFirstFrom]
    apply ih
    cases hid : lists kept id with
    | true => exact apart
    | false => exact apart.concat hid

theorem lists_keepFirstFrom (kept ids : List String) (id : String) :
    lists (keepFirstFrom kept ids) id = (lists kept id || lists ids id) := by
  induction ids generalizing kept with
  | nil => exact (Bool.or_false _).symm
  | cons other ids ih =>
    rw [keepFirstFrom, ih, lists_cons, ← Bool.or_assoc]
    congr 1
    cases hother : lists kept other with
    | false => rw [if_neg Bool.false_ne_true, lists_append, lists_singleton]
    | true =>
      rw [if_pos rfl]
      cases hsame : Text.sameLetters other id with
      | false => rw [Bool.or_false]
      | true => rw [← lists_congr hsame, hother, Bool.or_true]

/-! ### Changes -/

/-- What the user does to the enabled ids. -/
inductive Change where
  | set (ids : List String)
  | enable (id : String)
  | disable (id : String)

/-- The provider after a change. -/
def change (p : Provider) : Change → Provider
  | .set ids => p.set ids
  | .enable id => p.enable id
  | .disable id => p.disable id

/-- The provider after some changes. -/
def changes (p : Provider) (cs : List Change) : Provider := cs.foldl change p

/-- Whether the change leaves an id on the list. If it is not about the id it says nothing. A list that is set
says something about every id. -/
def Change.leaves (id : String) : Change → Option Bool
  | .set ids => some (lists ids id)
  | .enable other => if Text.sameLetters other id then some true else none
  | .disable other => if Text.sameLetters other id then some false else none

/-- The change enables what is enabled, or disables what is not. -/
def Change.idle (ids : List String) : Change → Bool
  | .set _ => false
  | .enable id => lists ids id
  | .disable id => !lists ids id

/-- What a change makes of a list of ids. -/
inductive Changed : Change → List String → List String → Prop where
  | set (ids new : List String) : Changed (.set new) ids (firsts new)
  | enabled (ids : List String) (id : String) (absent : ∀ other ∈ ids, Text.sameLetters other id = false) :
      Changed (.enable id) ids (ids ++ [id])
  | disabled (id other : String) (before after : List String) (same : Text.sameLetters other id = true)
      (sole : ∀ x ∈ before ++ after, Text.sameLetters x id = false) :
      Changed (.disable id) (before ++ other :: after) (before ++ after)
  | idle (c : Change) (ids : List String) (idle : c.idle ids = true) : Changed c ids ids

variable {p : Provider} {c : Change}

/-- **Nobody who watches the ids is told of a change that changes nothing.** -/
theorem change_of_idle (idle : c.idle p.ids = true) : p.change c = p := by
  cases c with
  | set ids => cases idle
  | enable id => exact if_pos idle
  | disable id =>
    rw [Change.idle, Bool.not_eq_true'] at idle
    rw [change, disable, idle, if_neg Bool.false_ne_true]

/-- Every other change is told. -/
theorem version_change (told : c.idle p.ids = false) : (p.change c).enabled.version = p.enabled.version + 1 := by
  cases c with
  | set ids => rfl
  | enable id =>
    rw [Change.idle] at told
    rw [change, enable, told, if_neg Bool.false_ne_true, Watch.publish]
  | disable id =>
    rw [Change.idle, Bool.not_eq_false'] at told
    rw [change, disable, told, if_pos rfl, Watch.publish]

/-- **What a change makes of the list.** -/
theorem changed_change (apart : Apart p.ids) (c : Change) : Changed c p.ids (p.change c).ids := by
  cases hidle : c.idle p.ids with
  | true =>
    rw [change_of_idle hidle]
    exact .idle c p.ids hidle
  | false =>
    cases c with
    | set ids =>
      rw [change, set, Provider.ids, Watch.publish, keepFirst_eq_firsts]
      exact .set _ ids
    | enable id =>
      rw [Change.idle] at hidle
      rw [change, enable, hidle, if_neg Bool.false_ne_true]
      exact .enabled _ id ((lists_eq_false_iff _ _).mp hidle)
    | disable id =>
      rw [Change.idle, Bool.not_eq_false'] at hidle
      rw [change, disable, hidle, if_pos rfl]
      obtain ⟨other, hother, hsame⟩ := List.any_eq_true.mp hidle
      obtain ⟨before, after, hsplit⟩ := List.append_of_mem hother
      have hsole : ∀ x ∈ before ++ after, Text.sameLetters x id = false := by
        have happart := apart
        rw [hsplit, Apart, List.pairwise_append, List.pairwise_cons] at happart
        obtain ⟨-, ⟨hafter, -⟩, hbefore⟩ := happart
        intro x hx
        rw [← sameLetters_congr hsame]
        rcases List.mem_append.mp hx with hx | hx
        · exact hbefore x hx other List.mem_cons_self
        · rw [sameLetters_comm]
          exact hafter x hx
      have hkept : p.ids.filter (fun other => !Text.sameLetters other id) = before ++ after := by
        rw [hsplit, List.filter_append, List.filter_cons, hsame, Bool.not_true, if_neg Bool.false_ne_true,
          ← List.filter_append, List.filter_eq_self]
        intro x hx
        rw [hsole x hx, Bool.not_false]
      rw [hkept, hsplit]
      exact .disabled id other before after hsame hsole

/-- No change puts an id on the list twice. -/
theorem Apart.change (apart : Apart p.ids) (c : Change) : Apart (p.change c).ids := by
  have hchanged := changed_change apart c
  generalize hids : p.ids = ids at apart hchanged
  generalize (p.change c).ids = ids' at hchanged ⊢
  cases hchanged with
  | set _ new =>
    rw [← keepFirst_eq_firsts]
    exact apart_keepFirstFrom .nil new
  | enabled _ id absent => exact apart.concat ((lists_eq_false_iff _ _).mpr absent)
  | disabled id other before after =>
    exact apart.sublist ((List.sublist_cons_self other after).append_left before)
  | idle => exact apart

/-- A change decides of the ids that it is about, and of no others. -/
theorem lists_change (apart : Apart p.ids) (c : Change) (id : String) :
    lists (p.change c).ids id = (c.leaves id).getD (lists p.ids id) := by
  have hchanged := changed_change apart c
  generalize hids : p.ids = ids at hchanged
  generalize (p.change c).ids = ids' at hchanged
  cases hchanged with
  | set _ new =>
    rw [← keepFirst_eq_firsts, keepFirst, lists_keepFirstFrom]
    rfl
  | enabled _ new absent =>
    rw [lists_append, lists_singleton, Change.leaves]
    cases hsame : Text.sameLetters new id with
    | false => exact Bool.or_false _
    | true => exact Bool.or_true _
  | disabled gone other before after same sole =>
    have hother : Text.sameLetters other id = Text.sameLetters gone id := by
      rw [sameLetters_comm, sameLetters_congr same, sameLetters_comm]
    rw [Change.leaves, lists_append, lists_append, lists_cons, hother]
    cases hsame : Text.sameLetters gone id with
    | false => rw [Bool.false_or]; rfl
    | true =>
      rw [← lists_append, ← lists_congr hsame]
      exact (lists_eq_false_iff _ _).mpr sole
  | idle c _ idle =>
    cases c with
    | set => cases idle
    | enable other =>
      rw [Change.leaves]
      cases hsame : Text.sameLetters other id with
      | false => rfl
      | true => exact (lists_congr hsame ids).symm.trans idle
    | disable other =>
      rw [Change.idle, Bool.not_eq_true'] at idle
      rw [Change.leaves]
      cases hsame : Text.sameLetters other id with
      | false => rfl
      | true => exact (lists_congr hsame ids).symm.trans idle

/-! ### Any number of changes -/

theorem apart_start (ids : List String) : Apart (start ids).ids := apart_keepFirstFrom .nil ids

/-- **No id is ever on the list twice.** -/
theorem Apart.changes (apart : Apart p.ids) (cs : List Change) : Apart (p.changes cs).ids := by
  induction cs generalizing p with
  | nil => exact apart
  | cons c cs ih => exact ih (apart.change c)

/-- What was said of an id last decides whether it is on the list. -/
theorem lists_changes (apart : Apart p.ids) (cs : List Change) (id : String) :
    lists (p.changes cs).ids id = ((cs.filterMap (Change.leaves id)).getLast?).getD (lists p.ids id) := by
  induction cs using List.reverseRecOn with
  | nil => rfl
  | append_singleton cs c ih =>
    rw [changes, List.foldl_append, ← changes, List.filterMap_append, List.getLast?_append]
    refine (lists_change (apart.changes cs) c id).trans ?_
    rw [ih, List.filterMap_cons, List.filterMap_nil]
    cases c.leaves id <;> rfl

/-- **An id is on the list exactly if the last change that was about it has left it there.** -/
theorem lists_changes_iff (ids : List String) (cs : List Change) (id : String) :
    lists ((start ids).changes cs).ids id = true ↔
      ((Change.set ids :: cs).filterMap (Change.leaves id)).getLast? = some true := by
  have hstart : lists (start ids).ids id = lists ids id := lists_keepFirstFrom [] ids id
  rw [lists_changes (apart_start ids), hstart, List.filterMap_cons, Change.leaves, List.getLast?_cons,
    Option.some_inj]

end WalletHub.Provider
