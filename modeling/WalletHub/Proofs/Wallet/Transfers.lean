import WalletHub.Proofs.Memory.Arrivals
import WalletHub.Proofs.Memory.Locality

/-!
# The transfers of a wallet as a map

A wallet has its transfers in a list, and looks there for a hash in three ways: the first transfer of the hash is
replaced, the first is taken out, and the only one is shown. What the list stands for is a `TransferMap`, a map
from hashes to transfers that remembers in which order its hashes were entered and that searches nothing.

As long as no two transfers have a hash, the wallet cannot be told from the map by anything that is asked of
them, and its list is that of the map (`Shows`, `Shows.serves_alike`). Where a list has several transfers of a
hash the three ways differ. What each of them does to any list is said by `MemorySystem.Entered`, `TakenOut` and
`Wallet.transfer?_eq_none_iff`.

## What is proved

* `TransferMap.order_insert`, `TransferMap.order_erase`: in what order the hashes of a map stand.
* `Wallet.entered_upsert`, `Wallet.removed_remove`, `Wallet.transfer?_eq_some_iff_filter`,
  `Wallet.transfer?_eq_none_iff`: what entering, taking out and showing come to on any list, with several
  transfers of a hash or without.
* `Shows.insert`, `Shows.erase`, `Shows.transfer?_eq`, `Shows.ofList`: list and map stay together.
* `Shows.answers_alike`, `Shows.serves_alike`: one request is answered alike by both, and so is any number of
  them.
* `Wallet.transfers_are_ordered_map`: of a wallet with distinct hashes, and of any other as far as the three ways
  agree.
* `Wallet.reentered_comes_last`: a transfer that is replaced keeps its place, and one that is entered again comes
  last.
-/

namespace WalletHub

open MemorySystem

/-! ### The map -/

/-- A map from hashes to transfers that remembers the order in which its hashes were entered. -/
structure TransferMap where
  /-- The hashes that have a transfer, in the order in which they were entered. -/
  order : List String
  /-- The transfer of a hash. -/
  find? : String → Option Transfer
  nodup : order.Nodup
  mem_order (hash : String) : hash ∈ order ↔ (find? hash).isSome = true

namespace TransferMap

/-- No hash has a transfer. -/
def empty : TransferMap := ⟨[], fun _ => none, .nil, fun _ => ⟨nofun, nofun⟩⟩

/-- Gives a transfer to its hash. A hash that had none comes last. -/
def insert (t : Transfer) (m : TransferMap) : TransferMap where
  order := if t.hash ∈ m.order then m.order else m.order ++ [t.hash]
  find? hash := if hash = t.hash then some t else m.find? hash
  nodup := by
    split
    · exact m.nodup
    · next hnew =>
      refine List.nodup_append.mpr ⟨m.nodup, List.nodup_singleton _, fun hash hhash other hother => ?_⟩
      rw [List.mem_singleton.mp hother]
      rintro rfl
      exact hnew hhash
  mem_order hash := by
    by_cases hsame : hash = t.hash
    · subst hsame
      by_cases hold : t.hash ∈ m.order <;> simp [hold]
    · by_cases hold : t.hash ∈ m.order <;> simp [hold, hsame, m.mem_order]

/-- Takes the transfer of a hash away. -/
def erase (hash : String) (m : TransferMap) : TransferMap where
  order := m.order.filter fun other => other != hash
  find? other := if other = hash then none else m.find? other
  nodup := m.nodup.filter _
  mem_order other := by
    by_cases hsame : other = hash <;> simp [hsame, m.mem_order]

/-- The transfers, in the order in which their hashes were entered. -/
def toList (m : TransferMap) : List Transfer := m.order.filterMap m.find?

/-- The map in which some transfers were entered, one after the other. -/
def ofList (ts : List Transfer) : TransferMap := ts.foldl (fun m t => m.insert t) empty

theorem order_insert (t : Transfer) (m : TransferMap) :
    (m.insert t).order = if t.hash ∈ m.order then m.order else m.order ++ [t.hash] := rfl

theorem order_erase (hash : String) (m : TransferMap) :
    (m.erase hash).order = m.order.filter fun other => other != hash := rfl

end TransferMap

/-! ### Requests -/

/-- What is asked of the transfers of a wallet. -/
inductive TransferRequest where
  /-- Enter a transfer, or replace the one of its hash. -/
  | upsert (t : Transfer)
  /-- Take out the transfer of a hash, and show it. -/
  | remove (hash : String)
  /-- Show the transfer of a hash. -/
  | single (hash : String)

/-- The transfer that a wallet shows, and what becomes of it. -/
def Wallet.answer (w : Wallet) : TransferRequest → Option Transfer × Wallet
  | .upsert t => (none, w.upsert t)
  | .remove hash => w.remove hash
  | .single hash => (w.transfer? hash, w)

/-- The transfer that a map shows, and what becomes of it. -/
def TransferMap.answer (m : TransferMap) : TransferRequest → Option Transfer × TransferMap
  | .upsert t => (none, m.insert t)
  | .remove hash => (m.find? hash, m.erase hash)
  | .single hash => (m.find? hash, m)

/-- All that is shown to some requests, one after the other, and what has become of that which answers. -/
def serve {σ : Type} (answer : σ → TransferRequest → Option Transfer × σ) (s : σ) :
    List TransferRequest → List (Option Transfer) × σ
  | [] => ([], s)
  | r :: rs => ((answer s r).1 :: (serve answer (answer s r).2 rs).1, (serve answer (answer s r).2 rs).2)

/-! ### What is done to any list -/

/-- The transfer that is shown when one of a hash is taken out of a list, and the list that is left. -/
inductive TakenOut (hash : String) : List Transfer → Option Transfer → List Transfer → Prop where
  | absent (ts : List Transfer) (absent : ∀ u ∈ ts, u.hash ≠ hash) : TakenOut hash ts none ts
  /-- It is the first of the hash. -/
  | first (before after : List Transfer) (t : Transfer) (first : ∀ u ∈ before, u.hash ≠ hash)
      (found : t.hash = hash) : TakenOut hash (before ++ t :: after) (some t) (before ++ after)

theorem Wallet.entered_upsert (w : Wallet) (t : Transfer) :
    ∃ ts, w.upsert t = { w with transfers := ts } ∧ Entered t w.transfers ts :=
  ⟨_, rfl, entered_enter t w.transfers⟩

theorem Wallet.removed_remove (w : Wallet) (hash : String) :
    ∃ shown ts, w.remove hash = (shown, { w with transfers := ts }) ∧ TakenOut hash w.transfers shown ts := by
  refine ⟨_, _, rfl, ?_⟩
  rcases exists_first_of_hash hash w.transfers with habsent | ⟨before, t, after, hsplit, hfound, hfirst⟩
  · rw [find?_of_absent_hash habsent, List.eraseP_of_forall_not fun u hu => by simpa using habsent u hu]
    exact .absent _ habsent
  · rw [hsplit, find?_of_first_hash hfirst hfound, eraseP_of_first (by simpa using hfirst) (by simpa using hfound)]
    exact .first before after t hfirst hfound

/-- A transfer is shown exactly if it is the only one of the hash. -/
theorem Wallet.transfer?_eq_some_iff_filter (w : Wallet) (hash : String) (t : Transfer) :
    w.transfer? hash = some t ↔ w.transfers.filter (fun u => u.hash == hash) = [t] :=
  ⟨filter_of_transfer?, transfer?_of_filter⟩

/-- None is shown exactly if the number of transfers of the hash is not one. -/
theorem Wallet.transfer?_eq_none_iff (w : Wallet) (hash : String) :
    w.transfer? hash = none ↔ (w.transfers.countP fun t => t.hash == hash) ≠ 1 := by
  rw [List.countP_eq_length_filter, ne_eq, List.length_eq_one_iff, Option.eq_none_iff_forall_ne_some, not_exists]
  simp only [ne_eq, Wallet.transfer?_eq_some_iff_filter]

/-! ### What the map and the list have to do with each other -/

/-- Where no transfer has a hash, taking the hash from theirs takes nothing. -/
theorem filter_hash_of_absent {hash : String} {us : List Transfer} (absent : ∀ u ∈ us, u.hash ≠ hash) :
    ((us.map Transfer.hash).filter fun other => other != hash) = us.map Transfer.hash := by
  rw [List.filter_eq_self]
  intro other hother
  obtain ⟨u, hu, rfl⟩ := List.mem_map.mp hother
  exact bne_iff_ne.mpr (absent u hu)

/-- The list has the transfers of the map, in the order of their hashes. -/
structure Shows (m : TransferMap) (ts : List Transfer) : Prop where
  order : ts.map Transfer.hash = m.order
  found : ∀ t ∈ ts, m.find? t.hash = some t

namespace Shows

variable {m : TransferMap} {ts : List Transfer}

theorem nodup (h : Shows m ts) : (ts.map Transfer.hash).Nodup := h.order ▸ m.nodup

theorem toList_eq (h : Shows m ts) : m.toList = ts := by
  rw [TransferMap.toList, ← h.order, List.filterMap_map]
  calc ts.filterMap (m.find? ∘ Transfer.hash) = ts.filterMap some := List.filterMap_congr h.found
    _ = ts := List.filterMap_some

theorem find?_eq_none_iff (h : Shows m ts) (hash : String) : m.find? hash = none ↔ ∀ t ∈ ts, t.hash ≠ hash := by
  rw [← Option.not_isSome_iff_eq_none, ← m.mem_order, ← h.order, List.mem_map]
  simp only [not_exists, not_and, ne_eq]

/-- A wallet that has the list finds what the map finds. -/
theorem transfer?_eq {w : Wallet} (h : Shows m w.transfers) (hash : String) : w.transfer? hash = m.find? hash := by
  ext t
  rw [transfer?_eq_some_iff h.nodup]
  constructor
  · rintro ⟨ht, rfl⟩
    exact h.found t ht
  · intro ht
    have hsome : ¬∀ u ∈ w.transfers, u.hash ≠ hash := by
      rw [← h.find?_eq_none_iff, ht]
      exact Option.some_ne_none t
    push Not at hsome
    obtain ⟨u, hu, rfl⟩ := hsome
    obtain rfl := Option.some.inj ((h.found u hu).symm.trans ht)
    exact ⟨hu, rfl⟩

/-- Around the transfer of a hash there is no other one. -/
theorem others {before after : List Transfer} {t : Transfer} (h : Shows m (before ++ t :: after)) :
    ∀ u ∈ before ++ after, u.hash ≠ t.hash := by
  have hnodup := h.nodup
  rw [List.map_append, List.map_cons, List.nodup_middle, List.nodup_cons, ← List.map_append] at hnodup
  intro u hu heq
  exact hnodup.1 (List.mem_map.mpr ⟨u, hu, heq⟩)

/-- Entering a transfer in both. -/
theorem insert {ts' : List Transfer} (h : Shows m ts) {t : Transfer} (entered : Entered t ts ts') :
    Shows (m.insert t) ts' := by
  have hfound {u : Transfer} (hu : u ∈ ts) (hother : u.hash ≠ t.hash) : (m.insert t).find? u.hash = some u :=
    (if_neg hother).trans (h.found u hu)
  have hself : (m.insert t).find? t.hash = some t := if_pos rfl
  cases entered with
  | last _ absent =>
    have hnew : t.hash ∉ m.order := by
      rw [m.mem_order, Option.not_isSome_iff_eq_none, h.find?_eq_none_iff]
      exact absent
    constructor
    · rw [List.map_append, h.order, TransferMap.order_insert, if_neg hnew, List.map_singleton]
    · rw [List.forall_mem_append, List.forall_mem_singleton]
      exact ⟨fun u hu => hfound hu (absent u hu), hself⟩
  | instead before after old first same =>
    have hold : t.hash ∈ m.order := by
      rw [← h.order, ← same]
      exact List.mem_map_of_mem (List.mem_append_right _ List.mem_cons_self)
    constructor
    · rw [TransferMap.order_insert, if_pos hold, ← h.order, List.map_append, List.map_append, List.map_cons,
        List.map_cons, same]
    · intro u hu
      rcases List.mem_append.mp hu with hbefore | hafter
      · exact hfound (List.mem_append_left _ hbefore) (first u hbefore)
      · rcases List.mem_cons.mp hafter with rfl | hafter
        · exact hself
        · refine hfound (List.mem_append_right _ (List.mem_cons_of_mem _ hafter)) ?_
          rw [← same]
          exact h.others u (List.mem_append_right _ hafter)

/-- Taking the transfer of a hash out of both. -/
theorem erase {hash : String} {shown : Option Transfer} {ts' : List Transfer} (h : Shows m ts)
    (removed : TakenOut hash ts shown ts') : m.find? hash = shown ∧ Shows (m.erase hash) ts' := by
  have hleft (hothers : ∀ u ∈ ts', u ∈ ts ∧ u.hash ≠ hash) : ∀ u ∈ ts', (m.erase hash).find? u.hash = some u :=
    fun u hu => (if_neg (hothers u hu).2).trans (h.found u (hothers u hu).1)
  cases removed with
  | absent _ absent =>
    refine ⟨(h.find?_eq_none_iff hash).mpr absent, ?_, hleft fun u hu => ⟨hu, absent u hu⟩⟩
    rw [TransferMap.order_erase, ← h.order, filter_hash_of_absent absent]
  | first before after t first found =>
    subst found
    have hothers := h.others
    refine ⟨h.found t (List.mem_append_right _ List.mem_cons_self), ?_, hleft fun u hu => ⟨?_, hothers u hu⟩⟩
    · rw [TransferMap.order_erase, ← h.order, ← filter_hash_of_absent hothers]
      simp only [List.map_append, List.map_cons, List.filter_append, List.filter_cons, bne_self_eq_false,
        Bool.false_eq_true, if_false]
    · rcases List.mem_append.mp hu with hu | hu
      · exact List.mem_append_left _ hu
      · exact List.mem_append_right _ (List.mem_cons_of_mem _ hu)

/-- A list without two transfers of a hash is that of the map in which they were entered. -/
theorem ofList (nodup : (ts.map Transfer.hash).Nodup) : Shows (.ofList ts) ts := by
  induction ts using List.reverseRecOn with
  | nil => exact ⟨rfl, nofun⟩
  | append_singleton ts t ih =>
    rw [List.map_append, List.nodup_append] at nodup
    obtain ⟨hts, -, hnew⟩ := nodup
    rw [TransferMap.ofList, List.foldl_append]
    exact (ih hts).insert (.last ts fun u hu => hnew _ (List.mem_map_of_mem hu) _ (List.mem_singleton_self _))

/-- **Every request is answered alike**, and the list is that of the map afterwards. -/
theorem answers_alike {w : Wallet} (h : Shows m w.transfers) (r : TransferRequest) :
    (w.answer r).1 = (m.answer r).1 ∧
      ∃ ts, (w.answer r).2 = { w with transfers := ts } ∧ Shows (m.answer r).2 ts := by
  cases r with
  | upsert t =>
    obtain ⟨ts, hupsert, hentered⟩ := w.entered_upsert t
    exact ⟨rfl, ts, hupsert, h.insert hentered⟩
  | remove hash =>
    obtain ⟨shown, ts, hremove, hremoved⟩ := w.removed_remove hash
    obtain ⟨hshown, hleft⟩ := h.erase hremoved
    rw [Wallet.answer, hremove]
    exact ⟨hshown.symm, ts, rfl, hleft⟩
  | single hash => exact ⟨h.transfer?_eq hash, _, rfl, h⟩

/-- **So are all requests, one after the other.** -/
theorem serves_alike {w : Wallet} (h : Shows m w.transfers) (rs : List TransferRequest) :
    (serve Wallet.answer w rs).1 = (serve TransferMap.answer m rs).1 ∧
      ∃ ts, (serve Wallet.answer w rs).2 = { w with transfers := ts } ∧
        Shows (serve TransferMap.answer m rs).2 ts := by
  induction rs generalizing w m with
  | nil => exact ⟨rfl, _, rfl, h⟩
  | cons r rs ih =>
    obtain ⟨hshown, ts, hwallet, hts⟩ := h.answers_alike r
    obtain ⟨hrest, ts', hwallet', hts'⟩ := @ih _ { w with transfers := ts } hts
    rw [WalletHub.serve, WalletHub.serve, hwallet, hshown, hrest]
    exact ⟨rfl, ts', hwallet', hts'⟩

end Shows

/-- **The transfers of a wallet are a map in order of entry.** If no two of them have a hash then whatever is asked
of the wallet is answered as by the map, nothing but the transfers of the wallet changes, they are those of the
map, in its order, and no two of them have a hash. And in any list, also if transfers were put there that have a
hash together, a transfer is entered in the place of the first of its hash, the first of a hash is taken out, and
one is shown exactly if it is the only one. -/
theorem Wallet.transfers_are_ordered_map (w : Wallet) :
    ((w.transfers.map Transfer.hash).Nodup → ∀ rs,
      (serve Wallet.answer w rs).1 = (serve TransferMap.answer (.ofList w.transfers) rs).1 ∧
      (serve Wallet.answer w rs).2 =
        { w with transfers := (serve TransferMap.answer (.ofList w.transfers) rs).2.toList } ∧
      ((serve Wallet.answer w rs).2.transfers.map Transfer.hash).Nodup) ∧
    (∀ t, ∃ ts, w.upsert t = { w with transfers := ts } ∧ Entered t w.transfers ts) ∧
    (∀ hash, ∃ shown ts, w.remove hash = (shown, { w with transfers := ts }) ∧ TakenOut hash w.transfers shown ts) ∧
    ∀ hash, (w.transfer? hash = none ↔ (w.transfers.countP fun t => t.hash == hash) ≠ 1) ∧
      ∀ t, w.transfer? hash = some t ↔ w.transfers.filter (fun u => u.hash == hash) = [t] := by
  refine ⟨fun nodup rs => ?_, w.entered_upsert, w.removed_remove,
    fun hash => ⟨w.transfer?_eq_none_iff hash, w.transfer?_eq_some_iff_filter hash⟩⟩
  obtain ⟨hshown, ts, hwallet, hts⟩ := (Shows.ofList nodup).serves_alike rs
  refine ⟨hshown, ?_, ?_⟩
  · rw [hwallet, hts.toList_eq]
  · rw [hwallet]
    exact hts.nodup

/-- A wallet with two transfers. -/
def Wallet.ofTwo : Wallet :=
  ⟨⟨"bitcoin", "btc", "Bitcoin", 8⟩, .zero, .connected, [.create "a" .zero .sent, .create "b" .zero .sent]⟩

/-- The first transfer is replaced, taken out, asked for, and entered again. Then the other one is asked for. -/
def TransferRequest.reentering : List TransferRequest :=
  [.upsert (.create "a" .zero .received), .remove "a", .single "a", .upsert (.create "a" .zero .sent), .single "b"]

/-- What is entered again comes last. -/
theorem Wallet.reentered_comes_last :
    (Wallet.ofTwo.transfers.map Transfer.hash).Nodup ∧
      (serve Wallet.answer .ofTwo TransferRequest.reentering).1 =
        [none, some (.create "a" .zero .received), none, none, some (.create "b" .zero .sent)] ∧
      (serve Wallet.answer .ofTwo TransferRequest.reentering).2 =
        { Wallet.ofTwo with transfers := [.create "b" .zero .sent, .create "a" .zero .sent] } := by
  have hnodup : (Wallet.ofTwo.transfers.map Transfer.hash).Nodup := by decide
  obtain ⟨hshown, hleft, -⟩ :=
    (Wallet.transfers_are_ordered_map .ofTwo).1 hnodup TransferRequest.reentering
  exact ⟨hnodup, hshown, hleft⟩

end WalletHub
