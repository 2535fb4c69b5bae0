import WalletHub.Encoding.Wallet

/-!
# Reading what was written

The readers of JSON forms, on the trees that the writers make. A form is read where some levels of nesting may
still be entered (`Source.Allows`), in the text or in a tree that is held; each law asks for the levels that its
own form takes. What is held has to be sound, and every tree that a writer makes is (`Source.hold_record`,
`Source.hold_list`).

## What is proved

* `Source.Allows.enter`, `Source.Allows.inner`: a level may be entered, and what is inside allows one level less.
* `asText_text`, `asNat_nat`, `asList_map`: texts, numbers within a bound and lists are read back from the forms
  that the writers give them.
* `Source.hold_record`, `Source.hold_list`, and the laws of the other forms: what a writer makes can be held.
* `choice_formWith`, `choice_form`, `choice_formOne`: one of several named forms is found by
  its name.

The encodings of the domain are put together from these, with no look into the readers.
-/

namespace WalletHub.Json

/-! ### Levels of nesting -/

/-- So many levels of nesting may be entered from here. -/
def Source.Allows (levels : Nat) : Source → Prop
  | .text room => levels < room
  | .held => True

instance (levels : Nat) (source : Source) : Decidable (source.Allows levels) :=
  match source with
  | .text room => inferInstanceAs (Decidable (levels < room))
  | .held => .isTrue trivial

namespace Source

variable {source : Source} {levels : Nat}

theorem allows_held (levels : Nat) : held.Allows levels := trivial

theorem Allows.mono {more : Nat} (h : source.Allows more) (le : levels ≤ more) : source.Allows levels := by
  cases source with
  | text room => exact Nat.lt_of_le_of_lt le h
  | held => trivial

theorem Allows.inner (h : source.Allows (levels + 1)) : source.inner.Allows levels := by
  cases source with
  | text room => exact Nat.lt_sub_of_add_lt h
  | held => trivial

theorem Allows.enter (h : source.Allows (levels + 1)) : source.enter = .ok () := by
  cases source with
  | text room => exact if_neg (Nat.not_le_of_lt (Nat.lt_of_le_of_lt (Nat.succ_le_succ levels.zero_le) h))
  | held => rfl

end Source

/-! ### Plain values -/

theorem asText_text (s : String) : (text s).asText = .ok s := rfl

/-- Numbers of 64 bits have a meaning. -/
theorem meaning?_nat {n : Nat} (h : n < Numeral.wordBound) :
    Numeral.meaning? ⟨false, n, [], none⟩ = some (.natural n) := by
  simp [Numeral.meaning?, h]

theorem asNat_nat {n b : Nat} (h : n < b) (hb : b ≤ Numeral.wordBound) : (nat n).asNat b = .ok n := by
  simp [nat, asNat, meaning?_nat (Nat.lt_of_lt_of_le h hb), h]

/-- A list of forms is read back item by item. -/
theorem asList_map {α β : Type} {source : Source} (h : source.Allows 1) (write : α → Json)
    (read : Source → Json → Except Fault β) (result : α → Except Fault β) (items : List α)
    (hread : ∀ a ∈ items, read source.inner (write a) = result a) :
    asList source read (.array (items.map write)) = items.mapM result := by
  simp only [asList, h.enter]
  show (items.map write).mapM (read source.inner) = items.mapM result
  induction items with
  | nil => rfl
  | cons a items ih =>
    rw [List.map_cons, List.mapM_cons, List.mapM_cons, hread a List.mem_cons_self,
      ih fun b hb => hread b (List.mem_cons_of_mem a hb)]

/-- What comes back item by item comes back as a list. -/
theorem mapM_eq_ok_self {α ε : Type} {f : α → Except ε α} {items : List α} (h : ∀ a ∈ items, f a = .ok a) :
    items.mapM f = .ok items := by
  induction items with
  | nil => rfl
  | cons a items ih =>
    rw [List.mapM_cons, h a List.mem_cons_self, ih fun b hb => h b (List.mem_cons_of_mem a hb)]
    rfl

/-! ### Trees that can be held -/

namespace Source

variable {source : Source}

theorem hold_text (source : Source) (s : String) : source.hold (.text s) = .ok () := by
  cases source <;> rfl

theorem hold_bool (source : Source) (b : Bool) : source.hold (.bool b) = .ok () := by
  cases source <;> rfl

theorem hold_null (source : Source) : source.hold .null = .ok () := by
  cases source <;> rfl

theorem hold_nat (source : Source) {n : Nat} (h : n < Numeral.wordBound) : source.hold (.nat n) = .ok () := by
  cases source with
  | text room => simp [hold, Json.hold, nat, meaning?_nat h]
  | held => rfl

/-- A number that means something can be held. -/
theorem hold_number (source : Source) {n : Numeral} (h : n.meaning?.isSome = true) :
    source.hold (.number n) = .ok () := by
  cases source with
  | text room => simp [hold, Json.hold, h]
  | held => rfl

/-- A record can be held if its fields can. -/
theorem hold_record (h : source.Allows 1) {fields : List (String × Json)}
    (inner : ∀ f ∈ fields, source.inner.hold f.2 = .ok ()) : source.hold (record fields) = .ok () := by
  cases source with
  | held => rfl
  | text room =>
    show Json.hold room (.object (fields.map fun f => (some f.1, f.2))) = .ok ()
    rw [Json.hold, if_neg (Nat.not_le_of_lt h)]
    induction fields with
    | nil => rfl
    | cons f fields ih =>
      have hf : Json.hold (room - 1) f.2 = .ok () := inner f List.mem_cons_self
      rw [List.map_cons, holdMembers, hf]
      exact ih fun g hg => inner g (List.mem_cons_of_mem f hg)

/-- A list can be held if its items can. -/
theorem hold_list (h : source.Allows 1) {items : List Json}
    (inner : ∀ item ∈ items, source.inner.hold item = .ok ()) : source.hold (.array items) = .ok () := by
  cases source with
  | held => rfl
  | text room =>
    show Json.hold room (.array items) = .ok ()
    rw [Json.hold, if_neg (Nat.not_le_of_lt h)]
    induction items with
    | nil => rfl
    | cons item items ih =>
      have hitem : Json.hold (room - 1) item = .ok () := inner item List.mem_cons_self
      rw [holdItems, hitem]
      exact ih fun other hother => inner other (List.mem_cons_of_mem item hother)

end Source

/-! ### Forms with a name -/

section

variable {source : Source} {name : String} {names : List String}

/-- A form is told by its name, and its fields remain. -/
theorem choice_formWith (h : source.Allows 1) (known : name ∈ names) {fields : List (String × Json)}
    (untagged : ∀ f ∈ fields, f.1 ≠ "type") (inner : ∀ f ∈ fields, source.inner.hold f.2 = .ok ()) :
    (formWith name fields).choice source "type" names = .ok (name, record fields) := by
  let members : List (Option String × Json) := fields.map fun f => (some f.1, f.2)
  have hothers : ∀ m ∈ members, (m.1 == some "type") = false := by
    intro m hm
    obtain ⟨f, hf, rfl⟩ := List.mem_map.mp hm
    exact beq_false_of_ne fun htag => untagged f hf (Option.some.inj htag)
  have hsplit : splitMembers "type" ((some "type", text name) :: members) = ([text name], members) := by
    have hnamed : members.filter (fun m => m.1 == some "type") = [] :=
      List.filter_eq_nil_iff.mpr fun m hm => by rw [hothers m hm]; exact Bool.false_ne_true
    have hrest : members.filter (fun m => !(m.1 == some "type")) = members :=
      List.filter_eq_self.mpr fun m hm => by rw [hothers m hm]; rfl
    simp only [splitMembers, List.partition_eq_filter_filter, List.filter_cons, beq_self_eq_true, if_true,
      Function.comp_def, Bool.not_true, Bool.false_eq_true, if_false, hnamed, hrest, List.map_cons, List.map_nil]
  have hheld : source.hold (.object members) = .ok () := Source.hold_record h inner
  show Json.choice source "type" names (.object ((some "type", text name) :: members)) = .ok (name, .object members)
  simp only [choice, h.enter, hsplit, hheld]
  simp [text, formName, known, Bind.bind, Except.bind, pure, Except.pure]

/-- A form without fields is told by its name, and nothing remains. -/
theorem choice_form (h : source.Allows 1) (known : name ∈ names) :
    (form name).choice source "type" names = .ok (name, record []) :=
  choice_formWith h known nofun nofun

/-- A form with one field is told by its name, and its field remains. -/
theorem choice_formOne (h : source.Allows 1) (known : name ∈ names) {field : String} (untagged : field ≠ "type")
    {j : Json} (inner : source.inner.hold j = .ok ()) :
    (formWith name [(field, j)]).choice source "type" names = .ok (name, record [(field, j)]) :=
  choice_formWith h known (fun _ hf => List.mem_singleton.mp hf ▸ untagged)
    fun _ hf => List.mem_singleton.mp hf ▸ inner

end

theorem oneField_record (name : String) (j : Json) : (record [(name, j)]).oneField name = .ok j := by
  simp [oneField, record, fields, Source.enter, knownMembers, Fields.get, Bind.bind, Except.bind]

/-- Two fields of a form are read one after the other. -/
theorem fields_two {first second : String} (apart : first ≠ second) (j k : Json) :
    (record [(first, j), (second, k)]).fields .held [first, second] = .ok [(first, j), (second, k)] := by
  simp [record, fields, Source.enter, knownMembers, Ne.symm apart, Bind.bind, Except.bind]

end WalletHub.Json
