import Mathlib.Data.List.TakeWhile
import WalletHub.Text.Blank

/-!
# Text without the white space around it

Every text has white space in front, a part that neither starts nor ends with white space, and white space behind.
The part in the middle is what `trim` leaves, and it is the only such part (`trim_eq_iff`).

## What is proved

* `trimFront_append`, `trimFront_of_blank`, `trimFront_eq_self`: what is taken off in front, by what stands there.
* `exists_front`: every text is white space and then what is left of it.
* `Surrounds.trim_eq`, `surrounds_trim`: the part in the middle is what `trim` leaves, and there is one.
* `trim_eq_iff`: so the two say the same.
-/

namespace WalletHub.Text

/-- The characters neither start nor end with white space. -/
structure Bare (cs : List Char) : Prop where
  first {c : Char} {rest : List Char} : cs = c :: rest → isBlank c = false
  last {c : Char} {rest : List Char} : cs = rest ++ [c] → isBlank c = false

/-- A text has a bare one in the middle, with white space in front of it and behind it. -/
structure Surrounds (s core : String) : Prop where
  bare : Bare core.toList
  around : ∃ front back : List Char, s.toList = front ++ core.toList ++ back ∧
    (∀ c ∈ front, isBlank c = true) ∧ ∀ c ∈ back, isBlank c = true

/-! ### One end -/

theorem trimFront_append {front : List Char} (blank : ∀ c ∈ front, isBlank c = true) (cs : List Char) :
    trimFront (front ++ cs) = trimFront cs := List.dropWhile_append_of_pos blank

theorem trimFront_of_blank {cs : List Char} (blank : ∀ c ∈ cs, isBlank c = true) : trimFront cs = [] :=
  List.dropWhile_eq_nil_iff.mpr blank

theorem trimFront_eq_self {cs : List Char}
    (first : ∀ (c : Char) (rest : List Char), cs = c :: rest → isBlank c = false) :
    trimFront cs = cs := by
  cases cs with
  | nil => rfl
  | cons c cs =>
    have hc : ¬isBlank c = true := Bool.not_eq_true _ ▸ first c cs rfl
    exact List.dropWhile_cons_of_neg hc

/-- What is dropped at the front is white space, and what is left does not start with white space. -/
theorem exists_front (cs : List Char) : ∃ front : List Char, cs = front ++ trimFront cs ∧
    (∀ c ∈ front, isBlank c = true) ∧
      ∀ (c : Char) (rest : List Char), trimFront cs = c :: rest → isBlank c = false := by
  induction cs with
  | nil => exact ⟨[], rfl, nofun, nofun⟩
  | cons c cs ih =>
    cases hblank : isBlank c with
    | true =>
      obtain ⟨front, hcs, hfront, hrest⟩ := ih
      rw [show trimFront (c :: cs) = trimFront cs from List.dropWhile_cons_of_pos hblank]
      exact ⟨c :: front, congrArg (c :: ·) hcs, List.forall_mem_cons.mpr ⟨hblank, hfront⟩, hrest⟩
    | false =>
      have hfirst (d : Char) (rest : List Char) (heq : c :: cs = d :: rest) : isBlank d = false :=
        (List.cons.inj heq).1 ▸ hblank
      rw [trimFront_eq_self hfirst]
      exact ⟨[], rfl, nofun, hfirst⟩

/-! ### Both ends -/

/-- The text in the middle of white space is what `trim` leaves. -/
theorem Surrounds.trim_eq {s core : String} (h : Surrounds s core) : trim s = core := by
  obtain ⟨front, back, hs, hfront, hback⟩ := h.around
  have hback' : ∀ c ∈ back.reverse, isBlank c = true := fun c hc => hback c (List.mem_reverse.mp hc)
  rw [trim, hs, List.append_assoc, trimFront_append hfront]
  cases hcore : core.toList with
  | nil =>
    rw [List.nil_append, trimFront_of_blank hback, ← String.toList_inj, String.toList_ofList, hcore]
    rfl
  | cons c rest =>
    have hfront' : trimFront (c :: rest ++ back) = c :: rest ++ back :=
      trimFront_eq_self fun d _ heq => (List.cons.inj heq).1 ▸ h.bare.first hcore
    have hlast (d : Char) (init : List Char) (heq : (c :: rest).reverse = d :: init) : isBlank d = false :=
      h.bare.last (hcore.trans (by rw [← List.reverse_reverse (c :: rest), heq, List.reverse_cons]))
    rw [hfront', List.reverse_append, trimFront_append hback', trimFront_eq_self hlast, List.reverse_reverse, ← hcore,
      String.ofList_toList]

/-- A text surrounds what `trim` leaves of it. -/
theorem surrounds_trim (s : String) : Surrounds s (trim s) := by
  obtain ⟨front, hs, hfront, hfirst⟩ := exists_front s.toList
  obtain ⟨back, hrest, hback, hlast⟩ := exists_front (trimFront s.toList).reverse
  have hmiddle : trimFront s.toList = (trim s).toList ++ back.reverse := by
    rw [trim, String.toList_ofList, ← List.reverse_append, ← hrest, List.reverse_reverse]
  constructor
  case bare =>
    constructor
    · intro c rest heq
      exact hfirst c (rest ++ back.reverse) (by rw [hmiddle, heq]; rfl)
    · intro c rest heq
      rw [trim, String.toList_ofList, List.reverse_eq_iff, List.reverse_append] at heq
      exact hlast c rest.reverse heq
  case around =>
    refine ⟨front, back.reverse, ?_, hfront, fun c hc => hback c (List.mem_reverse.mp hc)⟩
    rw [List.append_assoc, ← hmiddle, ← hs]

theorem trim_eq_iff (s core : String) : trim s = core ↔ Surrounds s core := by
  constructor
  · rintro rfl
    exact surrounds_trim s
  · exact Surrounds.trim_eq

end WalletHub.Text
