import Mathlib.Algebra.Group.Nat.Defs
import WalletHub.Text.Digits

/-!
# Runs of digits, written and read

The digits of a number start with a zero only for zero itself, their count is bounded by the power
of ten above the number, and a run of digits is read back whole from any text in which no digit
follows it (`span_toChars`). `padded` runs, filled up with zeros in front, have the value of what
they were made from.

## What is proved

* `ofNatAux_append`, `ofNatAux_fuel`: the digits that are made depend neither on those that follow nor on the fuel.
* `ofNat_of_lt`, `ofNat_of_ge`: the digits of a number of one digit, and of a longer one by its last digit.
* `tail_eq_nil_of_ofNat`, `length_ofNat_le`: where a zero may stand in front, and how many digits there are.
* `toNat_replicate_append`, `le_extend`: zeros in front have no value, and more digits never make a number smaller.
* `span_toChars`, `exists_toChars_ofNat`: a run of digits is found whole.
-/

namespace WalletHub.Digit

/-! ### The digits of a number -/

theorem ofNatAux_append (fuel n : Nat) (acc : List Digit) :
    ofNatAux fuel n acc = ofNatAux fuel n [] ++ acc := by
  induction fuel generalizing n acc with
  | zero => rfl
  | succ fuel ih =>
    by_cases hn : n / 10 = 0
    · simp [ofNatAux, hn]
    · simp only [ofNatAux, hn, if_false]
      rw [ih, ih (n / 10) [_], List.append_assoc, List.singleton_append]

/-- More fuel than the number needs changes nothing. -/
theorem ofNatAux_fuel (fuel fuel' n : Nat) (h : n < fuel) (h' : n < fuel') (acc : List Digit) :
    ofNatAux fuel n acc = ofNatAux fuel' n acc := by
  induction fuel generalizing fuel' n acc with
  | zero => omega
  | succ fuel ih =>
    obtain ⟨fuel', rfl⟩ : ∃ k, fuel' = k + 1 := ⟨fuel' - 1, by omega⟩
    by_cases hn : n / 10 = 0
    · simp [ofNatAux, hn]
    · simp only [ofNatAux, hn, if_false]
      exact ih fuel' (n / 10) (by omega) (by omega) _

theorem ofNat_of_lt {n : Nat} (h : n < 10) : ofNat n = [⟨n, h⟩] := by
  have h0 : n / 10 = 0 := by omega
  have hm : n % 10 = n := by omega
  simp [ofNat, ofNatAux, h0, hm]

/-- The digits of a number from ten on are those of its tenth and its last digit. -/
theorem ofNat_of_ge {n : Nat} (h : 10 ≤ n) :
    ofNat n = ofNat (n / 10) ++ [⟨n % 10, Nat.mod_lt n (by decide)⟩] := by
  have h0 : ¬ n / 10 = 0 := by omega
  have hf := ofNatAux_fuel n (n / 10 + 1) (n / 10) (by omega) (by omega) []
  rw [ofNat, ofNatAux]
  simp only [h0, if_false]
  rw [ofNatAux_append, hf, ofNat]

theorem ofNat_ne_nil (n : Nat) : ofNat n ≠ [] := by
  by_cases h : n < 10
  · simp [ofNat_of_lt h]
  · simp [ofNat_of_ge (Nat.le_of_not_lt h)]

/-- Digits start with a zero only where there is no other digit: the first digit is that of the tenth, which would be
a lone zero. -/
theorem tail_eq_nil_of_ofNat {n : Nat} {d : Digit} {ds : List Digit} (h : ofNat n = d :: ds)
    (hd : d.val = 0) : ds = [] := by
  induction n using Nat.strongRecOn generalizing d ds with
  | _ n ih =>
    by_cases hn : n < 10
    · rw [ofNat_of_lt hn] at h
      injection h with _ ht
      exact ht.symm
    · rw [ofNat_of_ge (Nat.le_of_not_lt hn)] at h
      obtain ⟨e, es, he⟩ := List.exists_cons_of_ne_nil (ofNat_ne_nil (n / 10))
      rw [he, List.cons_append] at h
      injection h with hde _
      subst hde
      have hes := ih (n / 10) (by omega) he hd
      have hv := toNat_ofNat (n / 10)
      rw [he, hes] at hv
      simp [toNat, extend] at hv
      omega

/-- A number below a power of ten has no more digits than the power. -/
theorem length_ofNat_le {n width : Nat} (hw : 0 < width) (h : n < 10 ^ width) :
    (ofNat n).length ≤ width := by
  induction width generalizing n with
  | zero => omega
  | succ width ih =>
    by_cases hn : n < 10
    · simp [ofNat_of_lt hn]
    · have hw' : 0 < width := by
        rcases Nat.eq_zero_or_pos width with rfl | hp
        · simp at h; omega
        · exact hp
      have := ih hw' (n := n / 10) (by rw [Nat.pow_succ] at h; omega)
      rw [ofNat_of_ge (Nat.le_of_not_lt hn)]
      simp only [List.length_append, List.length_singleton]
      omega

/-- Zeros in front do not change the value. -/
theorem toNat_replicate_append (k : Nat) (ds : List Digit) :
    toNat (List.replicate k zero ++ ds) = toNat ds := by
  induction k with
  | zero => rfl
  | succ k ih =>
    rw [List.replicate_succ, List.cons_append]
    simpa [toNat, extend, zero] using ih

/-- A number does not become less by more digits. -/
theorem le_extend (n : Nat) (ds : List Digit) : n ≤ extend n ds := by
  induction ds generalizing n with
  | nil => exact Nat.le_refl n
  | cons d ds ih =>
    have hnext : n * 10 + d.val ≤ extend n (d :: ds) := ih (n * 10 + d.val)
    omega

/-! ### Characters -/

/-- Only the character of a digit stands for it. -/
theorem toChar_of_ofChar? {c : Char} {d : Digit} (h : ofChar? c = some d) : toChar d = c := by
  unfold ofChar? at h
  split at h
  · next hrange =>
    obtain rfl := Option.some.inj h
    have hcode : 48 + (c.toNat - 48) = c.toNat := by omega
    rw [toChar, hcode, Char.ofNat_toNat]
  · exact nomatch h

theorem ofChar?_eq_none {c : Char} (other : ∀ d : Digit, d.toChar ≠ c) : ofChar? c = none :=
  Option.eq_none_iff_forall_ne_some.mpr fun d hd => other d (toChar_of_ofChar? hd)

/-- The text does not go on with a digit. -/
def Apart (cs : List Char) : Prop := ∀ c rest, cs = c :: rest → ofChar? c = none

theorem apart_nil : Apart [] := fun _ _ h => nomatch h

theorem apart_cons {c : Char} {cs : List Char} (h : ofChar? c = none) : Apart (c :: cs) := by
  rintro _ _ ⟨⟩
  exact h

/-- A run of digits is read whole, up to the first character that is no digit. -/
theorem span_toChars (ds : List Digit) {rest : List Char} (h : Apart rest) :
    span (toChars ds ++ rest) = (ds, rest) := by
  induction ds with
  | nil =>
    cases rest with
    | nil => rfl
    | cons c cs =>
      have hc : ofChar? c = none := h c cs rfl
      simp [toChars, span, hc]
  | cons d ds ih =>
    have hs : span (toChars (d :: ds) ++ rest) = (d :: (span (toChars ds ++ rest)).1,
        (span (toChars ds ++ rest)).2) := by
      simp [toChars, span, ofChar?_toChar]
    rw [hs, ih]

/-- The first character of a number is the character of a digit. -/
theorem exists_toChars_ofNat (n : Nat) :
    ∃ (d : Digit) (ds : List Digit), ofNat n = d :: ds ∧ toChars (ofNat n) = toChar d :: toChars ds := by
  obtain ⟨d, ds, h⟩ := List.exists_cons_of_ne_nil (ofNat_ne_nil n)
  exact ⟨d, ds, h, by rw [h]; rfl⟩

end WalletHub.Digit
