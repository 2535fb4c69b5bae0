import Mathlib.Algebra.Order.Field.Power
import WalletHub.Proofs.Number.Whole

/-!
# Numbers of 32 bits from zero to one

A number that is moved into the range from zero to one lies there, whatever it was before, an infinity included;
only what is no number stays none (`isFraction_clamp`).

Numbers can be told apart by their bits only if each is written in one way. Rounding does so: the mantissa has as
many bits as the format allows, or the exponent is the lowest (`canonical_roundAbs`). Two numbers that are
written so and have one bit pattern are the same (`bits?_injective`).

## What is proved

* `lt_eq_decide`: numbers are compared as what they stand for.
* `clamp_cases`, `isFraction_clamp`, `clamp_nan`: what is moved into the range is one of its ends or was in it
  already, and what is no number stays none.
* `magnitude_spec`, `mantissa_bounds`: the exponent that rounding chooses leaves a mantissa of 24 bits, or is the
  lowest.
* `canonical_roundAbs`, `canonical_scale`: so what is rounded, and what is scaled, is written as the format
  writes it.
* `lowBits_injective`, `bits?_injective`: the bits tell mantissa and exponent, and with the sign the number.
* `same_self`: a number compares equal with itself.
-/

namespace WalletHub.Binary

/-! ### From zero to one -/

/-- The number lies between zero and one. -/
def IsFraction (x : Single) : Prop := ∃ q, x.value? = some q ∧ 0 ≤ q ∧ q ≤ 1

theorem value?_one : (one : Single).value? = some 1 := by decide +kernel

theorem value?_zero : (zero : Single).value? = some 0 := by decide +kernel

theorem isFraction_zero : IsFraction zero := ⟨0, value?_zero, le_refl 0, zero_le_one⟩

theorem isFraction_one : IsFraction one := ⟨1, value?_one, zero_le_one, le_refl 1⟩

theorem IsFraction.ne_nan {x : Single} (h : x.IsFraction) : x ≠ .nan := by
  rintro rfl
  obtain ⟨q, hq, -⟩ := h
  cases hq

/-- Numbers are compared by their values. -/
theorem lt_eq_decide {x y : Single} {a b : Rat} (hx : x.value? = some a) (hy : y.value? = some b) :
    x.lt y = decide (a < b) := by
  cases x with
  | infinite | nan => cases hx
  | finite => cases y with
    | infinite | nan => cases hy
    | finite =>
      obtain rfl := Option.some.inj hx
      obtain rfl := Option.some.inj hy
      rfl

/-- What is neither below zero nor above one lies between them. -/
theorem isFraction_of_not_lt {x : Single} (number : x ≠ .nan) (low : x.lt zero = false)
    (high : one.lt x = false) : x.IsFraction := by
  cases hx : x.value? with
  | none =>
    cases x with
    | finite => cases hx
    | nan => exact absurd rfl number
    | infinite negative => cases negative with
      | true => cases low
      | false => exact absurd high (by decide +kernel)
  | some q =>
    rw [lt_eq_decide hx value?_zero, decide_eq_false_iff_not, not_lt] at low
    rw [lt_eq_decide value?_one hx, decide_eq_false_iff_not, not_lt] at high
    exact ⟨q, hx, low, high⟩

theorem clamp_nan : (nan : Single).clamp zero one = nan := by decide +kernel

/-- What is moved into a range is one of its ends, or stays as it is. -/
theorem clamp_cases {f : Format} (x low high : Binary f) :
    x.clamp low high = low ∨ x.clamp low high = high ∨ x.clamp low high = x := by
  unfold clamp
  simp only
  split <;> split <;> simp

/-- **What is moved into the range from zero to one lies there**, if it is a number. -/
theorem isFraction_clamp {x : Single} (number : x ≠ .nan) : (x.clamp zero one).IsFraction := by
  unfold clamp
  cases hlow : x.lt zero with
  | true =>
    have hone : (one : Single).lt zero = false := by decide +kernel
    simp only [if_true, hone, Bool.false_eq_true, if_false]
    exact isFraction_zero
  | false =>
    simp only [Bool.false_eq_true, if_false]
    cases hhigh : one.lt x with
    | true => exact isFraction_one
    | false =>
      simp only [Bool.false_eq_true, if_false]
      exact isFraction_of_not_lt number hlow hhigh

/-! ### What rounding gives -/

/-- The integer to which a rational is rounded in units of the format. -/
def mantissa (f : Format) (q : Rat) : Nat :=
  roundQuotient (q / ratPower 2 (unitExponent f q)).num.natAbs (q / ratPower 2 (unitExponent f q)).den

/-- What a rational is rounded to. -/
inductive Rounded (f : Format) (negative : Bool) (q : Rat) : Binary f → Prop where
  | zero (isZero : q = 0) : Rounded f negative q (.finite negative 0 f.lowest)
  | fits (nonzero : q ≠ 0) (short : mantissa f q ≠ twoTo f.precision) (low : unitExponent f q ≤ f.highest) :
      Rounded f negative q (.finite negative (mantissa f q) (unitExponent f q))
  /-- The mantissa has become too long by one bit. -/
  | carried (nonzero : q ≠ 0) (low : unitExponent f q + 1 ≤ f.highest) :
      Rounded f negative q (.finite negative (twoTo (f.precision - 1)) (unitExponent f q + 1))
  | infinite : Rounded f negative q (.infinite negative)

theorem rounded_roundAbs (f : Format) (negative : Bool) (q : Rat) :
    Rounded f negative q (roundAbs f negative q) := by
  unfold roundAbs
  by_cases hq : q = 0
  · rw [if_pos hq]
    exact .zero hq
  · rw [if_neg hq]
    dsimp only
    rw [← mantissa]
    by_cases hcarry : mantissa f q = twoTo f.precision
    · rw [if_pos hcarry]
      dsimp only
      split
      · exact .infinite
      · next h => exact .carried hq (not_lt.mp h)
    · rw [if_neg hcarry]
      dsimp only
      split
      · exact .infinite
      · next h => exact .fits hq hcarry (not_lt.mp h)

/-- A product is no number only if the factor is none. -/
theorem scale_ne_nan {x : Single} (number : x ≠ .nan) (factor : Rat) : x.scale factor ≠ .nan := by
  cases x with
  | finite negative m e =>
    have hround := rounded_roundAbs .single negative (size m e * factor)
    intro hnan
    rw [scale] at hnan
    rw [hnan] at hround
    cases hround
  | infinite => exact nofun
  | nan => exact absurd rfl number

/-! ### Magnitudes -/

theorem ratPower_two (e : Int) : ratPower 2 e = (2 : Rat) ^ e := by
  cases e with
  | ofNat k =>
    rw [Int.ofNat_eq_natCast, ratPower_natCast, zpow_natCast]
    exact Nat.cast_pow 2 k
  | negSucc k =>
    rw [Int.negSucc_eq, ← Int.natCast_succ, ratPower_neg, zpow_neg, zpow_natCast, one_div]
    exact congrArg Inv.inv (Nat.cast_pow 2 (k + 1))

theorem log2_bounds {n : Nat} (pos : 0 < n) :
    (2 : Rat) ^ (n.log2 : Int) ≤ n ∧ (n : Rat) < (2 : Rat) ^ ((n.log2 : Int) + 1) := by
  constructor
  · rw [zpow_natCast]
    exact_mod_cast Nat.log2_self_le (Nat.ne_of_gt pos)
  · rw [← Int.natCast_succ, zpow_natCast]
    exact_mod_cast Nat.lt_log2_self

/-- A positive rational times its denominator is its numerator. -/
theorem mul_den_eq_natAbs {q : Rat} (pos : 0 < q) : q * q.den = q.num.natAbs := by
  rw [Rat.mul_den_eq_num, ← Int.cast_natCast, Int.natAbs_of_nonneg (Rat.num_pos.mpr pos).le]

/-- The magnitude of a rational is that of its first bit. -/
theorem magnitude_spec {q : Rat} (pos : 0 < q) :
    (2 : Rat) ^ magnitude q ≤ q ∧ q < (2 : Rat) ^ (magnitude q + 1) := by
  obtain ⟨hnum, hnum'⟩ := log2_bounds (Int.natAbs_pos.mpr (Rat.num_pos.mpr pos).ne')
  obtain ⟨hden, hden'⟩ := log2_bounds q.den_pos
  rw [← mul_den_eq_natAbs pos] at hnum hnum'
  have hpos : (0 : Rat) < q.den := Nat.cast_pos.mpr q.den_pos
  set n : Int := (q.num.natAbs.log2 : Int)
  set d : Int := (q.den.log2 : Int)
  have hhigh : q < (2 : Rat) ^ (n - d + 1) := by
    refine lt_of_mul_lt_mul_right ?_ hpos.le
    calc q * q.den < 2 ^ (n + 1) := hnum'
      _ = 2 ^ (n - d + 1) * 2 ^ d := by rw [← zpow_add₀ two_ne_zero]; congr 1; omega
      _ ≤ 2 ^ (n - d + 1) * q.den := mul_le_mul_of_nonneg_left hden (zpow_pos two_pos _).le
  have hlow : (2 : Rat) ^ (n - d - 1) ≤ q := by
    refine le_of_mul_le_mul_right ?_ hpos
    calc (2 : Rat) ^ (n - d - 1) * q.den ≤ 2 ^ (n - d - 1) * 2 ^ (d + 1) :=
          mul_le_mul_of_nonneg_left hden'.le (zpow_pos two_pos _).le
      _ = 2 ^ n := by rw [← zpow_add₀ two_ne_zero]; congr 1; omega
      _ ≤ q * q.den := hnum
  have hmagnitude : magnitude q = if (2 : Rat) ^ (n - d) ≤ q then n - d else n - d - 1 := by
    rw [← ratPower_two]
    rfl
  rw [hmagnitude]
  split
  · next h => exact ⟨h, hhigh⟩
  · next h =>
    rw [sub_add_cancel]
    exact ⟨hlow, not_le.mp h⟩

/-- A quotient is rounded down or up to the next integer. -/
theorem roundQuotient_bounds (num den : Nat) :
    num / den ≤ roundQuotient num den ∧ roundQuotient num den ≤ num / den + 1 := by
  unfold roundQuotient
  simp only
  split <;> omega

/-- Rounding does not pass over an integer. -/
theorem roundQuotient_of_bound {q : Rat} (pos : 0 < q) (n : Nat) :
    (q < n → roundQuotient q.num.natAbs q.den ≤ n) ∧ (n ≤ q → n ≤ roundQuotient q.num.natAbs q.den) := by
  obtain ⟨hlow, hhigh⟩ := roundQuotient_bounds q.num.natAbs q.den
  have hpos : (0 : Rat) < q.den := Nat.cast_pos.mpr q.den_pos
  constructor
  · intro h
    have hlt := mul_lt_mul_of_pos_right h hpos
    rw [mul_den_eq_natAbs pos] at hlt
    have hfloor := (Nat.div_lt_iff_lt_mul q.den_pos).mpr (by exact_mod_cast hlt : q.num.natAbs < n * q.den)
    omega
  · intro h
    have hle := mul_le_mul_of_nonneg_right h hpos.le
    rw [mul_den_eq_natAbs pos] at hle
    have hfloor := (Nat.le_div_iff_mul_le q.den_pos).mpr (by exact_mod_cast hle : n * q.den ≤ q.num.natAbs)
    exact Nat.le_trans hfloor hlow

/-! ### One way to write a number -/

/-- The number is written as its format writes it: the mantissa has 24 bits, or less if the exponent is the
lowest. -/
def Canonical : Single → Prop
  | .finite _ m e => m < 2 ^ 23 ∧ e = -149 ∨ 2 ^ 23 ≤ m ∧ m < 2 ^ 24 ∧ -149 ≤ e ∧ e ≤ 104
  | .infinite _ | .nan => True

/-- The mantissa has 24 bits, or less if the exponent is the lowest. One bit more is carried. -/
theorem mantissa_bounds {q : Rat} (pos : 0 < q) :
    -149 ≤ unitExponent .single q ∧ mantissa .single q ≤ 2 ^ 24 ∧
      (unitExponent .single q ≠ -149 → 2 ^ 23 ≤ mantissa .single q) := by
  obtain ⟨hlow, hhigh⟩ := magnitude_spec pos
  have hunit : unitExponent .single q = max (magnitude q - 23) (-149) := rfl
  rw [mantissa, ratPower_two]
  generalize unitExponent .single q = e at hunit ⊢
  have hpower : (0 : Rat) < 2 ^ e := zpow_pos two_pos e
  refine ⟨by omega, ?_, fun he => ?_⟩
  · apply (roundQuotient_of_bound (div_pos pos hpower) (2 ^ 24)).1
    rw [div_lt_iff₀ hpower]
    calc q < 2 ^ (magnitude q + 1) := hhigh
      _ ≤ 2 ^ (24 + e) := zpow_le_zpow_right₀ one_le_two (by omega)
      _ = ((2 ^ 24 : Nat) : Rat) * 2 ^ e := by rw [zpow_add₀ two_ne_zero]; norm_num
  · apply (roundQuotient_of_bound (div_pos pos hpower) (2 ^ 23)).2
    rw [le_div_iff₀ hpower]
    calc ((2 ^ 23 : Nat) : Rat) * 2 ^ e = 2 ^ (23 + e) := by rw [zpow_add₀ two_ne_zero]; norm_num
      _ ≤ 2 ^ magnitude q := zpow_le_zpow_right₀ one_le_two (by omega)
      _ ≤ q := hlow

/-- **What is rounded is written as the format writes it.** -/
theorem canonical_roundAbs (negative : Bool) {q : Rat} (h : 0 ≤ q) : Canonical (roundAbs .single negative q) := by
  have hround := rounded_roundAbs .single negative q
  generalize roundAbs .single negative q = x at hround ⊢
  have hcarry : twoTo (Format.precision .single) = 2 ^ 24 := rfl
  have hhighest : Format.highest .single = 104 := rfl
  cases hround with
  | zero => exact Or.inl ⟨by decide, rfl⟩
  | infinite => trivial
  | fits nonzero short low =>
    obtain ⟨hunit, hle, hge⟩ := mantissa_bounds (lt_of_le_of_ne h (Ne.symm nonzero))
    rw [hcarry] at short
    rw [hhighest] at low
    show _ ∨ _
    omega
  | carried nonzero low =>
    obtain ⟨hunit, -⟩ := mantissa_bounds (lt_of_le_of_ne h (Ne.symm nonzero))
    exact Or.inr ⟨by decide, by decide, by omega, low⟩

theorem canonical_zero : Canonical zero := Or.inl ⟨by decide, rfl⟩

theorem canonical_one : Canonical one := canonical_roundAbs false zero_le_one

/-- A product is written so. -/
theorem canonical_scale (x : Single) {factor : Rat} (h : 0 ≤ factor) : Canonical (x.scale factor) := by
  cases x with
  | finite negative m e =>
    refine canonical_roundAbs negative (mul_nonneg (mul_nonneg (Nat.cast_nonneg m) ?_) h)
    rw [ratPower_two]
    exact (zpow_pos two_pos e).le
  | infinite | nan => trivial

/-! ### Bit patterns -/

/-- The bits without the sign. -/
def lowBits (m : Nat) (e : Int) : Nat := if m < 2 ^ 23 then m else ((e + 149).toNat + 1) * 2 ^ 23 + (m - 2 ^ 23)

theorem bits?_finite (s : Bool) (m : Nat) (e : Int) :
    (finite s m e : Single).bits? = some ((if s then 2 ^ 31 else 0) + lowBits m e) := by
  have hfield : Format.fieldWeight .single = 2 ^ 23 := by decide
  have hsign : Format.signWeight .single = 2 ^ 31 := by decide
  have hlowest : Format.lowest .single = -149 := rfl
  simp only [bits?, lowBits, hfield, hsign, hlowest, Int.sub_neg, Nat.add_assoc]
  split <;> rfl

theorem bits?_infinite (s : Bool) :
    (infinite s : Single).bits? = some ((if s then 2 ^ 31 else 0) + 255 * 2 ^ 23) := by
  have hfield : Format.fieldWeight .single = 2 ^ 23 := by decide
  have hsign : Format.signWeight .single = 2 ^ 31 := by decide
  have htop : Format.topField .single = 255 := by decide
  simp only [bits?, hfield, hsign, htop]

section LowBits

variable {s s' : Bool} {m m' : Nat} {e e' : Int}

theorem lowBits_lt (h : Canonical (.finite s m e)) : lowBits m e < 255 * 2 ^ 23 := by
  unfold lowBits
  rcases h with ⟨hm, rfl⟩ | ⟨hlow, hhigh, he, he'⟩
  · rw [if_pos hm]
    omega
  · rw [if_neg (Nat.not_lt.mpr hlow)]
    omega

theorem lowBits_injective (h : Canonical (.finite s m e)) (h' : Canonical (.finite s' m' e'))
    (same : lowBits m e = lowBits m' e') : m = m' ∧ e = e' := by
  unfold lowBits at same
  simp only [Canonical] at h h'
  split at same <;> split at same <;> omega

end LowBits

/-- The sign is the first bit. -/
theorem eq_of_signed {s s' : Bool} {a b : Nat} (ha : a < 2 ^ 31) (hb : b < 2 ^ 31)
    (h : (if s then 2 ^ 31 else 0) + a = (if s' then 2 ^ 31 else 0) + b) : s = s' ∧ a = b := by
  cases s <;> cases s' <;> simp only [Bool.false_eq_true, if_true, if_false] at h <;> simp <;> omega

/-- **Numbers with one bit pattern are the same**, if they are written as the format writes them. -/
theorem bits?_injective {x y : Single} (hx : x.Canonical) (hy : y.Canonical) (h : x.bits? = y.bits?) : x = y := by
  cases x with
  | nan => cases y with
    | nan => rfl
    | infinite s => rw [bits?_infinite] at h; cases h
    | finite s m e => rw [bits?_finite] at h; cases h
  | infinite s => cases y with
    | nan => rw [bits?_infinite] at h; cases h
    | infinite s' =>
      rw [bits?_infinite, bits?_infinite] at h
      obtain ⟨rfl, -⟩ := eq_of_signed (by omega) (by omega) (Option.some.inj h)
      rfl
    | finite s' m' e' =>
      have hlow := lowBits_lt hy
      rw [bits?_infinite, bits?_finite] at h
      obtain ⟨-, hsame⟩ := eq_of_signed (by omega) (by omega) (Option.some.inj h)
      omega
  | finite s m e =>
    have hlow := lowBits_lt hx
    cases y with
    | nan => rw [bits?_finite] at h; cases h
    | infinite s' =>
      rw [bits?_infinite, bits?_finite] at h
      obtain ⟨-, hsame⟩ := eq_of_signed (by omega) (by omega) (Option.some.inj h)
      omega
    | finite s' m' e' =>
      have hlow' := lowBits_lt hy
      rw [bits?_finite, bits?_finite] at h
      obtain ⟨rfl, hsame⟩ := eq_of_signed (by omega) (by omega) (Option.some.inj h)
      obtain ⟨rfl, rfl⟩ := lowBits_injective hx hy hsame
      rfl

/-- A number compares as equal to itself. -/
theorem same_self {x : Single} (number : x ≠ .nan) : x.same x = true := by
  cases x with
  | finite s m e => simp [same]
  | infinite s => simp [same]
  | nan => exact absurd rfl number

end WalletHub.Binary
