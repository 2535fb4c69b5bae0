import Mathlib.Data.Rat.Floor
import Mathlib.Tactic.Linarith
import Mathlib.Tactic.Positivity
import WalletHub.Number.DecimalText
import WalletHub.Json.Numeral
import WalletHub.Proofs.Text.Digits

/-!
# Whole numbers of 64 bits

A whole number of at most 53 bits is a number of 64 bits as it stands (`Binary.value?_ofNat`), and the
shortest digits that read back as it are its own (`Scientific.writes_shortest`), since nothing else that
is whole lies in its interval. As a JSON number it is read with one place after the point, so ten times
the number has to be exact as well (`Json.Numeral.meaning?_whole`); as an amount it is read digit by digit
(`Decimal.ofDouble?_whole`).

## What is proved

* `Binary.roundAbs_natCast`, `Binary.value?_ofNat`: a whole number of at most 53 bits is rounded to itself.
* `Binary.div_ten`: ten times the number divided by ten is the number again, if ten times the number is exact.
* `Scientific.Interval.Narrow.holds_iff`, `Scientific.Interval.Narrow.point?_eq`: in an interval around it that
  is narrow enough no other whole number lies.
* `Scientific.writes_stripped`, `Scientific.writes_search`, `Scientific.writes_shortest`: the search for shortest
  digits ends with its own.
* `Json.Numeral.meaning?_whole`: reading its text gives the number.
* `Decimal.ofPlain?_toChars`, `Decimal.ofDouble?_whole`: so does reading it as an amount.
-/

namespace WalletHub

/-! ### The numbers of the format -/

theorem ratPower_natCast (base k : Nat) : ratPower base (k : Int) = ((base ^ k : Nat) : Rat) := by
  simp [ratPower]

theorem ratPower_neg (base k : Nat) : ratPower base (-(k : Int)) = 1 / ((base ^ k : Nat) : Rat) := by
  cases k with
  | zero => simp [ratPower]
  | succ k =>
    have hneg : ¬(0 : Int) ≤ -((k + 1 : Nat) : Int) := by omega
    rw [ratPower, if_neg hneg, Int.neg_neg, Int.toNat_natCast]
    rfl

namespace Binary

/-- The magnitude of a whole number is that of its first bit. -/
theorem magnitude_natCast {n : Nat} (hn : 0 < n) : magnitude (n : Rat) = (n.log2 : Int) := by
  have hle : ratPower 2 (n.log2 : Int) ≤ (n : Rat) := by
    rw [ratPower_natCast]
    exact_mod_cast Nat.log2_self_le (Nat.ne_of_gt hn)
  have hone : Nat.log2 1 = 0 := by decide
  simp [magnitude, hone, hle]

theorem roundQuotient_one (n : Nat) : roundQuotient n 1 = n := by
  simp [roundQuotient, Nat.mod_one]

/-- A whole number of at most 53 bits is not rounded. -/
theorem roundAbs_natCast (negative : Bool) {n : Nat} (hn : 0 < n) (h : n < 2 ^ 53) :
    roundAbs .double negative (n : Rat) =
      .finite negative (n * 2 ^ (52 - n.log2)) ((n.log2 : Int) - 52) := by
  have hbits : n.log2 ≤ 52 := Nat.le_of_lt_succ ((Nat.log2_lt (Nat.ne_of_gt hn)).mpr h)
  have hunit : unitExponent .double (n : Rat) = (n.log2 : Int) - 52 := by
    rw [unitExponent, magnitude_natCast hn]
    simp only [Format.double]
    omega
  have hscaled : (n : Rat) / ratPower 2 ((n.log2 : Int) - 52) = ((n * 2 ^ (52 - n.log2) : Nat) : Rat) := by
    have hexponent : (n.log2 : Int) - 52 = -((52 - n.log2 : Nat) : Int) := by omega
    rw [hexponent, ratPower_neg]
    push_cast
    rw [div_div_eq_mul_div, div_one]
  have hmantissa : n * 2 ^ (52 - n.log2) < 2 ^ 53 := by
    have hlt : n < 2 ^ (n.log2 + 1) := Nat.lt_log2_self
    calc n * 2 ^ (52 - n.log2) < 2 ^ (n.log2 + 1) * 2 ^ (52 - n.log2) :=
          Nat.mul_lt_mul_of_pos_right hlt (Nat.two_pow_pos _)
      _ = 2 ^ 53 := by rw [← Nat.pow_add]; congr 1; omega
  have hzero : (n : Rat) ≠ 0 := by exact_mod_cast Nat.ne_of_gt hn
  rw [roundAbs, if_neg hzero]
  simp only [hunit, hscaled, Rat.num_natCast, Rat.den_natCast, Int.natAbs_natCast, roundQuotient_one]
  have hcarry : n * 2 ^ (52 - n.log2) ≠ twoTo (Format.precision .double) := Nat.ne_of_lt hmantissa
  have hfinite : ¬Format.highest .double < (n.log2 : Int) - 52 := by
    simp only [Format.double]
    omega
  rw [if_neg hcarry]
  simp only [if_neg hfinite]

/-- A whole number of at most 53 bits under a sign. -/
def whole (negative : Bool) (n : Nat) : Double :=
  if negative then (ofNat .double n).neg else ofNat .double n

theorem whole_eq (negative : Bool) {n : Nat} (hn : 0 < n) (h : n < 2 ^ 53) :
    whole negative n = .finite negative (n * 2 ^ (52 - n.log2)) ((n.log2 : Int) - 52) := by
  cases negative with
  | false => exact roundAbs_natCast false hn h
  | true => exact congrArg neg (roundAbs_natCast false hn h)

theorem size_whole {n : Nat} (h : n.log2 ≤ 52) :
    size (n * 2 ^ (52 - n.log2)) ((n.log2 : Int) - 52) = (n : Rat) := by
  have hexponent : (n.log2 : Int) - 52 = -((52 - n.log2 : Nat) : Int) := by omega
  have hpos : ((2 ^ (52 - n.log2) : Nat) : Rat) ≠ 0 := by exact_mod_cast Nat.ne_of_gt (Nat.two_pow_pos _)
  rw [size, hexponent, ratPower_neg, Nat.cast_mul, mul_assoc, mul_one_div_cancel hpos, mul_one]

theorem log2_le {n : Nat} (hn : 0 < n) (h : n < 2 ^ 53) : n.log2 ≤ 52 :=
  Nat.le_of_lt_succ ((Nat.log2_lt (Nat.ne_of_gt hn)).mpr h)

theorem value?_ofNat {n : Nat} (hn : 0 < n) (h : n < 2 ^ 53) :
    (ofNat .double n : Double).value? = some (n : Rat) := by
  rw [ofNat, roundAbs_natCast false hn h, value?, if_neg Bool.false_ne_true, size_whole (log2_le hn h)]

/-- A tenth of a multiple of ten is exact. -/
theorem div_ten {n : Nat} (hn : 0 < n) (h : n * 10 < 2 ^ 53) :
    (ofNat .double (n * 10) : Double).div (ofNat .double 10) = ofNat .double n := by
  have hten : (ofNat .double 10 : Double).value? = some ((10 : Nat) : Rat) :=
    value?_ofNat (by decide) (by decide)
  have hquotient : ((n * 10 : Nat) : Rat) / ((10 : Nat) : Rat) = (n : Rat) := by
    push_cast
    exact mul_div_cancel_right₀ _ (by norm_num)
  have hsign : ¬(n : Rat) < 0 := not_lt.mpr (Nat.cast_nonneg n)
  simp only [div, combine, value?_ofNat (Nat.mul_pos hn (by decide)) h, hten, hquotient, round, if_neg hsign]
  rfl

end Binary

/-! ### Shortest digits -/

namespace Scientific

/-- The digits of a whole number, up to zeros at its end. -/
def Writes (s : Scientific) (n : Nat) : Prop := 0 ≤ s.exponent ∧ s.digits * 10 ^ s.exponent.toNat = n

theorem writes_stripped (fuel n : Nat) {exponent : Int} (h : 0 ≤ exponent) :
    (stripped fuel n exponent).Writes (n * 10 ^ exponent.toNat) := by
  induction fuel generalizing n exponent with
  | zero => exact ⟨h, rfl⟩
  | succ fuel ih =>
    rw [stripped]
    by_cases hzero : n % 10 = 0
    · rw [if_pos hzero]
      have hnext : (stripped fuel (n / 10) (exponent + 1)).Writes (n / 10 * 10 ^ (exponent + 1).toNat) :=
        ih (n / 10) (by omega)
      have hpower : (exponent + 1).toNat = exponent.toNat + 1 := by omega
      have hvalue : n / 10 * 10 ^ (exponent + 1).toNat = n * 10 ^ exponent.toNat := by
        rw [hpower, Nat.pow_succ, Nat.mul_comm (10 ^ exponent.toNat) 10, ← Nat.mul_assoc,
          Nat.div_mul_cancel (Nat.dvd_of_mod_eq_zero hzero)]
      rwa [hvalue] at hnext
    · rw [if_neg hzero]
      exact ⟨h, rfl⟩

/-- The interval reaches less far than to another whole number. -/
structure Interval.Narrow (i : Interval) (n : Nat) : Prop where
  centre : i.centre = n
  low : i.low < n
  low' : (n : Rat) - 1 < i.low
  high : (n : Rat) < i.high
  high' : i.high < n + 1

/-- A narrow interval holds no other whole number. -/
theorem Interval.Narrow.holds_iff {i : Interval} {n : Nat} (h : i.Narrow n) (k : Nat) :
    i.holds (k : Rat) = true ↔ k = n := by
  constructor
  · intro hholds
    have hends : i.low ≤ (k : Rat) ∧ (k : Rat) ≤ i.high := by
      unfold Interval.holds at hholds
      split at hholds
      · simpa using hholds
      · have hstrict : i.low < (k : Rat) ∧ (k : Rat) < i.high := by simpa using hholds
        exact ⟨le_of_lt hstrict.1, le_of_lt hstrict.2⟩
    have hbelow : (n : Rat) < (k + 1 : Nat) := by
      push_cast
      linarith [h.low', hends.1]
    have habove : (k : Rat) < (n + 1 : Nat) := by
      push_cast
      linarith [h.high', hends.2]
    have hbelow' : n < k + 1 := by exact_mod_cast hbelow
    have habove' : k < n + 1 := by exact_mod_cast habove
    omega
  · rintro rfl
    simp [Interval.holds, h.low, h.high, le_of_lt h.low, le_of_lt h.high]

/-- On a grid of a power of ten the only point in the interval is the number itself. -/
theorem Interval.Narrow.point?_eq {i : Interval} {n : Nat} (h : i.Narrow n) (hn : 0 < n) (j : Nat) :
    i.point? ((10 ^ j : Nat) : Rat) = if 10 ^ j ∣ n then some (n / 10 ^ j) else none := by
  have hfloor : (i.centre / ((10 ^ j : Nat) : Rat)).floor.toNat = n / 10 ^ j := by
    have hdiv : (i.centre / ((10 ^ j : Nat) : Rat)).floor = ((n / 10 ^ j : Nat) : Int) := by
      rw [h.centre]
      exact Rat.floor_natCast_div_natCast n (10 ^ j)
    rw [hdiv, Int.toNat_natCast]
  have hpos : 0 < 10 ^ j := Nat.pow_pos (by decide)
  have hbelow : i.holds ((n / 10 ^ j : Nat) * ((10 ^ j : Nat) : Rat)) = true ↔ 10 ^ j ∣ n := by
    rw [← Nat.cast_mul, h.holds_iff]
    exact ⟨fun heq => ⟨_, by rw [Nat.mul_comm]; exact heq.symm⟩, Nat.div_mul_cancel⟩
  have habove : i.holds ((n / 10 ^ j + 1 : Nat) * ((10 ^ j : Nat) : Rat)) = false := by
    rw [← Nat.cast_mul, Bool.eq_false_iff, Ne, h.holds_iff]
    exact Nat.ne_of_gt (Nat.mul_comm (10 ^ j) _ ▸ Nat.lt_mul_div_succ n hpos)
  simp only [Interval.point?, hfloor, habove]
  by_cases hdvd : 10 ^ j ∣ n
  · have hne : n / 10 ^ j ≠ 0 := Nat.ne_of_gt (Nat.div_pos (Nat.le_of_dvd hn hdvd) hpos)
    rw [if_pos hdvd, hbelow.mpr hdvd, Bool.true_and, bne_iff_ne.mpr hne]
  · have hnot := mt hbelow.mp hdvd
    rw [Bool.not_eq_true] at hnot
    rw [if_neg hdvd, hnot, Bool.false_and]

/-- The search ends at the latest where the grid has all whole numbers. -/
theorem writes_search {i : Interval} {n : Nat} (h : i.Narrow n) (hn : 0 < n) (fuel : Nat) {leading : Int}
    {count j : Nat} (hcount : 0 < count) (hj : leading - (count - 1 : Nat) = (j : Int)) (hfuel : j < fuel) :
    (search i leading fuel count).Writes n := by
  induction fuel generalizing count j with
  | zero => exact absurd hfuel (Nat.not_lt_zero j)
  | succ fuel ih =>
    rw [search]
    simp only [hj, ratPower_natCast, h.point?_eq hn]
    by_cases hdvd : 10 ^ j ∣ n
    · simp only [if_pos hdvd]
      have hstripped := writes_stripped (digitCount (n / 10 ^ j)) (n / 10 ^ j) (Int.natCast_nonneg j)
      rwa [Int.toNat_natCast, Nat.div_mul_cancel hdvd] at hstripped
    · simp only [if_neg hdvd]
      have hj0 : j ≠ 0 := by
        rintro rfl
        exact hdvd (Nat.one_dvd n)
      exact ih (j := j - 1) (by omega) (by omega) (by omega)

/-- Less than half a unit away there is no other whole number. -/
theorem narrow_of {n : Nat} (hn : 0 < n) (h : n < 2 ^ 53) :
    (Interval.of .double (n * 2 ^ (52 - n.log2)) ((n.log2 : Int) - 52)).Narrow n := by
  have hbits := Binary.log2_le hn h
  have hexponent : (n.log2 : Int) - 52 - 1 = -((53 - n.log2 : Nat) : Int) := by omega
  have hhalf : ratPower 2 ((n.log2 : Int) - 52 - 1) = 1 / ((2 ^ (53 - n.log2) : Nat) : Rat) := by
    rw [hexponent, ratPower_neg]
  have htwo : (2 : Rat) ≤ ((2 ^ (53 - n.log2) : Nat) : Rat) := by
    exact_mod_cast Nat.pow_le_pow_right (show 0 < 2 by decide) (show 1 ≤ 53 - n.log2 by omega)
  have hpos : 0 < 1 / ((2 ^ (53 - n.log2) : Nat) : Rat) := by positivity
  have hle : 1 / ((2 ^ (53 - n.log2) : Nat) : Rat) ≤ 1 / 2 := one_div_le_one_div_of_le (by norm_num) htwo
  generalize 1 / ((2 ^ (53 - n.log2) : Nat) : Rat) = half at hhalf hpos hle
  have hbelow (p : Prop) [Decidable p] :
      0 < (if p then half / 2 else half) ∧ (if p then half / 2 else half) ≤ half := by
    split
    · constructor <;> linarith
    · exact ⟨hpos, le_refl half⟩
  obtain ⟨hlow, hlow'⟩ := hbelow (n * 2 ^ (52 - n.log2) = Binary.Format.fieldWeight .double ∧
    Binary.Format.lowest .double < (n.log2 : Int) - 52)
  simp only [Interval.of, hhalf, Binary.size_whole hbits]
  constructor
  · rfl
  all_goals linarith

theorem magnitude_bounds {n : Nat} (hn : 0 < n) (h : n < 10 ^ 16) :
    0 ≤ magnitude (n : Rat) ∧ magnitude (n : Rat) ≤ 15 := by
  have hcount : digitCount n ≤ 16 := Digit.length_ofNat_le (by decide) h
  have hpositive : 0 < digitCount n := List.length_pos_iff.mpr (Digit.ofNat_ne_nil n)
  have hone : digitCount 1 = 1 := by decide
  have hleast : digitCount n = 1 → ratPower 10 ((digitCount n : Int) - 1) ≤ (n : Rat) := by
    intro hdigit
    rw [hdigit]
    have hle : (1 : Rat) ≤ n := by exact_mod_cast hn
    simpa [ratPower] using hle
  simp only [magnitude, Rat.num_natCast, Rat.den_natCast, Int.natAbs_natCast, hone, Nat.cast_one]
  split
  · omega
  · next hgreater =>
    have hmore : digitCount n ≠ 1 := fun hdigit => hgreater (hleast hdigit)
    omega

/-- **The shortest digits of a whole number are its own.** -/
theorem writes_shortest {n : Nat} (hn : 0 < n) (h : n < 2 ^ 53) :
    (shortest .double (n * 2 ^ (52 - n.log2)) ((n.log2 : Int) - 52)).Writes n := by
  have hi := narrow_of hn h
  obtain ⟨hlow, hhigh⟩ := magnitude_bounds hn (Nat.lt_trans h (by decide))
  obtain ⟨leading, hleading⟩ := Int.eq_ofNat_of_zero_le hlow
  simp only [shortest, hi.centre]
  exact writes_search hi hn 18 (j := leading) (by decide) (by simpa using hleading) (by omega)

end Scientific

/-! ### As a JSON number -/

namespace Json.Numeral

theorem takeWhole_eq {n : Nat} {ds : List Digit} (h : Digit.extend n ds < wordBound) :
    takeWhole n 0 ds = (Digit.extend n ds, 0) := by
  induction ds generalizing n with
  | nil => rfl
  | cons d ds ih =>
    have hnext : n * 10 + d.val < wordBound := Nat.lt_of_le_of_lt (Digit.le_extend (n * 10 + d.val) ds) h
    rw [takeWhole, if_pos hnext]
    exact ih h

/-- Up to sixteen digits are written without exponent. -/
theorem ofScientific_eq {s : Scientific} {n : Nat} (hs : s.Writes n) (hn : 0 < n) (h : n < 10 ^ 16)
    (negative : Bool) : ofScientific .double negative s = ⟨negative, n, [0], none⟩ := by
  obtain ⟨hexponent, hvalue⟩ := hs
  obtain ⟨k, hk⟩ := Int.eq_ofNat_of_zero_le hexponent
  have htoNat : s.exponent.toNat = k := by omega
  rw [htoNat] at hvalue
  have hdigits : 0 < s.digits := by
    rcases Nat.eq_zero_or_pos s.digits with hzero | hpos
    · rw [hzero, Nat.zero_mul] at hvalue
      omega
    · exact hpos
  have hk16 : k < 16 := by
    have hle : 10 ^ k ≤ n := hvalue ▸ Nat.le_mul_of_pos_left (10 ^ k) hdigits
    exact (Nat.pow_lt_pow_iff_right (by decide)).mp (Nat.lt_of_le_of_lt hle h)
  have hcount : Scientific.digitCount s.digits ≤ 16 - k := by
    apply Digit.length_ofNat_le (by omega)
    have hpower : 10 ^ (16 - k) * 10 ^ k = 10 ^ 16 := by
      rw [← Nat.pow_add]
      congr 1
      omega
    exact Nat.lt_of_mul_lt_mul_right (a := 10 ^ k) (by rw [hvalue, hpower]; exact h)
  have hone : 0 < Scientific.digitCount s.digits := List.length_pos_iff.mpr (Digit.ofNat_ne_nil _)
  have hrange : Positional.double.least ≤ s.leading ∧ s.leading ≤ Positional.double.greatest := by
    simp only [Positional.double, Scientific.leading]
    omega
  simp only [ofScientific, if_pos hrange, if_pos hexponent, htoNat, tenTo]
  rw [show Nat.pow 10 k = 10 ^ k from rfl, hvalue]

/-- **A whole number is read exactly** as long as ten times the number is one of the format. -/
theorem meaning?_whole {n : Nat} (hn : 0 < n) (h : n * 10 < 2 ^ 53) (negative : Bool) :
    meaning? ⟨negative, n, [0], none⟩ =
      some (.real (Binary.whole negative n)) := by
  have hwhole : takeWhole 0 0 (Digit.ofNat n) = (n, 0) := by
    have hvalue : Digit.extend 0 (Digit.ofNat n) = n := Digit.toNat_ofNat n
    rw [takeWhole_eq, hvalue]
    rw [hvalue, wordBound]
    omega
  have hfraction : takeFraction n [0] = (n * 10, 1) := by
    have hbound : n * 10 + (0 : Digit).val < wordBound := by
      simp only [wordBound]
      omega
    rw [takeFraction, if_pos hbound]
    rfl
  have hsize : size? ⟨negative, n, [0], none⟩ = some (Binary.ofNat .double n) := by
    have htimes : timesPower 8 (Binary.ofNat .double (n * 10)) (-1) = some (Binary.ofNat .double n) := by
      rw [← Binary.div_ten hn h]
      rfl
    simp only [size?, hwhole, hfraction]
    exact htimes
  simp only [meaning?, hsize, List.cons_ne_nil, false_and, if_false, Option.map_some]
  rfl

end Json.Numeral

theorem mantissa_ne_zero {n : Nat} (hn : 0 < n) : n * 2 ^ (52 - n.log2) ≠ 0 :=
  Nat.ne_of_gt (Nat.mul_pos hn (Nat.two_pow_pos _))

/-- A whole number is written with all its digits and one place after the point. -/
theorem Json.double_whole (negative : Bool) {n : Nat} (hn : 0 < n) (h : n < 2 ^ 53) :
    Json.double (Binary.whole negative n) = .number ⟨negative, n, [0], none⟩ := by
  have hs := Scientific.writes_shortest hn h
  simp only [Json.double, Binary.whole_eq negative hn h, Json.Numeral.ofBinary?, mantissa_ne_zero hn,
    if_false, Json.Numeral.ofScientific_eq hs hn (Nat.lt_trans h (by decide)), Option.map_some,
    Option.getD_some]

/-! ### As an amount -/

theorem Digit.extend_replicate_zero (n k : Nat) :
    Digit.extend n (List.replicate k Digit.zero) = n * 10 ^ k := by
  induction k generalizing n with
  | zero => exact (Nat.mul_one n).symm
  | succ k ih =>
    have hnext : Digit.extend n (List.replicate (k + 1) Digit.zero) =
        Digit.extend (n * 10) (List.replicate k Digit.zero) := rfl
    rw [hnext, ih, Nat.pow_succ, Nat.mul_comm (10 ^ k) 10, Nat.mul_assoc]

/-- The plain notation of a whole number has no point. -/
theorem Scientific.plain_eq {s : Scientific} {n : Nat} (hs : s.Writes n) :
    ∃ ds, ds ≠ [] ∧ Digit.toNat ds = n ∧ s.plain = Digit.toChars ds := by
  obtain ⟨hexponent, hvalue⟩ := hs
  refine ⟨Digit.ofNat s.digits ++ List.replicate s.exponent.toNat Digit.zero, ?_, ?_, ?_⟩
  · exact List.append_ne_nil_of_left_ne_nil (Digit.ofNat_ne_nil _) _
  · have hfirst : Digit.extend 0 (Digit.ofNat s.digits) = s.digits := Digit.toNat_ofNat s.digits
    rw [Digit.toNat, Digit.extend_append, hfirst, Digit.extend_replicate_zero, hvalue]
  · have hzero : Digit.toChar Digit.zero = '0' := by decide
    simp only [plain, if_pos hexponent, Digit.toChars, List.map_append, List.map_replicate, hzero]

namespace Decimal

/-- Digits that fit are read one by one. -/
theorem readDigits_toChars (long : Bool) {p : Partial} (hp : p.point = false) (ds : List Digit)
    (h : Digit.extend p.coefficient ds < wideFrom) :
    readDigits long false p (Digit.toChars ds) =
      Partial.finish { p with
        coefficient := Digit.extend p.coefficient ds, started := p.started || !ds.isEmpty } := by
  induction ds generalizing p with
  | nil => simp [Digit.toChars, Digit.extend, readDigits]
  | cons d ds ih =>
    have hnarrow : ¬wideFrom ≤ p.coefficient * 10 + d.val :=
      Nat.not_le_of_lt (Nat.lt_of_le_of_lt (Digit.le_extend (p.coefficient * 10 + d.val) ds) h)
    have hrest := ih (p := { p with
      coefficient := p.coefficient * 10 + d.val, started := true }) hp h
    have hstep : readDigits long false p (Digit.toChars (d :: ds)) = readDigits long false
        { p with coefficient := p.coefficient * 10 + d.val, started := true } (Digit.toChars ds) := by
      simp [Digit.toChars, readDigits, hp, Digit.ofChar?_toChar, hnarrow]
    rw [hstep, hrest]
    simp [Digit.extend]

theorem toChar_unsigned : ∀ d : Digit, Digit.toChar d ≠ '+' ∧ Digit.toChar d ≠ '-' := by decide

/-- A sign and digits that fit are an amount without places. -/
theorem ofPlain?_toChars (negative : Bool) {ds : List Digit} (hne : ds ≠ []) (h : Digit.toNat ds < wideFrom) :
    ofPlain? (String.ofList (if negative then '-' :: Digit.toChars ds else Digit.toChars ds)) =
      of? negative (Digit.toNat ds) 0 := by
  have hstarted : (false || !ds.isEmpty) = true := by
    rw [Bool.false_or, Bool.not_eq_true', List.isEmpty_eq_false_iff]
    exact hne
  have hread (long : Bool) (negative : Bool) :
      readDigits long false ⟨negative, 0, 0, false, false⟩ (Digit.toChars ds) =
        of? negative (Digit.toNat ds) 0 := by
    rw [readDigits_toChars long (p := ⟨negative, 0, 0, false, false⟩) rfl ds h]
    simp only [Partial.finish, hstarted, if_true]
    rfl
  cases negative with
  | true =>
    simp only [ofPlain?, if_true, String.toList_ofList]
    exact hread _ true
  | false =>
    simp only [ofPlain?, Bool.false_eq_true, if_false, String.toList_ofList]
    split
    · next rest heq =>
      obtain ⟨d, ds', rfl⟩ := List.exists_cons_of_ne_nil hne
      exact absurd (List.cons.inj heq).1 (toChar_unsigned d).1
    · next rest heq =>
      obtain ⟨d, ds', rfl⟩ := List.exists_cons_of_ne_nil hne
      exact absurd (List.cons.inj heq).1 (toChar_unsigned d).2
    · exact hread _ false

/-- **A whole number of at most 53 bits is an amount as it stands.** -/
theorem ofDouble?_whole (negative : Bool) {n : Nat} (hn : 0 < n) (h : n < 2 ^ 53) :
    ofDouble? (Binary.whole negative n) = of? negative n 0 := by
  obtain ⟨ds, hne, hvalue, hplain⟩ := Scientific.plain_eq (Scientific.writes_shortest hn h)
  have hwide : Digit.toNat ds < wideFrom := by
    rw [hvalue]
    exact Nat.lt_trans h (by decide)
  simp only [ofDouble?, Binary.plain?, Binary.whole_eq negative hn h, mantissa_ne_zero hn, if_false, hplain,
    Option.bind_some, ofPlain?_toChars negative hne hwide, hvalue]

end Decimal

end WalletHub
