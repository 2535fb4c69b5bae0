import WalletHub.Time.InstantText
import WalletHub.Proofs.Text.Digits
import WalletHub.Proofs.Time.Calendar

/-!
# An instant is read back from its text

Each reader is followed by the law that it takes off a text just what the writer of the same part
put there (`number?_padded`, `year?_yearText`, `fraction?_fractionText`), and the parts of an instant
of the calendar make up this instant again (`ofText?_toText`).

## What is proved

* `number?_padded`, `mark?_cons`, `span_padded`: runs of digits of a fixed width, and the marks between them.
* `year?_yearText`: a year of any number of digits, with a sign where it needs one.
* `fraction?_padded`, `fraction?_fractionText`: nanoseconds, written with three, six or nine digits or not at all.
* `ofParts?_eq`: the parts of an instant of the calendar make it up again, by `Date.toDays_ofDays`.
* `ofText?_toText`: all of it together.
-/

namespace WalletHub.Instant

/-- The instant has a text of its own: its year is one of the calendar, and only the last second of a
minute runs on as a leap second. -/
structure OfCalendar (t : Instant) : Prop where
  first : Date.firstYear ≤ (Date.ofDays (Int.fdiv t.seconds 86400)).year
  last : (Date.ofDays (Int.fdiv t.seconds 86400)).year ≤ Date.lastYear
  nanos : t.nanos < 2000000000
  leap : 1000000000 ≤ t.nanos → t.seconds % 60 = 59

/-! ### Numbers of a fixed width -/

/-- The digits of a number of a fixed width. -/
def paddedDigits (width n : Nat) : List Digit :=
  List.replicate (width - (Digit.ofNat n).length) Digit.zero ++ Digit.ofNat n

theorem padded_eq (width n : Nat) : padded width n = Digit.toChars (paddedDigits width n) := by
  have hzero : Digit.toChar Digit.zero = '0' := by decide
  simp [padded, paddedDigits, Digit.toChars, hzero]

theorem toNat_paddedDigits (width n : Nat) : Digit.toNat (paddedDigits width n) = n := by
  rw [paddedDigits, Digit.toNat_replicate_append, Digit.toNat_ofNat]

theorem paddedDigits_ne_nil (width n : Nat) : paddedDigits width n ≠ [] := by
  simp [paddedDigits, Digit.ofNat_ne_nil]

theorem length_paddedDigits {width n : Nat} (hw : 0 < width) (hn : n < 10 ^ width) :
    (paddedDigits width n).length = width := by
  have := Digit.length_ofNat_le hw hn
  simp only [paddedDigits, List.length_append, List.length_replicate]
  omega

theorem isBlank_toChar : ∀ d : Digit, Text.isBlank d.toChar = false := by decide

theorem trimFront_cons {c : Char} {cs : List Char} (h : Text.isBlank c = false) :
    Text.trimFront (c :: cs) = c :: cs := by
  simp [Text.trimFront, h]

theorem trimFront_toChars {ds : List Digit} (h : ds ≠ []) (rest : List Char) :
    Text.trimFront (Digit.toChars ds ++ rest) = Digit.toChars ds ++ rest := by
  obtain ⟨d, ds, rfl⟩ := List.exists_cons_of_ne_nil h
  exact trimFront_cons (isBlank_toChar d)

/-- A number of a fixed width is read whatever follows it. -/
theorem number?_padded (width : Nat) {n : Nat} (hw : 0 < width) (hn : n < 10 ^ width) (rest : List Char) :
    number? width (padded width n ++ rest) = some (n, rest) := by
  have hne := paddedDigits_ne_nil width n
  have hlen : (Digit.toChars (paddedDigits width n)).length = width := by
    rw [Digit.toChars, List.length_map, length_paddedDigits hw hn]
  have htake : (Digit.toChars (paddedDigits width n) ++ rest).take width =
      Digit.toChars (paddedDigits width n) := by
    rw [List.take_append_of_le_length (Nat.le_of_eq hlen.symm), List.take_of_length_le (Nat.le_of_eq hlen)]
  have hspan : Digit.span (Digit.toChars (paddedDigits width n)) = (paddedDigits width n, []) := by
    have := Digit.span_toChars (paddedDigits width n) Digit.apart_nil
    rwa [List.append_nil] at this
  simp only [number?, padded_eq, trimFront_toChars hne, htake, hspan, hne, if_false,
    toNat_paddedDigits, length_paddedDigits hw hn]
  rw [List.drop_append_of_le_length (Nat.le_of_eq hlen.symm), List.drop_of_length_le (Nat.le_of_eq hlen),
    List.nil_append]

/-! ### The parts of a text -/

theorem mark?_cons {c : Char} (h : Text.isBlank c = false) (rest : List Char) :
    mark? c (c :: rest) = some rest := by
  simp [mark?, trimFront_cons h]

theorem span_padded (width n : Nat) {rest : List Char} (h : Digit.Apart rest) :
    Digit.span (padded width n ++ rest) = (paddedDigits width n, rest) := by
  rw [padded_eq, Digit.span_toChars _ h]

theorem toChar_ne_sign : ∀ d : Digit, d.toChar ≠ '-' ∧ d.toChar ≠ '+' := by decide

/-- The year is read back, where no digit follows. -/
theorem year?_yearText (year : Int) (rest : List Char) (h : Digit.Apart rest) :
    year? (yearText year ++ rest) = some (year, rest) := by
  obtain ⟨n, hyear⟩ : ∃ n, year.natAbs = n := ⟨_, rfl⟩
  have hspan := span_padded 4 n h
  obtain ⟨d, ds, hds⟩ := List.exists_cons_of_ne_nil (paddedDigits_ne_nil 4 n)
  have habs : Digit.toNat (d :: ds) = n := by rw [← hds, toNat_paddedDigits]
  rw [hds] at hspan
  by_cases hfour : 0 ≤ year ∧ year ≤ 9999
  · have hn : year.toNat < 10 ^ 4 := by omega
    have hread := number?_padded 4 (by decide) hn rest
    obtain ⟨e, es, hes⟩ := List.exists_cons_of_ne_nil (paddedDigits_ne_nil 4 year.toNat)
    have htext : padded 4 year.toNat ++ rest = e.toChar :: (Digit.toChars es ++ rest) := by
      rw [padded_eq, hes]
      rfl
    obtain ⟨hminus, hplus⟩ := toChar_ne_sign e
    simp only [yearText, hfour, and_self, if_true]
    rw [htext] at hread ⊢
    simp only [year?, trimFront_cons (isBlank_toChar e)]
    split
    · next heq => exact absurd (List.cons.inj heq).1 hminus
    · next heq => exact absurd (List.cons.inj heq).1 hplus
    · have : (year.toNat : Int) = year := by omega
      rw [hread, Option.map_some, this]
  · by_cases hneg : year < 0
    · have : -(n : Int) = year := by omega
      simp [yearText, hfour, hneg, hyear, year?, Text.trimFront, Text.isBlank, Text.blankRanges, hspan, habs, this]
    · have : (n : Int) = year := by omega
      simp [yearText, hfour, hneg, hyear, year?, Text.trimFront, Text.isBlank, Text.blankRanges, hspan, habs, this]

/-- Zeros behind multiply by ten. -/
theorem toNat_append_replicate (ds : List Digit) (k : Nat) :
    Digit.toNat (ds ++ List.replicate k Digit.zero) = Digit.toNat ds * 10 ^ k := by
  induction k with
  | zero => simp
  | succ k ih =>
    rw [List.replicate_succ', ← List.append_assoc, Digit.toNat, Digit.extend_append, ← Digit.toNat, ih]
    simp only [Digit.extend, List.foldl, Digit.zero]
    rw [Nat.add_zero, Nat.mul_assoc, Nat.pow_succ]

/-- A fraction of up to nine digits is read in units of the ninth. -/
theorem fraction?_padded (width n : Nat) (hw : 0 < width) (h9 : width ≤ 9) (hn : n < 10 ^ width)
    {rest : List Char} (h : Digit.Apart rest) :
    fraction? ('.' :: padded width n ++ rest) = some (n * 10 ^ (9 - width), rest) := by
  obtain ⟨d, ds, hds⟩ := List.exists_cons_of_ne_nil (paddedDigits_ne_nil width n)
  have hlen := length_paddedDigits hw hn
  have htake : (paddedDigits width n).take 9 = paddedDigits width n :=
    List.take_of_length_le (by omega)
  have hspan := span_padded width n h
  have hval : Digit.toNat (paddedDigits width n ++ List.replicate (9 - (paddedDigits width n).length)
      Digit.zero) = n * 10 ^ (9 - width) := by
    rw [toNat_append_replicate, toNat_paddedDigits, hlen]
  rw [hds] at hspan htake hval
  simp only [fraction?, List.cons_append, hspan, htake]
  rw [← List.cons_append, hval]

theorem fraction?_fractionText (nanos : Nat) (hn : nanos < 1000000000) (rest : List Char) :
    fraction? (fractionText nanos ++ 'Z' :: rest) = some (nanos, 'Z' :: rest) := by
  have hz : Digit.Apart ('Z' :: rest) := Digit.apart_cons (by decide)
  by_cases h0 : nanos = 0
  · simp [fractionText, h0, fraction?]
  by_cases h3 : nanos % 1000000 = 0
  · have hread := fraction?_padded 3 (nanos / 1000000) (by decide) (by decide) (by omega) hz
    have hval : nanos / 1000000 * 10 ^ (9 - 3) = nanos := by omega
    simpa only [fractionText, h0, h3, if_true, if_false, hval] using hread
  by_cases h6 : nanos % 1000 = 0
  · have hread := fraction?_padded 6 (nanos / 1000) (by decide) (by decide) (by omega) hz
    have hval : nanos / 1000 * 10 ^ (9 - 6) = nanos := by omega
    simpa only [fractionText, h0, h3, h6, if_true, if_false, hval] using hread
  · have hread := fraction?_padded 9 nanos (by decide) (by decide) (by omega) hz
    have hval : nanos * 10 ^ (9 - 9) = nanos := by omega
    simpa only [fractionText, h0, h3, h6, if_false, hval] using hread

/-! ### The whole text -/

/-- The date and the time of day of an instant of the calendar make up this instant. The second numbered 60 is the
leap second of the one numbered 59. -/
theorem ofParts?_eq {t : Instant} (h : t.OfCalendar) :
    ofParts? (Date.ofDays (Int.fdiv t.seconds 86400)) ((Int.fmod t.seconds 86400).toNat / 3600)
      ((Int.fmod t.seconds 86400).toNat / 60 % 60)
      ((Int.fmod t.seconds 86400).toNat % 60 + t.nanos / 1000000000) (t.nanos % 1000000000) 0 =
      some t := by
  obtain ⟨hfirst, hlast, hnanos, hleap⟩ := h
  have hvalid := Date.isValid_ofDays _ hfirst hlast
  have hdays := Date.toDays_ofDays (Int.fdiv t.seconds 86400)
  have hdiv : Int.fdiv t.seconds 86400 = t.seconds / 86400 := Int.fdiv_eq_ediv_of_nonneg _ (by decide)
  have hmod : Int.fmod t.seconds 86400 = t.seconds % 86400 := Int.fmod_eq_emod_of_nonneg _ (by decide)
  obtain ⟨s, hs⟩ : ∃ s, (Int.fmod t.seconds 86400).toNat = s := ⟨_, rfl⟩
  have hs' : t.seconds = Int.fdiv t.seconds 86400 * 86400 + s := by omega
  have hday : s < 86400 := by omega
  have hsecond : s % 60 + t.nanos / 1000000000 ≤ 60 := by omega
  have hclock : s / 3600 * 3600 + s / 60 % 60 * 60 + min (s % 60 + t.nanos / 1000000000) 59 = s := by
    omega
  have hseconds : Date.toDays (Date.ofDays (Int.fdiv t.seconds 86400)) * 86400 +
      ((s / 3600 * 3600 + s / 60 % 60 * 60 + min (s % 60 + t.nanos / 1000000000) 59 : Nat) : Int) - 0 =
      t.seconds := by
    rw [hdays, hclock]
    omega
  have hnano : t.nanos % 1000000000 +
      (if s % 60 + t.nanos / 1000000000 = 60 then 1000000000 else 0) = t.nanos := by
    split <;> omega
  have hrange : s / 3600 < 24 ∧ s / 60 % 60 < 60 := by omega
  simp only [ofParts?, hs, hvalid, hrange, hsecond, hseconds, hfirst, hlast, hnano, decide_true,
    Bool.and_self, if_true]
  rfl

/-- **An instant is read back from its text.** -/
theorem ofText?_toText {t : Instant} (h : t.OfCalendar) : ofText? t.toText = some t := by
  have hparts := ofParts?_eq h
  have hvalid := Date.isValid_ofDays _ h.first h.last
  simp only [Date.isValid, Bool.and_eq_true, decide_eq_true_eq] at hvalid
  have hlength : Date.monthLength (Date.ofDays (Int.fdiv t.seconds 86400)).year
      (Date.ofDays (Int.fdiv t.seconds 86400)).month ≤ 31 := by
    simp only [Date.monthLength]
    split
    · split <;> decide
    · split <;> decide
  have hclock := Int.fmod_lt_of_pos t.seconds (b := 86400) (by decide)
  have hnanos := h.nanos
  have htwo {n : Nat} (hn : n < 100) := number?_padded 2 (n := n) (by decide) hn
  have hyear (rest : List Char) := year?_yearText (Date.ofDays (Int.fdiv t.seconds 86400)).year
    ('-' :: rest) (Digit.apart_cons (by decide))
  have hmonth := htwo (n := (Date.ofDays (Int.fdiv t.seconds 86400)).month) (by omega)
  have hday := htwo (n := (Date.ofDays (Int.fdiv t.seconds 86400)).day) (by omega)
  have hhour := htwo (n := (Int.fmod t.seconds 86400).toNat / 3600) (by omega)
  have hminute := htwo (n := (Int.fmod t.seconds 86400).toNat / 60 % 60) (by omega)
  have hsecond := htwo (n := (Int.fmod t.seconds 86400).toNat % 60 + t.nanos / 1000000000) (by omega)
  have hfraction := fraction?_fractionText (t.nanos % 1000000000) (by omega) []
  have hstroke := mark?_cons (c := '-') (by decide)
  have hcolon := mark?_cons (c := ':') (by decide)
  have hoffset : offset? (Text.trimFront ['Z']) = some (0, []) := by decide
  simp only [ofText?, toText, String.toList_ofList, List.append_assoc, List.cons_append,
    Option.bind_eq_bind, Option.bind_some, hyear, hmonth, hday, hhour, hminute, hsecond,
    hfraction, hstroke, hcolon, hoffset]
  exact hparts

end WalletHub.Instant
