import WalletHub.Time.Calendar

/-!
# The calendar is a numbering of days

A day is counted within its cycle of four hundred years as `e` whole centuries, `q` whole runs of
four years, `k` whole years and `d` days (`Place`). `Date.ofDays` finds the year from this place, so
that it is undone by `Date.toDays` (`toDays_ofDays`), and what it finds is a day of the calendar
(`isValid_ofDays`).

## What is proved

* `exists_place`, `exists_place_of_days`: every day has a place in its cycle.
* `Place.yearOfCycle`, `Place.daysBefore`: the year that is found from a place, and the days before it in the
  cycle.
* `month_cases`, `dayOfYear_eq`: the month and the day that are found within a year.
* `ofDays_eq`, `toDays_eq`: both functions in the words of places.
* `toDays_ofDays`: one undoes the other, for all days before and after the first one.
* `le_monthLength`, `isValid_ofDays`: the day that is found is one of its month.
-/

namespace WalletHub.Date

/-- A day of a cycle of four hundred years, from 1 March on: after `e` centuries, `q` runs of four
years, `k` years and `d` days. The last day of a leap year is the one numbered 365. -/
structure Place (n e q k d : Nat) : Prop where
  eq : n = 36524 * e + 1461 * q + 365 * k + d
  century : e ≤ 3
  run : q ≤ 24
  year : k ≤ 3
  day : d ≤ 365
  leap : d = 365 → k = 3 ∧ (q = 24 → e = 3)

theorem exists_place {n : Nat} (h : n < 146097) : ∃ e q k d, Place n e q k d := by
  have hr : n - 36524 * min (n / 36524) 3 ≤ 36524 := by omega
  generalize he : min (n / 36524) 3 = e at hr
  obtain ⟨r, hn⟩ : ∃ r, n = 36524 * e + r := ⟨n - 36524 * e, by omega⟩
  have hs : r - 1461 * (r / 1461) < 1461 := by omega
  obtain ⟨s, hrs⟩ : ∃ s, r = 1461 * (r / 1461) + s := ⟨r - 1461 * (r / 1461), by omega⟩
  refine ⟨e, r / 1461, min (s / 365) 3, s - 365 * min (s / 365) 3, ⟨?_, ?_, ?_, ?_, ?_, ?_⟩⟩ <;> omega

/-- The year of the cycle, by the formula that skips the leap days. It takes away one day for each leap day before,
which `j` corrects at most by one. -/
theorem Place.yearOfCycle {n e q k d : Nat} (h : Place n e q k d) :
    (n - n / 1460 + n / 36524 - n / 146096) / 365 = 100 * e + 4 * q + k := by
  obtain ⟨hn, he, hq, hk, hd, hl⟩ := h
  by_cases hlast : n = 146096
  · subst hlast
    omega
  · have hc : n / 146096 = 0 := by omega
    have hb : n / 36524 = e := by omega
    obtain ⟨j, hj⟩ : ∃ j, (24 * e + q + 365 * k + d) / 1460 = j := ⟨_, rfl⟩
    have ha : n / 1460 = 25 * e + q + j := by omega
    have hd : j ≤ d ∧ d < 365 + j := by omega
    have hv : n - n / 1460 + n / 36524 - n / 146096 = 365 * (100 * e + 4 * q + k) + (d - j) := by omega
    rw [hv]
    omega

/-- The days before the year of the cycle. -/
theorem Place.daysBefore {n e q k d : Nat} (h : Place n e q k d) :
    365 * (100 * e + 4 * q + k) + (100 * e + 4 * q + k) / 4 - (100 * e + 4 * q + k) / 100 + d = n := by
  obtain ⟨hn, he, hq, hk, hd, hl⟩ := h
  omega

/-- What `ofDays` finds: the year from the cycle and the place in it, the month and the day from the
days of the year, which begins in March. -/
theorem ofDays_eq {days : Int} {n e q k d : Nat} (hn : (Int.fmod (days + 719468) 146097).toNat = n)
    (h : Place n e q k d) :
    ofDays days =
      ⟨Int.fdiv (days + 719468) 146097 * 400 + (100 * e + 4 * q + k : Nat) +
          (if (5 * d + 2) / 153 < 10 then 0 else 1),
        if (5 * d + 2) / 153 < 10 then (5 * d + 2) / 153 + 3 else (5 * d + 2) / 153 - 9,
        d - (153 * ((5 * d + 2) / 153) + 2) / 5 + 1⟩ := by
  have hd : n - (365 * (100 * e + 4 * q + k) + (100 * e + 4 * q + k) / 4 - (100 * e + 4 * q + k) / 100) = d := by
    have := h.daysBefore
    omega
  have hm : (5 * d + 2) / 153 ≤ 11 := by
    have := h.day
    omega
  simp only [ofDays, hn, h.yearOfCycle, hd]
  by_cases hlt : (5 * d + 2) / 153 < 10
  · have : ¬ (5 * d + 2) / 153 + 3 ≤ 2 := by omega
    simp [hlt, this]
  · have : (5 * d + 2) / 153 - 9 ≤ 2 := by omega
    simp [hlt, this]

/-- The place of a day in its cycle. -/
theorem exists_place_of_days (days : Int) :
    ∃ n e q k d, (Int.fmod (days + 719468) 146097).toNat = n ∧ Place n e q k d := by
  have hlt : (Int.fmod (days + 719468) 146097).toNat < 146097 := by
    have := Int.fmod_lt_of_pos (days + 719468) (b := 146097) (by decide)
    omega
  obtain ⟨e, q, k, d, h⟩ := exists_place hlt
  exact ⟨_, e, q, k, d, rfl, h⟩

/-- The months, of which the last two belong to the next year. -/
theorem month_cases (m : Nat) (hm : m ≤ 11) :
    ((if m < 10 then m + 3 else m - 9) = m + 3 ∧ m < 10) ∨
      ((if m < 10 then m + 3 else m - 9) + 9 = m ∧ 10 ≤ m) := by
  split <;> omega

/-- The month and the day in it give back the day of the year, where `m` counts from March. -/
theorem dayOfYear_eq {d m month : Nat} (hm : (5 * d + 2) / 153 = m) (hd : d ≤ 365)
    (hmonth : month = m + 3 ∧ m < 10 ∨ month + 9 = m ∧ 10 ≤ m) :
    (153 * (((month : Int) + 9) % 12) + 2) / 5 + (d - (153 * m + 2) / 5 + 1 : Nat) - 1 = d := by
  have hle : (153 * m + 2) / 5 ≤ d := by omega
  have hmod : ((month : Int) + 9) % 12 = m := by omega
  have hcast : (153 * (m : Int) + 2) / 5 = ((153 * m + 2) / 5 : Nat) := by omega
  rw [hmod, hcast]
  omega

/-- What `toDays` counts, for the year `y` of the cycle `c` and the day `d` of this year. -/
theorem toDays_eq {date : Date} {c : Int} {y d : Nat} (hy : y < 400)
    (hyear : (if date.month ≤ 2 then date.year - 1 else date.year) = c * 400 + y)
    (hday : (153 * (((date.month : Int) + 9) % 12) + 2) / 5 + date.day - 1 = d) :
    toDays date = c * 146097 + (y * 365 + (y / 4 : Nat) - (y / 100 : Nat) + d) - 719468 := by
  have h1 : Int.fdiv (c * 400 + y) 400 = c := by
    rw [Int.fdiv_eq_ediv_of_nonneg _ (by decide)]
    omega
  have h2 : Int.fmod (c * 400 + y) 400 = y := by
    rw [Int.fmod_eq_emod_of_nonneg _ (by decide)]
    omega
  have h3 : Int.fdiv y 4 = (y / 4 : Nat) := Int.fdiv_eq_ediv_of_nonneg _ (by decide)
  have h4 : Int.fdiv y 100 = (y / 100 : Nat) := Int.fdiv_eq_ediv_of_nonneg _ (by decide)
  simp only [toDays, hyear, hday, h1, h2, h3, h4]

/-- **Counting the days undoes finding the date.** -/
theorem toDays_ofDays (days : Int) : toDays (ofDays days) = days := by
  obtain ⟨n, e, q, k, d, hn, h⟩ := exists_place_of_days days
  have hy : 100 * e + 4 * q + k < 400 := by
    obtain ⟨_, he, hq, hk, -, -⟩ := h
    omega
  have hb := h.daysBefore
  have hd := h.day
  rw [ofDays_eq hn h]
  rw [Int.fmod_eq_emod_of_nonneg _ (by decide)] at hn
  rw [Int.fdiv_eq_ediv_of_nonneg _ (by decide)]
  generalize 100 * e + 4 * q + k = y at hy hb ⊢
  obtain ⟨m, hm⟩ : ∃ m, (5 * d + 2) / 153 = m := ⟨_, rfl⟩
  rw [hm, toDays_eq (c := (days + 719468) / 146097) (y := y) (d := d) hy ?_ ?_]
  · omega
  · by_cases hlt : m < 10
    · have : ¬ m + 3 ≤ 2 := by omega
      simp [hlt, this]
    · have : m - 9 ≤ 2 := by omega
      simp [hlt, this]
  · exact dayOfYear_eq hm hd (month_cases m (by omega))

/-- The day found lies in the month found: only the last day of a leap year is a 29 February. -/
theorem le_monthLength (year : Int) {d m month : Nat} (hm : (5 * d + 2) / 153 = m) (hd : d ≤ 365)
    (hmonth : month = m + 3 ∧ m < 10 ∨ month + 9 = m ∧ 10 ≤ m) (hleap : d = 365 → isLeap year = true) :
    d - (153 * m + 2) / 5 + 1 ≤ monthLength year month := by
  simp only [monthLength]
  by_cases hfeb : month = 2
  · rw [if_pos hfeb]
    by_cases hlast : d = 365
    · rw [if_pos (hleap hlast)]
      omega
    · split <;> omega
  · rw [if_neg hfeb]
    split <;> omega

/-- The date of a day is one of the calendar, when its year is. -/
theorem isValid_ofDays (days : Int) (h1 : firstYear ≤ (ofDays days).year)
    (h2 : (ofDays days).year ≤ lastYear) : (ofDays days).isValid = true := by
  obtain ⟨n, e, q, k, d, hn, h⟩ := exists_place_of_days days
  rw [ofDays_eq hn h] at h1 h2 ⊢
  obtain ⟨-, he, hq, hk, hd, hl⟩ := h
  have hm : (5 * d + 2) / 153 ≤ 11 := by omega
  have hmonth := month_cases ((5 * d + 2) / 153) hm
  have hleap : d = 365 → isLeap (Int.fdiv (days + 719468) 146097 * 400 + (100 * e + 4 * q + k : Nat) +
      (if (5 * d + 2) / 153 < 10 then 0 else 1)) = true := by
    intro hlast
    obtain ⟨hk3, hq24⟩ := hl hlast
    simp only [hlast, isLeap, Bool.and_eq_true, Bool.or_eq_true, beq_iff_eq, bne_iff_ne, ne_eq]
    omega
  have hday := le_monthLength _ rfl hd hmonth hleap
  generalize (if (5 * d + 2) / 153 < 10 then (5 * d + 2) / 153 + 3 else (5 * d + 2) / 153 - 9) = month
    at h1 h2 hmonth hday ⊢
  have hrange : 1 ≤ month ∧ month ≤ 12 := by omega
  simp only [isValid, Bool.and_eq_true, decide_eq_true_eq]
  exact ⟨⟨⟨⟨⟨h1, h2⟩, hrange.1⟩, hrange.2⟩, Nat.le_add_left 1 _⟩, hday⟩

end WalletHub.Date
