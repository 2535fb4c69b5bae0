/-!
# Letter case of codes and identifiers

Currency codes and currency ids are compared without regard to the case of the letters
`A` to `Z`; every other character of Unicode counts as it is written. Two functions say
so: `sameLetters` compares two texts place by place, and `fold` writes a text in the form
under which it is filed. That both agree is `sameLetters_iff_fold_eq`.

Everything that is filed by code is filed under the folded form, while the comparisons of the program go place by
place and fold nothing. So either is used where the program uses it, and the law moves from one to the other.
-/

namespace WalletHub.Text

/-- The text with the letters `A` to `Z` made small and every other character kept. -/
def fold (s : String) : String := String.ofList (s.toList.map Char.toLower)

/-- Two runs of characters are equal place by place, up to the case of `A` to `Z`. -/
def sameRun : List Char → List Char → Bool
  | [], [] => true
  | a :: as, b :: bs => a.toLower == b.toLower && sameRun as bs
  | _, _ => false

/-- Two texts are equal up to the case of the letters `A` to `Z`. -/
def sameLetters (a b : String) : Bool := sameRun a.toList b.toList

/-! ### The two agree -/

theorem sameRun_iff (as bs : List Char) :
    sameRun as bs = true ↔ as.map Char.toLower = bs.map Char.toLower := by
  induction as generalizing bs with
  | nil => cases bs <;> simp [sameRun]
  | cons a as ih => cases bs with
    | nil => simp [sameRun]
    | cons b bs => simp [sameRun, ih]

theorem toList_fold (s : String) : (fold s).toList = s.toList.map Char.toLower := by
  simp [fold]

/-- Texts are the same up to letter case exactly when they are filed under one form. -/
theorem sameLetters_iff_fold_eq (a b : String) : sameLetters a b = true ↔ fold a = fold b := by
  rw [sameLetters, sameRun_iff, ← toList_fold, ← toList_fold, String.toList_inj]

end WalletHub.Text
