/-!
# White space

The characters with the Unicode property `White_Space`, twenty-five of them, and the
removal of such characters from the ends of a text.

The characters are listed as ranges of code points (`Text.blankRanges`). Only the ends of a text are looked at:
`Text.trim` takes white space off in front, and then off the reversed text. What this leaves of a text is said in
`WalletHub.Proofs.Text.Trim` without going into how it is found.
-/

namespace WalletHub.Text

/-- The ranges of code points with the property `White_Space`, both ends included. -/
def blankRanges : List (Nat × Nat) :=
  [(0x9, 0xD), (0x20, 0x20), (0x85, 0x85), (0xA0, 0xA0), (0x1680, 0x1680), (0x2000, 0x200A),
    (0x2028, 0x2029), (0x202F, 0x202F), (0x205F, 0x205F), (0x3000, 0x3000)]

/-- The character is white space. -/
def isBlank (c : Char) : Bool :=
  blankRanges.any fun (low, high) => low ≤ c.toNat && c.toNat ≤ high

/-- The characters left after the white space in front is dropped. -/
def trimFront (cs : List Char) : List Char := cs.dropWhile isBlank

/-- The text without the white space at its two ends. -/
def trim (s : String) : String :=
  String.ofList (trimFront (trimFront s.toList).reverse).reverse

/-- Everything the core library calls white space is white space here. -/
theorem isBlank_of_isWhitespace (c : Char) (h : c.isWhitespace = true) : isBlank c = true := by
  simp only [Char.isWhitespace, Bool.or_eq_true, decide_eq_true_eq] at h
  rcases h with ((rfl | rfl) | rfl) | rfl <;> decide

example : ((blankRanges.map fun (low, high) => high + 1 - low).sum) = 25 := by decide

end WalletHub.Text
