/-!
# Decimal digits

A digit is a number below ten. `Digit.ofNat` writes a natural number in digits without
leading zeros, `Digit.toNat` reads a run of digits, and `Digit.toNat_ofNat` says that
reading undoes writing.

`Digit.span` takes the run of digits off a text. More laws, on how many digits there are and on runs within
texts, are in `WalletHub.Proofs.Text.Digits`; here are those that the definitions themselves need to be read.
-/

namespace WalletHub

/-- A decimal digit. -/
abbrev Digit := Fin 10

namespace Digit

/-- The digit 0. -/
def zero : Digit := ⟨0, by decide⟩

/-- The digit that a character stands for; only `0` to `9` do. -/
def ofChar? (c : Char) : Option Digit :=
  if h : 48 ≤ c.toNat ∧ c.toNat < 58 then some ⟨c.toNat - 48, by omega⟩ else none

/-- The character of a digit. -/
def toChar (d : Digit) : Char := Char.ofNat (48 + d.val)

/-- The number that a run of digits continues from `start`. -/
def extend (start : Nat) (ds : List Digit) : Nat := ds.foldl (fun n d => n * 10 + d.val) start

/-- The number that a run of digits writes, 0 for the empty run. -/
def toNat (ds : List Digit) : Nat := extend 0 ds

/-- The digits of `n` put before `acc`, at most `fuel` of them. -/
def ofNatAux : Nat → Nat → List Digit → List Digit
  | 0, _, acc => acc
  | fuel + 1, n, acc =>
    let acc := ⟨n % 10, Nat.mod_lt n (by decide)⟩ :: acc
    if n / 10 = 0 then acc else ofNatAux fuel (n / 10) acc

/-- The digits of `n`, without leading zeros; zero is the one digit 0. -/
def ofNat (n : Nat) : List Digit := ofNatAux (n + 1) n []

/-- The characters of a run of digits. -/
def toChars (ds : List Digit) : List Char := ds.map toChar

/-- The digits that a run of characters starts with, and the characters after them. -/
def span : List Char → List Digit × List Char
  | [] => ([], [])
  | c :: cs => match ofChar? c with
    | none => ([], c :: cs)
    | some d => let (ds, rest) := span cs; (d :: ds, rest)

/-! ### Reading undoes writing -/

theorem ofChar?_toChar : ∀ d : Digit, ofChar? (toChar d) = some d := by decide

theorem extend_append (n : Nat) (as bs : List Digit) :
    extend n (as ++ bs) = extend (extend n as) bs := by
  simp [extend]

theorem toNat_ofNatAux (fuel n : Nat) (acc : List Digit) (h : n < fuel) :
    toNat (ofNatAux fuel n acc) = extend n acc := by
  induction fuel generalizing n acc with
  | zero => omega
  | succ fuel ih =>
    rw [ofNatAux]
    by_cases hn : n / 10 = 0
    · have : n % 10 = n := by omega
      simp [hn, toNat, extend, this]
    · have : n / 10 * 10 + n % 10 = n := by omega
      simp only [hn, if_false]
      rw [ih _ _ (by omega)]
      simp [extend, this]

/-- The digits of a number read back as that number. -/
theorem toNat_ofNat (n : Nat) : toNat (ofNat n) = n :=
  toNat_ofNatAux (n + 1) n [] (Nat.lt_succ_self n)

end Digit

end WalletHub
