import WalletHub.Transfer

/-!
# Equality of amounts and transfers

Amounts are compared by their values and transfers part by part. Both comparisons are equivalences:
`Decimal.beq_trans` multiplies out the places of the amount in the middle.

## What is proved

* `Decimal.beq_iff`, `Transfer.beq_iff`: what it means that two amounts, or two transfers, are equal.
* `Decimal.beq_refl`, `Decimal.beq_symm`, `Decimal.beq_trans`: the comparison of amounts is an equivalence.
* `Transfer.beq_refl`, `Transfer.beq_symm`, `Transfer.beq_trans`: so is that of transfers, part by part.
-/

namespace WalletHub

namespace Decimal

theorem beq_iff (a b : Decimal) : (a == b) = true ↔
    a.negative = b.negative ∧ a.coefficient * tenTo b.scale = b.coefficient * tenTo a.scale := by
  simp only [BEq.beq, Bool.and_eq_true, decide_eq_true_eq]

theorem beq_refl (a : Decimal) : (a == a) = true := (beq_iff a a).mpr ⟨rfl, rfl⟩

theorem beq_symm {a b : Decimal} (h : (a == b) = true) : (b == a) = true := by
  obtain ⟨hn, hc⟩ := (beq_iff a b).mp h
  exact (beq_iff b a).mpr ⟨hn.symm, hc.symm⟩

theorem beq_trans {a b c : Decimal} (hab : (a == b) = true) (hbc : (b == c) = true) :
    (a == c) = true := by
  obtain ⟨hn, hc⟩ := (beq_iff a b).mp hab
  obtain ⟨hn', hc'⟩ := (beq_iff b c).mp hbc
  have hpos : 0 < tenTo b.scale := Nat.pow_pos (by decide)
  refine (beq_iff a c).mpr ⟨hn.trans hn', Nat.eq_of_mul_eq_mul_right hpos ?_⟩
  calc a.coefficient * tenTo c.scale * tenTo b.scale
      = a.coefficient * tenTo b.scale * tenTo c.scale := Nat.mul_right_comm ..
    _ = b.coefficient * tenTo c.scale * tenTo a.scale := by rw [hc, Nat.mul_right_comm]
    _ = c.coefficient * tenTo a.scale * tenTo b.scale := by rw [hc', Nat.mul_right_comm]

end Decimal

namespace Transfer

/-- Equal transfers agree in all parts, and their amounts in value. -/
theorem beq_iff (a b : Transfer) : (a == b) = true ↔
    a.hash = b.hash ∧ (a.amount == b.amount) = true ∧ (a.fee == b.fee) = true ∧
      a.direction = b.direction ∧ a.state = b.state ∧ a.confirmedAt = b.confirmedAt := by
  have h : (a == b) = (a.hash == b.hash && a.amount == b.amount && a.fee == b.fee &&
    a.direction == b.direction && a.state == b.state && a.confirmedAt == b.confirmedAt) := rfl
  simp only [h, Bool.and_eq_true, beq_iff_eq, and_assoc]

theorem beq_refl (a : Transfer) : (a == a) = true :=
  (beq_iff a a).mpr ⟨rfl, a.amount.beq_refl, a.fee.beq_refl, rfl, rfl, rfl⟩

theorem beq_symm {a b : Transfer} (h : (a == b) = true) : (b == a) = true := by
  obtain ⟨h1, h2, h3, h4, h5, h6⟩ := (beq_iff a b).mp h
  exact (beq_iff b a).mpr ⟨h1.symm, Decimal.beq_symm h2, Decimal.beq_symm h3, h4.symm, h5.symm, h6.symm⟩

theorem beq_trans {a b c : Transfer} (hab : (a == b) = true) (hbc : (b == c) = true) :
    (a == c) = true := by
  obtain ⟨h1, h2, h3, h4, h5, h6⟩ := (beq_iff a b).mp hab
  obtain ⟨k1, k2, k3, k4, k5, k6⟩ := (beq_iff b c).mp hbc
  exact (beq_iff a c).mpr ⟨h1.trans k1, Decimal.beq_trans h2 k2, Decimal.beq_trans h3 k3, h4.trans k4,
    h5.trans k5, h6.trans k6⟩

end Transfer

end WalletHub
