import CssMedia.Proofs.Binary64.Closest
import CssMedia.Proofs.Binary64.Text
import Mathlib.Tactic.FieldSimp

/-!
# What a numeral says

The parts of a numeral say a number, and the value of the numeral is the finite number closest to
it.
-/

namespace CssMedia

namespace Binary64.Decimal

def size (d : Decimal) : ℚ := d.coefficient * (10 : ℚ) ^ d.exponent

theorem size_eq (d : Decimal) : d.size = d.numerator / d.denominator := by
  unfold size numerator denominator
  push_cast
  obtain ⟨k, hk | hk⟩ := Int.eq_nat_or_neg d.exponent
  · have hneg : (-d.exponent).toNat = 0 := by omega
    have hpos : d.exponent.toNat = k := by omega
    rw [hneg, hpos, hk, zpow_natCast, pow_zero, div_one]
  · have hneg : (-d.exponent).toNat = k := by omega
    have hpos : d.exponent.toNat = 0 := by omega
    rw [hneg, hpos, hk, zpow_neg, zpow_natCast, pow_zero, mul_one, div_eq_mul_inv]

theorem RoundsTo.isNearest {d : Decimal} {index : Nat} (h : d.RoundsTo index) :
    IsNearest d.size index := by
  rw [size_eq]
  exact (Binary64.RoundsTo.between d.denominator_pos h).isNearest

end Binary64.Decimal

namespace Numeral

/-- The power of ten in the exponent. -/
def power (n : Numeral) : Int :=
  let e : Nat := Nat.ofDigitChars 10 n.exponent 0
  if n.exponentMark.contains '-' then -e else e

/-- The number that a numeral says, without its sign. -/
def size (n : Numeral) : ℚ :=
  (Nat.ofDigitChars 10 n.whole 0 +
    Nat.ofDigitChars 10 n.fraction 0 / (10 : ℚ) ^ n.fraction.length) * (10 : ℚ) ^ n.power

theorem size_decimal (n : Numeral) : n.decimal.size = n.size := by
  have hcoefficient : (n.decimal.coefficient : ℚ) =
      Nat.ofDigitChars 10 n.whole 0 * (10 : ℚ) ^ n.fraction.length +
        Nat.ofDigitChars 10 n.fraction 0 := by
    unfold decimal
    dsimp only
    rw [Nat.ofDigitChars_append, Nat.ofDigitChars_eq_ofDigitChars_zero]
    push_cast
    ring
  have hexponent : n.decimal.exponent = n.power - n.fraction.length := rfl
  have hten : (10 : ℚ) ^ n.fraction.length ≠ 0 := pow_ne_zero _ (by norm_num)
  unfold Binary64.Decimal.size size
  rw [hcoefficient, hexponent, zpow_sub₀ (by norm_num), zpow_natCast]
  field_simp

theorem exists_isNearest_size (n : Numeral) :
    ∃ index, Binary64.IsNearest n.size index ∧ n.value = .clamped n.isNegative index := by
  obtain ⟨index, hrounds, hclamped⟩ := n.decimal.exists_clamped_nearest
  refine ⟨index, ?_, hclamped n.isNegative⟩
  rw [← size_decimal]
  exact hrounds.isNearest

end Numeral

end CssMedia
