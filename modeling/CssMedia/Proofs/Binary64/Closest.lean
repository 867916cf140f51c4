import CssMedia.Proofs.Binary64.Decimal
import Mathlib.Algebra.Order.Field.Rat

/-!
# The closest magnitude

Rounding by halfway points is rounding to the closest magnitude, where of two that are as close the
one with the even number is taken.
-/

namespace CssMedia.Binary64

/-- The magnitude numbered `index`, as a number. -/
def magnitude (index : Nat) : ℚ := units index / unitsPerOne

/-- No magnitude is closer, and one of two that are as close has the even number. -/
structure IsNearest (q : ℚ) (index : Nat) : Prop where
  closest : ∀ other, |q - magnitude index| ≤ |q - magnitude other|
  even : ∀ other, other ≠ index → |q - magnitude index| = |q - magnitude other| → index % 2 = 0

theorem magnitude_strictMono {i j : Nat} (h : i < j) : magnitude i < magnitude j := by
  have hpos : (0 : ℚ) < unitsPerOne := by exact_mod_cast unitsPerOne_pos
  exact div_lt_div_of_pos_right (by exact_mod_cast units_strictMono h) hpos

theorem magnitude_mono {i j : Nat} (h : i ≤ j) : magnitude i ≤ magnitude j := by
  rcases Nat.eq_or_lt_of_le h with rfl | h
  · exact le_refl _
  · exact le_of_lt (magnitude_strictMono h)

/-! ## Distances -/

section Distance

variable {q a b : ℚ}

theorem abs_sub_le_of_below (hab : a < b) (h : a + b ≤ 2 * q) : |q - b| ≤ |q - a| := by
  rw [abs_of_pos (show 0 < q - a by linarith), abs_le]
  constructor <;> linarith

theorem abs_sub_le_of_above (hab : b < a) (h : 2 * q ≤ b + a) : |q - b| ≤ |q - a| := by
  rw [abs_of_neg (show q - a < 0 by linarith), abs_le]
  constructor <;> linarith

theorem add_eq_of_abs_sub_eq (hab : a ≠ b) (h : |q - b| = |q - a|) : a + b = 2 * q := by
  rcases abs_eq_abs.mp h with h | h
  · exact absurd (by linarith) hab
  · linarith

end Distance

/-! ## Halfway points -/

/-- The halfway points to the neighbours, as numbers. -/
structure Between (q : ℚ) (index : Nat) : Prop where
  low : magnitude (index - 1) + magnitude index ≤ 2 * q
  high : 2 * q ≤ magnitude index + magnitude (index + 1)
  odd : index % 2 = 1 →
    magnitude (index - 1) + magnitude index < 2 * q ∧ 2 * q < magnitude index + magnitude (index + 1)

/-- The factors are free here, so that no proof writes the power of two out. -/
theorem div_le_twice_iff {a n d u : Nat} (hd : 0 < d) (hu : 0 < u) :
    (a : ℚ) / u ≤ 2 * (n / d) ↔ a * d ≤ 2 * (n * u) := by
  have hd' : (0 : ℚ) < d := by exact_mod_cast hd
  have hu' : (0 : ℚ) < u := by exact_mod_cast hu
  rw [div_le_iff₀ hu', ← mul_div_assoc, div_mul_eq_mul_div, le_div_iff₀ hd', mul_assoc 2]
  norm_cast

theorem twice_le_div_iff {a n d u : Nat} (hd : 0 < d) (hu : 0 < u) :
    2 * ((n : ℚ) / d) ≤ a / u ↔ 2 * (n * u) ≤ a * d := by
  have hd' : (0 : ℚ) < d := by exact_mod_cast hd
  have hu' : (0 : ℚ) < u := by exact_mod_cast hu
  rw [le_div_iff₀ hu', ← mul_div_assoc, div_mul_eq_mul_div, div_le_iff₀ hd', mul_assoc 2]
  norm_cast

theorem RoundsTo.between {n d index : Nat} (hd : 0 < d) (h : RoundsTo (n * unitsPerOne) d index) :
    Between (n / d) index := by
  have hsum : ∀ i j, magnitude i + magnitude j = ((units i + units j : Nat) : ℚ) / unitsPerOne := by
    intro i j
    rw [Nat.cast_add, add_div]
    rfl
  have hpos := unitsPerOne_pos
  constructor
  · rw [hsum, div_le_twice_iff hd hpos]
    exact h.low
  · rw [hsum, twice_le_div_iff hd hpos]
    exact h.high
  · intro hodd
    rw [hsum, hsum, ← not_le, ← not_le, twice_le_div_iff hd hpos, div_le_twice_iff hd hpos, not_le,
      not_le]
    exact h.odd hodd

theorem Between.isNearest {q : ℚ} {index : Nat} (h : Between q index) : IsNearest q index := by
  have hlow : ∀ {other}, other < index → magnitude other + magnitude index ≤
      magnitude (index - 1) + magnitude index := by
    intro other hlt
    have := magnitude_mono (show other ≤ index - 1 by omega)
    linarith
  have hhigh : ∀ {other}, index < other → magnitude index + magnitude (index + 1) ≤
      magnitude index + magnitude other := by
    intro other hlt
    have := magnitude_mono hlt
    linarith
  constructor
  · intro other
    rcases Nat.lt_trichotomy other index with hlt | rfl | hlt
    · exact abs_sub_le_of_below (magnitude_strictMono hlt) ((hlow hlt).trans h.low)
    · exact le_refl _
    · exact abs_sub_le_of_above (magnitude_strictMono hlt) (h.high.trans (hhigh hlt))
  · intro other hne heq
    by_contra hodd
    obtain ⟨hbelow, habove⟩ := h.odd (by omega)
    rcases Nat.lt_or_gt_of_ne hne with hlt | hlt
    · have := hlow hlt
      have := add_eq_of_abs_sub_eq (ne_of_lt (magnitude_strictMono hlt)) heq
      linarith
    · have := hhigh hlt
      have := add_eq_of_abs_sub_eq (ne_of_gt (magnitude_strictMono hlt)) heq
      linarith

end CssMedia.Binary64
