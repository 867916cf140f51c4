import CssMedia.Binary64
import Mathlib.Tactic.Ring

/-!
# The sizes of magnitudes

A magnitude is a significand of at most 53 bits times a power of two, and its number says
both. Larger numbers stand for larger magnitudes.
-/

namespace CssMedia.Binary64

/-- The magnitude `r · 2 ^ e`, where only the power zero takes significands below `2 ^ 52`. -/
theorem units_add {e r : Nat} (hr : r ≤ 2 ^ 53) (he : e = 0 ∨ 2 ^ 52 ≤ r) :
    units (e * 2 ^ 52 + r) = r * 2 ^ e := by
  unfold units significand scale
  rw [Nat.pow_eq, Nat.pow_eq]
  by_cases hlow : e = 0 ∧ r < 2 ^ 52
  · obtain ⟨rfl, hlt⟩ := hlow
    rw [if_pos (by omega), Nat.zero_mul, Nat.zero_add, Nat.div_eq_of_lt hlt]
  · have hr' : 2 ^ 52 ≤ r := by omega
    rw [if_neg (by omega)]
    by_cases htop : r = 2 ^ 53
    · have hdiv : (e * 2 ^ 52 + r) / 2 ^ 52 = e + 2 := by omega
      have hmod : (e * 2 ^ 52 + r) % 2 ^ 52 = 0 := by omega
      rw [hdiv, hmod, htop, show e + 2 - 1 = e + 1 by omega, Nat.pow_succ 2 e]
      omega
    · have hdiv : (e * 2 ^ 52 + r) / 2 ^ 52 = e + 1 := by omega
      have hmod : (e * 2 ^ 52 + r) % 2 ^ 52 = r - 2 ^ 52 := by omega
      rw [hdiv, hmod, Nat.add_sub_cancel, Nat.add_sub_cancel' hr']

theorem exists_eq_add (index : Nat) :
    ∃ e r, index = e * 2 ^ 52 + r ∧ r < 2 ^ 53 ∧ (e = 0 ∨ 2 ^ 52 ≤ r) := by
  by_cases h : index < 2 ^ 52
  · exact ⟨0, index, by omega, by omega, .inl rfl⟩
  · exact ⟨index / 2 ^ 52 - 1, 2 ^ 52 + index % 2 ^ 52, by omega, by omega, .inr (by omega)⟩

@[simp] theorem units_zero : units 0 = 0 := rfl

theorem units_lt_units_succ (index : Nat) : units index < units (index + 1) := by
  obtain ⟨e, r, rfl, hr, he⟩ := exists_eq_add index
  rw [Nat.add_assoc, units_add (Nat.le_of_lt hr) he, units_add hr (by omega)]
  exact Nat.mul_lt_mul_of_pos_right (Nat.lt_succ_self r) (Nat.two_pow_pos e)

theorem units_strictMono {i j : Nat} (h : i < j) : units i < units j := by
  induction h with
  | refl => exact units_lt_units_succ i
  | step _ ih => exact Nat.lt_trans ih (units_lt_units_succ _)

theorem units_mono {i j : Nat} (h : i ≤ j) : units i ≤ units j := by
  rcases Nat.eq_or_lt_of_le h with rfl | h
  · exact Nat.le_refl _
  · exact Nat.le_of_lt (units_strictMono h)

theorem units_pos {index : Nat} (h : 0 < index) : 0 < units index := units_strictMono h

/-- The exponent has a name here, so that no proof writes the power out. -/
theorem exists_unitsPerOne_eq : ∃ k, k = 1074 ∧ unitsPerOne = 2 ^ k := by
  refine ⟨_, rfl, ?_⟩
  decide +kernel

theorem unitsPerOne_pos : 0 < unitsPerOne := by
  obtain ⟨k, -, hk⟩ := exists_unitsPerOne_eq
  rw [hk]
  exact Nat.two_pow_pos k

theorem units_finiteCount : units finiteCount = 2 ^ 1024 * unitsPerOne := by decide +kernel

end CssMedia.Binary64
