import CssMedia.Binary64.Round
import CssMedia.Proofs.Binary64.Units
import Mathlib.Tactic.Linarith

/-!
# Rounding is correct

The numbers that round to a magnitude are those between its two halfway points, which
themselves belong to the magnitude with the even number. `nearest` finds that magnitude.
-/

namespace CssMedia.Binary64

/-- `n / d`, counted in the smallest magnitude, is nearest to the magnitude numbered `index`. -/
structure RoundsTo (n d index : Nat) : Prop where
  low : (units (index - 1) + units index) * d ≤ 2 * n
  high : 2 * n ≤ (units index + units (index + 1)) * d
  odd : index % 2 = 1 →
    (units (index - 1) + units index) * d < 2 * n ∧ 2 * n < (units index + units (index + 1)) * d

theorem RoundsTo.unique {n d i j : Nat} (hd : 0 < d) (hi : RoundsTo n d i) (hj : RoundsTo n d j) :
    i = j := by
  have hle : ∀ {i j : Nat}, RoundsTo n d i → RoundsTo n d j → ¬ i < j := by
    intro i j hi hj hlt
    -- Past the next magnitude there is a gap; the common end of two neighbours is the even one's.
    have h₁ : units i ≤ units (j - 1) := units_mono (by omega)
    have h₂ : units (i + 1) ≤ units j := units_mono (by omega)
    have hmul : (units i + units (i + 1)) * d ≤ (units (j - 1) + units j) * d :=
      Nat.mul_le_mul_right d (Nat.add_le_add h₁ h₂)
    have hhigh := hi.high
    have hlow := hj.low
    have heq : (units i + units (i + 1)) * d = (units (j - 1) + units j) * d := by omega
    have hsum := Nat.eq_of_mul_eq_mul_right hd heq
    have hnext : j = i + 1 := by
      by_contra hne
      have := units_strictMono (show i + 1 < j by omega)
      omega
    rcases Nat.mod_two_eq_zero_or_one i with hpar | hpar
    · have := (hj.odd (by omega)).1
      omega
    · have := (hi.odd hpar).2
      omega
  have h₁ := hle hi hj
  have h₂ := hle hj hi
  omega

/-! ## The nearest whole number -/

theorem roundHalfEven_spec (n : Nat) {d : Nat} (hd : 0 < d) :
    2 * n ≤ (2 * roundHalfEven n d + 1) * d ∧ 2 * roundHalfEven n d * d ≤ 2 * n + d ∧
      (roundHalfEven n d % 2 = 1 →
        2 * n < (2 * roundHalfEven n d + 1) * d ∧ 2 * roundHalfEven n d * d < 2 * n + d) := by
  have hdiv := Nat.div_add_mod n d
  have hmod := Nat.mod_lt n hd
  unfold roundHalfEven
  generalize n / d = q at hdiv ⊢
  generalize n % d = m at hdiv hmod ⊢
  obtain rfl := hdiv
  simp only
  split
  · refine ⟨?_, ?_, fun _ => ⟨?_, ?_⟩⟩ <;> nlinarith
  · split
    · refine ⟨?_, ?_, fun _ => ⟨?_, ?_⟩⟩ <;> nlinarith
    · have hm : 2 * m = d := by omega
      rcases Nat.mod_two_eq_zero_or_one q with hq | hq <;> rw [hq]
      · refine ⟨?_, ?_, fun hodd => ?_⟩
        · nlinarith
        · nlinarith
        · omega
      · refine ⟨?_, ?_, fun hodd => ?_⟩
        · nlinarith
        · nlinarith
        · omega

/-! ## The nearest magnitude -/

theorem units_add_succ_le {e r : Nat} (hr : r ≤ 2 ^ 53) (he : e = 0 ∨ 2 ^ 52 ≤ r) :
    (r + 1) * 2 ^ e ≤ units (e * 2 ^ 52 + r + 1) := by
  by_cases htop : r = 2 ^ 53
  · have hindex : e * 2 ^ 52 + r + 1 = (e + 1) * 2 ^ 52 + (2 ^ 52 + 1) := by omega
    rw [hindex, units_add (by omega) (by omega), htop, Nat.pow_succ]
    have := Nat.two_pow_pos e
    omega
  · rw [Nat.add_assoc, units_add (by omega) (by omega)]

/-- The significand of `n / d` has 53 bits, or fewer if the power is zero. -/
theorem nearest_bounds (n : Nat) {d : Nat} (hd : 0 < d) :
    let e := (n / d).log2 - 52
    n < 2 ^ 53 * (d * 2 ^ e) ∧ (e = 0 ∨ 2 ^ 52 * (d * 2 ^ e) ≤ n) := by
  intro e
  have hlt : n / d < 2 ^ (e + 53) :=
    Nat.lt_of_lt_of_le Nat.lt_log2_self (Nat.pow_le_pow_right (by omega) (by omega))
  have hn : n < 2 ^ (e + 53) * d := (Nat.div_lt_iff_lt_mul hd).mp hlt
  refine ⟨by rw [Nat.pow_add] at hn; linarith, ?_⟩
  by_cases he : e = 0
  · exact .inl he
  · right
    have hne : n / d ≠ 0 := by
      intro h
      simp only [e, h] at he
      exact he rfl
    have hle : 2 ^ (e + 52) ≤ n / d := by
      have := Nat.log2_self_le hne
      rwa [show (n / d).log2 = e + 52 by omega] at this
    have hn' : 2 ^ (e + 52) * d ≤ n := (Nat.le_div_iff_mul_le hd).mp hle
    rw [Nat.pow_add] at hn'
    linarith

theorem nearest_significand_bounds (n : Nat) {d : Nat} (hd : 0 < d) :
    let e := (n / d).log2 - 52
    let r := roundHalfEven n (d * 2 ^ e)
    r ≤ 2 ^ 53 ∧ (e = 0 ∨ 2 ^ 52 ≤ r) := by
  intro e r
  have hpos : 0 < d * 2 ^ e := Nat.mul_pos hd (Nat.two_pow_pos e)
  obtain ⟨hlt, hge⟩ := nearest_bounds n hd
  obtain ⟨hhigh, hlow, -⟩ := roundHalfEven_spec n hpos
  constructor
  · by_contra hr
    have : (2 ^ 53 + 1) * (d * 2 ^ e) ≤ r * (d * 2 ^ e) := Nat.mul_le_mul_right _ (by omega)
    nlinarith
  · apply hge.imp_right
    intro hge
    by_contra hr
    have : (r + 1) * (d * 2 ^ e) ≤ 2 ^ 52 * (d * 2 ^ e) := Nat.mul_le_mul_right _ (by omega)
    nlinarith

theorem units_pred_add_units {e r : Nat} (hr : r ≤ 2 ^ 53) (hpos : 0 < r)
    (he : e = 0 ∨ 2 ^ 52 < r) :
    units (e * 2 ^ 52 + r - 1) + units (e * 2 ^ 52 + r) + 2 ^ e = 2 * r * 2 ^ e := by
  obtain ⟨k, rfl⟩ : ∃ k, r = k + 1 := ⟨r - 1, by omega⟩
  rw [show e * 2 ^ 52 + (k + 1) - 1 = e * 2 ^ 52 + k by omega,
    units_add (by omega) (by omega), units_add hr (by omega)]
  ring

theorem roundsTo_nearest (n : Nat) {d : Nat} (hd : 0 < d) :
    RoundsTo (n * unitsPerOne) d (nearest n d) := by
  unfold nearest
  simp only [Nat.pow_eq]
  generalize n * unitsPerOne = N
  obtain ⟨hr, he⟩ := nearest_significand_bounds N hd
  obtain ⟨-, hge⟩ := nearest_bounds N hd
  generalize (N / d).log2 - 52 = e at hr he hge ⊢
  have hpos : 0 < d * 2 ^ e := Nat.mul_pos hd (Nat.two_pow_pos e)
  obtain ⟨hhigh, hlow, hodd⟩ := roundHalfEven_spec N hpos
  generalize roundHalfEven N (d * 2 ^ e) = r at hr he hhigh hlow hodd ⊢
  have hunits := units_add hr he
  have hnext : (2 * r + 1) * (d * 2 ^ e) ≤
      (units (e * 2 ^ 52 + r) + units (e * 2 ^ 52 + r + 1)) * d := by
    have := Nat.mul_le_mul_right d (units_add_succ_le hr he)
    rw [hunits]
    linarith
  have hparity : (e * 2 ^ 52 + r) % 2 = r % 2 := by omega
  by_cases hedge : r = 0 ∨ e ≠ 0 ∧ r = 2 ^ 52
  · -- The magnitudes below are closer together, or there are none.
    have heven : ¬ (e * 2 ^ 52 + r) % 2 = 1 := by
      rw [hparity]
      rcases hedge with h | h <;> omega
    refine ⟨?_, Nat.le_trans hhigh hnext, fun h => absurd h heven⟩
    rcases hedge with rfl | ⟨hne, rfl⟩
    · obtain rfl : e = 0 := by omega
      simp
    · have hbelow := Nat.mul_le_mul_right d (units_mono (Nat.sub_le (e * 2 ^ 52 + 2 ^ 52) 1))
      have := hge.resolve_left hne
      rw [hunits] at hbelow ⊢
      linarith
  · have hr₀ : 0 < r := Nat.pos_of_ne_zero fun h => hedge (.inl h)
    have he' : e = 0 ∨ 2 ^ 52 < r := by omega
    have hprev : (units (e * 2 ^ 52 + r - 1) + units (e * 2 ^ 52 + r) + 2 ^ e) * d =
        2 * r * 2 ^ e * d := by
      rw [units_pred_add_units hr hr₀ he']
    refine ⟨by linarith, Nat.le_trans hhigh hnext, fun h => ?_⟩
    obtain ⟨hhigh, hlow⟩ := hodd (hparity ▸ h)
    exact ⟨by linarith, Nat.lt_of_lt_of_le hhigh hnext⟩

theorem RoundsTo.nearest_eq {n d index : Nat} (hd : 0 < d)
    (h : RoundsTo (n * unitsPerOne) d index) : nearest n d = index :=
  (roundsTo_nearest n hd).unique hd h

end CssMedia.Binary64
