import CssMedia.Binary64.Shortest
import CssMedia.Proofs.Binary64.Decimal

/-!
# The shortest decimal reads back

Each step of the search looks at the same rounding interval on a finer grid, so that what
it finds there rounds to the magnitude. A whole magnitude is found before the grids get
finer than one.
-/

namespace CssMedia.Binary64

namespace Interval

/-- The rounding interval of a magnitude on the grid `10 ^ (top - depth)`. -/
structure Locates (i : Interval) (index top depth : Nat) : Prop where
  low : i.low = (units (index - 1) + units index) * 10 ^ depth
  value : i.value = 2 * units index * 10 ^ depth
  high : i.high = (units index + units (index + 1)) * 10 ^ depth
  unit : i.unit = 2 * unitsPerOne * 10 ^ top
  closed : i.closed = (index % 2 == 0)

theorem locates_around (index top : Nat) : (around index top).Locates index top 0 := by
  constructor <;> simp [around, Nat.pow_eq]

theorem Locates.finer {i : Interval} {index top depth : Nat} (h : i.Locates index top depth) :
    i.finer.Locates index top (depth + 1) := by
  constructor <;> simp only [Interval.finer]
  · rw [h.low]; ring
  · rw [h.value]; ring
  · rw [h.high]; ring
  · exact h.unit
  · exact h.closed

theorem Locates.unit_pos {i : Interval} {index top depth : Nat} (h : i.Locates index top depth) :
    0 < i.unit := by
  rw [h.unit]
  exact Nat.mul_pos (Nat.mul_pos (by omega) unitsPerOne_pos) (Nat.pow_pos (by omega))

theorem scale_point {top depth : Nat} (d : Decimal) (hgrid : d.exponent = (top : Int) - depth)
    (x : Nat) :
    x * d.denominator * 10 ^ top = x * 10 ^ depth * 10 ^ d.exponent.toNat ∧
      2 * (d.numerator * unitsPerOne) * 10 ^ top =
        d.coefficient * (2 * unitsPerOne * 10 ^ top) * 10 ^ d.exponent.toNat := by
  constructor
  · unfold Decimal.denominator
    rw [Nat.mul_assoc, Nat.mul_assoc, ← Nat.pow_add, ← Nat.pow_add,
      show (-d.exponent).toNat + top = depth + d.exponent.toNat by omega]
  · unfold Decimal.numerator
    ring

theorem Locates.roundsTo {i : Interval} {index top depth : Nat} (h : i.Locates index top depth)
    {d : Decimal} (hgrid : d.exponent = (top : Int) - depth) (hholds : i.holds d.coefficient) :
    d.RoundsTo index := by
  have htop : 0 < 10 ^ top := Nat.pow_pos (by omega)
  have hexp : 0 < 10 ^ d.exponent.toNat := Nat.pow_pos (by omega)
  have hpoint := fun x => scale_point d hgrid x
  have hle : ∀ {a b : Nat}, a * 10 ^ top ≤ b * 10 ^ top ↔ a ≤ b := Nat.mul_le_mul_right_iff htop
  have hlt : ∀ {a b : Nat}, a * 10 ^ top < b * 10 ^ top ↔ a < b := Nat.mul_lt_mul_right htop
  have hspan : (units (index - 1) + units index) * 10 ^ depth ≤
      (units index + units (index + 1)) * 10 ^ depth := by
    have hbelow : units (index - 1) ≤ units index := units_mono (Nat.sub_le index 1)
    have habove := units_lt_units_succ index
    exact Nat.mul_le_mul_right _ (by omega)
  simp only [holds, h.low, h.high, h.unit, h.closed, Bool.or_eq_true, Bool.and_eq_true,
    decide_eq_true_eq, beq_iff_eq] at hholds
  refine ⟨hle.mp ?_, hle.mp ?_, fun hodd => ⟨hlt.mp ?_, hlt.mp ?_⟩⟩ <;>
    rw [(hpoint _).1, (hpoint 0).2]
  · exact Nat.mul_le_mul_right _ (by omega)
  · exact Nat.mul_le_mul_right _ (by omega)
  · exact Nat.mul_lt_mul_of_pos_right (by omega) hexp
  · exact Nat.mul_lt_mul_of_pos_right (by omega) hexp

theorem holds_of_nearestPoint {tie : Tie} {i : Interval} {digits : Nat}
    (h : i.nearestPoint tie = some digits) : i.holds digits := by
  unfold nearestPoint at h
  simp only at h
  split at h
  · next hbelow habove =>
    split at h
    · cases h; exact hbelow
    · split at h
      · cases h; exact habove
      · cases h
        split
        · exact habove
        · exact hbelow
  · next hbelow _ => cases h; exact hbelow
  · next _ habove => cases h; exact habove
  · simp at h

theorem Locates.holds_exact {i : Interval} {index top depth digits : Nat}
    (h : i.Locates index top depth) (hpos : 0 < index) (hexact : i.value = digits * i.unit) :
    i.holds digits := by
  have hbelow : units (index - 1) < units index := units_strictMono (by omega)
  have habove := units_lt_units_succ index
  have hdepth : 0 < 10 ^ depth := Nat.pow_pos (by omega)
  have hlow : i.low < i.value := by
    rw [h.low, h.value]
    exact Nat.mul_lt_mul_of_pos_right (by omega) hdepth
  have hhigh : i.value < i.high := by
    rw [h.high, h.value]
    exact Nat.mul_lt_mul_of_pos_right (by omega) hdepth
  unfold holds
  rw [← hexact]
  simp [hlow, hhigh]

theorem Locates.value_finest {i : Interval} {index top depth : Nat}
    (h : i.Locates index top depth) (hdepth : depth = 1074 + top) :
    ∃ digits, i.value = digits * i.unit := by
  obtain ⟨k, hk, hone⟩ := exists_unitsPerOne_eq
  refine ⟨units index * 5 ^ k, ?_⟩
  have hpow : 10 ^ depth = 5 ^ k * 2 ^ k * 10 ^ top := by
    rw [hdepth, ← hk, Nat.pow_add, ← Nat.mul_pow]
  rw [h.value, h.unit, hpow, hone]
  ring

theorem Locates.value_whole {i : Interval} {index top depth whole : Nat}
    (h : i.Locates index top depth) (hdepth : depth = top)
    (hwhole : units index = whole * unitsPerOne) : i.value = whole * i.unit := by
  rw [h.value, h.unit, hdepth, hwhole]
  ring

theorem nearestPoint_isSome (tie : Tie) {i : Interval} {digits : Nat} (hpos : 0 < i.unit)
    (hexact : i.value = digits * i.unit) (hholds : i.holds digits) :
    (i.nearestPoint tie).isSome := by
  have hbelow : i.value / i.unit = digits := by rw [hexact, Nat.mul_div_cancel _ hpos]
  unfold nearestPoint
  simp only [hbelow, hholds]
  rcases i.holds (digits + 1) with _ | _
  · rfl
  · simp only
    split_ifs <;> rfl

theorem roundsTo_search {tie : Tie} {index top : Nat} (hpos : 0 < index) :
    ∀ {steps depth : Nat} {i : Interval}, i.Locates index top depth → steps + depth = 1074 + top →
      (i.search tie steps).RoundsTo index
  | 0, depth, i, h, hsteps => by
    obtain ⟨digits, hexact⟩ := h.value_finest (by omega)
    have hdiv : i.value / i.unit = digits := by rw [hexact, Nat.mul_div_cancel _ h.unit_pos]
    unfold search
    rw [hdiv]
    exact h.roundsTo (d := ⟨_, _⟩) (by simp only; omega) (h.holds_exact hpos hexact)
  | steps + 1, depth, i, h, hsteps => by
    unfold search
    split
    · next digits hpoint =>
      exact h.roundsTo (d := ⟨_, _⟩) (by simp only; omega) (holds_of_nearestPoint hpoint)
    · exact roundsTo_search hpos h.finer (by omega)

theorem exponent_search_nonneg {tie : Tie} {index top whole : Nat} (hpos : 0 < index)
    (hwhole : units index = whole * unitsPerOne) :
    ∀ {steps depth : Nat} {i : Interval}, i.Locates index top depth → steps + depth = 1074 + top →
      1074 ≤ steps → 0 ≤ (i.search tie steps).exponent
  | 0, _, _, _, _, hge => by omega
  | steps + 1, depth, i, h, hsteps, hge => by
    unfold search
    split
    · simp only
      omega
    · next hnone =>
      apply exponent_search_nonneg hpos hwhole h.finer (by omega)
      by_contra hlt
      have hexact := h.value_whole (by omega) hwhole
      have hsome := nearestPoint_isSome tie h.unit_pos hexact (h.holds_exact hpos hexact)
      simp [hnone] at hsome

end Interval

theorem roundsTo_shortest (tie : Tie) (index : Nat) : (shortest tie index).RoundsTo index := by
  unfold shortest
  split
  · next hzero =>
    rw [hzero]
    constructor <;> simp [Decimal.numerator]
  · next hne =>
    exact Interval.roundsTo_search (Nat.pos_of_ne_zero hne) (Interval.locates_around index _)
      (by simp)

/-- The shortest decimal of a finite number reads back as that number. -/
theorem nearest_shortest (tie : Tie) {index : Nat} (h : index < finiteCount) :
    (shortest tie index).nearest = index :=
  (roundsTo_shortest tie index).nearest_eq h

theorem exponent_shortest_nonneg (tie : Tie) {index : Nat} (h : unitsPerOne ∣ units index) :
    0 ≤ (shortest tie index).exponent := by
  obtain ⟨whole, hwhole⟩ := h
  unfold shortest
  split
  · exact Int.le_refl _
  · next hne =>
    exact Interval.exponent_search_nonneg (Nat.pos_of_ne_zero hne) (by rw [hwhole, Nat.mul_comm])
      (Interval.locates_around index _) (by simp) (by omega)

/-! ## Whole numbers -/

theorem roundHalfEven_mul (q : Nat) {d : Nat} (hd : 0 < d) : roundHalfEven (q * d) d = q := by
  unfold roundHalfEven
  rw [Nat.mul_mod_left, Nat.mul_div_cancel _ hd]
  simp [hd]

theorem unitsPerOne_dvd_units_nearest (n : Nat) : unitsPerOne ∣ units (nearest n 1) := by
  unfold nearest
  simp only [Nat.pow_eq]
  obtain ⟨hr, he⟩ := nearest_significand_bounds (n * unitsPerOne) (d := 1) (by omega)
  generalize (n * unitsPerOne / 1).log2 - 52 = e at hr he ⊢
  rw [units_add hr he, Nat.one_mul]
  obtain ⟨k, -, hone⟩ := exists_unitsPerOne_eq
  by_cases hsmall : e ≤ k
  · have hsplit : unitsPerOne = 2 ^ (k - e) * 2 ^ e := by
      rw [← Nat.pow_add, Nat.sub_add_cancel hsmall, hone]
    rw [hsplit, ← Nat.mul_assoc, roundHalfEven_mul _ (Nat.two_pow_pos e)]
    exact ⟨n, by ring⟩
  · have hdvd : unitsPerOne ∣ 2 ^ e := by
      rw [hone]
      exact Nat.pow_dvd_pow 2 (by omega)
    exact Nat.dvd_mul_left_of_dvd hdvd _

theorem exponent_shortest_neg (tie : Tie) {index : Nat} (h : ¬ unitsPerOne ∣ units index) :
    (shortest tie index).exponent < 0 := by
  by_contra hge
  have hrounds := roundsTo_shortest tie index
  have hden : (shortest tie index).denominator = 1 := by
    unfold Decimal.denominator
    rw [show (-(shortest tie index).exponent).toNat = 0 by omega, Nat.pow_zero]
  unfold Decimal.RoundsTo at hrounds
  rw [hden] at hrounds
  have hwhole := unitsPerOne_dvd_units_nearest (shortest tie index).numerator
  rw [RoundsTo.nearest_eq (by omega) hrounds] at hwhole
  exact h hwhole

end CssMedia.Binary64
