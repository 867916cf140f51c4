import CssMedia.Proofs.Binary64.Nearest

/-!
# Decimal numbers as fractions

A decimal number is a fraction of whole numbers. The limits on its exponent, past which no
power of ten is written out, do not change what it rounds to.
-/

namespace CssMedia.Binary64

theorem RoundsTo.congr {n d m e index : Nat} (hd : 0 < d) (h : RoundsTo n d index)
    (hsame : n * e = m * d) (he : 0 < e) : RoundsTo m e index := by
  -- Both sides of each inequality are multiplied by the other denominator.
  have hle : ∀ {a b : Nat}, a * d ≤ b * d ↔ a ≤ b := Nat.mul_le_mul_right_iff hd
  have hlt : ∀ {a b : Nat}, a * d < b * d ↔ a < b := Nat.mul_lt_mul_right hd
  have hscale : ∀ {s : Nat}, s * e * d = s * d * e := fun {s} => Nat.mul_right_comm s e d
  have hm : 2 * m * d = 2 * n * e := by rw [Nat.mul_assoc, ← hsame, Nat.mul_assoc]
  refine ⟨hle.mp ?_, hle.mp ?_, fun hodd => ⟨hlt.mp ?_, hlt.mp ?_⟩⟩ <;> rw [hscale, hm]
  · exact Nat.mul_le_mul_right e h.low
  · exact Nat.mul_le_mul_right e h.high
  · exact Nat.mul_lt_mul_of_pos_right (h.odd hodd).1 he
  · exact Nat.mul_lt_mul_of_pos_right (h.odd hodd).2 he

theorem RoundsTo.eq_zero {n d index : Nat} (h : RoundsTo n d index) (hlt : 2 * n < d) :
    index = 0 := by
  by_contra hne
  have hpos : 0 < units (index - 1) + units index :=
    Nat.add_pos_right _ (units_pos (Nat.pos_of_ne_zero hne))
  have := Nat.le_trans (Nat.le_mul_of_pos_left d hpos) h.low
  omega

namespace Decimal

def numerator (d : Decimal) : Nat := d.coefficient * 10 ^ d.exponent.toNat

def denominator (d : Decimal) : Nat := 10 ^ (-d.exponent).toNat

theorem denominator_pos (d : Decimal) : 0 < d.denominator := Nat.pow_pos (by omega)

/-- A decimal number is nearest to the magnitude numbered `index`. -/
def RoundsTo (d : Decimal) (index : Nat) : Prop :=
  Binary64.RoundsTo (d.numerator * unitsPerOne) d.denominator index

/-- Two ways to write one number. -/
def SameValue (d e : Decimal) : Prop := d.numerator * e.denominator = e.numerator * d.denominator

theorem RoundsTo.of_sameValue {d e : Decimal} {index : Nat} (h : d.RoundsTo index)
    (hsame : d.SameValue e) : e.RoundsTo index := by
  refine Binary64.RoundsTo.congr d.denominator_pos h ?_ e.denominator_pos
  rw [Nat.mul_right_comm, hsame, Nat.mul_right_comm]

theorem pow_le_numerator {d : Decimal} {k : Nat} (hne : d.coefficient ≠ 0)
    (hk : (k : Int) ≤ d.exponent) : 10 ^ k ≤ d.numerator :=
  Nat.le_trans (Nat.pow_le_pow_right (by omega) (by omega))
    (Nat.le_mul_of_pos_left _ (Nat.pos_of_ne_zero hne))

theorem RoundsTo.exponent_lt {d : Decimal} {index : Nat} (h : d.RoundsTo index)
    (hindex : index < finiteCount) (hne : d.coefficient ≠ 0) : d.exponent < 309 := by
  by_contra hge
  have hden : d.denominator = 1 := by
    unfold denominator
    rw [show (-d.exponent).toNat = 0 by omega, Nat.pow_zero]
  have hhigh : 2 * (d.numerator * unitsPerOne) ≤ 2 * (2 ^ 1024 * unitsPerOne) := by
    have h₁ := h.high
    have h₂ : units index ≤ units finiteCount := units_mono (Nat.le_of_lt hindex)
    have h₃ : units (index + 1) ≤ units finiteCount := units_mono hindex
    rw [hden, Nat.mul_one] at h₁
    rw [units_finiteCount] at h₂ h₃
    omega
  have hle : d.numerator ≤ 2 ^ 1024 :=
    Nat.le_of_mul_le_mul_right (Nat.le_of_mul_le_mul_left hhigh (by omega)) unitsPerOne_pos
  have hgap : ¬ 10 ^ 309 ≤ 2 ^ 1024 := by decide +kernel
  exact hgap (Nat.le_trans (pow_le_numerator hne (by omega)) hle)

theorem RoundsTo.eq_zero_of_small {d : Decimal} {index : Nat} (h : d.RoundsTo index)
    (hsmall : d.exponent + (Nat.toDigits 10 d.coefficient).length ≤ -324) : index = 0 := by
  generalize hlen : (Nat.toDigits 10 d.coefficient).length = len at hsmall
  have hcoef : d.coefficient ≤ 10 ^ len := by
    have hpos : 0 < len := hlen ▸ Nat.length_toDigits_pos
    exact Nat.le_of_lt ((Nat.length_toDigits_le_iff (by omega) hpos).mp (Nat.le_of_eq hlen))
  have hnum : d.numerator = d.coefficient := by
    unfold numerator
    rw [show d.exponent.toNat = 0 by omega, Nat.pow_zero, Nat.mul_one]
  have hgap : 2 * unitsPerOne < 10 ^ 324 := by decide +kernel
  have hden : 10 ^ 324 * 10 ^ len ≤ d.denominator := by
    rw [← Nat.pow_add, denominator]
    exact Nat.pow_le_pow_right (by omega) (by omega)
  refine Binary64.RoundsTo.eq_zero h (Nat.lt_of_lt_of_le ?_ hden)
  calc 2 * (d.numerator * unitsPerOne)
    _ = 2 * unitsPerOne * d.coefficient := by rw [hnum]; ring
    _ < 10 ^ 324 * 10 ^ len := Nat.mul_lt_mul_of_lt_of_le hgap hcoef (Nat.pow_pos (by omega))

theorem nearest_cases (d : Decimal) :
    d.coefficient = 0 ∧ d.nearest = 0 ∨
      (d.coefficient ≠ 0 ∧ 309 ≤ d.exponent) ∧ d.nearest = finiteCount ∨
      d.exponent + (Nat.toDigits 10 d.coefficient).length ≤ -324 ∧ d.nearest = 0 ∨
      d.nearest = Binary64.nearest d.numerator d.denominator := by
  unfold nearest numerator denominator
  simp only [Nat.pow_eq]
  split
  · next hzero => exact .inl ⟨hzero, rfl⟩
  split
  · next hne hlarge => exact .inr (.inl ⟨⟨hne, hlarge⟩, rfl⟩)
  split
  · next hsmall => exact .inr (.inr (.inl ⟨hsmall, rfl⟩))
  split
  · next hpos =>
    rw [show (-d.exponent).toNat = 0 by omega, Nat.pow_zero]
    exact .inr (.inr (.inr rfl))
  · next hneg =>
    rw [show d.exponent.toNat = 0 by omega, Nat.pow_zero, Nat.mul_one]
    exact .inr (.inr (.inr rfl))

theorem RoundsTo.eq_zero_of_coefficient {d : Decimal} {index : Nat} (h : d.RoundsTo index)
    (hzero : d.coefficient = 0) : index = 0 := by
  refine Binary64.RoundsTo.eq_zero h ?_
  unfold numerator
  rw [hzero, Nat.zero_mul, Nat.zero_mul]
  exact d.denominator_pos

theorem RoundsTo.nearest_eq {d : Decimal} {index : Nat} (h : d.RoundsTo index)
    (hindex : index < finiteCount) : d.nearest = index := by
  rcases d.nearest_cases with ⟨hzero, heq⟩ | ⟨⟨hne, hlarge⟩, -⟩ | ⟨hsmall, heq⟩ | heq
  · rw [heq, h.eq_zero_of_coefficient hzero]
  · have := h.exponent_lt hindex hne
    omega
  · rw [heq, h.eq_zero_of_small hsmall]
  · rw [heq]
    exact Binary64.RoundsTo.nearest_eq d.denominator_pos h

/-- Past the finite magnitudes the number is not told exactly, and need not be. -/
theorem exists_roundsTo (d : Decimal) :
    ∃ index, d.RoundsTo index ∧
      (d.nearest = index ∨ finiteCount ≤ d.nearest ∧ finiteCount ≤ index) := by
  have hrounds : d.RoundsTo (Binary64.nearest d.numerator d.denominator) :=
    roundsTo_nearest d.numerator d.denominator_pos
  refine ⟨_, hrounds, ?_⟩
  rcases Nat.lt_or_ge (Binary64.nearest d.numerator d.denominator) finiteCount with hlt | hge
  · exact .inl (hrounds.nearest_eq hlt)
  have hcount := finiteCount_pos
  rcases d.nearest_cases with ⟨hzero, -⟩ | ⟨-, heq⟩ | ⟨hsmall, -⟩ | heq
  · have := hrounds.eq_zero_of_coefficient hzero
    omega
  · exact .inr ⟨Nat.le_of_eq heq.symm, hge⟩
  · have := hrounds.eq_zero_of_small hsmall
    omega
  · exact .inl heq

theorem exists_clamped_nearest (d : Decimal) :
    ∃ index, d.RoundsTo index ∧ ∀ negative, clamped negative d.nearest = clamped negative index := by
  obtain ⟨index, hrounds, heq | ⟨hnearest, hindex⟩⟩ := d.exists_roundsTo
  · exact ⟨index, hrounds, fun _ => by rw [heq]⟩
  · refine ⟨index, hrounds, fun negative => ?_⟩
    have hcount := finiteCount_pos
    have hcut : ∀ i, finiteCount ≤ i → min i (finiteCount - 1) = finiteCount - 1 := by omega
    have hsign : ∀ i, finiteCount ≤ i → (i != 0) = true := by
      intro i hi
      rw [bne_iff_ne]
      omega
    simp only [clamped, hcut _ hnearest, hcut _ hindex, hsign _ hnearest, hsign _ hindex]

end Decimal

end CssMedia.Binary64
