import CssMedia.CodePoint

/-!
# Classes of code points

The characters of numbers, the classes as ranges of numbers, how they lie to each other, and what the
first code point of a text says of its start.
-/

namespace CssMedia.CodePoint

/-! ## Scalar values -/

theorem scalar_toNat (c : Char) : scalar c.toNat = c := by
  rw [scalar, if_pos (show c.toNat.isValidChar from c.valid), Char.ofNat_toNat]

theorem toNat_scalar {n : Nat} (h : n.isValidChar) : (scalar n).toNat = n := by
  rw [scalar, if_pos h, Char.ofNat, dif_pos h]
  rfl

theorem scalar_surrogate {n : Nat} (hlow : 0xD800 ≤ n) (hhigh : n < 0xE000) :
    scalar n = replacement := by
  rw [scalar, if_neg]
  unfold Nat.isValidChar
  omega

/-! ## Ranges -/

theorem isDigit_iff {c : Char} : c.isDigit ↔ 48 ≤ c.toNat ∧ c.toNat ≤ 57 :=
  Char.isDigit_iff_toNat

theorem isUpper_iff {c : Char} : c.isUpper ↔ 65 ≤ c.toNat ∧ c.toNat ≤ 90 := by
  have h : c.isUpper = decide (65 ≤ c.toNat ∧ c.toNat ≤ 90) := rfl
  simp [h]

theorem isAlpha_iff {c : Char} :
    c.isAlpha ↔ (65 ≤ c.toNat ∧ c.toNat ≤ 90) ∨ (97 ≤ c.toNat ∧ c.toNat ≤ 122) := by
  have h : c.isAlpha = (decide (65 ≤ c.toNat ∧ c.toNat ≤ 90) ||
      (decide (97 ≤ c.toNat) && decide (c.toNat ≤ 122))) := rfl
  simp [h]

theorem isHexDigit_iff {c : Char} : isHexDigit c ↔ (48 ≤ c.toNat ∧ c.toNat ≤ 57) ∨
    (97 ≤ c.toNat ∧ c.toNat ≤ 102) ∨ (65 ≤ c.toNat ∧ c.toNat ≤ 70) := by
  have h : isHexDigit c = (c.isDigit || (decide (97 ≤ c.toNat) && decide (c.toNat ≤ 102)) ||
      (decide (65 ≤ c.toNat) && decide (c.toNat ≤ 70))) := rfl
  simp [h, isDigit_iff, or_assoc]

theorem isNameStart_iff {c : Char} : isNameStart c ↔
    ((65 ≤ c.toNat ∧ c.toNat ≤ 90) ∨ (97 ≤ c.toNat ∧ c.toNat ≤ 122)) ∨ c = '_' ∨ 128 ≤ c.toNat := by
  simp [isNameStart, isAlpha_iff, or_assoc]

theorem isControl_iff {c : Char} :
    isControl c ↔ c.toNat < 32 ∨ (127 ≤ c.toNat ∧ c.toNat < 160) := by
  simp [isControl]

/-! ## Classes in and out of classes -/

theorem isNameChar_of_isHexDigit {c : Char} (h : isHexDigit c) : isNameChar c := by
  rw [isHexDigit_iff] at h
  simp only [isNameChar, Bool.or_eq_true, isNameStart_iff, isDigit_iff]
  omega

theorem not_isDigit_of_isNameStart {c : Char} (h : isNameStart c) : c.isDigit = false := by
  rw [isNameStart_iff] at h
  rw [Bool.eq_false_iff, ne_eq, isDigit_iff]
  rcases h with h | rfl | h
  · omega
  · decide
  · omega

theorem not_isControl_of_isDigit {c : Char} (h : c.isDigit) : isControl c = false := by
  rw [isDigit_iff] at h
  rw [Bool.eq_false_iff, ne_eq, isControl_iff]
  omega

/-! ## Lower case -/

theorem toLower_of_not_isUpper {c : Char} (h : c.isUpper = false) : c.toLower = c :=
  dif_neg (of_decide_eq_false h)

theorem toNat_toLower {c : Char} (h : c.isUpper) : c.toLower.toNat = c.toNat + 32 := by
  have hlower : c.toLower = ⟨c.val + ('a'.val - 'A'.val), _⟩ := dif_pos (of_decide_eq_true h)
  have hvalue : c.toLower.toNat = (c.toNat + 32) % 2 ^ 32 := by
    rw [hlower]
    exact UInt32.toNat_add c.val ('a'.val - 'A'.val)
  rw [isUpper_iff] at h
  omega

theorem not_isUpper_toLower (c : Char) : c.toLower.isUpper = false := by
  by_cases h : c.isUpper
  · rw [Bool.eq_false_iff, ne_eq, isUpper_iff, toNat_toLower h]
    rw [isUpper_iff] at h
    omega
  · rw [Bool.not_eq_true] at h
    rw [toLower_of_not_isUpper h, h]

theorem toLower_ne_null {c : Char} (h : c ≠ '\x00') : c.toLower ≠ '\x00' := by
  by_cases hupper : c.isUpper
  · intro hnull
    have hvalue := toNat_toLower hupper
    rw [hnull] at hvalue
    exact absurd hvalue (by simp)
  · rw [Bool.not_eq_true] at hupper
    rwa [toLower_of_not_isUpper hupper]

/-! ## What a text starts with -/

theorem startsEscape_cons (c : Char) (rest : List Char) :
    startsEscape (c :: rest) = (c == '\\' && rest.head? != some '\n') := by
  by_cases hc : c = '\\'
  · subst hc
    rfl
  · simp [startsEscape, hc]

theorem startsName_cons (c : Char) (rest : List Char) :
    startsName (c :: rest) =
      if c = '-' then rest.head?.any (fun c => isNameStart c || c == '-') || startsEscape rest
      else if c = '\\' then startsEscape (c :: rest)
      else isNameStart c := by
  unfold startsName
  split
  · next heq => cases heq; rfl
  · next heq => cases heq; rfl
  · next hminus hescape heq =>
    cases heq
    rw [if_neg hminus, if_neg hescape]
  · next heq => cases heq

theorem startsUnsigned_cons (c : Char) (rest : List Char) :
    startsUnsigned (c :: rest) = if c = '.' then rest.head?.any Char.isDigit else c.isDigit := by
  by_cases hc : c = '.'
  · subst hc
    rfl
  · simp [startsUnsigned, hc]

theorem startsNumber_cons (c : Char) (rest : List Char) :
    startsNumber (c :: rest) = startsUnsigned (if c = '+' ∨ c = '-' then rest else c :: rest) := by
  by_cases hplus : c = '+'
  · subst hplus
    rfl
  by_cases hminus : c = '-'
  · subst hminus
    rfl
  · simp [startsNumber, hplus, hminus]

end CssMedia.CodePoint
