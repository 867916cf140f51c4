import CssMedia.Proofs.CodePoint

/-!
# Classes that are blind to case

No class of code points has one case of a letter and not the other. So what a text starts with it
starts with in lower case too.
-/

namespace CssMedia.CodePoint

/-! ## Classes -/

theorem toLower_eq_iff {c d : Char} (hd : d.isAlpha = false) : c.toLower = d ↔ c = d := by
  by_cases hupper : c.isUpper
  · have hlower := toNat_toLower hupper
    rw [isUpper_iff] at hupper
    rw [Bool.eq_false_iff, ne_eq, isAlpha_iff] at hd
    constructor
    · rintro rfl
      omega
    · rintro rfl
      omega
  · rw [toLower_of_not_isUpper (Bool.not_eq_true _ ▸ hupper)]

theorem toLower_of_isDigit {c : Char} (h : c.isDigit) : c.toLower = c := by
  apply toLower_of_not_isUpper
  rw [isDigit_iff] at h
  rw [Bool.eq_false_iff, ne_eq, isUpper_iff]
  omega

theorem toLower_toLower (c : Char) : c.toLower.toLower = c.toLower :=
  toLower_of_not_isUpper (not_isUpper_toLower c)

/-- The same for both cases of a letter; for a class, that both are in it or neither is. -/
def CaseBlind {α : Type} (f : Char → α) : Prop := ∀ c, f c.toLower = f c

theorem caseBlind_of_isUpper {α : Type} {f : Char → α}
    (h : ∀ c, c.isUpper → f c.toLower = f c) : CaseBlind f := by
  intro c
  by_cases hupper : c.isUpper
  · exact h c hupper
  · rw [toLower_of_not_isUpper (Bool.not_eq_true _ ▸ hupper)]

theorem caseBlind_isDigit : CaseBlind Char.isDigit := by
  refine caseBlind_of_isUpper fun c hupper => ?_
  rw [Bool.eq_iff_iff, isDigit_iff, isDigit_iff, toNat_toLower hupper]
  rw [isUpper_iff] at hupper
  omega

theorem caseBlind_isHexDigit : CaseBlind isHexDigit := by
  refine caseBlind_of_isUpper fun c hupper => ?_
  rw [Bool.eq_iff_iff, isHexDigit_iff, isHexDigit_iff, toNat_toLower hupper]
  rw [isUpper_iff] at hupper
  omega

theorem caseBlind_isBlank : CaseBlind isBlank := by
  intro c
  rw [Bool.eq_iff_iff]
  simp (disch := decide) only [isBlank, Bool.or_eq_true, beq_iff_eq, toLower_eq_iff]

theorem caseBlind_isNameStart : CaseBlind isNameStart := by
  refine caseBlind_of_isUpper fun c hupper => ?_
  rw [Bool.eq_iff_iff, isNameStart_iff, isNameStart_iff, toNat_toLower hupper,
    toLower_eq_iff (by decide)]
  rw [isUpper_iff] at hupper
  omega

theorem caseBlind_isNameChar : CaseBlind isNameChar := by
  intro c
  rw [Bool.eq_iff_iff]
  simp (disch := decide) only [isNameChar, Bool.or_eq_true, beq_iff_eq, toLower_eq_iff,
    caseBlind_isNameStart c, caseBlind_isDigit c]

theorem caseBlind_isNonPrintable : CaseBlind isNonPrintable := by
  refine caseBlind_of_isUpper fun c hupper => ?_
  simp only [isNonPrintable, toNat_toLower hupper]
  rw [isUpper_iff] at hupper
  rw [Bool.eq_iff_iff]
  simp
  omega

theorem caseBlind_hexDigitValue : CaseBlind hexDigitValue := by
  refine caseBlind_of_isUpper fun c hupper => ?_
  have hlower := toNat_toLower hupper
  rw [isUpper_iff] at hupper
  have hdigit : c.isDigit = false := by
    rw [Bool.eq_false_iff, ne_eq, isDigit_iff]
    omega
  have hupper' : ¬ 'a' ≤ c := show ¬ 97 ≤ c.toNat by omega
  have hlower' : 'a' ≤ c.toLower := show 97 ≤ c.toLower.toNat by omega
  rw [hexDigitValue, caseBlind_isDigit, hdigit, if_neg Bool.false_ne_true, if_pos hlower', hlower,
    hexDigitValue, hdigit, if_neg Bool.false_ne_true, if_neg hupper']
  show c.toNat + 32 - 97 + 10 = c.toNat - 65 + 10
  omega

/-! ## Texts -/

section

variable {p : Char → Bool} (h : CaseBlind p) (s : List Char)
include h

theorem CaseBlind.head? : (s.map Char.toLower).head?.any p = s.head?.any p := by
  cases s with
  | nil => rfl
  | cons c s => exact h c

theorem CaseBlind.takeWhile :
    (s.map Char.toLower).takeWhile p = (s.takeWhile p).map Char.toLower := by
  rw [List.takeWhile_map, show p ∘ Char.toLower = p from funext h]

theorem CaseBlind.length_takeWhile :
    ((s.map Char.toLower).takeWhile p).length = (s.takeWhile p).length := by
  rw [h.takeWhile, List.length_map]

end

theorem head?_toLower_eq_iff {d : Char} (hd : d.isAlpha = false) {s : List Char} :
    (s.map Char.toLower).head? = some d ↔ s.head? = some d := by
  cases s with
  | nil => rfl
  | cons c s => simpa using toLower_eq_iff hd

theorem startsEscape_toLower (s : List Char) :
    startsEscape (s.map Char.toLower) = startsEscape s := by
  cases s with
  | nil => rfl
  | cons c rest =>
    rw [List.map_cons, startsEscape_cons, startsEscape_cons, Bool.eq_iff_iff]
    simp (disch := decide) only [Bool.and_eq_true, beq_iff_eq, bne_iff_ne, ne_eq, toLower_eq_iff,
      head?_toLower_eq_iff]

theorem startsName_toLower (s : List Char) : startsName (s.map Char.toLower) = startsName s := by
  cases s with
  | nil => rfl
  | cons c rest =>
    have hstart : CaseBlind fun c => isNameStart c || c == '-' := by
      intro c
      rw [Bool.eq_iff_iff]
      simp (disch := decide) only [caseBlind_isNameStart c, Bool.or_eq_true, beq_iff_eq,
        toLower_eq_iff]
    have hescape := startsEscape_toLower (c :: rest)
    rw [List.map_cons] at hescape ⊢
    simp (disch := decide) only [startsName_cons, toLower_eq_iff, hstart.head?,
      startsEscape_toLower, hescape, caseBlind_isNameStart c]

theorem startsUnsigned_toLower (s : List Char) :
    startsUnsigned (s.map Char.toLower) = startsUnsigned s := by
  cases s with
  | nil => rfl
  | cons c rest =>
    simp (disch := decide) only [List.map_cons, startsUnsigned_cons, toLower_eq_iff,
      caseBlind_isDigit.head?, caseBlind_isDigit c]

theorem startsNumber_toLower (s : List Char) :
    startsNumber (s.map Char.toLower) = startsNumber s := by
  cases s with
  | nil => rfl
  | cons c rest =>
    rw [List.map_cons, startsNumber_cons, startsNumber_cons, ← List.map_cons, ← apply_ite,
      startsUnsigned_toLower]
    simp (disch := decide) only [toLower_eq_iff]

end CssMedia.CodePoint
