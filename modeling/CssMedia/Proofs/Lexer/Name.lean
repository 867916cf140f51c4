import CssMedia.Lexer.Name
import CssMedia.Proofs.CodePoint
import CssMedia.Proofs.Numeral
import CssMedia.Text.Name

/-!
# Written names read back

The escapes of a written name give its characters, whatever follows them. Only a null
character does not come back: no escape stands for it.
-/

namespace CssMedia.Lexer

open CodePoint

/-- What is read of a character of a written name. -/
def readBack (c : Char) : Char := if c = '\x00' then replacement else c

theorem readBack_of_ne_null {c : Char} (h : c ≠ '\x00') : readBack c = c := if_neg h

/-! ## Escapes by number -/

theorem digitChar_hex : ∀ d < 16, isHexDigit (Nat.digitChar d) ∧ hexDigitValue (Nat.digitChar d) = d := by
  decide

theorem exists_digitChar {n : Nat} {c : Char} (h : c ∈ Nat.toDigits 16 n) :
    ∃ d < 16, c = Nat.digitChar d := by
  induction n using Nat.strongRecOn with
  | _ n ih =>
    rw [Nat.toDigits_eq_if (by omega)] at h
    split at h
    · next hlt => exact ⟨n, hlt, List.mem_singleton.mp h⟩
    · rcases List.mem_append.mp h with h | h
      · exact ih (n / 16) (by omega) h
      · exact ⟨n % 16, by omega, List.mem_singleton.mp h⟩

theorem isHexDigit_of_mem_toDigits {n : Nat} {c : Char} (h : c ∈ Nat.toDigits 16 n) :
    isHexDigit c := by
  obtain ⟨d, hd, rfl⟩ := exists_digitChar h
  exact (digitChar_hex d hd).1

theorem hexValue_append (digits : List Char) (c : Char) :
    hexValue (digits ++ [c]) = 16 * hexValue digits + hexDigitValue c := by
  simp [hexValue]

theorem hexValue_toDigits (n : Nat) : hexValue (Nat.toDigits 16 n) = n := by
  induction n using Nat.strongRecOn with
  | _ n ih =>
    rw [Nat.toDigits_eq_if (by omega)]
    split
    · next hlt => simp [hexValue, (digitChar_hex n hlt).2]
    · rw [hexValue_append, ih (n / 16) (by omega), (digitChar_hex (n % 16) (by omega)).2]
      omega

theorem length_toDigits_toNat (c : Char) : (Nat.toDigits 16 c.toNat).length ≤ 6 := by
  rw [Nat.length_toDigits_le_iff (by omega) (by omega)]
  have := c.valid
  simp only [UInt32.isValidChar, Nat.isValidChar] at this
  show c.val.toNat < _
  omega

/-- The number of a character in hex, with as many zeros before it as there is room for. -/
structure IsCode (digits : List Char) (c : Char) : Prop where
  ne_nil : digits ≠ []
  hex : ∀ d ∈ digits, isHexDigit d
  length_le : digits.length ≤ 6
  value : hexValue digits = c.toNat

theorem isCode_toDigits (c : Char) : IsCode (Nat.toDigits 16 c.toNat) c where
  ne_nil := Nat.toDigits_ne_nil
  hex _ := isHexDigit_of_mem_toDigits
  length_le := length_toDigits_toNat c
  value := hexValue_toDigits c.toNat

theorem hexRun_append {digits rest : List Char} (hdigits : ∀ c ∈ digits, isHexDigit c)
    (hlen : digits.length ≤ 6)
    (hrest : digits.length = 6 ∨ rest.head?.any isHexDigit = false) :
    hexRun (digits ++ rest) = digits := by
  unfold hexRun
  rw [List.take_append, List.take_of_length_le hlen]
  apply takeWhile_append_stop hdigits
  rcases hrest with hsix | hrest
  · simp [hsix]
  rcases h : (rest.take (6 - digits.length)).head? with _ | c
  · rfl
  · cases rest with
    | nil => simp at h
    | cons d rest =>
      rw [List.head?_take] at h
      split at h
      · simp at h
      · exact h ▸ hrest

namespace IsCode

variable {digits : List Char} {c : Char}

theorem exists_cons (h : IsCode digits c) :
    ∃ d more, digits = d :: more ∧ isHexDigit d ∧ d ≠ '\n' := by
  obtain ⟨d, more, rfl⟩ := List.exists_cons_of_ne_nil h.ne_nil
  have hd := h.hex d (List.mem_cons_self ..)
  refine ⟨d, more, rfl, hd, ?_⟩
  rintro rfl
  cases hd

theorem hexScalar_eq (h : IsCode digits c) : hexScalar digits = readBack c := by
  unfold hexScalar
  rw [h.value, readBack]
  by_cases hc : c = '\x00'
  · subst hc; rfl
  · have hzero : c.toNat ≠ 0 := fun h => hc (Char.toNat_inj.mp h)
    rw [if_neg hzero, if_neg hc, scalar_toNat]

theorem scanEscape_eq (h : IsCode digits c) {rest : List Char}
    (hrest : digits.length = 6 ∨ rest.head?.any isHexDigit = false) :
    scanEscape (digits ++ rest) =
      (readBack c, digits.length + if rest.head?.any isBlank then 1 else 0) := by
  have hrun := hexRun_append h.hex h.length_le hrest
  have hvalue := h.hexScalar_eq
  obtain ⟨d, more, rfl, hd, -⟩ := h.exists_cons
  rw [List.cons_append] at hrun ⊢
  rw [scanEscape, if_pos hd]
  simp only [hrun, hvalue]
  rw [← List.cons_append, List.drop_left]

end IsCode

/-! ## The characters of a name -/

theorem scanName_raw {c : Char} (hc : isNameChar c) (rest : List Char) :
    scanName (c :: rest) = (c :: (scanName rest).1, (scanName rest).2 + 1) := by
  rw [scanName, if_pos hc]

theorem scanName_raws {name : List Char} (hname : ∀ c ∈ name, isNameChar c) (rest : List Char) :
    scanName (name ++ rest) = (name ++ (scanName rest).1, (scanName rest).2 + name.length) := by
  induction name with
  | nil => rfl
  | cons c name ih =>
    rw [List.cons_append, scanName_raw (hname c (List.mem_cons_self ..)),
      ih fun d hd => hname d (List.mem_cons_of_mem _ hd)]
    rfl

theorem scanName_escape {c e : Char} {k : Nat} {rest : List Char} (hc : c ≠ '\n')
    (hescape : scanEscape (c :: rest) = (e, k)) :
    scanName ('\\' :: c :: rest) =
      (e :: (scanName ((c :: rest).drop k)).1, (scanName ((c :: rest).drop k)).2 + k + 1) := by
  rw [scanName, if_neg (by decide), if_pos (by simpa [startsEscape] using hc)]
  simp only [hescape]

theorem IsCode.scanName_escape {digits rest : List Char} {c e : Char} {k : Nat}
    (h : IsCode digits c) (hescape : scanEscape (digits ++ rest) = (e, k)) :
    scanName ('\\' :: (digits ++ rest)) =
      (e :: (scanName ((digits ++ rest).drop k)).1, (scanName ((digits ++ rest).drop k)).2 + k + 1) := by
  obtain ⟨d, more, rfl, -, hline⟩ := h.exists_cons
  exact Lexer.scanName_escape hline hescape

theorem IsCode.scanName_blank {digits : List Char} {c blank : Char} (h : IsCode digits c)
    (hblank : isBlank blank) (rest : List Char) :
    scanName ('\\' :: (digits ++ blank :: rest)) =
      (readBack c :: (scanName rest).1, (scanName rest).2 + (digits.length + 2)) := by
  have hhex : (blank :: rest).head?.any isHexDigit = false := by
    simp only [isBlank, Bool.or_eq_true, beq_iff_eq] at hblank
    rcases hblank with (rfl | rfl) | rfl <;> rfl
  have hescape : scanEscape (digits ++ blank :: rest) = (readBack c, digits.length + 1) := by
    rw [h.scanEscape_eq (.inr hhex), List.head?_cons, Option.any_some, if_pos hblank]
  have hdrop : (digits ++ blank :: rest).drop (digits.length + 1) = rest := by
    rw [← List.drop_drop, List.drop_left]
    rfl
  rw [h.scanName_escape hescape, hdrop]
  rfl

theorem IsCode.scanName_whole {digits rest : List Char} {c : Char} (h : IsCode digits c)
    (hsix : digits.length = 6) (hrest : rest.head?.any isBlank = false) :
    scanName ('\\' :: (digits ++ rest)) =
      (readBack c :: (scanName rest).1, (scanName rest).2 + (digits.length + 1)) := by
  have hescape : scanEscape (digits ++ rest) = (readBack c, digits.length) := by
    rw [h.scanEscape_eq (.inl hsix), if_neg (by simp [hrest]), Nat.add_zero]
  rw [h.scanName_escape hescape, List.drop_left]
  rfl

theorem scanName_codeEscape (c : Char) (rest : List Char) :
    scanName (Text.codeEscape c ++ rest) =
      (readBack c :: (scanName rest).1, (scanName rest).2 + (Text.codeEscape c).length) := by
  have h := (isCode_toDigits c).scanName_blank (show isBlank ' ' from rfl) rest
  simpa [Text.codeEscape] using h

theorem scanName_nameChar (c : Char) (rest : List Char) :
    scanName (Text.nameChar c ++ rest) =
      (readBack c :: (scanName rest).1, (scanName rest).2 + (Text.nameChar c).length) := by
  unfold Text.nameChar
  split
  · exact scanName_codeEscape c rest
  · next hcontrol =>
    have hnull : c ≠ '\x00' := by
      rintro rfl
      exact hcontrol (by decide)
    rw [readBack_of_ne_null hnull]
    split
    · next hc => exact scanName_raw hc rest
    · next hc =>
      have hline : c ≠ '\n' := by
        rintro rfl
        exact hcontrol (by decide)
      have hhex : ¬ isHexDigit c := fun h => hc (isNameChar_of_isHexDigit h)
      have hescape : scanEscape (c :: rest) = (c, 1) := by rw [scanEscape, if_neg hhex]
      exact scanName_escape hline hescape

theorem scanName_nameTail (name rest : List Char) :
    scanName (Text.nameTail name ++ rest) =
      (name.map readBack ++ (scanName rest).1,
        (scanName rest).2 + (Text.nameTail name).length) := by
  induction name with
  | nil => rfl
  | cons c name ih =>
    unfold Text.nameTail
    rw [List.flatMap_cons, List.append_assoc, scanName_nameChar, ← Text.nameTail, ih,
      List.map_cons, List.cons_append, List.length_append, Nat.add_assoc, Nat.add_comm (List.length _)]

theorem scanName_nameHead (name rest : List Char) :
    scanName (Text.nameHead name ++ rest) =
      (name.map readBack ++ (scanName rest).1,
        (scanName rest).2 + (Text.nameHead name).length) := by
  unfold Text.nameHead
  split
  · next c name =>
    split
    · rw [List.append_assoc, scanName_codeEscape, scanName_nameTail, List.map_cons,
        List.cons_append, List.length_append, Nat.add_assoc, Nat.add_comm (List.length _)]
    · exact scanName_nameTail (c :: name) rest
  · rfl

theorem scanName_name (name rest : List Char) :
    scanName (Text.name name ++ rest) =
      (name.map readBack ++ (scanName rest).1, (scanName rest).2 + (Text.name name).length) := by
  unfold Text.name
  split
  · have hescape : scanEscape ('-' :: rest) = ('-', 1) := by rw [scanEscape, if_neg (by decide)]
    exact scanName_escape (by simp) hescape
  · next name _ =>
    rw [List.cons_append, scanName_raw (by decide), scanName_nameHead]
    rfl
  · exact scanName_nameHead _ rest

/-! ## Where a written name starts -/

/-- The first character of a name may be the start of an escape. -/
def IsNameHead : List Char → Prop
  | [] => False
  | c :: rest => isNameStart c ∨ c = '\\' ∧ startsEscape (c :: rest)

theorem IsCode.isNameHead {digits : List Char} {c : Char} (h : IsCode digits c) (rest : List Char) :
    IsNameHead ('\\' :: (digits ++ rest)) := by
  obtain ⟨d, more, rfl, -, hline⟩ := h.exists_cons
  exact .inr ⟨rfl, by simpa [startsEscape] using hline⟩

theorem isNameHead_codeEscape (c : Char) (rest : List Char) :
    IsNameHead (Text.codeEscape c ++ rest) := by
  simpa [Text.codeEscape] using (isCode_toDigits c).isNameHead (' ' :: rest)

theorem isNameHead_nameChar {c : Char} (hc : ¬ c.isDigit) (hdash : c ≠ '-') (rest : List Char) :
    IsNameHead (Text.nameChar c ++ rest) := by
  unfold Text.nameChar
  split
  · exact isNameHead_codeEscape c rest
  · next hcontrol =>
    split
    · next hname =>
      simp only [isNameChar, Bool.or_eq_true, beq_iff_eq] at hname
      exact .inl ((hname.resolve_right hdash).resolve_right hc)
    · have hline : c ≠ '\n' := by
        rintro rfl
        exact hcontrol (by decide)
      exact .inr ⟨rfl, by simpa [startsEscape] using hline⟩

theorem isNameHead_nameHead {name : List Char} (hne : name ≠ []) (rest : List Char) :
    IsNameHead (Text.nameHead name ++ rest) ∨
      ∃ tail, name = '-' :: tail ∧ Text.nameHead name = '-' :: Text.nameTail tail := by
  cases name with
  | nil => exact absurd rfl hne
  | cons c name =>
    rw [Text.nameHead]
    split
    · rw [List.append_assoc]
      exact .inl (isNameHead_codeEscape c _)
    · next hdigit =>
      by_cases hdash : c = '-'
      · subst hdash
        exact .inr ⟨name, rfl, rfl⟩
      · unfold Text.nameTail
        rw [List.flatMap_cons, List.append_assoc]
        exact .inl (isNameHead_nameChar hdigit hdash _)

theorem IsNameHead.startsName {s : List Char} (h : IsNameHead s) : startsName s := by
  cases s with
  | nil => exact h.elim
  | cons c rest =>
    rcases h with hc | ⟨rfl, hescape⟩
    · unfold CodePoint.startsName
      split
      · next heq => cases heq; simp [isNameStart] at hc
      · next heq => cases heq; simp [isNameStart] at hc
      · next heq => cases heq; exact hc
      · next heq => simp at heq
    · exact hescape

theorem IsNameHead.not_startsUnsigned {s : List Char} (h : IsNameHead s) :
    startsUnsigned s = false := by
  cases s with
  | nil => exact h.elim
  | cons c rest =>
    unfold startsUnsigned
    split
    · next heq =>
      cases heq
      rcases h with h | h
      · simp [isNameStart] at h
      · simp at h
    · next heq =>
      cases heq
      rcases h with h | h
      · exact not_isDigit_of_isNameStart h
      · rw [h.1]; rfl
    · rfl

theorem IsNameHead.not_startsNumber {s : List Char} (h : IsNameHead s) :
    startsNumber s = false := by
  have hsign : Numeral.scanSign s = [] := by
    unfold Numeral.scanSign
    split
    · rcases h with h | h
      · simp [isNameStart] at h
      · simp at h
    · rcases h with h | h
      · simp [isNameStart] at h
      · simp at h
    · rfl
  rw [Numeral.startsNumber_eq, hsign]
  exact h.not_startsUnsigned

theorem name_head {name : List Char} (hne : name ≠ []) (rest : List Char) :
    IsNameHead (Text.name name ++ rest) ∨
      ∃ tail, Text.name name ++ rest = '-' :: tail ∧
        (IsNameHead tail ∨ ∃ more, tail = '-' :: (Text.nameTail more ++ rest)) := by
  unfold Text.name
  split
  · exact .inl (.inr ⟨rfl, rfl⟩)
  · next name hdash =>
    have hname : name ≠ [] := fun h => hdash (by rw [h])
    refine .inr ⟨_, rfl, ?_⟩
    rcases isNameHead_nameHead hname rest with hhead | ⟨more, -, heq⟩
    · exact .inl hhead
    · exact .inr ⟨more, congrArg (· ++ rest) heq⟩
  · next hnot =>
    rcases isNameHead_nameHead hne rest with hhead | ⟨tail, heq, -⟩
    · exact .inl hhead
    · exact absurd heq (hnot tail)

theorem startsName_name {name : List Char} (hne : name ≠ []) (rest : List Char) :
    startsName (Text.name name ++ rest) := by
  rcases name_head hne rest with h | ⟨tail, heq, h | ⟨more, rfl⟩⟩
  · exact h.startsName
  · rw [heq, startsName]
    cases tail with
    | nil => exact h.elim
    | cons c tail =>
      rcases h with h | ⟨-, h⟩
      · simp [h]
      · simp [h]
  · rw [heq]
    rfl

theorem not_startsNumber_name {name : List Char} (hne : name ≠ []) (rest : List Char) :
    startsNumber (Text.name name ++ rest) = false := by
  rcases name_head hne rest with h | ⟨tail, heq, h | ⟨more, rfl⟩⟩
  · exact h.not_startsNumber
  · rw [heq, startsNumber]
    exact h.not_startsUnsigned
  · rw [heq]
    rfl

end CssMedia.Lexer
