import CssMedia.Proofs.Lexer.FirstToken
import CssMedia.Proofs.Lexer.Spells
import CssMedia.Text

/-!
# Names, numbers and units as pieces of a text

Each is one token, and the token holds what was written.
-/

namespace CssMedia.Lexer

open CodePoint

/-! ## Names -/

/-- Whatever stop follows, the text is one name, and these are its characters. -/
structure WritesName (s name : List Char) : Prop where
  visible : ∀ c ∈ s, isControl c = false
  scan : ∀ rest, scanName (s ++ rest) =
    (name ++ (scanName rest).1, (scanName rest).2 + s.length)
  starts : ∀ rest, startsName (s ++ rest)
  noNumber : ∀ rest, startsNumber (s ++ rest) = false
  noComment : ∀ rest, Stops rest → ¬ ['-', '-', '>'] <+: s ++ rest

theorem starts_of_startsName {c : Char} {rest : List Char} (h : startsName (c :: rest)) :
    isNameStart c ∨ c = '-' ∨ c = '\\' := by
  unfold startsName at h
  split at h
  · next heq => cases heq; exact .inr (.inl rfl)
  · next heq => cases heq; exact .inr (.inr rfl)
  · next heq => cases heq; exact .inl h
  · simp at h

theorem WritesName.ne_nil {s name : List Char} (h : WritesName s name) : s ≠ [] := by
  rintro rfl
  exact absurd (h.starts []) (by decide)

theorem tokenBefore_name {s name rest : List Char} (hne : s ≠ []) (hstarts : startsName (s ++ rest))
    (hnumber : startsNumber (s ++ rest) = false) (hcdc : ¬ ['-', '-', '>'] <+: s ++ rest)
    (hscan : scanName (s ++ rest) = (name, s.length)) (hparen : rest.head? ≠ some '(') :
    TokenBefore rest s (.ident (lowercase name)) := by
  have hident : scanIdentLike (s ++ rest) = (.ident (lowercase name), s.length) := by
    unfold scanIdentLike
    simp only [hscan, List.drop_left]
    split
    · exact absurd rfl hparen
    · rfl
  cases s with
  | nil => exact absurd rfl hne
  | cons c tail =>
    rw [List.cons_append] at hstarts hnumber hcdc hident
    refine ⟨?_, c, tail, rfl, ?_⟩
    · rintro ⟨⟩
      simp [startsName, isNameStart] at hstarts
    · rw [nextToken_name hstarts hnumber hcdc, hident]
      rfl

theorem WritesName.tokenBefore {s name : List Char} (h : WritesName s name) {rest : List Char}
    (hrest : Stops rest) : TokenBefore rest s (.ident (lowercase name)) := by
  have hscan : scanName (s ++ rest) = (name, s.length) := by
    rw [h.scan, hrest.scanName, List.append_nil, Nat.zero_add]
  exact tokenBefore_name h.ne_nil (h.starts rest) (h.noNumber rest) (h.noComment rest hrest) hscan
    (hrest.head_ne rfl)

theorem WritesName.spells {s name : List Char} (h : WritesName s name) :
    Spells s (IsOne (.ident (lowercase name))) :=
  .one h.visible (fun _ => h.tokenBefore) rfl

theorem visible_codeEscape (c : Char) : ∀ d ∈ Text.codeEscape c, isControl d = false := by
  have hdigit : ∀ n < 16, isControl (Nat.digitChar n) = false := by decide
  intro d hd
  simp only [Text.codeEscape, List.cons_append, List.mem_cons, List.mem_append,
    List.not_mem_nil, or_false] at hd
  rcases hd with rfl | hd | rfl
  · rfl
  · obtain ⟨n, hn, rfl⟩ := exists_digitChar hd
    exact hdigit n hn
  · rfl

theorem visible_nameChar (c : Char) : ∀ d ∈ Text.nameChar c, isControl d = false := by
  unfold Text.nameChar
  split
  · exact visible_codeEscape c
  · next hc =>
    have hvisible : isControl c = false := by simpa using hc
    split
    · simpa using hvisible
    · simpa using ⟨rfl, hvisible⟩

theorem visible_nameTail (name : List Char) : ∀ d ∈ Text.nameTail name, isControl d = false := by
  intro d hd
  obtain ⟨c, -, hc⟩ := List.mem_flatMap.mp hd
  exact visible_nameChar c d hc

theorem visible_nameHead (name : List Char) : ∀ d ∈ Text.nameHead name, isControl d = false := by
  unfold Text.nameHead
  split
  · split
    · exact List.forall_mem_append.mpr ⟨visible_codeEscape _, visible_nameTail _⟩
    · exact visible_nameTail _
  · simp

theorem visible_name (name : List Char) : ∀ d ∈ Text.name name, isControl d = false := by
  unfold Text.name
  split
  · exact visible_of_all rfl
  · exact List.forall_mem_cons.mpr ⟨rfl, visible_nameHead _⟩
  · exact visible_nameHead _

theorem head_nameChar (c : Char) :
    (∃ tail, Text.nameChar c = '\\' :: tail) ∨ isNameChar c ∧ Text.nameChar c = [c] := by
  unfold Text.nameChar
  split
  · exact .inl ⟨_, rfl⟩
  · split
    · next hc => exact .inr ⟨hc, rfl⟩
    · exact .inl ⟨_, rfl⟩

theorem head_nameTail (name rest : List Char) :
    name = [] ∧ Text.nameTail name ++ rest = rest ∨
      (∃ tail, Text.nameTail name ++ rest = '\\' :: tail) ∨
      ∃ c more, name = c :: more ∧ isNameChar c ∧
        Text.nameTail name ++ rest = c :: (Text.nameTail more ++ rest) := by
  cases name with
  | nil => exact .inl ⟨rfl, rfl⟩
  | cons c name =>
    have htail : Text.nameTail (c :: name) = Text.nameChar c ++ Text.nameTail name := rfl
    rw [htail, List.append_assoc]
    rcases head_nameChar c with ⟨tail, heq⟩ | ⟨hc, heq⟩
    · exact .inr (.inl ⟨_, by rw [heq, List.cons_append]⟩)
    · exact .inr (.inr ⟨c, name, rfl, hc, by rw [heq, List.singleton_append]⟩)

theorem head_name (c : Char) (name : List Char) :
    ∃ tail, Text.name (c :: name) = '\\' :: tail ∨ Text.name (c :: name) = c :: tail := by
  have hhead : ∃ tail, Text.nameHead (c :: name) = '\\' :: tail ∨
      Text.nameHead (c :: name) = c :: tail := by
    rw [Text.nameHead]
    split
    · exact ⟨_, .inl rfl⟩
    · unfold Text.nameTail
      rw [List.flatMap_cons]
      rcases head_nameChar c with ⟨tail, heq⟩ | ⟨-, heq⟩
      · exact ⟨_, .inl (by rw [heq, List.cons_append])⟩
      · exact ⟨_, .inr (by rw [heq, List.singleton_append])⟩
  unfold Text.name
  split
  · exact ⟨_, .inl rfl⟩
  · next heq =>
    obtain rfl := (List.cons.inj heq).1
    exact ⟨_, .inr rfl⟩
  · exact hhead

theorem head_nameTail_ne {name rest : List Char} {d : Char} (hd : isNameChar d = false)
    (hslash : d ≠ '\\') (hrest : rest.head? ≠ some d) :
    (Text.nameTail name ++ rest).head? ≠ some d := by
  rcases head_nameTail name rest with ⟨-, heq⟩ | ⟨tail, heq⟩ | ⟨c, more, -, hc, heq⟩
  · rwa [heq]
  · rw [heq]
    exact fun h => hslash (Option.some.inj h).symm
  · rw [heq]
    intro h
    rw [Option.some.inj h] at hc
    simp [hc] at hd

theorem IsNameHead.not_closesComment {s : List Char} (h : IsNameHead s) : ¬ ['-', '-', '>'] <+: s := by
  rintro ⟨after, rfl⟩
  simp [IsNameHead, isNameStart] at h

theorem not_closesComment_name {name : List Char} (hne : name ≠ []) {rest : List Char}
    (hrest : Stops rest) : ¬ ['-', '-', '>'] <+: Text.name name ++ rest := by
  rcases name_head hne rest with h | ⟨tail, heq, h | ⟨more, rfl⟩⟩
  · exact h.not_closesComment
  · rw [heq, List.cons_prefix_cons]
    rintro ⟨-, after, rfl⟩
    simp [IsNameHead, isNameStart] at h
  · rintro ⟨after, hafter⟩
    rw [heq] at hafter
    have htail := (List.cons.inj (List.cons.inj hafter).2).2
    apply @head_nameTail_ne more rest '>' rfl (by simp) (hrest.head_ne rfl)
    rw [← htail]
    rfl

theorem writesName_name {name : List Char} (hne : name ≠ []) :
    WritesName (Text.name name) (name.map readBack) where
  visible := visible_name name
  scan := scanName_name name
  starts := startsName_name hne
  noNumber := not_startsNumber_name hne
  noComment _ := not_closesComment_name hne

theorem writesName_cons {c : Char} {s name : List Char} (hc : isNameStart c)
    (hvisible : isControl c = false) (hs : ∀ d ∈ s, isControl d = false)
    (hscan : ∀ rest, scanName (s ++ rest) =
      (name ++ (scanName rest).1, (scanName rest).2 + s.length)) :
    WritesName (c :: s) (c :: name) where
  visible := List.forall_mem_cons.mpr ⟨hvisible, hs⟩
  scan rest := by
    rw [List.cons_append, scanName_raw (by simp [isNameChar, hc]), hscan]
    rfl
  starts rest := IsNameHead.startsName (.inl hc)
  noNumber rest := IsNameHead.not_startsNumber (.inl hc)
  noComment rest _ := by
    rintro ⟨after, hafter⟩
    obtain rfl := (List.cons.inj hafter).1
    simp [isNameStart] at hc

theorem writesName_extremum (e : Extremum) (name : List Char) :
    WritesName (e.chars ++ Text.name name) (e.chars ++ name.map readBack) := by
  have hraw : ∀ c ∈ e.chars.tail, isNameChar c := List.all_eq_true.mp (by cases e <;> rfl)
  have hchars : e.chars = 'm' :: e.chars.tail := by cases e <;> rfl
  rw [hchars, List.cons_append, List.cons_append]
  apply writesName_cons rfl rfl
  · exact List.forall_mem_append.mpr ⟨visible_of_all (by cases e <;> rfl), visible_name name⟩
  · intro rest
    rw [List.append_assoc, scanName_raws hraw, scanName_name, List.append_assoc, List.length_append,
      Nat.add_assoc, Nat.add_comm (List.length _)]

/-! ## Numbers -/

theorem tokenBefore_numeric {s rest : List Char} {kind : TokenKind} (hne : s ≠ [])
    (hstarts : startsNumber (s ++ rest)) (hscan : scanNumeric (s ++ rest) = (kind, s.length)) :
    TokenBefore rest s kind := by
  cases s with
  | nil => exact absurd rfl hne
  | cons c tail =>
    rw [List.cons_append] at hstarts hscan
    refine ⟨?_, c, tail, rfl, ?_⟩
    · rintro ⟨⟩
      simp [startsNumber, startsUnsigned] at hstarts
    · rw [nextToken_number hstarts, hscan]
      rfl

theorem visible_sign {s : List Char} (h : Numeral.IsSign s) : ∀ c ∈ s, isControl c = false := by
  rcases h with rfl | rfl | rfl <;> exact visible_of_all rfl

theorem visible_numeral {n : Numeral} (h : n.WellFormed) :
    ∀ c ∈ n.chars, isControl c = false := by
  have hpointed : ∀ c ∈ Numeral.pointed n.fraction, isControl c = false := by
    unfold Numeral.pointed
    split
    · simp
    · exact List.forall_mem_cons.mpr ⟨rfl, fun c hc => not_isControl_of_isDigit (h.fraction c hc)⟩
  have hmark : ∀ c ∈ n.exponentMark, isControl c = false := by
    rcases h.mark with ⟨-, hmark⟩ | ⟨-, c, sign, hc, hsign, hmark⟩
    · simp [hmark]
    · rw [hmark]
      refine List.forall_mem_cons.mpr ⟨?_, visible_sign hsign⟩
      rcases hc with rfl | rfl <;> rfl
  simp only [Numeral.chars, List.forall_mem_append]
  exact ⟨⟨⟨⟨visible_sign h.sign, fun c hc => not_isControl_of_isDigit (h.whole c hc)⟩, hpointed⟩, hmark⟩,
    fun c hc => not_isControl_of_isDigit (h.exponent c hc)⟩

theorem Stops.ends {rest : List Char} (h : Stops rest) (n : Numeral) : n.Ends rest where
  digit := h.head_any (isStop_class (by simp))
  fraction _ _ := by
    unfold Numeral.scanFraction
    split
    · exact absurd rfl (h.head_ne (d := '.') rfl)
    · rfl
  exponent _ := by
    unfold Numeral.scanExponent
    split
    · next c rest =>
      have hc : (c == 'e' || c == 'E') = false := isStop_class (p := fun c => c == 'e' || c == 'E')
        (by simp) c h
      simp [hc]
    · rfl

theorem scanNumeric_number {n : Numeral} (h : n.WellFormed) {rest : List Char}
    (hrest : Stops rest) : scanNumeric (n.chars ++ rest) = (.number n.value n.flag, n.chars.length) := by
  have hdrop : (n.chars ++ rest).drop n.length = rest := List.drop_left
  unfold scanNumeric
  simp only [Numeral.scan_chars_append h (hrest.ends n), hdrop]
  rw [if_neg (by simp [hrest.not_startsName]), if_neg (hrest.head_ne rfl), Numeral.length]

theorem tokenBefore_number {n : Numeral} (h : n.WellFormed) {rest : List Char} (hrest : Stops rest) :
    TokenBefore rest n.chars (.number n.value n.flag) :=
  tokenBefore_numeric h.chars_ne_nil (h.startsNumber rest) (scanNumeric_number h hrest)

theorem spells_number {n : Numeral} (h : n.WellFormed) :
    Spells n.chars (IsOne (.number n.value n.flag)) :=
  .one (visible_numeral h) (fun _ => tokenBefore_number h) rfl

/-! ## Units -/

theorem takeWhile_isDigit_nameTail {unit rest : List Char} (h : unit.takeWhile Char.isDigit = [])
    (hrest : Stops rest) : (Text.nameTail unit ++ rest).takeWhile Char.isDigit = [] := by
  rcases head_nameTail unit rest with ⟨-, heq⟩ | ⟨tail, heq⟩ | ⟨c, more, rfl, -, heq⟩
  · rw [heq]
    exact takeWhile_eq_nil (hrest.head_any (isStop_class (by simp)))
  · rw [heq]
    rfl
  · rw [heq]
    have hc : ¬ c.isDigit := fun hc => by simp [List.takeWhile_cons_of_pos hc] at h
    rw [List.takeWhile_cons_of_neg hc]

/-- The digits of an exponent, after its letter. -/
def exponentDigits (s : List Char) : List Char :=
  (s.drop (Numeral.scanSign s).length).takeWhile Char.isDigit

theorem exponentDigits_nameTail {unit rest : List Char} (h : exponentDigits unit = [])
    (hrest : Stops rest) : exponentDigits (Text.nameTail unit ++ rest) = [] := by
  rcases head_nameTail unit rest with ⟨-, heq⟩ | ⟨tail, heq⟩ | ⟨c, more, rfl, hc, heq⟩
  · have hsign : Numeral.scanSign rest = [] := by
      unfold Numeral.scanSign
      split
      · exact absurd rfl (hrest.head_ne (d := '+') rfl)
      · exact absurd rfl (hrest.head_ne (d := '-') rfl)
      · rfl
    rw [heq, exponentDigits, hsign]
    exact takeWhile_eq_nil (hrest.head_any (isStop_class (by simp)))
  · rw [heq]
    rfl
  · rw [heq]
    by_cases hdash : c = '-'
    · subst hdash
      exact takeWhile_isDigit_nameTail h hrest
    · have hsign : ∀ tail, Numeral.scanSign (c :: tail) = [] := by
        intro tail
        unfold Numeral.scanSign
        split
        · next hplus => cases hplus; simp [isNameChar, isNameStart] at hc
        · next hminus => cases hminus; exact absurd rfl hdash
        · rfl
      unfold exponentDigits at h ⊢
      rw [hsign] at h ⊢
      have hdigit : ¬ c.isDigit := fun hdigit => by
        simp [List.length_nil, List.drop_zero, List.takeWhile_cons_of_pos hdigit] at h
      exact List.takeWhile_cons_of_neg hdigit

theorem scanExponent_eq_nil {s : List Char} (h : ∀ c tail, s = c :: tail → c = 'e' ∨ c = 'E' →
    exponentDigits tail = []) : (Numeral.scanExponent s).2 = [] := by
  unfold Numeral.scanExponent
  split
  · next c tail =>
    simp only
    split
    · next hc =>
      simp only [Bool.and_eq_true, Bool.or_eq_true, beq_iff_eq] at hc
      exact h c tail rfl hc.1
    · rfl
  · rfl

theorem exponentDigits_eq_nil {c : Char} {tail : List Char} (hc : c = 'e' ∨ c = 'E')
    (h : (Numeral.scanExponent (c :: tail)).2 = []) : exponentDigits tail = [] := by
  have hmark : (c == 'e' || c == 'E') = true := by
    rcases hc with rfl | rfl <;> rfl
  unfold Numeral.scanExponent at h
  simp only [hmark, Bool.true_and] at h
  by_contra hne
  rw [if_pos (by simpa [exponentDigits] using hne)] at h
  exact hne h

theorem scanExponent_unit {unit rest : List Char} (hne : unit ≠ []) (hrest : Stops rest) :
    (Numeral.scanExponent (Text.unit unit ++ rest)).2 = [] := by
  cases unit with
  | nil => exact absurd rfl hne
  | cons c unit =>
    rw [Text.unit]
    split
    · next hnil =>
      by_cases hc : c = 'e' ∨ c = 'E'
      · have htext : Text.name (c :: unit) = c :: Text.nameTail unit := by
          rcases hc with rfl | rfl <;> rfl
        rw [htext]
        apply scanExponent_eq_nil
        intro d tail heq _
        cases heq
        exact exponentDigits_nameTail (exponentDigits_eq_nil hc hnil) hrest
      · apply scanExponent_eq_nil
        intro d tail heq hd
        obtain ⟨text, htext | htext⟩ := head_name c unit
        · rw [htext] at heq
          cases heq
          simp at hd
        · rw [htext] at heq
          cases heq
          exact absurd hd hc
    · apply scanExponent_eq_nil
      intro d tail heq hd
      unfold Text.codeEscape at heq
      cases heq
      simp at hd

theorem writesName_unit {unit : List Char} (hne : unit ≠ []) :
    WritesName (Text.unit unit) (unit.map readBack) := by
  cases unit with
  | nil => exact absurd rfl hne
  | cons c unit =>
    rw [Text.unit]
    split
    · exact writesName_name (List.cons_ne_nil c unit)
    · have hhead := fun rest => isNameHead_codeEscape c (Text.nameTail unit ++ rest)
      refine ⟨List.forall_mem_append.mpr ⟨visible_codeEscape c, visible_nameTail unit⟩, ?_, ?_, ?_, ?_⟩
      · intro rest
        rw [List.append_assoc, scanName_codeEscape, scanName_nameTail, List.map_cons,
          List.cons_append, List.length_append, Nat.add_assoc, Nat.add_comm (List.length _)]
      · intro rest
        rw [List.append_assoc]
        exact (hhead rest).startsName
      · intro rest
        rw [List.append_assoc]
        exact (hhead rest).not_startsNumber
      · intro rest _
        rw [List.append_assoc]
        exact (hhead rest).not_closesComment

theorem ends_unit {unit rest : List Char} (hne : unit ≠ []) (hrest : Stops rest) (n : Numeral) :
    n.Ends (Text.unit unit ++ rest) := by
  have hstarts := (writesName_unit hne).starts rest
  have hexponent := scanExponent_unit hne hrest
  generalize Text.unit unit ++ rest = s at hstarts hexponent
  cases s with
  | nil => cases hstarts
  | cons c s =>
    have hc := starts_of_startsName hstarts
    refine ⟨?_, ?_, fun _ => hexponent⟩
    · rcases hc with hc | rfl | rfl
      · exact not_isDigit_of_isNameStart hc
      · rfl
      · rfl
    · intro _ _
      unfold Numeral.scanFraction
      split
      · next heq =>
        cases heq
        simp [isNameStart] at hc
      · rfl

theorem scanNumeric_dimension {n : Numeral} (h : n.WellFormed) {unit : List Char} (hne : unit ≠ [])
    {rest : List Char} (hrest : Stops rest) :
    scanNumeric (n.chars ++ Text.unit unit ++ rest) =
      (.dimension n.value (lowercase (unit.map readBack)) .number,
        (n.chars ++ Text.unit unit).length) := by
  have hunit := writesName_unit hne
  have hdrop : (n.chars ++ (Text.unit unit ++ rest)).drop n.length = Text.unit unit ++ rest :=
    List.drop_left
  rw [List.append_assoc]
  unfold scanNumeric
  simp only [Numeral.scan_chars_append h (ends_unit hne hrest n), hdrop]
  rw [if_pos (hunit.starts rest), hunit.scan, hrest.scanName]
  simp [Numeral.length]

theorem tokenBefore_dimension {n : Numeral} (h : n.WellFormed) {unit : List Char} (hne : unit ≠ [])
    {rest : List Char} (hrest : Stops rest) :
    TokenBefore rest (n.chars ++ Text.unit unit)
      (.dimension n.value (lowercase (unit.map readBack)) .number) := by
  have hstarts : startsNumber (n.chars ++ Text.unit unit ++ rest) := by
    rw [List.append_assoc]
    exact h.startsNumber _
  exact tokenBefore_numeric (List.append_ne_nil_of_left_ne_nil h.chars_ne_nil _) hstarts
    (scanNumeric_dimension h hne hrest)

theorem visible_dimension {n : Numeral} (h : n.WellFormed) {unit : List Char} (hne : unit ≠ []) :
    ∀ c ∈ n.chars ++ Text.unit unit, isControl c = false :=
  List.forall_mem_append.mpr ⟨visible_numeral h, (writesName_unit hne).visible⟩

theorem spells_dimension {n : Numeral} (h : n.WellFormed) {unit : List Char} (hne : unit ≠ []) :
    Spells (n.chars ++ Text.unit unit)
      (IsOne (.dimension n.value (lowercase (unit.map readBack)) .number)) :=
  .one (visible_dimension h hne) (fun _ => tokenBefore_dimension h hne) rfl

end CssMedia.Lexer
