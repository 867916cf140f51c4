import CssMedia.Proofs.LetterCase.CodePoint
import CssMedia.Proofs.Lexer.Comments
import CssMedia.Proofs.Lexer.FirstToken

/-!
# Letter case in the scanners

A scanner takes as many code points of a text as of the same text in lower case. What it reads is
then the same but for the case of its letters, and a number is the same number.
-/

namespace CssMedia

namespace Lexer

open CodePoint

theorem exists_scans {α β : Type} {f : α → β} {p p' : α × Nat} (h : f p'.1 = f p.1 ∧ p'.2 = p.2) :
    ∃ a a' n, p = (a, n) ∧ p' = (a', n) ∧ f a' = f a :=
  ⟨p.1, p'.1, p.2, rfl, Prod.ext rfl h.2, h.1⟩

/-! ## Escapes and names -/

theorem hexRun_toLower (s : List Char) :
    hexRun (s.map Char.toLower) = (hexRun s).map Char.toLower := by
  rw [hexRun, ← List.map_take, caseBlind_isHexDigit.takeWhile, hexRun]

theorem hexScalar_toLower (digits : List Char) :
    hexScalar (digits.map Char.toLower) = hexScalar digits := by
  have hdigit : ∀ c, hexDigitValue c.toLower = hexDigitValue c := caseBlind_hexDigitValue
  have hvalue : hexValue (digits.map Char.toLower) = hexValue digits := by
    simp only [hexValue, List.foldl_map, hdigit]
  rw [hexScalar, hvalue, hexScalar]

theorem scanEscape_toLower (s : List Char) :
    (scanEscape (s.map Char.toLower)).1.toLower = (scanEscape s).1.toLower ∧
      (scanEscape (s.map Char.toLower)).2 = (scanEscape s).2 := by
  cases s with
  | nil => exact ⟨rfl, rfl⟩
  | cons c rest =>
    have hrun := hexRun_toLower (c :: rest)
    rw [List.map_cons] at hrun ⊢
    rw [scanEscape, caseBlind_isHexDigit, scanEscape]
    split
    · dsimp only
      rw [hrun, List.length_map, ← List.map_cons, ← List.map_drop, caseBlind_isBlank.head?,
        hexScalar_toLower]
      exact ⟨rfl, rfl⟩
    · exact ⟨toLower_toLower c, rfl⟩

theorem scanName_toLower (s : List Char) :
    lowercase (scanName (s.map Char.toLower)).1 = lowercase (scanName s).1 ∧
      (scanName (s.map Char.toLower)).2 = (scanName s).2 := by
  cases s with
  | nil =>
    rw [List.map_nil]
    exact ⟨rfl, rfl⟩
  | cons c rest =>
    have hescape := startsEscape_toLower (c :: rest)
    rw [List.map_cons] at hescape ⊢
    rw [scanName, caseBlind_isNameChar, hescape, scanName]
    simp only [lowercase, String.ofList_inj]
    split
    · obtain ⟨hname, hlen⟩ := scanName_toLower rest
      exact ⟨List.cons_eq_cons.mpr ⟨toLower_toLower c, String.ofList_injective hname⟩,
        congrArg (· + 1) hlen⟩
    split
    · obtain ⟨e, e', k, hread, hread', hchar⟩ := exists_scans (scanEscape_toLower rest)
      rw [hread, hread']
      obtain ⟨hname, hlen⟩ := scanName_toLower (rest.drop k)
      rw [List.map_drop] at hname hlen
      exact ⟨List.cons_eq_cons.mpr ⟨hchar, String.ofList_injective hname⟩,
        congrArg (· + k + 1) hlen⟩
    · exact ⟨rfl, rfl⟩
termination_by s.length

/-! ## Strings, urls and comments -/

theorem scanString_toLower {quote : Char} (hquote : quote.isAlpha = false) (s : List Char) :
    (scanString quote (s.map Char.toLower)).1.isSome = (scanString quote s).1.isSome ∧
      (scanString quote (s.map Char.toLower)).2 = (scanString quote s).2 := by
  cases s with
  | nil =>
    rw [List.map_nil]
    exact ⟨rfl, rfl⟩
  | cons c rest =>
    simp (disch := decide) only [List.map_cons, scanString_cons, toLower_eq_iff hquote,
      toLower_eq_iff, List.map_eq_nil_iff, head?_toLower_eq_iff, ← List.map_tail]
    split
    · exact ⟨rfl, rfl⟩
    split
    · exact ⟨rfl, rfl⟩
    split
    · split
      · exact ⟨rfl, rfl⟩
      split
      · obtain ⟨hsome, hlen⟩ := scanString_toLower hquote rest.tail
        exact ⟨hsome, congrArg (· + 2) hlen⟩
      · obtain ⟨e, e', k, hread, hread', -⟩ := exists_scans (scanEscape_toLower rest)
        rw [hread, hread']
        obtain ⟨hsome, hlen⟩ := scanString_toLower hquote (rest.drop k)
        rw [List.map_drop] at hsome hlen
        exact ⟨by simpa using hsome, congrArg (· + k + 1) hlen⟩
    · obtain ⟨hsome, hlen⟩ := scanString_toLower hquote rest
      exact ⟨by simpa using hsome, congrArg (· + 1) hlen⟩
termination_by s.length

theorem map_snd_of_map_snd {r r' : Option (List Char × Nat)}
    (h : r'.map Prod.snd = r.map Prod.snd) (c c' : Char) (f : Nat → Nat) :
    (r'.map fun (value, n) => (c' :: value, f n)).map Prod.snd =
      (r.map fun (value, n) => (c :: value, f n)).map Prod.snd := by
  simpa [Function.comp_def] using congrArg (Option.map f) h

theorem scanUrl_toLower (s : List Char) :
    (scanUrl (s.map Char.toLower)).map Prod.snd = (scanUrl s).map Prod.snd := by
  cases s with
  | nil => rw [List.map_nil]
  | cons c rest =>
    have hescape := startsEscape_toLower (c :: rest)
    rw [List.map_cons] at hescape ⊢
    rw [scanUrl, scanUrl, caseBlind_isBlank, caseBlind_isBlank.length_takeWhile, hescape,
      caseBlind_isNonPrintable]
    simp (disch := decide) only [Bool.or_eq_true, beq_iff_eq, toLower_eq_iff, ← List.map_drop]
    split
    · rfl
    split
    · cases rest.drop (rest.takeWhile isBlank).length with
      | nil => rfl
      | cons d after =>
        by_cases hd : d = ')'
        · subst hd
          rfl
        · simp [hd, toLower_eq_iff]
    split
    · rfl
    split
    · split
      · obtain ⟨e, e', k, hread, hread', -⟩ := exists_scans (scanEscape_toLower rest)
        rw [hread, hread']
        have hrest := scanUrl_toLower (rest.drop k)
        exact map_snd_of_map_snd hrest e e' (· + k + 1)
      · rfl
    · exact map_snd_of_map_snd (scanUrl_toLower rest) c c.toLower (· + 1)
termination_by s.length

theorem bareUrl_toLower (s : List Char) :
    (bareUrl (s.map Char.toLower)).map Prod.snd = (bareUrl s).map Prod.snd := by
  have hurl := scanUrl_toLower (s.drop (s.takeWhile isBlank).length)
  unfold bareUrl
  simp (disch := decide) only [caseBlind_isBlank.length_takeWhile, ← List.map_drop,
    head?_toLower_eq_iff]
  split
  · rfl
  · simpa [Function.comp_def] using congrArg (Option.map ((s.takeWhile isBlank).length + ·)) hurl

theorem commentLength_toLower (s : List Char) :
    commentLength (s.map Char.toLower) = commentLength s := by
  induction s with
  | nil => rfl
  | cons c rest ih =>
    simp (disch := decide) only [List.map_cons, commentLength_cons, toLower_eq_iff,
      head?_toLower_eq_iff, ih]

theorem commentsLength_toLower (s : List Char) :
    commentsLength (s.map Char.toLower) = commentsLength s := by
  by_cases h : ∃ rest, s = '/' :: '*' :: rest
  · obtain ⟨rest, rfl⟩ := h
    show commentsLength ('/' :: '*' :: rest.map Char.toLower) = _
    rw [commentsLength, commentsLength, commentLength_toLower, ← List.map_drop,
      commentsLength_toLower (rest.drop (commentLength rest))]
  · have hlower : ∀ rest, s.map Char.toLower = '/' :: '*' :: rest → False := by
      intro rest heq
      obtain ⟨c, t, rfl, hc, ht⟩ := List.map_eq_cons_iff.mp heq
      obtain ⟨d, u, rfl, hd, -⟩ := List.map_eq_cons_iff.mp ht
      rw [toLower_eq_iff (by decide)] at hc hd
      exact h ⟨u, by rw [hc, hd]⟩
    rw [commentsLength, commentsLength]
    · exact fun rest heq => h ⟨rest, heq⟩
    · exact hlower
termination_by s.length

end Lexer

/-! ## Numerals -/

namespace Numeral

open CodePoint

theorem takeWhile_isDigit_toLower (s : List Char) :
    (s.map Char.toLower).takeWhile Char.isDigit = s.takeWhile Char.isDigit := by
  induction s with
  | nil => rfl
  | cons c rest ih =>
    rw [List.map_cons]
    by_cases hc : c.isDigit
    · rw [List.takeWhile_cons_of_pos (by rwa [caseBlind_isDigit]), List.takeWhile_cons_of_pos hc, ih,
        toLower_of_isDigit hc]
    · rw [List.takeWhile_cons_of_neg (by rwa [caseBlind_isDigit]), List.takeWhile_cons_of_neg hc]

theorem scanSign_cons (c : Char) (rest : List Char) :
    scanSign (c :: rest) = if c = '+' ∨ c = '-' then [c] else [] := by
  by_cases hplus : c = '+'
  · subst hplus
    rfl
  by_cases hminus : c = '-'
  · subst hminus
    rfl
  · simp [scanSign, hplus, hminus]

theorem map_toLower_scanSign (s : List Char) : (scanSign s).map Char.toLower = scanSign s := by
  cases s with
  | nil => rfl
  | cons c rest =>
    rw [scanSign_cons]
    split
    · next hc => rcases hc with rfl | rfl <;> rfl
    · rfl

theorem scanSign_toLower (s : List Char) : scanSign (s.map Char.toLower) = scanSign s := by
  rw [← map_toLower_scanSign s]
  cases s with
  | nil => rfl
  | cons c rest =>
    simp (disch := decide) only [List.map_cons, scanSign_cons, toLower_eq_iff]
    split <;> rfl

theorem scanFraction_cons (c : Char) (rest : List Char) :
    scanFraction (c :: rest) = if c = '.' then rest.takeWhile Char.isDigit else [] := by
  by_cases hc : c = '.'
  · subst hc
    rfl
  · simp [scanFraction, hc]

theorem scanFraction_toLower (s : List Char) :
    scanFraction (s.map Char.toLower) = scanFraction s := by
  cases s with
  | nil => rfl
  | cons c rest =>
    simp (disch := decide) only [List.map_cons, scanFraction_cons, toLower_eq_iff,
      takeWhile_isDigit_toLower]

theorem caseBlind_isMark : CaseBlind fun c => c == 'e' || c == 'E' := by
  refine caseBlind_of_isUpper fun c hupper => ?_
  have hlower := toNat_toLower hupper
  rw [isUpper_iff] at hupper
  rw [Bool.eq_iff_iff]
  simp only [Bool.or_eq_true, beq_iff_eq, ← Char.toNat_inj, hlower, Char.reduceToNat]
  omega

theorem scanExponent_toLower (s : List Char) :
    scanExponent (s.map Char.toLower) =
      ((scanExponent s).1.map Char.toLower, (scanExponent s).2) := by
  cases s with
  | nil => rfl
  | cons c rest =>
    have hmark := caseBlind_isMark c
    dsimp only at hmark
    rw [List.map_cons, scanExponent, scanExponent]
    simp only [scanSign_toLower, ← List.map_drop, takeWhile_isDigit_toLower, hmark]
    split
    · rw [List.map_cons, map_toLower_scanSign]
    · rfl

/-- Only the `e` before an exponent is a letter. -/
theorem scan_toLower (s : List Char) :
    scan (s.map Char.toLower) =
      { scan s with exponentMark := (scan s).exponentMark.map Char.toLower } := by
  simp only [scan, scanSign_toLower, ← List.map_drop, takeWhile_isDigit_toLower,
    scanFraction_toLower, scanExponent_toLower]

theorem value_scan_toLower (s : List Char) :
    (scan (s.map Char.toLower)).value = (scan s).value := by
  have hminus : ((scan s).exponentMark.map Char.toLower).contains '-' =
      (scan s).exponentMark.contains '-' := by
    rw [Bool.eq_iff_iff]
    simp (disch := decide) [toLower_eq_iff]
  rw [scan_toLower]
  simp only [value, isNegative, decimal, hminus]

theorem flag_scan_toLower (s : List Char) : (scan (s.map Char.toLower)).flag = (scan s).flag := by
  rw [scan_toLower]
  rfl

theorem length_scan_toLower (s : List Char) :
    (scan (s.map Char.toLower)).length = (scan s).length := by
  rw [scan_toLower]
  simp [length, chars]

end Numeral

end CssMedia
