import CssMedia.Numeral
import CssMedia.Proofs.Runs

/-!
# Numerals in a text

A numeral written before a text that does not continue it is the one that is read there.
-/

namespace CssMedia

namespace Numeral

def IsSign (s : List Char) : Prop := s = [] ∨ s = ['+'] ∨ s = ['-']

/-- The parts are what the grammar of numerals says they are. -/
structure WellFormed (n : Numeral) : Prop where
  sign : IsSign n.sign
  whole : ∀ c ∈ n.whole, c.isDigit
  fraction : ∀ c ∈ n.fraction, c.isDigit
  exponent : ∀ c ∈ n.exponent, c.isDigit
  mark : n.exponent = [] ∧ n.exponentMark = [] ∨
    n.exponent ≠ [] ∧ ∃ c sign, (c = 'e' ∨ c = 'E') ∧ IsSign sign ∧ n.exponentMark = c :: sign
  nonempty : n.whole ≠ [] ∨ n.fraction ≠ []

/-- A text that does not continue a numeral, whatever its last part is. -/
structure Ends (n : Numeral) (rest : List Char) : Prop where
  digit : rest.head?.any Char.isDigit = false
  fraction : n.fraction = [] → n.exponent = [] → scanFraction rest = []
  exponent : n.exponent = [] → (scanExponent rest).2 = []

theorem scanSign_append {s rest : List Char} (hs : IsSign s)
    (hrest : s = [] → scanSign rest = []) : scanSign (s ++ rest) = s := by
  rcases hs with rfl | rfl | rfl
  · exact hrest rfl
  · rfl
  · rfl

theorem scanSign_cons_digit {c : Char} (hc : c.isDigit) (rest : List Char) :
    scanSign (c :: rest) = [] := by
  unfold scanSign
  split
  · next h => cases h; cases hc
  · next h => cases h; cases hc
  · rfl

theorem scanSign_of_digit {s rest : List Char} (hs : ∀ c ∈ s, c.isDigit) (hne : s ≠ []) :
    scanSign (s ++ rest) = [] := by
  cases s with
  | nil => exact absurd rfl hne
  | cons c s => exact scanSign_cons_digit (hs c (List.mem_cons_self ..)) _

/-! ## The exponent -/

theorem scanExponent_snd_eq_nil {s : List Char} (h : (scanExponent s).2 = []) :
    scanExponent s = ([], []) := by
  unfold scanExponent at h ⊢
  split
  · simp only at h ⊢
    split
    · next hcond =>
      rw [if_pos hcond] at h
      simp only [Bool.and_eq_true, bne_iff_ne] at hcond
      exact absurd h hcond.2
    · rfl
  · rfl

theorem scanExponent_mark {c : Char} {sign digits rest : List Char} (hc : c = 'e' ∨ c = 'E')
    (hsign : IsSign sign) (hdigits : ∀ c ∈ digits, c.isDigit) (hne : digits ≠ [])
    (hrest : rest.head?.any Char.isDigit = false) :
    scanExponent (c :: (sign ++ (digits ++ rest))) = (c :: sign, digits) := by
  have hscan : scanSign (sign ++ (digits ++ rest)) = sign :=
    scanSign_append hsign fun _ => scanSign_of_digit hdigits hne
  have htake : (digits ++ rest).takeWhile Char.isDigit = digits :=
    takeWhile_append_stop hdigits hrest
  unfold scanExponent
  simp only [hscan, List.drop_left, htake]
  rw [if_pos]
  rcases hc with rfl | rfl <;> simp [hne]

theorem WellFormed.scanExponent {n : Numeral} (h : n.WellFormed) {rest : List Char}
    (hrest : n.Ends rest) :
    Numeral.scanExponent (n.exponentMark ++ (n.exponent ++ rest)) = (n.exponentMark, n.exponent) := by
  rcases h.mark with ⟨hexp, hmark⟩ | ⟨hexp, c, sign, hc, hsign, hmark⟩
  · rw [hexp, hmark]
    exact scanExponent_snd_eq_nil (hrest.exponent hexp)
  · rw [hmark]
    exact scanExponent_mark hc hsign h.exponent hexp hrest.digit

/-! ## The fraction and the whole part -/

theorem WellFormed.mark_stops {n : Numeral} (h : n.WellFormed) {rest : List Char}
    (hrest : n.Ends rest) :
    (n.exponentMark ++ (n.exponent ++ rest)).head?.any Char.isDigit = false := by
  rcases h.mark with ⟨hexp, hmark⟩ | ⟨hexp, c, sign, hc, hsign, hmark⟩
  · rw [hexp, hmark]
    exact hrest.digit
  · rw [hmark]
    rcases hc with rfl | rfl <;> rfl

theorem WellFormed.scanFraction {n : Numeral} (h : n.WellFormed) {rest : List Char}
    (hrest : n.Ends rest) :
    Numeral.scanFraction (pointed n.fraction ++ (n.exponentMark ++ (n.exponent ++ rest))) =
      n.fraction := by
  by_cases hfrac : n.fraction = []
  · rw [hfrac, pointed, if_pos rfl, List.nil_append]
    rcases h.mark with ⟨hexp, hmark⟩ | ⟨hexp, c, sign, hc, hsign, hmark⟩
    · rw [hexp, hmark]
      exact hrest.fraction hfrac hexp
    · rw [hmark]
      rcases hc with rfl | rfl <;> rfl
  · unfold pointed
    rw [if_neg hfrac]
    exact takeWhile_append_stop h.fraction (h.mark_stops hrest)

theorem WellFormed.fraction_stops {n : Numeral} (h : n.WellFormed) {rest : List Char}
    (hrest : n.Ends rest) :
    (pointed n.fraction ++ (n.exponentMark ++ (n.exponent ++ rest))).head?.any Char.isDigit =
      false := by
  unfold pointed
  split
  · exact h.mark_stops hrest
  · rfl

theorem WellFormed.sign_stops {n : Numeral} (h : n.WellFormed) (tail : List Char) :
    scanSign (n.whole ++ (pointed n.fraction ++ tail)) = [] := by
  by_cases hwhole : n.whole = []
  · rw [hwhole, pointed, if_neg (h.nonempty.resolve_left fun hne => hne hwhole)]
    rfl
  · exact scanSign_of_digit h.whole hwhole

theorem scan_chars_append {n : Numeral} (h : n.WellFormed) {rest : List Char}
    (hrest : n.Ends rest) : scan (n.chars ++ rest) = n := by
  have hsign := scanSign_append h.sign fun _ => h.sign_stops (n.exponentMark ++ (n.exponent ++ rest))
  have hwhole := takeWhile_append_stop h.whole (h.fraction_stops hrest)
  unfold scan chars
  simp only [List.append_assoc, hsign, List.drop_left, hwhole, h.scanFraction hrest,
    h.scanExponent hrest]

/-! ## Where a numeral starts -/

theorem startsUnsigned_of_digit {c : Char} (hc : c.isDigit) (rest : List Char) :
    CodePoint.startsUnsigned (c :: rest) := by
  unfold CodePoint.startsUnsigned
  split
  · next heq => cases heq; cases hc
  · next heq => cases heq; exact hc
  · next heq => simp at heq

theorem WellFormed.startsUnsigned {n : Numeral} (h : n.WellFormed) (tail : List Char) :
    CodePoint.startsUnsigned (n.whole ++ (pointed n.fraction ++ tail)) := by
  cases hwhole : n.whole with
  | nil =>
    have hne := h.nonempty.resolve_left fun hne => hne hwhole
    unfold pointed
    rw [if_neg hne]
    cases hfrac : n.fraction with
    | nil => exact absurd hfrac hne
    | cons c fraction =>
      have hc : c.isDigit := h.fraction c (by simp [hfrac])
      simpa [CodePoint.startsUnsigned] using hc
  | cons c whole => exact startsUnsigned_of_digit (h.whole c (by simp [hwhole])) _

theorem startsNumber_eq (s : List Char) :
    CodePoint.startsNumber s = CodePoint.startsUnsigned (s.drop (scanSign s).length) := by
  unfold CodePoint.startsNumber
  split
  · rfl
  · rfl
  · next hplus hminus =>
    rw [scanSign]
    · rfl
    · exact hplus
    · exact hminus

theorem WellFormed.startsNumber {n : Numeral} (h : n.WellFormed) (rest : List Char) :
    CodePoint.startsNumber (n.chars ++ rest) := by
  have hunsigned := h.startsUnsigned (n.exponentMark ++ (n.exponent ++ rest))
  simp only [chars, List.append_assoc]
  rcases h.sign with hsign | hsign | hsign <;> rw [hsign]
  · rw [List.nil_append, startsNumber_eq, h.sign_stops]
    exact hunsigned
  · exact hunsigned
  · exact hunsigned

theorem WellFormed.chars_ne_nil {n : Numeral} (h : n.WellFormed) : n.chars ≠ [] := by
  intro hnil
  have := h.startsNumber []
  rw [hnil] at this
  cases this

/-! ## What is read where a number starts -/

theorem isSign_scanSign (s : List Char) : IsSign (scanSign s) := by
  unfold scanSign
  split
  · exact .inr (.inl rfl)
  · exact .inr (.inr rfl)
  · exact .inl rfl

theorem isDigit_of_mem_scanFraction {s : List Char} : ∀ c ∈ scanFraction s, c.isDigit := by
  unfold scanFraction
  split
  · exact fun c hc => List.mem_takeWhile_imp hc
  · exact nofun

theorem scanExponent_cases (s : List Char) :
    scanExponent s = ([], []) ∨ ∃ c sign digits, (c = 'e' ∨ c = 'E') ∧ IsSign sign ∧
      digits ≠ [] ∧ (∀ d ∈ digits, d.isDigit) ∧ scanExponent s = (c :: sign, digits) := by
  unfold scanExponent
  split
  · next c rest =>
    dsimp only
    split
    · next hmark =>
      simp only [Bool.and_eq_true, Bool.or_eq_true, beq_iff_eq, bne_iff_ne] at hmark
      exact .inr ⟨c, _, _, hmark.1, isSign_scanSign rest, hmark.2,
        fun d hd => List.mem_takeWhile_imp hd, rfl⟩
    · exact .inl rfl
  · exact .inl rfl

theorem exists_digit_of_startsUnsigned {s : List Char} (h : CodePoint.startsUnsigned s) :
    s.takeWhile Char.isDigit ≠ [] ∨ s.takeWhile Char.isDigit = [] ∧ scanFraction s ≠ [] := by
  unfold CodePoint.startsUnsigned at h
  split at h
  · next rest =>
    refine .inr ⟨rfl, ?_⟩
    cases rest with
    | nil => cases h
    | cons d rest =>
      rw [scanFraction, List.takeWhile_cons_of_pos (by simpa using h)]
      exact List.cons_ne_nil _ _
  · next c rest _ =>
    rw [List.takeWhile_cons_of_pos h]
    exact .inl (List.cons_ne_nil _ _)
  · cases h

theorem wellFormed_scan {s : List Char} (h : CodePoint.startsNumber s) : (scan s).WellFormed where
  sign := isSign_scanSign s
  whole c hc := List.mem_takeWhile_imp hc
  fraction := isDigit_of_mem_scanFraction
  exponent := by
    unfold scan
    dsimp only
    rcases scanExponent_cases (((s.drop (scanSign s).length).drop _).drop _) with
      heq | ⟨c, sign, digits, -, -, -, hdigits, heq⟩
    · rw [heq]
      exact nofun
    · rw [heq]
      exact hdigits
  mark := by
    unfold scan
    dsimp only
    rcases scanExponent_cases (((s.drop (scanSign s).length).drop _).drop _) with
      heq | ⟨c, sign, digits, hc, hsign, hne, -, heq⟩
    · rw [heq]
      exact .inl ⟨rfl, rfl⟩
    · rw [heq]
      exact .inr ⟨hne, c, sign, hc, hsign, rfl⟩
  nonempty := by
    rw [startsNumber_eq] at h
    rcases exists_digit_of_startsUnsigned h with hwhole | ⟨hwhole, hfraction⟩
    · exact .inl hwhole
    · refine .inr ?_
      unfold scan
      dsimp only
      rw [hwhole]
      exact hfraction

end Numeral

end CssMedia
