import CssMedia.Proofs.Binary64.Shortest
import CssMedia.Proofs.Numeral

/-!
# Texts of numbers read back

The text of a number is a numeral, and the numeral says that number. A marked text has a
fraction or an exponent even if the number is whole.
-/

namespace CssMedia

namespace Binary64

/-- A finite number that is no negative zero. -/
def IsProper : Binary64 → Prop
  | .finite negative index => negative → index.val ≠ 0
  | .infinity _ | .nan => False

theorem isProper_clamped (negative : Bool) (index : Nat) : (clamped negative index).IsProper := by
  have hcount : 1 < finiteCount := by decide
  simp only [clamped, IsProper, Bool.and_eq_true, bne_iff_ne]
  omega

theorem isWhole_clamped {negative : Bool} {index : Nat} (h : unitsPerOne ∣ units index) :
    (clamped negative index).isWhole := by
  unfold clamped
  rw [isWhole, beq_iff_eq]
  show units (min index (finiteCount - 1)) % unitsPerOne = 0
  rcases Nat.le_total index (finiteCount - 1) with hle | hge
  · rw [Nat.min_eq_left hle]
    exact Nat.mod_eq_zero_of_dvd h
  · rw [Nat.min_eq_right hge]
    decide +kernel

theorem IsProper.clamped_index {negative : Bool} {index : Fin finiteCount}
    (h : (Binary64.finite negative index).IsProper) :
    clamped negative index.val = .finite negative index := by
  have hsign : (negative && index.val != 0) = negative := by
    cases negative with
    | false => rfl
    | true => simpa using h rfl
  have hmin : min index.val (finiteCount - 1) = index.val := Nat.min_eq_left (by omega)
  simp only [clamped, hsign, hmin]

/-! ## Digits -/

namespace Decimal

theorem digitsAroundPoint_spec (d : Decimal) :
    (∀ c ∈ d.digitsAroundPoint.1 ++ d.digitsAroundPoint.2, c.isDigit) ∧
      d.digitsAroundPoint.1 ≠ [] ∧ d.digitsAroundPoint.2.length = (-d.exponent).toNat ∧
      Nat.ofDigitChars 10 (d.digitsAroundPoint.1 ++ d.digitsAroundPoint.2) 0 = d.numerator := by
  unfold digitsAroundPoint
  simp only [List.splitAt_eq, List.take_append_drop]
  generalize hplaces : (-d.exponent).toNat = places
  generalize hwhole : Nat.toDigits 10 d.coefficient ++ List.replicate d.exponent.toNat '0' = whole
  have hlen : places < (List.replicate (places + 1 - whole.length) '0' ++ whole).length := by
    simp only [List.length_append, List.length_replicate]
    omega
  refine ⟨?_, ?_, ?_, ?_⟩
  · intro c hc
    rw [← hwhole, List.mem_append, List.mem_append] at hc
    rcases hc with hc | hc | hc
    · rw [List.eq_of_mem_replicate hc]; rfl
    · exact isDigit_of_mem_toDigits hc
    · rw [List.eq_of_mem_replicate hc]; rfl
  · rw [ne_eq, List.take_eq_nil_iff, not_or]
    exact ⟨by omega, List.ne_nil_of_length_pos (by omega)⟩
  · rw [List.length_drop]
    omega
  · rw [Nat.ofDigitChars_append, Nat.ofDigitChars_replicate_zero, Nat.mul_zero, ← hwhole,
      Nat.ofDigitChars_append, Nat.ofDigitChars_ten_toDigits, Nat.ofDigitChars_replicate_zero,
      numerator, Nat.mul_comm]

theorem isDigit_positionalWithPoint (d : Decimal) :
    ∀ c ∈ d.digitsAroundPoint.1 ++ ['0'], c.isDigit := by
  obtain ⟨hdigits, -⟩ := d.digitsAroundPoint_spec
  intro c hc
  rcases List.mem_append.mp hc with hc | hc
  · exact hdigits c (List.mem_append_left _ hc)
  · rw [List.mem_singleton.mp hc]
    rfl

theorem toList_positional (d : Decimal) :
    d.positional.toList = d.digitsAroundPoint.1 ++ Numeral.pointed d.digitsAroundPoint.2 := by
  unfold positional
  rw [Numeral.pointed]
  split
  · next whole heq => simp [heq]
  · next whole fraction hne heq =>
    rw [heq, if_neg hne]
    exact String.toList_ofList

theorem toList_positionalWithPoint {d : Decimal} (h : 0 ≤ d.exponent) :
    d.positionalWithPoint.toList = d.digitsAroundPoint.1 ++ Numeral.pointed ['0'] := by
  obtain ⟨-, -, hlen, -⟩ := d.digitsAroundPoint_spec
  have hnil : d.digitsAroundPoint.2 = [] := List.eq_nil_of_length_eq_zero (by omega)
  unfold positionalWithPoint
  split
  · next whole heq => rw [heq, String.toList_append, String.toList_ofList]; rfl
  · next whole fraction hne heq =>
    rw [heq] at hnil
    exact (hne hnil).elim

theorem toList_leadingDigits (d : Decimal) :
    ∃ first rest, Nat.toDigits 10 d.coefficient = first :: rest ∧
      d.leadingDigits.toList = [first] ++ Numeral.pointed rest ++ ['e'] := by
  unfold leadingDigits
  split
  · next first second rest hdigits =>
    refine ⟨first, second :: rest, hdigits, ?_⟩
    rw [String.toList_append, String.toList_ofList]
    simp [Numeral.pointed]
  · next hdigits =>
    rcases hcoef : Nat.toDigits 10 d.coefficient with _ | ⟨first, _ | ⟨second, rest⟩⟩
    · exact absurd hcoef Nat.toDigits_ne_nil
    · refine ⟨first, [], rfl, ?_⟩
      rw [String.toList_append, String.toList_ofList]
      simp [Numeral.pointed]
    · exact absurd hcoef (hdigits first second rest)

theorem toList_scientific {d : Decimal} (h : 0 ≤ d.magnitude) :
    ∃ first rest, Nat.toDigits 10 d.coefficient = first :: rest ∧
      d.scientific.toList =
        [first] ++ Numeral.pointed rest ++ ['e'] ++ Nat.toDigits 10 d.magnitude.toNat := by
  obtain ⟨magnitude, hmagnitude⟩ := Int.eq_ofNat_of_zero_le h
  have hexp : (toString d.magnitude).toList = Nat.toDigits 10 d.magnitude.toNat := by
    rw [hmagnitude]
    exact Nat.toList_repr
  obtain ⟨first, rest, hdigits, hleading⟩ := d.toList_leadingDigits
  exact ⟨first, rest, hdigits, by rw [scientific, String.toList_append, hexp, hleading]⟩

end Decimal

/-! ## Numerals for numbers -/

def signChars (negative : Bool) : List Char := if negative then ['-'] else []

theorem toList_withSign (negative : Bool) (text : String) :
    (withSign negative text).toList = signChars negative ++ text.toList := by
  cases negative <;> simp [withSign, signChars]

theorem isSign_signChars (negative : Bool) : Numeral.IsSign (signChars negative) := by
  cases negative
  · exact .inl rfl
  · exact .inr (.inr rfl)

theorem value_numeral {n : Numeral} {negative : Bool} {index : Fin finiteCount} {d : Decimal}
    (hv : (Binary64.finite negative index).IsProper) (hsign : n.sign = signChars negative)
    (hd : d.RoundsTo index.val) (hsame : d.SameValue n.decimal) :
    n.value = .finite negative index := by
  have hneg : n.isNegative = negative := by
    unfold Numeral.isNegative
    rw [hsign]
    cases negative <;> rfl
  unfold Numeral.value
  rw [hneg, (hd.of_sameValue hsame).nearest_eq index.isLt, hv.clamped_index]

/-- The numeral that the text of a number with these digits is. -/
def plainNumeral (negative : Bool) (whole fraction : List Char) : Numeral :=
  ⟨signChars negative, whole, fraction, [], []⟩

theorem decimal_plainNumeral (negative : Bool) (whole fraction : List Char) :
    (plainNumeral negative whole fraction).decimal =
      ⟨Nat.ofDigitChars 10 (whole ++ fraction) 0, -fraction.length⟩ := by
  simp [Numeral.decimal, plainNumeral]

theorem chars_plainNumeral (negative : Bool) (whole fraction : List Char) :
    (plainNumeral negative whole fraction).chars =
      signChars negative ++ (whole ++ Numeral.pointed fraction) := by
  simp [Numeral.chars, plainNumeral]

theorem wellFormed_plainNumeral {negative : Bool} {whole fraction : List Char}
    (hdigits : ∀ c ∈ whole ++ fraction, c.isDigit) (hne : whole ≠ []) :
    (plainNumeral negative whole fraction).WellFormed where
  sign := isSign_signChars negative
  whole c hc := hdigits c (List.mem_append_left _ hc)
  fraction c hc := hdigits c (List.mem_append_right _ hc)
  exponent _ hc := absurd hc List.not_mem_nil
  mark := .inl ⟨rfl, rfl⟩
  nonempty := .inl hne

theorem sameValue_positional (d : Decimal) (negative : Bool) :
    d.SameValue (plainNumeral negative d.digitsAroundPoint.1 d.digitsAroundPoint.2).decimal := by
  obtain ⟨-, -, hlen, hvalue⟩ := d.digitsAroundPoint_spec
  rw [decimal_plainNumeral, hvalue, hlen, Decimal.SameValue]
  simp only [Decimal.numerator, Decimal.denominator, Int.neg_neg, Int.toNat_natCast]
  rw [show (-(((-d.exponent).toNat : Nat) : Int)).toNat = 0 by omega, Nat.pow_zero, Nat.mul_one]

theorem sameValue_positionalWithPoint {d : Decimal} (h : 0 ≤ d.exponent) (negative : Bool) :
    d.SameValue (plainNumeral negative d.digitsAroundPoint.1 ['0']).decimal := by
  obtain ⟨-, -, hlen, hvalue⟩ := d.digitsAroundPoint_spec
  have hnil : d.digitsAroundPoint.2 = [] := List.eq_nil_of_length_eq_zero (by omega)
  rw [hnil, List.append_nil] at hvalue
  have hcoef : Nat.ofDigitChars 10 (d.digitsAroundPoint.1 ++ ['0']) 0 = 10 * d.numerator := by
    rw [Nat.ofDigitChars_append, hvalue]
    rfl
  have hden : d.denominator = 1 := by
    unfold Decimal.denominator
    rw [show (-d.exponent).toNat = 0 by omega, Nat.pow_zero]
  rw [decimal_plainNumeral, hcoef, Decimal.SameValue, hden]
  simp [Decimal.numerator, Decimal.denominator, Nat.mul_comm]

/-! ## Reading back -/

theorem exists_numeral_text {v : Binary64} (hv : v.IsProper) :
    ∃ n : Numeral, n.WellFormed ∧ v.text.toList = n.chars ∧ n.value = v ∧ n.exponent = [] ∧
      (n.fraction = [] ↔ v.isWhole) := by
  match v, hv with
  | .finite negative index, hv =>
    have hrounds := roundsTo_shortest .up index.val
    obtain ⟨hdigits, hne, hlen, -⟩ := (shortest .up index.val).digitsAroundPoint_spec
    refine ⟨plainNumeral negative (shortest .up index.val).digitsAroundPoint.1
      (shortest .up index.val).digitsAroundPoint.2, wellFormed_plainNumeral hdigits hne, ?_,
      value_numeral hv rfl hrounds (sameValue_positional _ negative), rfl, ?_⟩
    · unfold text
      rw [toList_withSign, Decimal.toList_positional, chars_plainNumeral]
    · unfold isWhole
      rw [beq_iff_eq, ← Nat.dvd_iff_mod_eq_zero, plainNumeral, ← List.length_eq_zero_iff, hlen]
      constructor
      · intro hzero
        by_contra hnot
        have := exponent_shortest_neg .up hnot
        omega
      · intro hdvd
        have := exponent_shortest_nonneg .up hdvd
        omega

/-- The numeral with one digit before the point, the others behind it, and an exponent. -/
def exponentNumeral (negative : Bool) (first : Char) (rest sign exponent : List Char) : Numeral :=
  ⟨signChars negative, [first], rest, 'e' :: sign, exponent⟩

theorem chars_exponentNumeral (negative : Bool) (first : Char) (rest sign exponent : List Char) :
    (exponentNumeral negative first rest sign exponent).chars =
      signChars negative ++ ([first] ++ Numeral.pointed rest ++ 'e' :: sign ++ exponent) := by
  simp [Numeral.chars, exponentNumeral]

theorem wellFormed_exponentNumeral {negative : Bool} {first : Char} {rest sign exponent : List Char}
    (hdigits : ∀ c ∈ first :: rest, c.isDigit) (hsign : Numeral.IsSign sign)
    (hexponent : ∀ c ∈ exponent, c.isDigit) (hne : exponent ≠ []) :
    (exponentNumeral negative first rest sign exponent).WellFormed where
  sign := isSign_signChars negative
  whole c hc := hdigits c (List.mem_cons.mpr (.inl (List.mem_singleton.mp hc)))
  fraction c hc := hdigits c (List.mem_cons_of_mem _ hc)
  exponent := hexponent
  mark := .inr ⟨hne, 'e', sign, .inl rfl, hsign, rfl⟩
  nonempty := .inl (List.cons_ne_nil _ _)

theorem decimal_exponentNumeral {d : Decimal} {first : Char} {rest sign exponent : List Char}
    (hdigits : Nat.toDigits 10 d.coefficient = first :: rest)
    (hmagnitude : (if ('e' :: sign).contains '-' then -(Nat.ofDigitChars 10 exponent 0 : Int)
      else Nat.ofDigitChars 10 exponent 0) = d.magnitude) (negative : Bool) :
    (exponentNumeral negative first rest sign exponent).decimal = d := by
  have hcoef : Nat.ofDigitChars 10 (first :: rest) 0 = d.coefficient := by
    rw [← hdigits, Nat.ofDigitChars_ten_toDigits]
  have hexp : d.magnitude - rest.length = d.exponent := by
    rw [Decimal.magnitude, hdigits, List.length_cons, Nat.add_sub_cancel]
    omega
  rw [← hmagnitude] at hexp
  exact congrArg₂ Decimal.mk hcoef hexp

/-- A positive exponent without a sign. -/
def scientificNumeral (negative : Bool) (first : Char) (rest exponent : List Char) : Numeral :=
  ⟨signChars negative, [first], rest, ['e'], exponent⟩

theorem chars_scientificNumeral (negative : Bool) (first : Char) (rest exponent : List Char) :
    (scientificNumeral negative first rest exponent).chars =
      signChars negative ++ ([first] ++ Numeral.pointed rest ++ ['e'] ++ exponent) :=
  chars_exponentNumeral negative first rest [] exponent

theorem wellFormed_scientificNumeral {negative : Bool} {first : Char} {rest exponent : List Char}
    (hdigits : ∀ c ∈ first :: rest, c.isDigit) (hexponent : ∀ c ∈ exponent, c.isDigit)
    (hne : exponent ≠ []) : (scientificNumeral negative first rest exponent).WellFormed :=
  wellFormed_exponentNumeral hdigits (.inl rfl) hexponent hne

theorem decimal_scientificNumeral {d : Decimal} (h : 0 ≤ d.magnitude) {first : Char}
    {rest : List Char} (hdigits : Nat.toDigits 10 d.coefficient = first :: rest) (negative : Bool) :
    (scientificNumeral negative first rest (Nat.toDigits 10 d.magnitude.toNat)).decimal = d := by
  have hmagnitude : (if ('e' :: ([] : List Char)).contains '-'
      then -(Nat.ofDigitChars 10 (Nat.toDigits 10 d.magnitude.toNat) 0 : Int)
      else Nat.ofDigitChars 10 (Nat.toDigits 10 d.magnitude.toNat) 0) = d.magnitude := by
    rw [if_neg (by decide), Nat.ofDigitChars_ten_toDigits, Int.toNat_of_nonneg h]
  exact decimal_exponentNumeral hdigits hmagnitude negative

theorem exists_numeral_markedText {v : Binary64} (hv : v.IsProper) :
    ∃ n : Numeral, n.WellFormed ∧ v.markedText.toList = n.chars ∧ n.value = v ∧
      n.flag = .number := by
  match v, hv with
  | .finite negative index, hv =>
    have hrounds := roundsTo_shortest .up index.val
    obtain ⟨hdigits, hne, hlen, -⟩ := (shortest .up index.val).digitsAroundPoint_spec
    rw [markedText]
    split
    · next hfrac =>
      obtain ⟨n, hn, htext, hvalue, -, hwhole⟩ := exists_numeral_text hv
      refine ⟨n, hn, htext, hvalue, ?_⟩
      unfold Numeral.flag
      rw [if_neg]
      intro hplain
      exact absurd (hwhole.mp hplain.1) (by simpa [isWhole] using hfrac)
    · next hwhole =>
      have hdvd : unitsPerOne ∣ units index.val := Nat.dvd_of_mod_eq_zero (by simpa using hwhole)
      have hexp : 0 ≤ (shortest .up index.val).exponent := exponent_shortest_nonneg .up hdvd
      split
      · refine ⟨plainNumeral negative (shortest .up index.val).digitsAroundPoint.1 ['0'],
          wellFormed_plainNumeral ?_ hne, ?_,
          value_numeral hv rfl hrounds (sameValue_positionalWithPoint hexp negative), rfl⟩
        · exact (shortest .up index.val).isDigit_positionalWithPoint
        · rw [toList_withSign, Decimal.toList_positionalWithPoint hexp, chars_plainNumeral]
      · have hmagnitude : 0 ≤ (shortest .up index.val).magnitude := by
          unfold Decimal.magnitude
          omega
        obtain ⟨first, rest, hfirst, htext⟩ := Decimal.toList_scientific hmagnitude
        refine ⟨scientificNumeral negative first rest
          (Nat.toDigits 10 (shortest .up index.val).magnitude.toNat),
          wellFormed_scientificNumeral ?_ ?_ Nat.toDigits_ne_nil, ?_, ?_, ?_⟩
        · intro c hc
          exact isDigit_of_mem_toDigits (hfirst ▸ hc)
        · intro c hc
          exact isDigit_of_mem_toDigits hc
        · rw [toList_withSign, htext, chars_scientificNumeral]
        · apply value_numeral hv rfl hrounds
          rw [decimal_scientificNumeral hmagnitude hfirst]
          exact rfl
        · unfold Numeral.flag
          rw [if_neg fun h => absurd h.2 Nat.toDigits_ne_nil]

end Binary64

theorem NumberFlag.exists_numeral_write {v : Binary64} (hv : v.IsProper) {flag : NumberFlag}
    (hflag : flag = .integer → v.isWhole) :
    ∃ n : Numeral, n.WellFormed ∧ (flag.write v).toList = n.chars ∧ n.value = v ∧
      n.flag = flag := by
  cases flag with
  | integer =>
    obtain ⟨n, hn, htext, hvalue, hexp, hwhole⟩ := Binary64.exists_numeral_text hv
    refine ⟨n, hn, htext, hvalue, ?_⟩
    unfold Numeral.flag
    rw [if_pos ⟨hwhole.mpr (hflag rfl), hexp⟩]
  | number => exact Binary64.exists_numeral_markedText hv

end CssMedia
