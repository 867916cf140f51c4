import CssMedia.Proofs.Binary64.Text

/-!
# Numbers of JSON texts read back

The text of a finite number in JSON is a numeral with the sign and the magnitude of that number, also
where it is a negative zero.
-/

namespace CssMedia.Binary64

def IsFinite : Binary64 → Prop
  | .finite .. => True
  | .infinity _ | .nan => False

namespace Decimal

theorem positionalWithPoint_eq_positional {d : Decimal} (h : d.exponent < 0) :
    d.positionalWithPoint = d.positional := by
  obtain ⟨-, -, hlen, -⟩ := d.digitsAroundPoint_spec
  unfold positionalWithPoint positional
  split
  · next whole heq =>
    rw [heq, List.length_nil] at hlen
    omega
  · rfl

/-! ## Exponents with a sign -/

def exponentSign (d : Decimal) : List Char := if 0 ≤ d.magnitude then ['+'] else ['-']

theorem isSign_exponentSign (d : Decimal) : Numeral.IsSign d.exponentSign := by
  unfold exponentSign
  split
  · exact .inr (.inl rfl)
  · exact .inr (.inr rfl)

theorem magnitude_exponentSign (d : Decimal) :
    (if ('e' :: d.exponentSign).contains '-'
      then -(Nat.ofDigitChars 10 (Nat.toDigits 10 d.magnitude.natAbs) 0 : Int)
      else Nat.ofDigitChars 10 (Nat.toDigits 10 d.magnitude.natAbs) 0) = d.magnitude := by
  rw [Nat.ofDigitChars_ten_toDigits]
  unfold exponentSign
  by_cases h : 0 ≤ d.magnitude
  · rw [if_pos h, if_neg (by decide), Int.natAbs_of_nonneg h]
  · rw [if_neg h, if_pos (by decide)]
    omega

theorem toList_signedExponent (d : Decimal) :
    ((if 0 ≤ d.magnitude then "+" else "") ++ toString d.magnitude).toList =
      d.exponentSign ++ Nat.toDigits 10 d.magnitude.natAbs := by
  unfold exponentSign
  cases d.magnitude with
  | ofNat n =>
    have hn : (0 : Int) ≤ .ofNat n := Int.natCast_nonneg n
    have hdigits : (toString (Int.ofNat n)).toList = Nat.toDigits 10 n := Nat.toList_repr
    rw [if_pos hn, if_pos hn, String.toList_append, hdigits]
    rfl
  | negSucc n =>
    have hn : ¬ (0 : Int) ≤ .negSucc n := Int.not_le.mpr (Int.negSucc_lt_zero n)
    have hdigits : (toString (Int.negSucc n)).toList = '-' :: Nat.toDigits 10 (n + 1) := by
      have hminus : toString (Int.negSucc n) = "-" ++ Nat.repr (n + 1) := rfl
      rw [hminus, String.toList_append, Nat.toList_repr]
      rfl
    rw [if_neg hn, if_neg hn, String.toList_append, hdigits]
    rfl

theorem toList_scientificSigned (d : Decimal) :
    ∃ first rest, Nat.toDigits 10 d.coefficient = first :: rest ∧
      d.scientificSigned.toList =
        [first] ++ Numeral.pointed rest ++ 'e' :: d.exponentSign ++
          Nat.toDigits 10 d.magnitude.natAbs := by
  obtain ⟨first, rest, hdigits, hleading⟩ := d.toList_leadingDigits
  refine ⟨first, rest, hdigits, ?_⟩
  rw [scientificSigned, String.append_assoc, String.toList_append, toList_signedExponent, hleading]
  simp

end Decimal

/-! ## Numerals -/

theorem exists_numeral_jsonText (negative : Bool) (index : Fin finiteCount) :
    ∃ n : Numeral, n.WellFormed ∧ (Binary64.finite negative index).jsonText.toList = n.chars ∧
      n.isNegative = negative ∧ n.decimal.nearest = index.val := by
  have hrounds := roundsTo_shortest .even index.val
  have hnearest : ∀ {d : Decimal}, (shortest .even index.val).SameValue d → d.nearest = index.val :=
    fun hsame => (hrounds.of_sameValue hsame).nearest_eq index.isLt
  have hnegative : ∀ n : Numeral, n.sign = signChars negative → n.isNegative = negative := by
    intro n hsign
    rw [Numeral.isNegative, hsign]
    cases negative <;> rfl
  simp only [jsonText]
  generalize shortest .even index.val = d at hnearest ⊢
  obtain ⟨hdigits, hne, -, -⟩ := d.digitsAroundPoint_spec
  split
  · by_cases hwhole : 0 ≤ d.exponent
    · refine ⟨plainNumeral negative d.digitsAroundPoint.1 ['0'], wellFormed_plainNumeral ?_ hne, ?_,
        hnegative _ rfl, hnearest (sameValue_positionalWithPoint hwhole negative)⟩
      · exact d.isDigit_positionalWithPoint
      · rw [toList_withSign, Decimal.toList_positionalWithPoint hwhole, chars_plainNumeral]
    · refine ⟨plainNumeral negative d.digitsAroundPoint.1 d.digitsAroundPoint.2,
        wellFormed_plainNumeral hdigits hne, ?_, hnegative _ rfl,
        hnearest (sameValue_positional d negative)⟩
      rw [toList_withSign, Decimal.positionalWithPoint_eq_positional (Int.not_le.mp hwhole),
        Decimal.toList_positional, chars_plainNumeral]
  · obtain ⟨first, rest, hfirst, htext⟩ := d.toList_scientificSigned
    refine ⟨exponentNumeral negative first rest d.exponentSign (Nat.toDigits 10 d.magnitude.natAbs),
      wellFormed_exponentNumeral ?_ d.isSign_exponentSign ?_ Nat.toDigits_ne_nil, ?_,
      hnegative _ rfl, ?_⟩
    · intro c hc
      exact isDigit_of_mem_toDigits (hfirst ▸ hc)
    · intro c hc
      exact isDigit_of_mem_toDigits hc
    · rw [toList_withSign, htext, chars_exponentNumeral]
    · rw [decimal_exponentNumeral hfirst d.magnitude_exponentSign]
      exact hnearest rfl

theorem jsonText_inj {v w : Binary64} (hv : v.IsFinite) (hw : w.IsFinite) {rest after : List Char}
    (hrest : ∀ n : Numeral, n.Ends rest) (hafter : ∀ n : Numeral, n.Ends after)
    (h : v.jsonText.toList ++ rest = w.jsonText.toList ++ after) : v = w ∧ rest = after := by
  match v, w, hv, hw with
  | .finite s i, .finite t j, _, _ =>
    obtain ⟨n, hn, hnchars, hs, hi⟩ := exists_numeral_jsonText s i
    obtain ⟨m, hm, hmchars, ht, hj⟩ := exists_numeral_jsonText t j
    rw [hnchars, hmchars] at h
    have hnm : n = m := by
      rw [← Numeral.scan_chars_append hn (hrest n), h, Numeral.scan_chars_append hm (hafter m)]
    subst hnm
    obtain rfl : s = t := hs.symm.trans ht
    obtain rfl : i = j := Fin.ext (hi.symm.trans hj)
    exact ⟨rfl, List.append_cancel_left h⟩

end CssMedia.Binary64
