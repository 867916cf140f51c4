import CssMedia.Proofs.Lexer.Partition
import CssMedia.Proofs.Lexer.Pieces
import CssMedia.Proofs.NumeralValue

/-!
# Numbers in a text

Where a number starts, the longest numeral is read, and its value is the finite number closest to
what it says. So the numbers in the tokens of a text are finite, whatever the text is.
-/

namespace CssMedia

namespace Numeral

variable {n : Numeral} {rest : List Char}

/-! ## The longest numeral -/

theorem WellFormed.mark_eq_nil (h : n.WellFormed) (hexponent : n.exponent = []) :
    n.exponentMark = [] := by
  rcases h.mark with ⟨-, hmark⟩ | ⟨hne, -⟩
  · exact hmark
  · exact absurd hexponent hne

theorem WellFormed.exists_digit_more (h : n.WellFormed) {d : Char} (hd : d.isDigit) :
    ∃ m : Numeral, m.WellFormed ∧ m.chars = n.chars ++ [d] := by
  have hmore : ∀ {digits : List Char}, (∀ c ∈ digits, c.isDigit) → ∀ c ∈ digits ++ [d], c.isDigit :=
    fun hdigits => List.forall_mem_append.mpr ⟨hdigits, List.forall_mem_singleton.mpr hd⟩
  rcases h.mark with ⟨hexponent, hmark⟩ | ⟨hexponent, hmark⟩
  · by_cases hfraction : n.fraction = []
    · refine ⟨{ n with whole := n.whole ++ [d] }, ⟨h.sign, hmore h.whole, h.fraction, h.exponent,
        h.mark, .inl (by simp)⟩, ?_⟩
      simp [chars, pointed, hfraction, hexponent, hmark]
    · refine ⟨{ n with fraction := n.fraction ++ [d] }, ⟨h.sign, h.whole, hmore h.fraction,
        h.exponent, h.mark, .inr (by simp)⟩, ?_⟩
      simp [chars, pointed, hfraction, hexponent, hmark]
  · refine ⟨{ n with exponent := n.exponent ++ [d] }, ⟨h.sign, h.whole, h.fraction,
      hmore h.exponent, .inr ⟨by simp, hmark⟩, h.nonempty⟩, ?_⟩
    simp [chars]

theorem WellFormed.with_fraction (h : n.WellFormed) (hfraction : n.fraction = [])
    (hexponent : n.exponent = []) (hrest : Numeral.scanFraction rest ≠ []) :
    ∃ m : Numeral, m.WellFormed ∧ m.chars = n.chars ++ pointed (Numeral.scanFraction rest) := by
  have hmark := h.mark_eq_nil hexponent
  refine ⟨{ n with fraction := Numeral.scanFraction rest }, ⟨h.sign, h.whole, isDigit_of_mem_scanFraction,
    h.exponent, h.mark, .inr hrest⟩, ?_⟩
  simp [chars, pointed, hfraction, hexponent, hmark, hrest]

theorem WellFormed.with_exponent (h : n.WellFormed) (hexponent : n.exponent = [])
    (hrest : (Numeral.scanExponent rest).2 ≠ []) :
    ∃ m : Numeral, m.WellFormed ∧
      m.chars = n.chars ++ ((Numeral.scanExponent rest).1 ++ (Numeral.scanExponent rest).2) := by
  have hmark := h.mark_eq_nil hexponent
  rcases scanExponent_cases rest with heq | ⟨c, sign, digits, hc, hsign, hne, hdigits, heq⟩
  · rw [heq] at hrest
    exact absurd rfl hrest
  · rw [heq]
    refine ⟨{ n with exponentMark := c :: sign, exponent := digits }, ⟨h.sign, h.whole, h.fraction,
      hdigits, .inr ⟨hne, c, sign, hc, hsign, rfl⟩, h.nonempty⟩, ?_⟩
    simp [chars, hexponent, hmark]

theorem WellFormed.exists_longer (h : n.WellFormed) (hgoes : ¬ n.Ends rest) :
    ∃ (m : Numeral) (part more : List Char), m.WellFormed ∧ m.chars = n.chars ++ part ∧
      part ≠ [] ∧ rest = part ++ more := by
  by_cases hdigit : rest.head?.any Char.isDigit
  · obtain ⟨d, more, rfl⟩ : ∃ d more, rest = d :: more := by
      cases rest with
      | nil => cases hdigit
      | cons d more => exact ⟨d, more, rfl⟩
    obtain ⟨m, hm, hchars⟩ := h.exists_digit_more (show d.isDigit by simpa using hdigit)
    exact ⟨m, [d], more, hm, hchars, List.cons_ne_nil _ _, rfl⟩
  by_cases hfraction : n.fraction = [] → n.exponent = [] → Numeral.scanFraction rest = []
  · have hexponent : ¬ (n.exponent = [] → (Numeral.scanExponent rest).2 = []) :=
      fun hexponent => hgoes ⟨by simpa using hdigit, hfraction, hexponent⟩
    obtain ⟨hnone, hne⟩ := Classical.not_imp.mp hexponent
    obtain ⟨m, hm, hchars⟩ := h.with_exponent hnone hne
    exact ⟨m, _, _, hm, hchars, List.append_ne_nil_of_right_ne_nil _ hne,
      (scanExponent_append_drop rest).symm⟩
  · simp only [Classical.not_imp] at hfraction
    obtain ⟨hnone, hexponent, hne⟩ := hfraction
    obtain ⟨m, hm, hchars⟩ := h.with_fraction hnone hexponent hne
    exact ⟨m, _, _, hm, hchars, by simp [pointed, hne], (pointed_append_drop rest).symm⟩

theorem WellFormed.length_le_scan (h : n.WellFormed) (rest : List Char) :
    n.length ≤ (scan (n.chars ++ rest)).length := by
  induction hlen : rest.length using Nat.strongRecOn generalizing n rest with
  | _ len ih =>
    by_cases hends : n.Ends rest
    · rw [scan_chars_append h hends]
    · obtain ⟨m, part, more, hm, hchars, hne, rfl⟩ := h.exists_longer hends
      have hpart := List.length_pos_iff.mpr hne
      have hlonger := ih more.length (by simp at hlen; omega) hm more rfl
      rw [hchars, List.append_assoc] at hlonger
      have hlength : m.length = n.length + part.length := by
        unfold length
        rw [hchars, List.length_append]
      omega

theorem ends_nil (n : Numeral) : n.Ends [] := ⟨rfl, fun _ _ => rfl, fun _ => rfl⟩

theorem WellFormed.chars_injective {m : Numeral} (h : n.WellFormed) (hm : m.WellFormed)
    (heq : n.chars = m.chars) : n = m := by
  have hn := scan_chars_append h n.ends_nil
  rw [heq, scan_chars_append hm m.ends_nil] at hn
  exact hn.symm

theorem scan_isPrefix (s : List Char) : (scan s).chars <+: s := ⟨_, scan_append_drop s⟩

theorem WellFormed.longest {s : List Char} (hstarts : CodePoint.startsNumber s) {m : Numeral}
    (hm : m.WellFormed) (hbegins : m.chars <+: s) :
    m.length ≤ (scan s).length ∧ (m.length = (scan s).length → m = scan s) := by
  constructor
  · obtain ⟨rest, rfl⟩ := hbegins
    exact hm.length_le_scan rest
  · intro hlen
    exact hm.chars_injective (wellFormed_scan hstarts)
      ((List.prefix_of_prefix_length_le hbegins (scan_isPrefix s) (Nat.le_of_eq hlen)).eq_of_length hlen)

theorem startsNumber_iff {s : List Char} :
    CodePoint.startsNumber s ↔ ∃ n : Numeral, n.WellFormed ∧ n.chars <+: s := by
  constructor
  · exact fun h => ⟨scan s, wellFormed_scan h, scan_isPrefix s⟩
  · rintro ⟨n, hn, rest, rfl⟩
    exact hn.startsNumber rest

theorem WellFormed.flag_eq_integer_iff (h : n.WellFormed) :
    n.flag = .integer ↔ ∀ c ∈ n.chars, c ≠ '.' ∧ c ≠ 'e' ∧ c ≠ 'E' := by
  have hflag : n.flag = .integer ↔ n.fraction = [] ∧ n.exponent = [] := by
    unfold flag
    split <;> simp_all
  rw [hflag]
  constructor
  · rintro ⟨hfraction, hexponent⟩ c hc
    have hmark := h.mark_eq_nil hexponent
    simp only [chars, pointed, hfraction, hexponent, hmark, if_pos, List.append_nil,
      List.mem_append] at hc
    rcases hc with hc | hc
    · rcases h.sign with hsign | hsign | hsign <;> rw [hsign] at hc <;> simp at hc <;> subst hc <;> decide
    · have := h.whole c hc
      refine ⟨?_, ?_, ?_⟩ <;> rintro rfl <;> cases this
  · intro hall
    constructor
    · by_contra hne
      exact (hall '.' (by simp [chars, pointed, hne])).1 rfl
    · by_contra hne
      rcases h.mark with ⟨hnone, -⟩ | ⟨-, c, sign, hc, -, hmark⟩
      · exact hne hnone
      · have hletter := (hall c (by simp [chars, hmark])).2
        rcases hc with rfl | rfl
        · exact hletter.1 rfl
        · exact hletter.2 rfl

end Numeral

/-! ## Numbers in tokens -/

namespace TokenKind

/-- The number in a token. -/
def number? : TokenKind → Option Binary64
  | .number v _ | .percentage v _ | .dimension v _ _ => some v
  | _ => none

end TokenKind

namespace Lexer

open CodePoint

theorem number?_punctuation (c : Char) : (punctuation c).number? = none := by
  unfold punctuation
  split <;> rfl

theorem number?_nextToken {c : Char} {rest : List Char} {kind : TokenKind} {n : Nat} {v : Binary64}
    (hnext : nextToken c rest = (some kind, n)) (hv : kind.number? = some v) :
    startsNumber (c :: rest) ∧ v = (Numeral.scan (c :: rest)).value := by
  cases firstToken_of_nextToken hnext with
  | numeric hstarts h =>
    cases h <;> exact ⟨hstarts, (Option.some.inj hv).symm⟩
  | identLike _ _ _ h => cases h <;> cases hv
  | punctuation =>
    rw [number?_punctuation] at hv
    cases hv
  | blank | string | hash | cdc | cdo | atKeyword => cases hv

/-- Where a number starts, the longest numeral is read, its flag tells of a fraction or an exponent,
and its value is the closest number, at most the largest finite one and never a negative zero. So
are all numbers in the tokens of a text. -/
theorem number_is_longest_and_nearest :
    (∀ s : List Char, startsNumber s ↔ ∃ n : Numeral, n.WellFormed ∧ n.chars <+: s) ∧
    (∀ {s : List Char}, startsNumber s →
      let n := Numeral.scan s
      (n.WellFormed ∧ n.chars <+: s ∧ ∀ m : Numeral, m.WellFormed → m.chars <+: s →
        m.length ≤ n.length ∧ (m.length = n.length → m = n)) ∧
      (n.flag = .integer ↔ ∀ c ∈ n.chars, c ≠ '.' ∧ c ≠ 'e' ∧ c ≠ 'E') ∧
      n.value.IsProper ∧
      ∃ index, Binary64.IsNearest n.size index ∧ n.value = .clamped n.isNegative index) ∧
    ∀ {s : List Char} {ts : List Token}, tokens s = .ok ts →
      ∀ t ∈ ts, ∀ v, t.kind.number? = some v →
        let text := s.drop t.span.start
        startsNumber text ∧ v = (Numeral.scan text).value ∧ v.IsProper := by
  refine ⟨fun s => Numeral.startsNumber_iff, ?_, ?_⟩
  · intro s hstarts
    have hn := Numeral.wellFormed_scan hstarts
    exact ⟨⟨hn, Numeral.scan_isPrefix s, fun m hm hbegins => hm.longest hstarts hbegins⟩,
      hn.flag_eq_integer_iff, Binary64.isProper_clamped _ _, Numeral.exists_isNearest_size _⟩
  · intro s ts hts t ht v hv
    have hne : t.kind ≠ .eof := by
      intro heof
      rw [heof] at hv
      cases hv
    obtain ⟨place, hnext⟩ := (tokens_eq_ok_iff.mp hts).exists_nextAt ht hne
    obtain ⟨c, rest, hdrop, hread⟩ := hnext.read
    obtain ⟨hstarts, rfl⟩ := number?_nextToken hread hv
    dsimp only
    rw [hdrop]
    exact ⟨hstarts, rfl, Binary64.isProper_clamped _ _⟩

/-- In `+2.50e-1e+` the second exponent has no digits, so its letter is a unit. The number is a
quarter, and the shorter numeral `+2.5` is not what is read. -/
theorem number_is_longest_and_nearest_quarter :
    let s := "+2.50e-1e+".toList
    let n : Numeral := ⟨['+'], ['2'], ['5', '0'], ['e', '-'], ['1']⟩
    let m : Numeral := ⟨['+'], ['2'], ['5'], [], []⟩
    startsNumber s ∧ Numeral.scan s = n ∧ m.WellFormed ∧ m.chars <+: s ∧ m.length ≤ n.length ∧
      n.flag ≠ .integer ∧ (∃ index, Binary64.IsNearest (1 / 4) index ∧ n.value = .clamped false index) ∧
      tokens s = .ok [⟨.dimension n.value "e" .number, ⟨0, 8⟩⟩, ⟨.delim '+', ⟨9, 9⟩⟩,
        ⟨.eof, ⟨10, 10⟩⟩] ∧ n.value.IsProper := by
  intro s n m
  have hstarts : startsNumber s := rfl
  have hscan : Numeral.scan s = n := by decide +kernel
  have hm : m.WellFormed := ⟨.inr (.inl rfl), List.all_eq_true.mp rfl, List.all_eq_true.mp rfl, nofun,
    .inl ⟨rfl, rfl⟩, .inl (List.cons_ne_nil _ _)⟩
  have hbegins : m.chars <+: s := by decide +kernel
  have hread : (tokens s).toOption = some [⟨.dimension n.value "e" .number, ⟨0, 8⟩⟩,
      ⟨.delim '+', ⟨9, 9⟩⟩, ⟨.eof, ⟨10, 10⟩⟩] := by decide +kernel
  have hts := eq_ok_of_toOption hread
  have hsize : n.size = 1 / 4 := by
    have hwhole : Nat.ofDigitChars 10 ['2'] 0 = 2 := rfl
    have hfraction : Nat.ofDigitChars 10 ['5', '0'] 0 = 50 := rfl
    have hpower : n.power = -1 := rfl
    have hlength : ['5', '0'].length = 2 := rfl
    unfold Numeral.size
    rw [hpower, hwhole, hfraction, hlength]
    norm_num
  obtain ⟨-, hlongest, hproper⟩ := number_is_longest_and_nearest
  obtain ⟨⟨-, -, hlonger⟩, hflag, -, hnearest⟩ := hlongest hstarts
  rw [hscan] at hlonger hflag hnearest
  rw [hsize] at hnearest
  refine ⟨hstarts, hscan, hm, hbegins, (hlonger m hm hbegins).1, ?_, hnearest, hts, ?_⟩
  · intro hinteger
    exact (hflag.mp hinteger '.' (by decide)).1 rfl
  · exact (hproper hts _ (List.mem_cons_self ..) _ rfl).2.2

end Lexer

end CssMedia
