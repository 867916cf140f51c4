import CssMedia.Proofs.CodePoint
import CssMedia.Proofs.Input
import CssMedia.Proofs.Lexer.FirstToken
import CssMedia.Proofs.Lexer.Tokens
import CssMedia.Proofs.WellFormed

/-!
# What the lexer gives

Names come out folded and numbers proper, whatever the text is.
-/

namespace CssMedia.Lexer

open CodePoint

/-- No null character is in a text, as after its reading. -/
def NoNull (s : List Char) : Prop := ∀ c ∈ s, c ≠ '\x00'

theorem NoNull.drop {s : List Char} (h : NoNull s) (n : Nat) : NoNull (s.drop n) :=
  fun c hc => h c (List.mem_of_mem_drop hc)

/-! ## Names -/

theorem hexScalar_ne_null (digits : List Char) : hexScalar digits ≠ '\x00' := by
  unfold hexScalar
  split
  · decide
  · next hzero =>
    unfold scalar
    split
    · next hvalid =>
      intro heq
      have hvalue : (Char.ofNat (hexValue digits)).toNat = hexValue digits := by
        rw [Char.ofNat, dif_pos hvalid]
        rfl
      rw [heq] at hvalue
      exact hzero hvalue.symm
    · decide

theorem scanEscape_ne_null {s : List Char} (h : NoNull s) : (scanEscape s).1 ≠ '\x00' := by
  unfold scanEscape
  split
  · exact (by decide : replacement ≠ '\x00')
  · next c rest =>
    split
    · exact hexScalar_ne_null _
    · exact h c (List.mem_cons_self ..)

theorem noNull_scanName {s : List Char} (h : NoNull s) : NoNull (scanName s).1 := by
  fun_induction scanName s with
  | case1 => simp [NoNull]
  | case2 c rest hc name n hscan ih =>
    rw [hscan] at ih
    exact List.forall_mem_cons.mpr ⟨h c (List.mem_cons_self ..),
      ih fun d hd => h d (List.mem_cons_of_mem _ hd)⟩
  | case3 c rest hc hescape e k hread name n hscan ih =>
    have hrest : NoNull rest := fun d hd => h d (List.mem_cons_of_mem _ hd)
    have hchar := scanEscape_ne_null hrest
    rw [hscan] at ih
    rw [hread] at hchar
    exact List.forall_mem_cons.mpr ⟨hchar, ih (hrest.drop k)⟩
  | case4 => simp [NoNull]

theorem scanName_ne_nil {s : List Char} (h : startsName s) : (scanName s).1 ≠ [] := by
  unfold startsName at h
  split at h
  · rw [scanName, if_pos (by decide)]
    exact List.cons_ne_nil _ _
  · rw [scanName, if_neg (by decide), if_pos h]
    exact List.cons_ne_nil _ _
  · rw [scanName, if_pos (by simp [isNameChar, h])]
    exact List.cons_ne_nil _ _
  · simp at h

theorem isFolded_lowercase {name : List Char} (hne : name ≠ []) (h : NoNull name) :
    IsFolded (lowercase name) := by
  have htext : (lowercase name).toList = name.map Char.toLower := String.toList_ofList
  constructor
  · rw [htext]
    simpa using hne
  · rw [htext]
    intro c hc
    obtain ⟨d, hd, rfl⟩ := List.mem_map.mp hc
    exact ⟨not_isUpper_toLower d, toLower_ne_null (h d hd)⟩

/-! ## Numbers -/

theorem isWhole_scan {s : List Char} (h : (Numeral.scan s).flag = .integer) :
    (Numeral.scan s).value.isWhole := by
  generalize Numeral.scan s = n at h
  obtain ⟨hfraction, hexponent⟩ : n.fraction = [] ∧ n.exponent = [] := by
    unfold Numeral.flag at h
    split at h
    · next hplain => exact hplain
    · simp at h
  have hzero : n.decimal.exponent = 0 := by simp [Numeral.decimal, hfraction, hexponent]
  apply Binary64.isWhole_clamped
  rw [Binary64.Decimal.nearest, hzero]
  split
  · exact Nat.dvd_zero _
  · rw [if_neg (by omega), if_neg (by omega), if_pos (Int.le_refl 0)]
    exact Binary64.unitsPerOne_dvd_units_nearest _

/-! ## Tokens -/

theorem isFolded_scanName {s name : List Char} {n : Nat} (h : NoNull s) (hstarts : startsName s)
    (hscan : scanName s = (name, n)) : IsFolded (lowercase name) := by
  have hne := scanName_ne_nil hstarts
  have hnull := noNull_scanName h
  rw [hscan] at hne hnull
  exact isFolded_lowercase hne hnull

theorem Numeric.isClean {s : List Char} {kind : TokenKind} {n : Nat} (h : Numeric s kind n)
    (hs : NoNull s) : kind.IsClean := by
  have hproper : (Numeral.scan s).value.IsProper := Binary64.isProper_clamped _ _
  cases h with
  | dimension hrest hname hscan =>
    exact ⟨hproper, isFolded_scanName (hrest ▸ hs.drop _) hname hscan, rfl⟩
  | percentage => exact trivial
  | number => exact ⟨hproper, isWhole_scan⟩

theorem IdentLike.isClean {s : List Char} {kind : TokenKind} {n : Nat} (h : IdentLike s kind n)
    (hs : NoNull s) (hstarts : startsName s) : kind.IsClean := by
  cases h with
  | ident hscan => exact isFolded_scanName hs hstarts hscan
  | function | url => exact trivial

theorem isClean_punctuation (c : Char) : (punctuation c).IsClean := by
  unfold punctuation
  split <;> exact trivial

theorem isClean_nextToken {c : Char} {rest : List Char} (h : NoNull (c :: rest))
    {kind : TokenKind} {n : Nat} (hnext : nextToken c rest = (some kind, n)) : kind.IsClean := by
  cases firstToken_of_nextToken hnext with
  | numeric _ hnumeric => exact hnumeric.isClean h
  | identLike _ _ hname hident => exact hident.isClean h hname
  | punctuation => exact isClean_punctuation c
  | blank | string | hash | cdc | cdo | atKeyword => exact trivial

theorem isClean_tokensFrom {start : Nat} {s : List Char} {ts : List Token} (h : NoNull s)
    (hts : tokensFrom start s = .ok ts) : ∀ t ∈ ts, t.kind.IsClean := by
  rw [tokensFrom_eq] at hts
  cases hdrop : s.drop (commentsLength s) with
  | nil =>
    rw [hdrop] at hts
    cases hts
    simp [TokenKind.IsClean]
  | cons c rest =>
    have hrest : NoNull (c :: rest) := hdrop ▸ h.drop _
    rw [hdrop] at hts
    simp only at hts
    split at hts
    · simp at hts
    · next kind n hnext =>
      obtain ⟨us, hus, rfl⟩ := exists_of_map_eq_ok hts
      exact List.forall_mem_cons.mpr ⟨isClean_nextToken hrest hnext,
        isClean_tokensFrom (NoNull.drop (fun d hd => hrest d (List.mem_cons_of_mem _ hd)) _) hus⟩
termination_by s.length
decreasing_by
  have := congrArg List.length hdrop
  simp only [List.length_drop, List.length_cons] at this ⊢
  omega

theorem isClean_ofTokensAfter {space : Bool} {ts : List Token} {ls : List Lexeme}
    (h : ∀ t ∈ ts, t.kind.IsClean) (hls : Lexeme.ofTokensAfter space ts = .ok ls) :
    Grammar.AllClean ls := by
  fun_induction Lexeme.ofTokensAfter space ts generalizing ls with
  | case1 => cases hls; exact fun t ht => absurd ht List.not_mem_nil
  | case2 _ _ rest ih => exact ih (fun t ht => h t (List.mem_cons_of_mem _ ht)) hls
  | case3 _ _ rest ih => exact ih (fun t ht => h t (List.mem_cons_of_mem _ ht)) hls
  | case4 => simp at hls
  | case5 => simp at hls
  | case6 _ kind span rest _ _ _ _ ih =>
    obtain ⟨us, hus, rfl⟩ := exists_of_map_eq_ok hls
    exact Grammar.AllClean.cons.mpr ⟨h _ (List.mem_cons_self ..),
      ih (fun t ht => h t (List.mem_cons_of_mem _ ht)) hus⟩

theorem noNull_clean (s : List Char) : NoNull (Input.clean s) :=
  fun c hc => (Input.isClean_clean s c hc).2.2

theorem allClean_read {text : String} {source : Source} (h : Source.read text = .ok source) :
    Grammar.AllClean source.lexemes := by
  unfold Source.read at h
  rw [Source.ofChars_eq] at h
  obtain ⟨ls, hls, rfl⟩ := exists_of_map_eq_ok h
  obtain ⟨ts, hts, hls⟩ := exists_of_bind_eq_ok hls
  exact isClean_ofTokensAfter (isClean_tokensFrom (noNull_clean _) hts) hls

end CssMedia.Lexer
