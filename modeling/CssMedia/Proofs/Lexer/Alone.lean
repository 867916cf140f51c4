import CssMedia.Proofs.Lexer.Cut

/-!
# Tokens by themselves

What a token takes of a text is enough to tell what it is. Only a backslash before a line break and a
function named `url` are what they are for what is behind them.
-/

namespace CssMedia.Lexer

open CodePoint

theorem not_startsNumber_of_isPrefix {s t : List Char} (h : s <+: t) (ht : startsNumber t = false) :
    startsNumber s = false := by
  rw [Bool.eq_false_iff] at ht ⊢
  intro hs
  obtain ⟨n, hn, hbegins⟩ := Numeral.startsNumber_iff.mp hs
  exact ht (Numeral.startsNumber_iff.mpr ⟨n, hn, hbegins.trans h⟩)

theorem cons_take {c : Char} {rest : List Char} {n : Nat} (hn : 0 < n) :
    c :: rest.take (n - 1) = (c :: rest).take n := by
  obtain ⟨m, rfl⟩ := Nat.exists_eq_add_one.mpr hn
  rfl

theorem FirstToken.take {c : Char} {rest : List Char} {kind : TokenKind} {n : Nat}
    (h : FirstToken c rest (some kind) n) (hbackslash : kind ≠ .delim '\\')
    (hurl : kind ≠ .function "url") : FirstToken c (rest.take (n - 1)) (some kind) n := by
  have hbegins : c :: rest.take (n - 1) <+: c :: rest :=
    List.cons_prefix_cons.mpr ⟨rfl, List.take_prefix _ _⟩
  have hpos := nextToken_pos c rest
  rw [h.nextToken_eq] at hpos
  cases h with
  | blank hblank =>
    have hblanks := takeWhile_take (Nat.le_refl (rest.takeWhile isBlank).length)
    have hcut : FirstToken c (rest.take (rest.takeWhile isBlank).length) _ _ := .blank hblank
    rwa [hblanks] at hcut
  | @string value n hquote hscan =>
    have hcut := scanString_take c rest
    rw [hscan] at hcut
    exact .string hquote hcut
  | @hash name n hc hhash hscan =>
    have hstarts := startsName_take_self rest
    have hcut := scanName_take_self rest
    have hkept := startsHash_take_self rest
    rw [hscan] at hstarts hcut hkept
    rw [← hstarts]
    exact .hash hc (hkept.trans hhash) hcut
  | numeric hnumber h =>
    obtain ⟨hstarts, hcut⟩ := h.take hnumber
    rw [← cons_take hpos] at hstarts hcut
    exact .numeric hstarts hcut
  | cdc hcdc => exact .cdc (List.prefix_take_iff.mpr ⟨hcdc, Nat.le_refl _⟩)
  | cdo hcdo => exact .cdo (List.prefix_take_iff.mpr ⟨hcdo, Nat.le_refl _⟩)
  | @atKeyword name n hc hname hscan =>
    have hstarts := startsName_take_self rest
    have hcut := scanName_take_self rest
    rw [hscan] at hstarts hcut
    exact .atKeyword hc (hstarts.trans hname) hcut
  | identLike hnumber hcdc hname h =>
    obtain ⟨hstarts, hcut⟩ := h.take hurl
    rw [← cons_take hpos] at hstarts hcut
    exact .identLike (not_startsNumber_of_isPrefix hbegins hnumber) (fun h => hcdc (h.trans hbegins))
      (hstarts.trans hname) hcut
  | punctuation hblank hquote hhash hnumber hcdo hat hname =>
    have hc : c ≠ '\\' := by
      rintro rfl
      exact hbackslash rfl
    have hstarts : startsName [c] = false := by
      by_cases hdash : c = '-'
      · rw [hdash]
        rfl
      · rwa [startsName_cons, if_neg hdash, if_neg hc] at hname ⊢
    have hnoHash : ¬ (c = '#' ∧ startsHash []) := by simp [startsHash, startsEscape]
    have hnoAt : ¬ (c = '@' ∧ startsName []) := by simp [startsName]
    exact .punctuation hblank hquote hnoHash (not_startsNumber_of_isPrefix hbegins hnumber)
      (fun h => hcdo (h.trans hbegins)) hnoAt hstarts

theorem punctuation_eq_delim {c d : Char} (h : punctuation c = .delim d) : c = d := by
  unfold punctuation at h
  split at h <;> cases h
  rfl

/-- A backslash that is all of the text starts a name, and `url(` is a url without an end. -/
theorem FirstToken.kind_of_whole {c : Char} {rest : List Char} {kind : TokenKind}
    (h : FirstToken c rest (some kind) (rest.length + 1)) :
    kind ≠ .delim '\\' ∧ kind ≠ .function "url" := by
  generalize hlen : rest.length + 1 = n at h
  cases h with
  | numeric _ h => cases h <;> exact ⟨nofun, nofun⟩
  | identLike _ _ _ h =>
    cases h with
    | @function name behind n hscan hrest hbare =>
      refine ⟨nofun, fun hname => ?_⟩
      have hbehind := congrArg List.length hrest
      rw [List.length_drop, List.length_cons, List.length_cons] at hbehind
      obtain rfl : behind = [] := List.eq_nil_of_length_eq_zero (by omega)
      have hnone := hbare (TokenKind.function.inj hname)
      rw [bareUrl_nil] at hnone
      cases hnone
    | ident | url => exact ⟨nofun, nofun⟩
  | punctuation _ _ _ _ _ _ hname =>
    refine ⟨fun heq => ?_, punctuation_ne rfl c⟩
    obtain rfl := punctuation_eq_delim heq
    obtain rfl := List.eq_nil_of_length_eq_zero (Nat.succ.inj hlen)
    cases hname
  | blank | string | hash | cdc | cdo | atKeyword => exact ⟨nofun, nofun⟩

/-! ## The tokens of a text -/

theorem NextAt.tokens_own {s : List Char} {start : Nat} {t : Token} (h : NextAt s start t)
    (hbackslash : t.kind ≠ .delim '\\') (hurl : t.kind ≠ .function "url") :
    let own := s.extract t.span.start (t.span.stop + 1)
    tokens own = .ok [⟨t.kind, ⟨0, own.length - 1⟩⟩, ⟨.eof, ⟨own.length, own.length⟩⟩] := by
  intro own
  obtain ⟨c, rest, hdrop, hread⟩ := h.read
  have hordered := h.ordered
  have hinside := h.inside
  generalize hn : t.span.stop - t.span.start = n at hread
  have hown : own = c :: rest.take n := by
    have hlen : t.span.stop + 1 - t.span.start = n + 1 := by omega
    show (s.drop t.span.start).take (t.span.stop + 1 - t.span.start) = _
    rw [hdrop, hlen, List.take_succ_cons]
  have hlen : n ≤ rest.length := by
    have := congrArg List.length hdrop
    rw [List.length_drop, List.length_cons] at this
    omega
  have hcomment : c = '/' → (rest.take n).head? ≠ some '*' := by
    have hnoMore := h.noMore
    rw [hdrop, startsComment_cons] at hnoMore
    exact fun hc => head?_take_ne fun hstar => hnoMore ⟨hc, hstar⟩
  have hcut := ((firstToken_of_nextToken hread).take hbackslash hurl).nextToken_eq
  rw [hown, tokens, tokensFrom_cons hcomment hcut, List.drop_take, Nat.sub_self, List.take_zero,
    tokensFrom_nil, List.length_cons, List.length_take, Nat.min_eq_left hlen, Nat.zero_add]
  rfl

theorem kind_of_tokens_single {s : List Char} {kind : TokenKind}
    (h : tokens s = .ok [⟨kind, ⟨0, s.length - 1⟩⟩, ⟨.eof, ⟨s.length, s.length⟩⟩]) :
    kind ≠ .eof ∧ kind ≠ .delim '\\' ∧ kind ≠ .function "url" := by
  obtain ⟨inner, heq, hinner, -⟩ := (tokens_eq_ok_iff.mp h).exists_inner
  obtain rfl : inner = [⟨kind, ⟨0, s.length - 1⟩⟩] := by
    have hlast := congrArg List.dropLast heq
    rw [List.dropLast_concat] at hlast
    exact hlast.symm
  have hnext := hinner [] _ [] rfl
  obtain ⟨c, rest, hdrop, hread⟩ := hnext.read
  obtain rfl : s = c :: rest := hdrop
  exact ⟨hnext.ne_eof, (firstToken_of_nextToken hread).kind_of_whole⟩

/-- A token is told by what it takes of its text, which is one token by itself and the same. Only the
end, a backslash that escapes nothing and a function named `url` are not. -/
theorem tokens_own_iff {s : List Char} {ts : List Token} (hts : tokens s = .ok ts) {t : Token}
    (ht : t ∈ ts) :
    let own := s.extract t.span.start (t.span.stop + 1)
    tokens own = .ok [⟨t.kind, ⟨0, own.length - 1⟩⟩, ⟨.eof, ⟨own.length, own.length⟩⟩] ↔
      t.kind ≠ .eof ∧ t.kind ≠ .delim '\\' ∧ t.kind ≠ .function "url" := by
  constructor
  · exact fun hown => kind_of_tokens_single hown
  · rintro ⟨heof, hbackslash, hurl⟩
    obtain ⟨place, hnext⟩ := (tokens_eq_ok_iff.mp hts).exists_nextAt ht heof
    exact hnext.tokens_own hbackslash hurl

/-- The exponent of `1e2` ends before a second `e`, which is a unit with an escape in it. The backslash
before the line break would start a name if it were alone. -/
theorem tokens_own_dimension :
    let s := "1e2e\\66 \\\n".toList
    let t : Token := ⟨.dimension (.ofBits 0x4059000000000000) "ef" .number, ⟨0, 7⟩⟩
    let u : Token := ⟨.delim '\\', ⟨8, 8⟩⟩
    tokens s = .ok [t, u, ⟨.whitespace, ⟨9, 9⟩⟩, ⟨.eof, ⟨10, 10⟩⟩] ∧
      tokens (s.extract 0 8) = .ok [t, ⟨.eof, ⟨8, 8⟩⟩] ∧
      tokens (s.extract 8 9) ≠ .ok [⟨.delim '\\', ⟨0, 0⟩⟩, ⟨.eof, ⟨1, 1⟩⟩] := by
  intro s t u
  have hread : (tokens s).toOption = some [t, u, ⟨.whitespace, ⟨9, 9⟩⟩, ⟨.eof, ⟨10, 10⟩⟩] := by
    decide +kernel
  have hts := eq_ok_of_toOption hread
  refine ⟨hts, (tokens_own_iff hts (List.mem_cons_self ..)).mpr ⟨nofun, nofun, nofun⟩, fun hu => ?_⟩
  have hown := tokens_own_iff hts (List.mem_cons_of_mem t (List.mem_cons_self ..))
  exact (hown.mp hu).2.1 rfl

end CssMedia.Lexer
