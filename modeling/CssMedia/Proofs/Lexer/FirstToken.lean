import CssMedia.Lexer

/-!
# The first token of a text

What one step of the lexer can read, by what the text starts with.
-/

namespace CssMedia.Lexer

open CodePoint

/-! ## Strings and names, step by step -/

/-- One step of a string, without a look at two code points at once. -/
theorem scanString_cons (quote c : Char) (rest : List Char) :
    scanString quote (c :: rest) =
      if c = quote then (some [], 1)
      else if c = '\n' then (none, 1)
      else if c = '\\' then
        if rest = [] then (none, 1)
        else if rest.head? = some '\n' then
          ((scanString quote rest.tail).1, (scanString quote rest.tail).2 + 2)
        else
          let (e, k) := scanEscape rest
          let (value, n) := scanString quote (rest.drop k)
          (value.map (e :: ·), n + k + 1)
      else ((scanString quote rest).1.map (c :: ·), (scanString quote rest).2 + 1) := by
  rw [scanString.eq_def]
  dsimp only
  congr 3
  rcases rest with _ | ⟨d, rest⟩
  · rfl
  · by_cases hd : d = '\n'
    · subst hd
      rfl
    · simp [hd]

/-- A bare url behind `url(` and the blanks there, unless a quote or something malformed is. -/
def bareUrl (rest : List Char) : Option (List Char × Nat) :=
  let blanks := (rest.takeWhile isBlank).length
  let body := rest.drop blanks
  if body.head? = some '"' ∨ body.head? = some '\'' then none
  else (scanUrl body).map fun (value, k) => (value, blanks + k)

theorem scanIdentLike_eq (s : List Char) :
    scanIdentLike s =
      let (name, n) := scanName s
      if (s.drop n).head? = some '(' then
        if lowercase name = "url" then
          match bareUrl (s.drop n).tail with
          | none => (.function (lowercase name), n + 1)
          | some (value, k) => (.url (String.ofList value), n + 1 + k)
        else (.function (lowercase name), n + 1)
      else (.ident (lowercase name), n) := by
  unfold scanIdentLike
  rcases scanName s with ⟨name, n⟩
  dsimp only
  split
  · next rest hrest =>
    rw [hrest, List.head?_cons, if_pos rfl, List.tail_cons, bareUrl]
    dsimp only
    split
    · next hurl =>
      split
      · next hquote => rw [if_pos (.inl hquote)]
      · next hquote => rw [if_pos (.inr hquote)]
      · next hmalformed hdouble hsingle => rw [hmalformed, Option.map_none, ite_self]
      · next value k hread hdouble hsingle =>
        rw [if_neg (not_or.mpr ⟨hdouble, hsingle⟩), hread, Option.map_some]
        dsimp only
        rw [Nat.add_assoc]
    · rfl
  · next hparen =>
    rw [if_neg]
    intro hhead
    obtain ⟨rest, hrest⟩ := List.head?_eq_some_iff.mp hhead
    exact hparen rest hrest

/-- What is read of a name, by what is behind it. -/
inductive IdentLike (s : List Char) : TokenKind → Nat → Prop
  | ident {name : List Char} {n : Nat} (hscan : scanName s = (name, n))
    (hparen : (s.drop n).head? ≠ some '(') : IdentLike s (.ident (lowercase name)) n
  | function {name rest : List Char} {n : Nat} (hscan : scanName s = (name, n))
    (hrest : s.drop n = '(' :: rest) (hbare : lowercase name = "url" → bareUrl rest = none) :
    IdentLike s (.function (lowercase name)) (n + 1)
  | url {name rest value : List Char} {n k : Nat} (hscan : scanName s = (name, n))
    (hrest : s.drop n = '(' :: rest) (hurl : lowercase name = "url")
    (hbare : bareUrl rest = some (value, k)) : IdentLike s (.url (String.ofList value)) (n + 1 + k)

theorem identLike_scanIdentLike (s : List Char) :
    IdentLike s (scanIdentLike s).1 (scanIdentLike s).2 := by
  rw [scanIdentLike_eq]
  rcases hscan : scanName s with ⟨name, n⟩
  dsimp only
  split
  · next hparen =>
    obtain ⟨rest, hrest⟩ := List.head?_eq_some_iff.mp hparen
    rw [hrest, List.tail_cons]
    split
    · next hurl =>
      split
      · next hnone => exact .function hscan hrest fun _ => hnone
      · next hsome => exact .url hscan hrest hurl hsome
    · next hurl => exact .function hscan hrest fun h => absurd h hurl
  · next hparen => exact .ident hscan hparen

theorem IdentLike.scanIdentLike_eq {s : List Char} {kind : TokenKind} {n : Nat}
    (h : IdentLike s kind n) : scanIdentLike s = (kind, n) := by
  rw [Lexer.scanIdentLike_eq]
  cases h with
  | ident hscan hparen =>
    rw [hscan]
    exact if_neg hparen
  | function hscan hrest hbare =>
    rw [hscan]
    dsimp only
    rw [hrest, List.head?_cons, if_pos rfl, List.tail_cons]
    split
    · next hurl => rw [hbare hurl]
    · rfl
  | url hscan hrest hurl hbare =>
    rw [hscan]
    dsimp only
    rw [hrest, List.head?_cons, if_pos rfl, List.tail_cons, if_pos hurl, hbare]

/-- What is read of a number, by what is behind it. -/
inductive Numeric (s : List Char) : TokenKind → Nat → Prop
  | dimension {rest unit : List Char} {n : Nat} (hrest : s.drop (Numeral.scan s).length = rest)
    (hname : startsName rest) (hscan : scanName rest = (unit, n)) :
    Numeric s (.dimension (Numeral.scan s).value (lowercase unit) .number)
      ((Numeral.scan s).length + n)
  | percentage {rest : List Char} (hrest : s.drop (Numeral.scan s).length = '%' :: rest) :
    Numeric s (.percentage (Numeral.scan s).value (Numeral.scan s).flag)
      ((Numeral.scan s).length + 1)
  | number {rest : List Char} (hrest : s.drop (Numeral.scan s).length = rest)
    (hname : startsName rest = false) (hpercent : rest.head? ≠ some '%') :
    Numeric s (.number (Numeral.scan s).value (Numeral.scan s).flag) (Numeral.scan s).length

theorem numeric_scanNumeric (s : List Char) : Numeric s (scanNumeric s).1 (scanNumeric s).2 := by
  unfold scanNumeric
  dsimp only
  split
  · next hname => exact .dimension rfl hname rfl
  next hname =>
  split
  · next hpercent =>
    obtain ⟨rest, hrest⟩ := List.head?_eq_some_iff.mp hpercent
    exact .percentage hrest
  · next hpercent => exact .number rfl (by simpa using hname) hpercent

theorem Numeric.scanNumeric_eq {s : List Char} {kind : TokenKind} {n : Nat}
    (h : Numeric s kind n) : scanNumeric s = (kind, n) := by
  unfold scanNumeric
  dsimp only
  cases h with
  | dimension hrest hname hscan => rw [hrest, if_pos hname, hscan]
  | percentage hrest =>
    rw [hrest]
    rfl
  | number hrest hname hpercent => rw [hrest, if_neg (by simp [hname]), if_neg hpercent]

/-! ## The first token -/

/-- Something of a name is behind a `#`. -/
def startsHash (rest : List Char) : Bool := rest.head?.any isNameChar || startsEscape rest

theorem scanHash_of_startsHash {rest name : List Char} {n : Nat} (h : startsHash rest)
    (hscan : scanName rest = (name, n)) :
    scanHash rest =
      (.hash (String.ofList name) (if startsName rest then .id else .unrestricted), n + 1) := by
  unfold startsHash at h
  rw [scanHash, if_pos h, hscan]

theorem scanHash_of_not_startsHash {rest : List Char} (h : ¬ startsHash rest) :
    scanHash rest = (.delim '#', 1) := by
  unfold startsHash at h
  rw [scanHash, if_neg h]

/-- The kinds of a code point that is a token by itself. -/
def isPunctuation : TokenKind → Bool
  | .openParen | .closeParen | .openBracket | .closeBracket | .openBrace | .closeBrace | .comma
  | .colon | .semicolon | .delim _ => true
  | _ => false

theorem punctuation_ne {kind : TokenKind} (h : isPunctuation kind = false) (c : Char) :
    punctuation c ≠ kind := by
  rintro rfl
  revert h
  unfold punctuation
  split <;> nofun

/-- The token at the start of `c :: rest` and its length. A string whose line ends first is none. -/
inductive FirstToken (c : Char) (rest : List Char) : Option TokenKind → Nat → Prop
  | blank (hblank : isBlank c) :
    FirstToken c rest (some .whitespace) ((rest.takeWhile isBlank).length + 1)
  | string {value : List Char} {n : Nat} (hquote : c = '"' ∨ c = '\'')
    (hscan : scanString c rest = (some value, n)) :
    FirstToken c rest (some (.string (String.ofList value))) (n + 1)
  | openString {n : Nat} (hquote : c = '"' ∨ c = '\'') (hscan : scanString c rest = (none, n)) :
    FirstToken c rest none (n + 1)
  | hash {name : List Char} {n : Nat} (hc : c = '#') (hhash : startsHash rest)
    (hscan : scanName rest = (name, n)) :
    FirstToken c rest (some (.hash (String.ofList name) (if startsName rest then .id else .unrestricted)))
      (n + 1)
  | numeric {kind : TokenKind} {n : Nat} (hnumber : startsNumber (c :: rest))
    (h : Numeric (c :: rest) kind n) : FirstToken c rest (some kind) n
  | cdc (hcdc : ['-', '-', '>'] <+: c :: rest) : FirstToken c rest (some .cdc) 3
  | cdo (hcdo : ['<', '!', '-', '-'] <+: c :: rest) : FirstToken c rest (some .cdo) 4
  | atKeyword {name : List Char} {n : Nat} (hc : c = '@') (hname : startsName rest)
    (hscan : scanName rest = (name, n)) :
    FirstToken c rest (some (.atKeyword (lowercase name))) (n + 1)
  | identLike {kind : TokenKind} {n : Nat} (hnumber : startsNumber (c :: rest) = false)
    (hcdc : ¬ ['-', '-', '>'] <+: c :: rest) (hname : startsName (c :: rest))
    (h : IdentLike (c :: rest) kind n) : FirstToken c rest (some kind) n
  | punctuation (hblank : isBlank c = false) (hquote : ¬ (c = '"' ∨ c = '\''))
    (hhash : ¬ (c = '#' ∧ startsHash rest)) (hnumber : startsNumber (c :: rest) = false)
    (hcdo : ¬ ['<', '!', '-', '-'] <+: c :: rest) (hat : ¬ (c = '@' ∧ startsName rest))
    (hname : startsName (c :: rest) = false) : FirstToken c rest (some (punctuation c)) 1

theorem firstToken_nextToken (c : Char) (rest : List Char) :
    FirstToken c rest (nextToken c rest).1 (nextToken c rest).2 := by
  unfold nextToken
  split
  · next hblank => exact .blank hblank
  next hblank =>
  split
  · next hquote =>
    have hquote : c = '"' ∨ c = '\'' := by simpa using hquote
    rcases hscan : scanString c rest with ⟨_ | value, n⟩
    · exact .openString hquote hscan
    · exact .string hquote hscan
  next hquote =>
  split
  · next hc =>
    subst hc
    by_cases hhash : startsHash rest
    · rcases hscan : scanName rest with ⟨name, n⟩
      rw [scanHash_of_startsHash hhash hscan]
      exact .hash rfl hhash hscan
    · rw [scanHash_of_not_startsHash hhash]
      exact .punctuation rfl (by decide) (fun h => hhash h.2) rfl (by simp) (by simp) rfl
  next hc =>
  split
  · next hnumber =>
    rw [Prod.map_fst, Prod.map_snd]
    exact .numeric hnumber (numeric_scanNumeric (c :: rest))
  next hnumber =>
  split
  · next hcdc => exact .cdc hcdc
  next hcdc =>
  split
  · next hcdo => exact .cdo hcdo
  next hcdo =>
  split
  · next hat =>
    simp only [Bool.and_eq_true, beq_iff_eq] at hat
    rcases hscan : scanName rest with ⟨name, n⟩
    exact .atKeyword hat.1 hat.2 hscan
  next hat =>
  split
  · next hname =>
    rw [Prod.map_fst, Prod.map_snd]
    exact .identLike (by simpa using hnumber) hcdc hname (identLike_scanIdentLike (c :: rest))
  · next hname =>
    exact .punctuation (by simpa using hblank) (by simpa using hquote) (fun h => hc h.1)
      (by simpa using hnumber) hcdo (by simpa using hat) (by simpa using hname)

theorem firstToken_of_nextToken {c : Char} {rest : List Char} {kind? : Option TokenKind} {n : Nat}
    (h : nextToken c rest = (kind?, n)) : FirstToken c rest kind? n := by
  have hfirst := firstToken_nextToken c rest
  rwa [h] at hfirst

theorem nextToken_number {c : Char} {rest : List Char} (h : startsNumber (c :: rest)) :
    nextToken c rest = (scanNumeric (c :: rest)).map some id := by
  have hne : ∀ d ∈ [' ', '\t', '\n', '"', '\'', '#'], c ≠ d := by
    rintro d hd rfl
    simp only [List.mem_cons, List.not_mem_nil, or_false] at hd
    rcases hd with rfl | rfl | rfl | rfl | rfl | rfl <;> simp [startsNumber, startsUnsigned] at h
  simp only [List.forall_mem_cons, List.not_mem_nil, false_implies, implies_true, and_true] at hne
  unfold nextToken
  rw [if_neg, if_neg, if_neg, if_pos h]
  · simp [hne]
  · simp [hne]
  · simp [isBlank, hne]

theorem nextToken_name {c : Char} {rest : List Char} (hname : startsName (c :: rest))
    (hnumber : startsNumber (c :: rest) = false) (hcdc : ¬ ['-', '-', '>'] <+: c :: rest) :
    nextToken c rest = (scanIdentLike (c :: rest)).map some id := by
  have hne : ∀ d ∈ [' ', '\t', '\n', '"', '\'', '#', '<', '@'], c ≠ d := by
    rintro d hd rfl
    simp only [List.mem_cons, List.not_mem_nil, or_false] at hd
    rcases hd with rfl | rfl | rfl | rfl | rfl | rfl | rfl | rfl <;>
      simp [startsName, isNameStart] at hname
  simp only [List.forall_mem_cons, List.not_mem_nil, false_implies, implies_true, and_true] at hne
  have hcdo : ¬ ['<', '!', '-', '-'] <+: c :: rest := by
    rw [List.cons_prefix_cons]
    rintro ⟨rfl, -⟩
    simp at hne
  unfold nextToken
  rw [if_neg, if_neg, if_neg, if_neg, if_neg hcdc, if_neg hcdo, if_neg, if_pos hname]
  · simp [hne]
  · simp [hnumber]
  · simp [hne]
  · simp [hne]
  · simp [isBlank, hne]

theorem FirstToken.nextToken_eq {c : Char} {rest : List Char} {kind? : Option TokenKind} {n : Nat}
    (h : FirstToken c rest kind? n) : nextToken c rest = (kind?, n) := by
  cases h with
  | blank hblank =>
    unfold nextToken
    rw [if_pos hblank]
  | string hquote hscan =>
    unfold nextToken
    rcases hquote with rfl | rfl <;> rw [if_neg (by decide), if_pos (by decide), hscan] <;> rfl
  | openString hquote hscan =>
    unfold nextToken
    rcases hquote with rfl | rfl <;> rw [if_neg (by decide), if_pos (by decide), hscan] <;> rfl
  | hash hc hhash hscan =>
    subst hc
    unfold nextToken
    rw [if_neg (by decide), if_neg (by decide), if_pos rfl,
      scanHash_of_startsHash hhash hscan]
    rfl
  | numeric hnumber h =>
    rw [nextToken_number hnumber, h.scanNumeric_eq]
    rfl
  | cdc hcdc =>
    obtain ⟨rest, heq⟩ := hcdc
    cases heq
    rfl
  | cdo hcdo =>
    obtain ⟨rest, heq⟩ := hcdo
    cases heq
    rfl
  | atKeyword hc hname hscan =>
    subst hc
    unfold nextToken
    rw [if_neg (by decide), if_neg (by decide), if_neg (by decide),
      if_neg (by simp [startsNumber, startsUnsigned]), if_neg (by simp), if_neg (by simp),
      if_pos (by simpa using hname), hscan]
  | identLike hnumber hcdc hname h =>
    rw [nextToken_name hname hnumber hcdc, h.scanIdentLike_eq]
    rfl
  | punctuation hblank hquote hhash hnumber hcdo hat hname =>
    have hcdc : ¬ ['-', '-', '>'] <+: c :: rest := by
      rintro ⟨rest, heq⟩
      cases heq
      cases hname
    unfold nextToken
    rw [if_neg (by simp [hblank]), if_neg (by simpa using hquote)]
    by_cases hc : c = '#'
    · rw [if_pos hc, scanHash_of_not_startsHash fun h => hhash ⟨hc, h⟩, hc]
      rfl
    · rw [if_neg hc, if_neg (by simp [hnumber]), if_neg hcdc, if_neg hcdo, if_neg (by simpa using hat),
        if_neg (by simp [hname])]

end CssMedia.Lexer
