import CssMedia.Proofs.Grammar.Seen
import CssMedia.Proofs.LetterCase.Scan
import CssMedia.Proofs.Lexer.Tokens

/-!
# Letter case in tokens

The tokens of a text are those of the same text in lower case, in the same places, up to what the
grammar does not see: the contents of strings, urls and hashes.
-/

namespace CssMedia

namespace Lexer

open CodePoint

/-! ## Kinds -/

/-- The kind of a token as it is seen, and its length. -/
def seenScan (p : TokenKind × Nat) : TokenKind × Nat := (p.1.seen, p.2)

theorem scanIdentLike_toLower (s : List Char) :
    seenScan (scanIdentLike (s.map Char.toLower)) = seenScan (scanIdentLike s) := by
  obtain ⟨name, name', n, hread, hread', hname⟩ := exists_scans (scanName_toLower s)
  simp (disch := decide) only [scanIdentLike_eq, hread, hread', hname, ← List.map_drop,
    ← List.map_tail, head?_toLower_eq_iff]
  split
  · split
    · have hurl := bareUrl_toLower (s.drop n).tail
      generalize bareUrl _ = r' at hurl ⊢
      generalize bareUrl _ = r at hurl ⊢
      rcases r with _ | ⟨value, k⟩ <;> rcases r' with _ | ⟨value', k'⟩ <;> cases hurl <;> rfl
    · rfl
  · rfl

theorem scanNumeric_toLower (s : List Char) :
    seenScan (scanNumeric (s.map Char.toLower)) = seenScan (scanNumeric s) := by
  simp only [scanNumeric, Numeral.length_scan_toLower, Numeral.value_scan_toLower,
    Numeral.flag_scan_toLower, ← List.map_drop, startsName_toLower]
  generalize s.drop (Numeral.scan s).length = rest
  split
  · obtain ⟨unit, unit', n, hread, hread', hunit⟩ := exists_scans (scanName_toLower rest)
    simp only [hread, hread', hunit]
  · rw [if_congr (head?_toLower_eq_iff (by decide)) rfl rfl]

theorem scanHash_toLower (rest : List Char) :
    seenScan (scanHash (rest.map Char.toLower)) = seenScan (scanHash rest) := by
  simp only [scanHash, caseBlind_isNameChar.head?, startsEscape_toLower, startsName_toLower]
  split
  · have hlen := (scanName_toLower rest).2
    exact congrArg (fun n => (_, n + 1)) hlen
  · rfl

theorem toLower_of_not_startsName {c : Char} {rest : List Char}
    (h : startsName (c :: rest) = false) : c.toLower = c := by
  apply toLower_of_not_isUpper
  rw [Bool.eq_false_iff]
  intro hupper
  rw [isUpper_iff] at hupper
  have hstart : isNameStart c := isNameStart_iff.mpr (.inl (.inl hupper))
  rw [startsName_cons, if_neg, if_neg, hstart] at h
  · cases h
  · rintro rfl
    exact absurd hupper (by decide)
  · rintro rfl
    exact absurd hupper (by decide)

theorem prefix_toLower_iff {p : List Char} (hp : p.any Char.isAlpha = false) (s : List Char) :
    p <+: s.map Char.toLower ↔ p <+: s := by
  induction p generalizing s with
  | nil => simp
  | cons d p ih =>
    rw [List.any_cons, Bool.or_eq_false_iff] at hp
    cases s with
    | nil => simp
    | cons c s =>
      rw [List.map_cons, List.cons_prefix_cons, List.cons_prefix_cons, ih hp.2, eq_comm,
        toLower_eq_iff hp.1, eq_comm]

theorem seen_of_scan {p p' : TokenKind × Nat} (h : seenScan p' = seenScan p) :
    (p'.map some id).1.map TokenKind.seen = (p.map some id).1.map TokenKind.seen ∧
      (p'.map some id).2 = (p.map some id).2 :=
  ⟨congrArg (fun q : TokenKind × Nat => some q.1) h, (congrArg Prod.snd h :)⟩

theorem nextToken_toLower (c : Char) (rest : List Char) :
    (nextToken c.toLower (rest.map Char.toLower)).1.map TokenKind.seen =
        (nextToken c rest).1.map TokenKind.seen ∧
      (nextToken c.toLower (rest.map Char.toLower)).2 = (nextToken c rest).2 := by
  have hnumber := startsNumber_toLower (c :: rest)
  have hname := startsName_toLower (c :: rest)
  have hcdc := prefix_toLower_iff (p := ['-', '-', '>']) (by decide) (c :: rest)
  have hcdo := prefix_toLower_iff (p := ['<', '!', '-', '-']) (by decide) (c :: rest)
  rw [List.map_cons] at hnumber hname hcdc hcdo
  simp (disch := decide) only [nextToken, caseBlind_isBlank c, caseBlind_isBlank.length_takeWhile,
    Bool.or_eq_true, Bool.and_eq_true, beq_iff_eq, toLower_eq_iff, hnumber, hcdc, hcdo,
    startsName_toLower, hname]
  -- Both texts take the same branch of the lexer.
  split
  · exact ⟨rfl, rfl⟩
  split
  · next hquote =>
    have hlower : c.toLower = c := by rcases hquote with rfl | rfl <;> rfl
    have hquote' : c.isAlpha = false := by rcases hquote with rfl | rfl <;> rfl
    obtain ⟨value, value', n, hread, hread', hsome⟩ := exists_scans (scanString_toLower hquote' rest)
    rw [hlower, hread, hread']
    rcases value with _ | value <;> rcases value' with _ | value' <;> cases hsome <;>
      exact ⟨rfl, rfl⟩
  split
  · exact seen_of_scan (scanHash_toLower rest)
  split
  · have hscan := scanNumeric_toLower (c :: rest)
    exact seen_of_scan hscan
  split
  · exact ⟨rfl, rfl⟩
  split
  · exact ⟨rfl, rfl⟩
  split
  · obtain ⟨hname, hlen⟩ := scanName_toLower rest
    exact ⟨congrArg (fun name => some (TokenKind.atKeyword name)) hname, congrArg (· + 1) hlen⟩
  split
  · exact seen_of_scan (scanIdentLike_toLower (c :: rest))
  · next hstarts =>
    -- A letter would start a name, so the token is no letter.
    rw [toLower_of_not_startsName (Bool.not_eq_true _ ▸ hstarts)]
    exact ⟨rfl, rfl⟩

end Lexer

/-! ## Tokens and lexemes -/

def Token.seen (t : Token) : Token := ⟨t.kind.seen, t.span⟩

/-- A lexeme as it is seen, with its place and its space. -/
def Lexeme.bare (t : Lexeme) : Lexeme := ⟨t.kind.seen, t.span, t.afterSpace⟩

theorem map_cons_of_map {ε α β : Type} {f : α → β} {r r' : Except ε (List α)} {a a' : α}
    (h : r'.map (List.map f) = r.map (List.map f)) (ha : f a' = f a) :
    (r'.map (a' :: ·)).map (List.map f) = (r.map (a :: ·)).map (List.map f) := by
  have hcons := congrArg (Except.map (f a :: ·)) h
  cases r <;> cases r' <;> simp_all [Except.map]

theorem Lexer.tokensFrom_toLower (start : Nat) (s : List Char) :
    (tokensFrom start (s.map Char.toLower)).map (List.map Token.seen) =
      (tokensFrom start s).map (List.map Token.seen) := by
  rw [tokensFrom_eq, commentsLength_toLower, ← List.map_drop, tokensFrom_eq]
  cases hdrop : s.drop (commentsLength s) with
  | nil => rfl
  | cons c rest =>
    obtain ⟨kind, kind', n, hnext, hnext', hkind⟩ := exists_scans (nextToken_toLower c rest)
    simp only [List.map_cons, hnext, hnext']
    rcases kind with _ | kind <;> rcases kind' with _ | kind'
    · rfl
    · cases hkind
    · cases hkind
    · have hrest := tokensFrom_toLower (start + commentsLength s + (n - 1) + 1) (rest.drop (n - 1))
      rw [List.map_drop] at hrest
      exact map_cons_of_map hrest (congrArg (Token.mk · _) (Option.some.inj hkind))
termination_by s.length
decreasing_by
  have := congrArg List.length hdrop
  simp only [List.length_drop, List.length_cons] at this ⊢
  omega

theorem Lexeme.ofTokensAfter_seen (space : Bool) (ts : List Token) :
    ofTokensAfter space (ts.map Token.seen) = (ofTokensAfter space ts).map (List.map bare) := by
  induction ts generalizing space with
  | nil => rfl
  | cons t ts ih =>
    obtain ⟨kind, span⟩ := t
    cases kind with
    | whitespace | eof => exact ih _
    | openBrace | semicolon => rfl
    | _ =>
      show (ofTokensAfter false (ts.map Token.seen)).map _ = _
      rw [ih]
      show _ = ((ofTokensAfter false ts).map _).map _
      cases ofTokensAfter false ts <;> rfl

theorem Lexer.lexemesFrom_bare (start : Nat) (space : Bool) (s : List Char) :
    (lexemesFrom start space s).map (List.map Lexeme.bare) =
      (tokensFrom start s).map (List.map Token.seen) >>= Lexeme.ofTokensAfter space := by
  unfold lexemesFrom
  cases tokensFrom start s with
  | error e => rfl
  | ok ts => exact (Lexeme.ofTokensAfter_seen space ts).symm

theorem Lexer.lexemesFrom_toLower (start : Nat) (space : Bool) (s : List Char) :
    (lexemesFrom start space (s.map Char.toLower)).map (List.map Lexeme.bare) =
      (lexemesFrom start space s).map (List.map Lexeme.bare) := by
  rw [lexemesFrom_bare, tokensFrom_toLower, lexemesFrom_bare]

theorem Lexeme.seenAll_bare (move : Span → Span) (joins : Bool) (ts : List Lexeme) :
    seenAll move joins (ts.map bare) = seenAll move joins ts := by
  induction ts generalizing joins with
  | nil => rfl
  | cons t ts ih =>
    have hdelim : ∀ c, t.bare.isDelim c = t.isDelim c := t.kind.seen_beq_delim
    rw [List.map_cons, seenAll, seenAll, ih, mayJoin, hdelim, hdelim, ← mayJoin, seen, hdelim]
    exact congrArg (fun kind => Lexeme.mk kind _ _ :: _) t.kind.seen_seen

end CssMedia
