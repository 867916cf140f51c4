import CssMedia.Parse
import CssMedia.Proofs.Lexer.Comments
import CssMedia.Proofs.Numeral

/-!
# One token after another

What a text is for the grammar, one token at a time: a token gives a lexeme, and a blank the
note that the next lexeme comes after a space.
-/

namespace CssMedia

namespace Lexeme

/-- Blanks, the end, and what a media query may not hold are no lexemes. -/
def isLexeme : TokenKind → Bool
  | .whitespace | .eof | .openBrace | .semicolon => false
  | _ => true

theorem ofTokensAfter_cons {kind : TokenKind} (h : isLexeme kind) (space : Bool) (span : Span)
    (rest : List Token) :
    ofTokensAfter space (⟨kind, span⟩ :: rest) =
      (ofTokensAfter false rest).map (⟨kind, span, space⟩ :: ·) := by
  cases kind <;> first | rfl | cases h

end Lexeme

namespace Lexer

open CodePoint

theorem tokensFrom_eq (start : Nat) (s : List Char) :
    tokensFrom start s =
      match s.drop (commentsLength s) with
      | [] => .ok [⟨.eof, ⟨start + commentsLength s, start + commentsLength s⟩⟩]
      | c :: rest =>
        match nextToken c rest with
        | (none, n) =>
          .error (.single .invalidString
            ⟨start + commentsLength s, start + commentsLength s + (n - 1)⟩)
        | (some kind, n) =>
          (tokensFrom (start + commentsLength s + (n - 1) + 1) (rest.drop (n - 1))).map
            (⟨kind, ⟨start + commentsLength s, start + commentsLength s + (n - 1)⟩⟩ :: ·) := by
  rw [tokensFrom]
  split
  · next h => simp [h]
  · next c rest h =>
    simp only [h]
    rcases nextToken c rest with ⟨_ | kind, n⟩
    · rfl
    · simp only
      cases tokensFrom (start + commentsLength s + (n - 1) + 1) (rest.drop (n - 1)) <;> rfl

theorem tokensFrom_nil (start : Nat) : tokensFrom start [] = .ok [⟨.eof, ⟨start, start⟩⟩] := by
  rw [tokensFrom_eq, commentsLength_of_not_startsComment (by simp [StartsComment])]
  rfl

theorem commentsLength_eq_zero {c : Char} {rest : List Char} (h : c = '/' → rest.head? ≠ some '*') :
    commentsLength (c :: rest) = 0 := by
  apply commentsLength_of_not_startsComment
  rw [startsComment_cons]
  exact fun hstart => h hstart.1 hstart.2

theorem tokensFrom_cons {c : Char} {rest : List Char} (hc : c = '/' → rest.head? ≠ some '*')
    {kind : TokenKind} {n : Nat} (hnext : nextToken c rest = (some kind, n + 1)) (start : Nat) :
    tokensFrom start (c :: rest) =
      (tokensFrom (start + n + 1) (rest.drop n)).map (⟨kind, ⟨start, start + n⟩⟩ :: ·) := by
  rw [tokensFrom_eq, commentsLength_eq_zero hc]
  simp [hnext]

/-- The lexemes of a text at position `start`, where `space` tells of blanks before it. -/
def lexemesFrom (start : Nat) (space : Bool) (s : List Char) : Except ParseError (List Lexeme) :=
  tokensFrom start s >>= Lexeme.ofTokensAfter space

theorem lexemesFrom_nil (start : Nat) (space : Bool) : lexemesFrom start space [] = .ok [] := by
  rw [lexemesFrom, tokensFrom_nil]
  rfl

theorem lexemesFrom_cons {c : Char} {rest : List Char} (hc : c = '/' → rest.head? ≠ some '*')
    {kind : TokenKind} {n : Nat} (hnext : nextToken c rest = (some kind, n + 1))
    (hkind : Lexeme.isLexeme kind) (start : Nat) (space : Bool) :
    lexemesFrom start space (c :: rest) =
      (lexemesFrom (start + n + 1) false (rest.drop n)).map
        (⟨kind, ⟨start, start + n⟩, space⟩ :: ·) := by
  rw [lexemesFrom, lexemesFrom, tokensFrom_cons hc hnext]
  cases tokensFrom (start + n + 1) (rest.drop n) with
  | error e => rfl
  | ok ts => exact Lexeme.ofTokensAfter_cons hkind space _ ts

theorem nextToken_blank {c : Char} (hc : isBlank c) (rest : List Char) :
    nextToken c rest = (some .whitespace, (rest.takeWhile isBlank).length + 1) := by
  unfold nextToken
  rw [if_pos hc]

theorem ne_slash_of_isBlank {c : Char} (hc : isBlank c) : c ≠ '/' := by
  rintro rfl
  cases hc

theorem lexemesFrom_blanks {c : Char} (hc : isBlank c) (rest : List Char) (start : Nat)
    (space : Bool) :
    lexemesFrom start space (c :: rest) =
      lexemesFrom (start + (rest.takeWhile isBlank).length + 1) true (rest.dropWhile isBlank) := by
  rw [lexemesFrom, lexemesFrom,
    tokensFrom_cons (fun h => absurd h (ne_slash_of_isBlank hc)) (nextToken_blank hc rest),
    drop_length_takeWhile]
  cases tokensFrom (start + (rest.takeWhile isBlank).length + 1) (rest.dropWhile isBlank) with
  | error e => rfl
  | ok ts => rfl

theorem lexemesFrom_blank {c : Char} (hc : isBlank c) (rest : List Char) (start : Nat)
    (space : Bool) : lexemesFrom start space (c :: rest) = lexemesFrom (start + 1) true rest := by
  rw [lexemesFrom_blanks hc]
  cases rest with
  | nil => rfl
  | cons d rest =>
    by_cases hd : isBlank d
    · rw [lexemesFrom_blanks hd, List.takeWhile_cons_of_pos hd, List.dropWhile_cons_of_pos hd,
        List.length_cons, Nat.add_right_comm, ← Nat.add_assoc]
    · rw [List.takeWhile_cons_of_neg hd, List.dropWhile_cons_of_neg hd]
      rfl

end Lexer

theorem Source.ofChars_eq (s : List Char) :
    Source.ofChars s = (Lexer.lexemesFrom 0 false s).map (⟨·, s.length⟩) := by
  unfold ofChars
  rw [Lexer.lexemesFrom, Lexer.tokens]
  cases Lexer.tokensFrom 0 s with
  | error e => rfl
  | ok ts =>
    simp only [bind, Except.bind, Lexeme.ofTokens]
    cases Lexeme.ofTokensAfter false ts <;> rfl

end CssMedia
