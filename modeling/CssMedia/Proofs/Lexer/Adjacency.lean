import CssMedia.Proofs.Lexer.Partition

/-!
# Which lexemes come after a space

Between two lexemes of a text, and before the first, are only blanks and comments. The second is
noted to be after a space if some blank there is outside the comments. A blank in a comment does not
count, nor one that an escape takes along into the lexeme before.
-/

namespace CssMedia

namespace Lexer

open CodePoint

/-! ## Blanks and comments -/

/-- One comment, up to the first close behind its opening. -/
def IsComment (s : List Char) : Prop :=
  ∃ body, Unclosed body ∧ s = '/' :: '*' :: (body ++ ['*', '/'])

/-- Blanks and whole comments, in any order. -/
inductive Filler : List Char → Prop
  | none : Filler []
  | blank {c : Char} {rest : List Char} (hc : isBlank c) (hrest : Filler rest) : Filler (c :: rest)
  | comment {comment rest : List Char} (hcomment : IsComment comment) (hrest : Filler rest) :
    Filler (comment ++ rest)

/-- The position is in a comment, before which are only blanks and whole comments. -/
def InComment (s : List Char) (i : Nat) : Prop :=
  ∃ before comment after, s = before ++ (comment ++ after) ∧ Filler before ∧ IsComment comment ∧
    before.length ≤ i ∧ i < before.length + comment.length

/-- Some blank is in no comment. -/
def BlankOutside (s : List Char) : Prop :=
  ∃ i c, s[i]? = some c ∧ isBlank c ∧ ¬ InComment s i

theorem IsComment.append_inj {a b rest after : List Char} (ha : IsComment a) (hb : IsComment b)
    (h : a ++ rest = b ++ after) : a = b ∧ rest = after := by
  obtain ⟨body, hbody, rfl⟩ := ha
  obtain ⟨body', hbody', rfl⟩ := hb
  apply List.append_inj h
  simp only [List.cons_append, List.append_assoc, List.cons.injEq, true_and, List.nil_append] at h
  have hlen := commentLength_closed hbody rest
  rw [h, commentLength_closed hbody' after] at hlen
  simp only [List.length_cons, List.length_append]
  omega

theorem IsComment.append_ne_blank {comment rest after : List Char} {c : Char}
    (h : IsComment comment) (hc : isBlank c) : comment ++ rest ≠ c :: after := by
  obtain ⟨body, -, rfl⟩ := h
  intro heq
  exact ne_slash_of_isBlank hc (List.cons.inj heq).1.symm

theorem Filler.append {s t : List Char} (hs : Filler s) (ht : Filler t) : Filler (s ++ t) := by
  induction hs with
  | none => exact ht
  | blank hc _ ih => exact .blank hc ih
  | comment hcomment _ ih =>
    rw [List.append_assoc]
    exact .comment hcomment ih

theorem filler_of_blanks {s : List Char} (h : ∀ c ∈ s, isBlank c) : Filler s := by
  induction s with
  | nil => exact .none
  | cons c s ih =>
    obtain ⟨hc, hs⟩ := List.forall_mem_cons.mp h
    exact .blank hc (ih hs)

/-! ## Blanks outside the comments -/

theorem not_blankOutside_nil : ¬ BlankOutside [] := by
  rintro ⟨i, c, hi, -⟩
  cases hi

theorem blankOutside_cons {c : Char} (hc : isBlank c) (rest : List Char) :
    BlankOutside (c :: rest) := by
  refine ⟨0, c, rfl, hc, ?_⟩
  rintro ⟨before, comment, after, heq, -, hcomment, hbefore, -⟩
  obtain rfl := List.eq_nil_of_length_eq_zero (Nat.le_zero.mp hbefore)
  exact hcomment.append_ne_blank hc heq.symm

theorem inComment_append {comment : List Char} (h : IsComment comment) (rest : List Char)
    (i : Nat) : InComment (comment ++ rest) (comment.length + i) ↔ InComment rest i := by
  constructor
  · rintro ⟨before, inner, after, heq, hbefore, hinner, hle, hlt⟩
    -- What is before the inner comment starts with this one, or there would be no place behind it.
    cases hbefore with
    | none =>
      obtain ⟨rfl, -⟩ := h.append_inj hinner heq
      rw [List.length_nil] at hlt
      omega
    | blank hc => exact absurd heq (h.append_ne_blank hc)
    | @comment first before hfirst hbefore =>
      rw [List.append_assoc] at heq
      obtain ⟨rfl, rfl⟩ := h.append_inj hfirst heq
      rw [List.length_append] at hle hlt
      exact ⟨before, inner, after, rfl, hbefore, hinner, by omega, by omega⟩
  · rintro ⟨before, inner, after, rfl, hbefore, hinner, hle, hlt⟩
    refine ⟨comment ++ before, inner, after, by simp, .comment h hbefore, hinner, ?_, ?_⟩
    · rw [List.length_append]
      omega
    · rw [List.length_append]
      omega

theorem blankOutside_append_comment {comment : List Char} (h : IsComment comment)
    (rest : List Char) : BlankOutside (comment ++ rest) ↔ BlankOutside rest := by
  constructor
  · rintro ⟨i, c, hi, hc, hout⟩
    have hbehind : comment.length ≤ i := by
      by_contra hlt
      exact hout ⟨[], comment, rest, rfl, .none, h, Nat.zero_le _, by simpa using hlt⟩
    obtain ⟨j, rfl⟩ := Nat.exists_eq_add_of_le hbehind
    rw [List.getElem?_append_right hbehind, Nat.add_sub_cancel_left] at hi
    exact ⟨j, c, hi, hc, fun hin => hout ((inComment_append h rest j).mpr hin)⟩
  · rintro ⟨i, c, hi, hc, hout⟩
    refine ⟨comment.length + i, c, ?_, hc, fun hin => hout ((inComment_append h rest i).mp hin)⟩
    rw [List.getElem?_append_right (Nat.le_add_right ..), Nat.add_sub_cancel_left, hi]

theorem Filler.blankOutside_append {s : List Char} (h : Filler s) (t : List Char) :
    BlankOutside (s ++ t) ↔ BlankOutside s ∨ BlankOutside t := by
  induction h with
  | none => simp [not_blankOutside_nil]
  | @blank c rest hc _ _ => simp [blankOutside_cons hc]
  | comment hcomment _ ih =>
    rw [List.append_assoc, blankOutside_append_comment hcomment,
      blankOutside_append_comment hcomment, ih]

theorem Comments.filler {s : List Char} (h : Comments s) : Filler s ∧ ¬ BlankOutside s := by
  induction h with
  | none => exact ⟨.none, not_blankOutside_nil⟩
  | @more body rest hbody _ ih =>
    have hcomment : IsComment ('/' :: '*' :: (body ++ ['*', '/'])) := ⟨body, hbody, rfl⟩
    have hsplit : '/' :: '*' :: (body ++ '*' :: '/' :: rest) =
        '/' :: '*' :: (body ++ ['*', '/']) ++ rest := by simp
    rw [hsplit, blankOutside_append_comment hcomment]
    exact ⟨.comment hcomment ih.1, ih.2⟩

/-! ## Gaps -/

/-- From `start` up to `stop` are only blanks and comments, and `space` tells whether some blank
there is outside the comments. -/
structure Gap (s : List Char) (start stop : Nat) (space : Bool) : Prop where
  ordered : start ≤ stop
  filler : Filler (s.extract start stop)
  space_iff : space ↔ BlankOutside (s.extract start stop)

theorem extract_append_extract (s : List Char) {start mid stop : Nat} (hmid : start ≤ mid)
    (hstop : mid ≤ stop) : s.extract start mid ++ s.extract mid stop = s.extract start stop := by
  have hlen : stop - start = (mid - start) + (stop - mid) := by omega
  have hdrop : (s.drop start).drop (mid - start) = s.drop mid := by
    rw [List.drop_drop, Nat.add_sub_cancel' hmid]
  simp only [List.extract, hlen, List.take_add, hdrop]

section

variable {s : List Char} {start mid stop : Nat} {space more : Bool}

theorem gap_self (s : List Char) (start : Nat) : Gap s start start false := by
  have hnil : s.extract start start = [] := by simp
  refine ⟨Nat.le_refl _, hnil ▸ .none, ?_⟩
  simp [hnil, not_blankOutside_nil]

theorem Gap.append (h : Gap s start mid space) (hmore : Gap s mid stop more) :
    Gap s start stop (space || more) := by
  have hsplit := extract_append_extract s h.ordered hmore.ordered
  refine ⟨Nat.le_trans h.ordered hmore.ordered, hsplit ▸ h.filler.append hmore.filler, ?_⟩
  rw [← hsplit, h.filler.blankOutside_append, ← h.space_iff, ← hmore.space_iff, Bool.or_eq_true]

theorem Gap.unique (h : Gap s start stop space) (h' : Gap s start stop more) : space = more := by
  rw [Bool.eq_iff_iff, h.space_iff, h'.space_iff]

end

/-! ## One token -/

theorem isBlank_of_nextToken {c : Char} {rest : List Char} {n : Nat}
    (h : nextToken c rest = (some .whitespace, n)) : isBlank c := by
  generalize hkind : some TokenKind.whitespace = kind? at h
  cases firstToken_of_nextToken h with
  | blank hblank => exact hblank
  | numeric _ h => cases h <;> cases hkind
  | identLike _ _ _ h => cases h <;> cases hkind
  | punctuation => exact absurd (Option.some.inj hkind).symm (punctuation_ne rfl c)
  | string | openString | hash | cdc | cdo | atKeyword => cases hkind

theorem NextAt.gap {s : List Char} {start : Nat} {t : Token} (h : NextAt s start t) :
    Gap s start t.span.start false := by
  obtain ⟨hfiller, hblank⟩ := h.comments.filler
  exact ⟨h.start_le, hfiller, by simp [hblank]⟩

theorem NextAt.gap_whitespace {s : List Char} {start : Nat} {t : Token} (h : NextAt s start t)
    (hkind : t.kind = .whitespace) : Gap s t.span.start (t.span.stop + 1) true := by
  obtain ⟨c, rest, hdrop, hread⟩ := h.read
  rw [hkind] at hread
  have hc := isBlank_of_nextToken hread
  rw [nextToken_blank hc, Prod.mk.injEq] at hread
  have hordered := h.ordered
  have htext : s.extract t.span.start (t.span.stop + 1) = c :: rest.takeWhile isBlank := by
    rw [List.extract, hdrop, Nat.sub_add_comm hordered, ← hread.2, List.take_succ_cons,
      ← List.prefix_iff_eq_take.mp (List.takeWhile_prefix _)]
  refine ⟨Nat.le_succ_of_le hordered, ?_, ?_⟩
  · rw [htext]
    exact .blank hc (filler_of_blanks fun d hd => List.mem_takeWhile_imp hd)
  · rw [htext]
    exact iff_of_true rfl (blankOutside_cons hc _)

end Lexer

/-! ## Lexemes -/

namespace Lexeme

theorem eq_of_token {l m : Lexeme} (htoken : l.token = m.token)
    (hspace : l.afterSpace = m.afterSpace) : l = m := by
  obtain ⟨kind, span, space⟩ := l
  obtain ⟨rfl, rfl⟩ := Token.mk.inj htoken
  obtain rfl := hspace
  rfl

/-- The error of a token that no media query may hold. -/
def refusal? (t : Token) : Option ParseError :=
  match t.kind with
  | .openBrace => some (.single .openBrace t.span)
  | .semicolon => some (.single .semicolon t.span)
  | _ => none

theorem refusal?_of_isLexeme {kind : TokenKind} (h : isLexeme kind) (span : Span) :
    refusal? ⟨kind, span⟩ = none := by
  cases kind <;> first | rfl | cases h

theorem isLexeme_iff {t : Token} (h : refusal? t = none) :
    isLexeme t.kind ↔ t.kind ≠ .whitespace ∧ t.kind ≠ .eof := by
  obtain ⟨kind, span⟩ := t
  cases kind <;> simp_all [isLexeme, refusal?]

theorem ofTokensAfter_eq_error_iff {space : Bool} {ts : List Token} {e : ParseError} :
    ofTokensAfter space ts = .error e ↔ ts.findSome? refusal? = some e := by
  induction ts generalizing space with
  | nil => simp [ofTokensAfter]
  | cons t ts ih =>
    obtain ⟨kind, span⟩ := t
    rw [List.findSome?_cons]
    by_cases hkind : isLexeme kind
    · rw [ofTokensAfter_cons hkind, refusal?_of_isLexeme hkind]
      constructor
      · exact fun h => ih.mp (eq_error_of_map h)
      · intro h
        rw [ih.mpr h]
        rfl
    · cases kind with
      | whitespace | eof => exact ih
      | openBrace | semicolon => simp [ofTokensAfter, refusal?]
      | _ => exact absurd rfl hkind

theorem exists_ofTokensAfter_iff {space : Bool} {ts : List Token} :
    (∃ ls, ofTokensAfter space ts = .ok ls) ↔ ∀ t ∈ ts, refusal? t = none := by
  have herror : ∀ e, ts.findSome? refusal? = some e ↔ ofTokensAfter space ts = .error e :=
    fun _ => ofTokensAfter_eq_error_iff.symm
  rw [← List.findSome?_eq_none_iff, Option.eq_none_iff_forall_ne_some]
  simp only [ne_eq, herror]
  cases ofTokensAfter space ts <;> simp

theorem map_token_eq_filter {space : Bool} {ts : List Token} {ls : List Lexeme}
    (h : ofTokensAfter space ts = .ok ls) :
    ls.map token = ts.filter fun t => t.kind ≠ .whitespace ∧ t.kind ≠ .eof := by
  rw [map_token_ofTokensAfter h]
  refine List.filter_congr fun t ht => ?_
  have hnone := exists_ofTokensAfter_iff.mp ⟨ls, h⟩ t ht
  rw [Bool.eq_iff_iff, isLexeme_iff hnone, decide_eq_true_iff]

end Lexeme

namespace Lexer

open Lexeme (ofTokens ofTokensAfter refusal? isLexeme)

/-- Before each of the lexemes is a gap, which its note of blanks tells the truth about. -/
def Spaced (s : List Char) (start : Nat) (ls : List Lexeme) : Prop :=
  ∀ before l after, ls = before ++ l :: after →
    Gap s (placeBehind start (before.map Lexeme.token)) l.span.start l.afterSpace

theorem spaced_nil (s : List Char) (start : Nat) : Spaced s start [] := by
  intro before l after heq
  cases before <;> cases heq

theorem spaced_cons {s : List Char} {start : Nat} {l : Lexeme} {ls : List Lexeme} :
    Spaced s start (l :: ls) ↔
      Gap s start l.span.start l.afterSpace ∧ Spaced s (l.span.stop + 1) ls := by
  constructor
  · intro h
    refine ⟨h [] l ls rfl, fun before m after heq => ?_⟩
    exact h (l :: before) m after (congrArg (l :: ·) heq)
  · rintro ⟨hgap, hmore⟩ before m after heq
    cases before with
    | nil =>
      cases heq
      exact hgap
    | cons b before =>
      obtain ⟨rfl, hrest⟩ := List.cons_eq_cons.mp heq
      exact hmore before m after hrest

theorem Spaced.unique {s : List Char} {start : Nat} {ls ms : List Lexeme} (hls : Spaced s start ls)
    (hms : Spaced s start ms) (h : ls.map Lexeme.token = ms.map Lexeme.token) : ls = ms := by
  induction ls generalizing start ms with
  | nil => exact (List.map_eq_nil_iff.mp h.symm).symm
  | cons l ls ih =>
    obtain ⟨m, ms, rfl, htoken, hrest⟩ := List.map_eq_cons_iff.mp h.symm
    have hspan : m.span = l.span := congrArg Token.span htoken
    obtain ⟨hgap, hls⟩ := spaced_cons.mp hls
    obtain ⟨hgap', hms⟩ := spaced_cons.mp hms
    rw [hspan] at hgap' hms
    rw [Lexeme.eq_of_token htoken.symm (hgap.unique hgap'), ih hls hms hrest.symm]

-- By the tokens. The gap may have begun before some blanks already, so its start and what is known
-- of it vary: a blank goes on with it, and behind a lexeme another one begins.
theorem Layout.spaced {s : List Char} {place start : Nat} {ts : List Token} {space : Bool}
    {ls : List Lexeme} (h : Layout s start ts) (hgap : Gap s place start space)
    (hls : ofTokensAfter space ts = .ok ls) : Spaced s place ls := by
  induction h generalizing place space ls with
  | last =>
    cases hls
    exact spaced_nil s place
  | @next start t ts ht _ ih =>
    have hbefore := hgap.append ht.gap
    by_cases hkind : isLexeme t.kind
    · rw [Lexeme.ofTokensAfter_cons hkind] at hls
      obtain ⟨us, hus, rfl⟩ := exists_of_map_eq_ok hls
      rw [Bool.or_false] at hbefore
      exact spaced_cons.mpr ⟨hbefore, ih (gap_self s _) hus⟩
    · obtain ⟨kind, span⟩ := t
      cases kind with
      | whitespace =>
        have hblanks := hbefore.append (ht.gap_whitespace rfl)
        rw [Bool.or_true] at hblanks
        exact ih hblanks hls
      | eof => exact absurd rfl ht.ne_eof
      | openBrace | semicolon => cases hls
      | _ => exact absurd rfl hkind

/-- The lexemes of a text are its tokens without the blanks and the end, and each is noted to be after
a space if some blank outside the comments is between it and the lexeme before, or the start of the
text. There are none if a token is refused, and the error is that of the first such token. -/
theorem lexemes_after_space {s : List Char} {ts : List Token} (hts : tokens s = .ok ts) :
    (∀ ls, ofTokens ts = .ok ls ↔ (∀ t ∈ ts, refusal? t = none) ∧
      ls.map Lexeme.token = ts.filter (fun t => t.kind ≠ .whitespace ∧ t.kind ≠ .eof) ∧
      Spaced s 0 ls) ∧
    ∀ e, ofTokens ts = .error e ↔ ∃ before t after, ts = before ++ t :: after ∧
      refusal? t = some e ∧ ∀ u ∈ before, refusal? u = none := by
  have hspaced : ∀ {ls}, ofTokens ts = .ok ls → Spaced s 0 ls :=
    fun hls => (tokens_eq_ok_iff.mp hts).spaced (gap_self s 0) hls
  refine ⟨fun ls => ⟨fun hls => ?_, ?_⟩, fun e => ?_⟩
  · exact ⟨Lexeme.exists_ofTokensAfter_iff.mp ⟨ls, hls⟩, Lexeme.map_token_eq_filter hls, hspaced hls⟩
  · rintro ⟨hnone, hkinds, hls⟩
    obtain ⟨ms, hms⟩ : ∃ ms, ofTokens ts = .ok ms := Lexeme.exists_ofTokensAfter_iff.mpr hnone
    have hsame := hkinds.trans (Lexeme.map_token_eq_filter hms).symm
    rw [hms, hls.unique (hspaced hms) hsame]
  · rw [ofTokens, Lexeme.ofTokensAfter_eq_error_iff, List.findSome?_eq_some_iff]

/-- The blanks in the two comments and the one in the escape do not count. -/
theorem lexemes_after_space_hidden :
    let s := "a/* */\\62 /**/ </* */=".toList
    let ts : List Token := [⟨.ident "a", ⟨0, 0⟩⟩, ⟨.ident "b", ⟨6, 9⟩⟩, ⟨.whitespace, ⟨14, 14⟩⟩,
      ⟨.delim '<', ⟨15, 15⟩⟩, ⟨.delim '=', ⟨21, 21⟩⟩, ⟨.eof, ⟨22, 22⟩⟩]
    let ls : List Lexeme := [⟨.ident "a", ⟨0, 0⟩, false⟩, ⟨.ident "b", ⟨6, 9⟩, false⟩,
      ⟨.delim '<', ⟨15, 15⟩, true⟩, ⟨.delim '=', ⟨21, 21⟩, false⟩]
    tokens s = .ok ts ∧ ofTokens ts = .ok ls ∧
      Gap s 1 6 false ∧ Gap s 10 15 true ∧ Gap s 16 21 false := by
  intro s ts ls
  have hread : (tokens s).toOption = some ts := by decide +kernel
  have hts := eq_ok_of_toOption hread
  obtain ⟨-, -, hls⟩ := ((lexemes_after_space hts).1 ls).mp rfl
  exact ⟨hts, rfl, hls [_] _ _ rfl, hls [_, _] _ _ rfl, hls [_, _, _] _ _ rfl⟩

end Lexer

end CssMedia
