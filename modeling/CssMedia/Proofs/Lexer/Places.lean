import CssMedia.Proofs.Lexer.Lengths
import CssMedia.Proofs.Failure
import CssMedia.Proofs.Results

/-!
# Where tokens stand

The tokens of a text stand one after another, and all but the one of its end are inside of it.
Lexemes are the tokens without the blanks, so the same holds of them.
-/

namespace CssMedia

namespace Span

/-- Nothing of the span is outside of the other. -/
def Inside (a b : Span) : Prop := b.start ≤ a.start ∧ a.stop ≤ b.stop

/-- The other span is longer on both sides. -/
def StrictlyInside (a b : Span) : Prop := b.start < a.start ∧ a.stop < b.stop

/-- A span of a text of so many code points. The empty one at the end is one too. -/
def InText (length : Nat) (s : Span) : Prop := s.start ≤ s.stop ∧ s.stop ≤ length

theorem inText_end (length : Nat) : InText length ⟨length, length⟩ :=
  ⟨Nat.le_refl _, Nat.le_refl _⟩

@[simp] theorem cover_self (s : Span) : s.cover s = s := by
  simp [cover]

end Span

namespace Lexer

/-! ## Tokens -/

/-- What stands from `start` on: one token after another, and only the end is at `stop`. -/
structure InOrder (start stop : Nat) (ts : List Token) : Prop where
  apart : ts.Pairwise fun a b => a.span.stop < b.span.start
  start : ∀ t ∈ ts, start ≤ t.span.start
  inText : ∀ t ∈ ts, t.span.InText stop
  inside : ∀ t ∈ ts, t.kind ≠ .eof → t.span.stop < stop

theorem InOrder.cons {start first last stop : Nat} {kind : TokenKind} {ts : List Token}
    (h : InOrder (last + 1) stop ts) (hstart : start ≤ first) (hspan : first ≤ last)
    (hstop : last < stop) : InOrder start stop (⟨kind, ⟨first, last⟩⟩ :: ts) where
  apart := List.pairwise_cons.mpr ⟨h.start, h.apart⟩
  start := by
    refine List.forall_mem_cons.mpr ⟨hstart, fun t ht => ?_⟩
    have := h.start t ht
    omega
  inText := List.forall_mem_cons.mpr ⟨⟨hspan, Nat.le_of_lt hstop⟩, h.inText⟩
  inside := List.forall_mem_cons.mpr ⟨fun _ => hstop, h.inside⟩

theorem inOrder_end {start stop : Nat} (h : start ≤ stop) :
    InOrder start stop [⟨.eof, ⟨stop, stop⟩⟩] where
  apart := List.pairwise_singleton _ _
  start := List.forall_mem_singleton.mpr h
  inText := List.forall_mem_singleton.mpr (Span.inText_end stop)
  inside := List.forall_mem_singleton.mpr fun h => absurd rfl h

theorem tokensFrom_cases (start : Nat) (s : List Char) :
    tokensFrom start s = .ok [⟨.eof, ⟨start + s.length, start + s.length⟩⟩] ∨
    ∃ first last rest, start ≤ first ∧ first ≤ last ∧ last + 1 + rest.length = start + s.length ∧
      (tokensFrom start s = .error (.single .invalidString ⟨first, last⟩) ∨
        ∃ kind, tokensFrom start s =
          (tokensFrom (last + 1) rest).map (⟨kind, ⟨first, last⟩⟩ :: ·)) := by
  rw [tokensFrom_eq]
  cases hdrop : s.drop (commentsLength s) with
  | nil =>
    have hge := List.drop_eq_nil_iff.mp hdrop
    rw [Nat.le_antisymm (commentsLength_le s) hge]
    exact .inl rfl
  | cons c rest =>
    have hlen := congrArg List.length hdrop
    rw [List.length_drop, List.length_cons] at hlen
    have hnext := nextToken_le c rest
    dsimp only
    generalize nextToken c rest = next at hnext ⊢
    obtain ⟨kind?, n⟩ := next
    dsimp only at hnext
    refine .inr ⟨start + commentsLength s, start + commentsLength s + (n - 1), rest.drop (n - 1),
      Nat.le_add_right _ _, Nat.le_add_right _ _, ?_, ?_⟩
    · rw [List.length_drop]
      omega
    · cases kind? with
      | none => exact .inl rfl
      | some kind => exact .inr ⟨kind, rfl⟩

theorem inOrder_tokensFrom {start : Nat} {s : List Char} {ts : List Token}
    (h : tokensFrom start s = .ok ts) : InOrder start (start + s.length) ts := by
  rcases tokensFrom_cases start s with
    hend | ⟨first, last, rest, hfirst, hlast, hrest, hbad | ⟨kind, hmore⟩⟩
  · rw [hend] at h
    cases h
    exact inOrder_end (Nat.le_add_right _ _)
  · rw [hbad] at h
    cases h
  · rw [hmore] at h
    obtain ⟨us, hus, rfl⟩ := exists_of_map_eq_ok h
    have hbehind := inOrder_tokensFrom hus
    rw [hrest] at hbehind
    exact hbehind.cons hfirst hlast (by omega)
termination_by s.length
decreasing_by omega

theorem inText_of_tokensFrom {start : Nat} {s : List Char} {e : ParseError}
    (h : tokensFrom start s = .error e) : e.outermost.span.InText (start + s.length) := by
  rcases tokensFrom_cases start s with
    hend | ⟨first, last, rest, hfirst, hlast, hrest, hbad | ⟨kind, hmore⟩⟩
  · rw [hend] at h
    cases h
  · rw [hbad] at h
    cases h
    exact ⟨hlast, by show last ≤ _; omega⟩
  · rw [hmore] at h
    rw [← hrest]
    exact inText_of_tokensFrom (eq_error_of_map h)
termination_by s.length
decreasing_by omega

end Lexer

/-! ## Lexemes -/

namespace Lexeme

def token (t : Lexeme) : Token := ⟨t.kind, t.span⟩

theorem map_token_ofTokensAfter {space : Bool} {ts : List Token} {ls : List Lexeme}
    (h : ofTokensAfter space ts = .ok ls) : ls.map token = ts.filter (isLexeme ·.kind) := by
  induction ts generalizing space ls with
  | nil =>
    cases h
    rfl
  | cons t ts ih =>
    obtain ⟨kind, span⟩ := t
    cases kind with
    | whitespace | eof => exact ih h
    | openBrace | semicolon => cases h
    | _ =>
      obtain ⟨us, hus, rfl⟩ := exists_of_map_eq_ok h
      exact congrArg (_ :: ·) (ih hus)

/-- Lexemes stand one after another in a text of so many code points. -/
structure InOrder (length : Nat) (ts : List Lexeme) : Prop where
  apart : ts.Pairwise fun a b => a.span.stop < b.span.start
  inside : ∀ t ∈ ts, t.span.start ≤ t.span.stop ∧ t.span.stop < length

theorem InOrder.sublist {length : Nat} {ts us : List Lexeme} (h : InOrder length ts)
    (hsub : us.Sublist ts) : InOrder length us where
  apart := h.apart.sublist hsub
  inside t ht := h.inside t (hsub.subset ht)

theorem inOrder_ofTokensAfter {start stop : Nat} {space : Bool} {ts : List Token}
    {ls : List Lexeme} (h : Lexer.InOrder start stop ts) (hls : ofTokensAfter space ts = .ok ls) :
    InOrder stop ls := by
  have htokens := map_token_ofTokensAfter hls
  constructor
  · have hapart := h.apart.sublist (List.filter_sublist (p := (isLexeme ·.kind)))
    rw [← htokens, List.pairwise_map] at hapart
    exact hapart
  · intro t ht
    have hmem : t.token ∈ ts.filter (isLexeme ·.kind) := htokens ▸ List.mem_map_of_mem ht
    obtain ⟨hmem, hkind⟩ := List.mem_filter.mp hmem
    refine ⟨(h.inText _ hmem).1, h.inside _ hmem ?_⟩
    intro heof
    rw [heof] at hkind
    cases hkind

end Lexeme

namespace Source

/-- A text is not read where its tokens are not, or where one of them may not be in a query. -/
def Unreadable (text : String) (e : ParseError) : Prop :=
  Lexer.tokens (Input.read text) = .error e ∨
    ∃ ts, Lexer.tokens (Input.read text) = .ok ts ∧ Lexeme.ofTokens ts = .error e

theorem read_eq_error_iff {text : String} {e : ParseError} :
    read text = .error e ↔ Unreadable text e := by
  unfold read ofChars Unreadable
  cases Lexer.tokens (Input.read text) with
  | error e' => simp [bind, Except.bind]
  | ok ts => cases hls : Lexeme.ofTokens ts <;> simp [bind, Except.bind, hls, pure, Except.pure]

theorem eof_eq_of_read {text : String} {source : Source} (h : read text = .ok source) :
    source.eof = (Input.read text).length := by
  unfold read at h
  rw [ofChars_eq] at h
  obtain ⟨ls, -, rfl⟩ := exists_of_map_eq_ok h
  rfl

theorem inOrder_of_read {text : String} {source : Source} (h : read text = .ok source) :
    Lexeme.InOrder source.eof source.lexemes := by
  unfold read at h
  rw [ofChars_eq] at h
  obtain ⟨ls, hls, rfl⟩ := exists_of_map_eq_ok h
  obtain ⟨ts, hts, hls⟩ := exists_of_bind_eq_ok hls
  have horder := Lexer.inOrder_tokensFrom hts
  rw [Nat.zero_add] at horder
  exact Lexeme.inOrder_ofTokensAfter horder hls

theorem Unreadable.inText {text : String} {e : ParseError} (h : Unreadable text e) :
    e.outermost.span.InText (Input.read text).length := by
  have horder : ∀ {ts}, Lexer.tokens (Input.read text) = .ok ts →
      Lexer.InOrder 0 (Input.read text).length ts := by
    intro ts hts
    have := Lexer.inOrder_tokensFrom hts
    rwa [Nat.zero_add] at this
  rcases h with h | ⟨ts, hts, h⟩
  · have := Lexer.inText_of_tokensFrom h
    rwa [Nat.zero_add] at this
  · obtain ⟨kind, -, t, ht, rfl⟩ := fails_ofTokensAfter _ _ _ h
    exact (horder hts).inText t ht

end Source

end CssMedia
