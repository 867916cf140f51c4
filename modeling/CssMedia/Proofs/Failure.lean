import CssMedia.Proofs.Lexer.Tokens
import CssMedia.Proofs.Results

/-!
# Failures

The kinds of link that the lexer and the readers of one lexeme fail with. Such a failure is one
link.
-/

namespace CssMedia

/-- Fails only in such a way. -/
def Fails {α : Type} (like : ParseError → Prop) (r : Except ParseError α) : Prop :=
  ∀ e, r = .error e → like e

namespace Fails

variable {α β : Type} {like more : ParseError → Prop}

theorem ok (a : α) : Fails like (.ok a) := nofun

theorem error {e : ParseError} (h : like e) : Fails like (.error e : Except ParseError α) := by
  rintro _ ⟨⟩
  exact h

theorem mono {r : Except ParseError α} (h : Fails like r) (hle : ∀ e, like e → more e) :
    Fails more r :=
  fun e he => hle e (h e he)

theorem bind {r : Except ParseError α} {f : α → Except ParseError β} (h : Fails like r)
    (hf : ∀ a, r = .ok a → Fails like (f a)) : Fails like (r >>= f) := by
  cases r with
  | error e => exact error (h e rfl)
  | ok a => exact hf a rfl

theorem map {r : Except ParseError α} (f : α → β) (h : Fails like r) : Fails like (r.map f) :=
  fun e he => h e (eq_error_of_map he)

theorem mapError {g : ParseError → ParseError} {r : Except ParseError α}
    (h : Fails (fun e => like (g e)) r) : Fails like (r.mapError g) := by
  cases r with
  | error e => exact error (h e rfl)
  | ok a => exact ok a

end Fails

@[simp] theorem ParseError.isFatal_single (kind : ErrorKind) (span : Span) :
    (ParseError.single kind span).isFatal = kind.isFatal :=
  Bool.or_false _

/-- Fails only with one link of its own, and only with one of these kinds. -/
def FailsWith {α : Type} (kinds : List ErrorKind) (r : Except ParseError α) : Prop :=
  ∀ e, r = .error e → e.causes = [] ∧ e.outermost.kind ∈ kinds

namespace FailsWith

variable {α β : Type} {kinds : List ErrorKind}

theorem ok (a : α) : FailsWith kinds (.ok a) := nofun

theorem single {kind : ErrorKind} (h : kind ∈ kinds) (span : Span) :
    FailsWith kinds (.error (.single kind span) : Except ParseError α) := by
  rintro _ ⟨⟩
  exact ⟨rfl, h⟩

theorem bind {r : Except ParseError α} {f : α → Except ParseError β} (h : FailsWith kinds r)
    (hf : ∀ a, FailsWith kinds (f a)) : FailsWith kinds (r >>= f) :=
  Fails.bind h fun a _ => hf a

theorem map {r : Except ParseError α} (f : α → β) (h : FailsWith kinds r) :
    FailsWith kinds (r.map f) :=
  Fails.map f h

theorem exists_eq {r : Except ParseError α} {e : ParseError} (h : FailsWith kinds r)
    (he : r = .error e) : ∃ kind ∈ kinds, e = .single kind e.outermost.span := by
  obtain ⟨hcauses, hkind⟩ := h e he
  obtain ⟨⟨kind, span⟩, causes⟩ := e
  cases hcauses
  exact ⟨kind, hkind, rfl⟩

end FailsWith

/-! ## Texts -/

def sourceKinds : List ErrorKind := [.invalidString, .openBrace, .semicolon]

theorem failsWith_tokensFrom (start : Nat) (s : List Char) :
    FailsWith sourceKinds (Lexer.tokensFrom start s) := by
  rw [Lexer.tokensFrom_eq]
  cases hdrop : s.drop (Lexer.commentsLength s) with
  | nil => exact .ok _
  | cons c rest =>
    simp only
    rcases Lexer.nextToken c rest with ⟨_ | kind, n⟩
    · exact .single (by decide) _
    · exact (failsWith_tokensFrom _ _).map _
termination_by s.length
decreasing_by
  have := congrArg List.length hdrop
  simp only [List.length_drop, List.length_cons] at this ⊢
  omega

theorem fails_ofTokensAfter (space : Bool) (ts : List Token) :
    Fails (fun e => ∃ kind ∈ sourceKinds, ∃ t ∈ ts, e = .single kind t.span)
      (Lexeme.ofTokensAfter space ts) := by
  induction ts generalizing space with
  | nil => exact .ok _
  | cons t ts ih =>
    have hmore : ∀ space, Fails (fun e => ∃ kind ∈ sourceKinds, ∃ u ∈ t :: ts, e = .single kind u.span)
        (Lexeme.ofTokensAfter space ts) :=
      fun space => (ih space).mono fun _ ⟨kind, hkind, u, hu, he⟩ =>
        ⟨kind, hkind, u, List.mem_cons_of_mem _ hu, he⟩
    obtain ⟨kind, span⟩ := t
    cases kind with
    | whitespace | eof => exact hmore _
    | openBrace | semicolon => exact .error ⟨_, by decide, _, List.mem_cons_self .., rfl⟩
    | _ => exact (hmore false).map _

theorem failsWith_ofTokensAfter (space : Bool) (ts : List Token) :
    FailsWith sourceKinds (Lexeme.ofTokensAfter space ts) := by
  refine (fails_ofTokensAfter space ts).mono ?_
  rintro _ ⟨kind, hkind, t, -, rfl⟩
  exact ⟨rfl, hkind⟩

theorem failsWith_read (text : String) : FailsWith sourceKinds (Source.read text) := by
  unfold Source.read
  rw [Source.ofChars_eq]
  exact ((failsWith_tokensFrom _ _).bind fun ts => failsWith_ofTokensAfter _ ts).map _

namespace Grammar

/-! ## Operators and media types -/

def operatorKinds : List ErrorKind :=
  [.mismatchedParens, .expectAndOrOr, .mixedAndWithOr, .expectCondition]

theorem fails_nextOperator (orAllowed : Bool) (current : Option Operator) (t : Lexeme)
    (after : List Lexeme) :
    Fails (fun e => ∃ kind ∈ operatorKinds, e = .single kind t.span)
      (nextOperator orAllowed current t after) := by
  unfold nextOperator
  split
  · split
    · exact .error ⟨_, by decide, rfl⟩
    · exact .error ⟨_, by decide, rfl⟩
  split
  · exact .error ⟨_, by decide, rfl⟩
  split
  · exact .error ⟨_, by decide, rfl⟩
  · exact .ok _

theorem failsWith_nextOperator (orAllowed : Bool) (current : Option Operator) (t : Lexeme)
    (after : List Lexeme) : FailsWith operatorKinds (nextOperator orAllowed current t after) := by
  refine (fails_nextOperator orAllowed current t after).mono ?_
  rintro _ ⟨kind, hkind, rfl⟩
  exact ⟨rfl, hkind⟩

theorem fails_mediaType (modifier : Option Modifier) (t : Lexeme) :
    Fails (· = .single .expectType t.span) (mediaType modifier t) := by
  unfold mediaType
  split
  · exact .error rfl
  split
  · exact .ok _
  split
  · exact .ok _
  · exact .error rfl

theorem failsWith_mediaType (modifier : Option Modifier) (t : Lexeme) :
    FailsWith [.expectType] (mediaType modifier t) := by
  refine (fails_mediaType modifier t).mono ?_
  rintro _ rfl
  exact ⟨rfl, List.mem_singleton_self _⟩

/-- The kinds of link for a query that starts with neither a condition nor a media type. -/
def queryKinds : List ErrorKind :=
  [.emptyQuery, .expectParenOrTypeOrModifier, .expectParenOrType, .expectType]

end Grammar

end CssMedia
