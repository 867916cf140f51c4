import CssMedia.Proofs.Grammar.Members
import CssMedia.Proofs.Grammar.SeenFeature

/-!
# What the grammar sees of conditions and queries

Each reader gives the same of what is seen of lexemes, and where it fails, the same failure with
its spans moved.
-/

namespace CssMedia.Grammar

open Lexeme (seenAll)

variable {move : Span → Span} {joins : Bool} {eof eof' : Nat}

/-! ## Failures inside a rule -/

theorem within_moved (kind : ErrorKind) (span : Span) (e : ParseError) :
    within kind (move span) (e.moved move) = (within kind span e).moved move := by
  unfold within
  by_cases hdeep : e.outermost.kind = .nestedTooDeeply
  · rw [if_pos hdeep, if_pos (show (e.moved move).outermost.kind = _ from hdeep)]
  · rw [if_neg hdeep, if_neg (show ¬ (e.moved move).outermost.kind = _ from hdeep)]
    rfl

theorem mapError_within_moved {α : Type} (kind : ErrorKind) (span : Span)
    (r : Except ParseError α) :
    (r.mapError (·.moved move)).mapError (within kind (move span)) =
      (r.mapError (within kind span)).mapError (·.moved move) := by
  cases r with
  | error e => exact congrArg Except.error (within_moved kind span e)
  | ok a => rfl

/-! ## Conditions -/

theorem leadingNot_seen (move : Span → Span) (joins : Bool) (ts : List Lexeme) :
    ∃ joins', leadingNot (seenAll move joins ts) =
      ((leadingNot ts).1, seenAll move joins' (leadingNot ts).2) := by
  cases ts with
  | nil => exact ⟨joins, rfl⟩
  | cons t ts =>
    rw [seenAll, leadingNot, leadingNot, Lexeme.isIdent_seen]
    split
    · exact ⟨t.mayJoin, rfl⟩
    · exact ⟨joins, rfl⟩

theorem nextOperator_seen (orAllowed : Bool) (current : Option Operator) (t : Lexeme)
    (after : List Lexeme) (joins joins' : Bool) :
    nextOperator orAllowed current (t.seen move joins) (seenAll move joins' after) =
      (nextOperator orAllowed current t after).mapError (·.moved move) := by
  have hclose : t.kind.seen = .closeParen ↔ t.kind = .closeParen :=
    TokenKind.seen_eq_iff (by simp)
  unfold nextOperator
  rw [Lexeme.ident?_seen]
  generalize (t.ident?.bind Operator.ofName?).filter Operator.isAssociative = op
  simp only [Lexeme.kind_seen, Lexeme.span_seen, hclose, Lexeme.seenAll_eq_nil_iff]
  split
  · split <;> rfl
  split
  · rfl
  split <;> rfl

/- Along the readers' own recursion. What is seen of an interior goes on from what is seen of the
parenthesis that opens it, so a feature in it is seen as one list again. -/
mutual

theorem group_seen (h : Moves move eof eof') (levels : Option Nat) (joins : Bool)
    (first : Lexeme) (interior : List Lexeme) {close : Lexeme} (hclose : close.kind = .closeParen) :
    group eof' levels (first.seen move joins) (seenAll move first.mayJoin interior)
        (close.seen move false) =
      (group eof levels first interior close).mapError (·.moved move) := by
  have hparens := Lexeme.any_seenAll TokenKind.opensParen_seen move first.mayJoin interior
  by_cases hcondition : interior.any (·.kind.opensParen)
  · rw [group, if_pos (by rwa [hparens]), group, if_pos hcondition, condition_seen h, mapError_map]
  · have hdelim : ∀ c, close.kind ≠ .delim c := by simp [hclose]
    have hwhole := Lexeme.seenAll_concat hdelim move joins (first :: interior)
    rw [seenAll] at hwhole
    rw [group, if_neg (by rwa [hparens]), group, if_neg hcondition, ← hwhole, feature_seen h,
      mapError_map]
termination_by (interior.length, 2)

theorem condition_seen (h : Moves move eof eof') (levels : Option Nat) (orAllowed joins : Bool)
    (ts : List Lexeme) :
    condition eof' levels orAllowed (seenAll move joins ts) =
      (condition eof levels orAllowed ts).mapError (·.moved move) := by
  obtain ⟨joins', hnot⟩ := leadingNot_seen move joins ts
  rw [condition, condition, hnot]
  cases enter levels with
  | none => rw [Lexeme.spanOf_seenAll h]; rfl
  | some inner => exact operands_seen h inner orAllowed _ joins' _
termination_by (ts.length, 1)
decreasing_by
  have := length_leadingNot_le ts
  rcases Nat.lt_or_eq_of_le this with h | h
  · exact Prod.Lex.left _ _ h
  · rw [h]; exact Prod.Lex.right _ (by omega)

theorem operands_seen (h : Moves move eof eof') (levels : Option Nat) (orAllowed : Bool)
    (current : Option Operator) (joins : Bool) (ts : List Lexeme) :
    operands eof' levels orAllowed current (seenAll move joins ts) =
      (operands eof levels orAllowed current ts).mapError (·.moved move) := by
  cases ts with
  | nil =>
    rw [seenAll, operands_nil, operands_nil, ← h.stop]
    rfl
  | cons first rest =>
    have hopen : first.kind.seen = .openParen ↔ first.kind = .openParen :=
      TokenKind.seen_eq_iff (by simp)
    have hspan := Lexeme.spanOf_seenAll h joins (first :: rest)
    rw [seenAll] at hspan ⊢
    by_cases hfirst : first.kind = .openParen
    · have hfirst' : (first.seen move joins).kind = .openParen := hopen.mpr hfirst
      have hseen := cutAtClose_seen move first.mayJoin 0 rest
      cases hcut : cutAtClose 0 rest with
      | none =>
        rw [hcut] at hseen
        rw [operands_unclosed hfirst' hseen, operands_unclosed hfirst hcut, hspan]
        rfl
      | some cut =>
        obtain ⟨interior, close, after⟩ := cut
        have hlen := length_of_cutAtClose hcut
        rw [hcut] at hseen
        rw [operands_cut hfirst' hseen, operands_cut hfirst hcut, mapError_bind,
          group_seen h levels joins first interior (eq_of_cutAtClose hcut).2, Lexeme.span_seen,
          Lexeme.span_seen, ← h.cover, mapError_within_moved]
        congr 1
        funext operand
        cases after with
        | nil => rfl
        | cons t after =>
          rw [seenAll, runAfter, runAfter, nextOperator_seen, mapError_bind]
          congr 1
          funext op
          rw [operands_seen h levels orAllowed (some op) t.mayJoin after, mapError_bind]
          rfl
    · rw [operands_start (by rwa [Lexeme.kind_seen, ne_eq, hopen]), operands_start hfirst]
      rfl
termination_by (ts.length, 0)
decreasing_by
  all_goals
    apply Prod.Lex.left _ _
    simp only [List.length_cons] at hlen ⊢
    omega

end

/-! ## Queries -/

theorem conditionQuery_seen (h : Moves move eof eof') (levels : Option Nat) (joins : Bool)
    (ts : List Lexeme) :
    conditionQuery eof' levels (seenAll move joins ts) =
      (conditionQuery eof levels ts).mapError (·.moved move) := by
  rw [conditionQuery_eq, condition_seen h, Lexeme.spanOf_seenAll h, mapError_within_moved,
    conditionQuery_eq, mapError_map]

theorem mediaType_seen (modifier : Option Modifier) (t : Lexeme) :
    mediaType modifier (t.seen move joins) = (mediaType modifier t).mapError (·.moved move) := by
  simp only [mediaType, Lexeme.ident?_seen, Lexeme.span_seen]
  split
  · rfl
  split
  · rfl
  split <;> rfl

theorem afterType_seen (h : Moves move eof eof') (levels : Option Nat) (joins : Bool)
    (ts : List Lexeme) :
    afterType eof' levels (seenAll move joins ts) =
      (afterType eof levels ts).mapError (·.moved move) := by
  cases ts with
  | nil => rfl
  | cons t ts =>
    rw [seenAll]
    by_cases hand : t.isIdent "and"
    · by_cases hts : ts = []
      · simp [afterType, hand, hts, seenAll, Except.mapError]
      · have hts' : seenAll move t.mayJoin ts ≠ [] := by rwa [ne_eq, Lexeme.seenAll_eq_nil_iff]
        rw [afterType_and (by rwa [Lexeme.isIdent_seen]) hts', condition_seen h,
          Lexeme.spanOf_seenAll h, mapError_within_moved, afterType_and hand hts, mapError_map]
    · simp [afterType, hand, Except.mapError]

theorem typed_seen (h : Moves move eof eof') (levels : Option Nat) (modifier : Option Modifier)
    (t : Lexeme) (rest : List Lexeme) (joins joins' : Bool) :
    typed eof' levels modifier (t.seen move joins) (seenAll move joins' rest) =
      (typed eof levels modifier t rest).mapError (·.moved move) := by
  unfold typed
  rw [mediaType_seen, mapError_bind]
  congr 1
  funext p
  rw [afterType_seen h, mapError_bind]
  rfl

theorem modifier?_seen (t : Lexeme) : modifier? (t.seen move joins) = modifier? t := by
  simp only [modifier?, Lexeme.isIdent_seen]

theorem query_seen (h : Moves move eof eof') (levels : Option Nat) (joins : Bool)
    (ts : List Lexeme) :
    query eof' levels (seenAll move joins ts) = (query eof levels ts).mapError (·.moved move) := by
  cases ts with
  | nil =>
    rw [seenAll, query, ← h.stop]
    rfl
  | cons first rest =>
    have hopen : ∀ t : Lexeme, t.kind.seen = .openParen ↔ t.kind = .openParen :=
      fun _ => TokenKind.seen_eq_iff (by simp)
    have hcondition := conditionQuery_seen h levels joins (first :: rest)
    rw [seenAll] at hcondition ⊢
    simp only [query, Lexeme.kind_seen, hopen, Lexeme.ident?_seen, Lexeme.span_seen, hcondition,
      modifier?_seen, typed_seen h]
    split
    · rfl
    split
    · rfl
    cases modifier? first with
    | none => rfl
    | some m =>
      rcases rest with _ | ⟨next, after⟩
      · rfl
      simp only [seenAll, Lexeme.kind_seen, hopen, Lexeme.ident?_seen, Lexeme.span_seen,
        typed_seen h]
      split
      · rfl
      split <;> rfl

theorem singleQuery_seen (h : Moves move eof eof') (levels : Option Nat) (joins : Bool)
    (ts : List Lexeme) :
    singleQuery eof' levels (seenAll move joins ts) =
      (singleQuery eof levels ts).mapError (·.moved move) := by
  have hseen := cutAtComma_seen move joins [] ts
  cases hcut : cutAtComma [] ts with
  | none =>
    rw [hcut] at hseen
    simp only [singleQuery, hseen, hcut, Option.map_none, query_seen h]
  | some cut =>
    obtain ⟨before, comma, after⟩ := cut
    rw [hcut] at hseen
    have hcomma := (cutAtComma_first hcut).1
    have hspan := Lexeme.spanOf_seenAll h false (comma :: after)
    rw [seenAll, Lexeme.mayJoin_of_not_delim (by simp [hcomma])] at hspan
    simp only [singleQuery, hseen, hcut, Option.map_some, seenCut, query_seen h, hspan]
    cases query eof levels before <;> rfl

theorem members_seen (h : Moves move eof eof') (levels : Option Nat) (ts : List Lexeme) :
    members eof' levels (seenAll move false ts) =
      (members eof levels ts).map (·.mapError (·.moved move)) := by
  have hempty : ∀ us : List Lexeme, (seenAll move false us != []) = (us != []) := by
    intro us
    cases us <;> rfl
  rw [members, segments_seen, List.filter_map, show (· != []) ∘ seenAll move false = (· != []) from
    funext hempty, members]
  cases (segments ts).filter (· != []) with
  | nil => rfl
  | cons us rest => simp [query_seen h]

end CssMedia.Grammar
