import CssMedia.Proofs.Grammar.Chain

/-!
# Where queries fail

A query puts one link around the failure of its condition. Whatever else fails in it is one link.
-/

namespace CssMedia.Grammar

open Lexeme (SpansPart spansPart_self spansPart_of_mem)

/-- The condition in a query: the whole of it, or what is after a media type and `and`. -/
inductive ConditionIn : List Lexeme → Bool → List Lexeme → Prop where
  | alone {ts : List Lexeme} (h : StartsCondition ts) : ConditionIn ts true ts
  | afterType {before ts : List Lexeme} {word conjunction : Lexeme} {name : String}
    {modifier read : Option Modifier} {type : MediaType} (hbefore : ModifierForm before modifier)
    (hword : word.kind = .ident name) (htype : TypeForm modifier name read type)
    (hand : conjunction.kind = .ident "and") (hts : ts ≠ []) :
    ConditionIn (before ++ word :: conjunction :: ts) false ts

/-- How a query fails: as its condition does, or for want of something else. -/
inductive QueryFailed (eof : Nat) (levels : Option Nat) (ts : List Lexeme) : ParseError → Prop where
  | condition {orAllowed : Bool} {us : List Lexeme} {e : ParseError} (h : ConditionIn ts orAllowed us)
    (he : Grammar.condition eof levels orAllowed us = .error e) :
    QueryFailed eof levels ts (within .expectCondition (Lexeme.spanOf eof us) e)
  | single {kind : ErrorKind} {span : Span} (hnone : ∀ orAllowed us, ¬ ConditionIn ts orAllowed us)
    (hkind : kind.isFatal = false) (hspan : SpansPart eof ts span) :
    QueryFailed eof levels ts (.single kind span)
  | empty (hts : ts = []) : QueryFailed eof levels ts (.single .emptyQuery ⟨eof, eof⟩)

variable {eof : Nat} {levels : Option Nat} {orAllowed : Bool} {ts us : List Lexeme} {e : ParseError}

theorem ConditionIn.suffix (h : ConditionIn ts orAllowed us) : us <:+ ts := by
  cases h with
  | alone => exact List.suffix_rfl
  | @afterType before _ word conjunction => exact ⟨before ++ [word, conjunction], by simp⟩

theorem ConditionIn.ne_nil (h : ConditionIn ts orAllowed us) : us ≠ [] := by
  cases h with
  | alone h => cases h <;> exact List.cons_ne_nil _ _
  | afterType _ _ _ _ hts => exact hts

theorem query_typed {before after : List Lexeme} {modifier read : Option Modifier} {word : Lexeme}
    {name : String} {type : MediaType} (hbefore : ModifierForm before modifier)
    (hword : word.kind = .ident name) (htype : TypeForm modifier name read type) :
    query eof levels (before ++ word :: after) =
      (afterType eof levels after).map fun c => ⟨read, type, c⟩ := by
  have htyped : typed eof levels modifier word after =
      (afterType eof levels after).map fun c => ⟨read, type, c⟩ := by
    rw [typed, mediaType_iff.mpr ⟨name, hword, htype⟩]
    cases afterType eof levels after <;> rfl
  cases hbefore with
  | none => rw [List.nil_append, query_type hword htype.ne_modifier, htyped]
  | some ht => rw [List.singleton_append, query_modifier ht hword, htyped]

theorem ConditionIn.query_eq (h : ConditionIn ts orAllowed us) (eof : Nat) (levels : Option Nat) :
    ∃ f : Condition → Query, query eof levels ts =
      ((condition eof levels orAllowed us).mapError
        (within .expectCondition (Lexeme.spanOf eof us))).map f := by
  cases h with
  | alone h => exact ⟨_, h.query_eq.trans (conditionQuery_eq ts)⟩
  | @afterType _ _ _ _ _ _ read type hbefore hword htype hand hts =>
    refine ⟨fun c => ⟨read, type, some c⟩, ?_⟩
    rw [query_typed hbefore hword htype, afterType_and (beq_iff_eq.mpr hand) hts]
    generalize (condition eof levels false us).mapError _ = r
    cases r <;> rfl

/-- One link about one of the lexemes. -/
def AtLexeme (ts : List Lexeme) (e : ParseError) : Prop :=
  ∃ kind, kind.isFatal = false ∧ ∃ t ∈ ts, e = .single kind t.span

theorem atLexeme_of_typed {modifier : Option Modifier} {t : Lexeme} {after : List Lexeme}
    (hnone : ∀ name read type, t.kind = .ident name → TypeForm modifier name read type →
      ∀ word rest, after = word :: rest → word.kind = .ident "and" → rest = []) :
    Fails (AtLexeme (t :: after)) (typed eof levels modifier t after) := by
  have hmediaType : Fails (AtLexeme (t :: after)) (mediaType modifier t) :=
    (fails_mediaType modifier t).mono fun e he => ⟨_, rfl, t, List.mem_cons_self .., he⟩
  refine hmediaType.bind fun (read, type) htype => Fails.bind ?_ fun _ _ => .ok _
  obtain ⟨name, hname, hform⟩ := mediaType_iff.mp htype
  cases after with
  | nil => exact .ok _
  | cons word rest =>
    have hword : word ∈ t :: word :: rest := by simp
    rw [afterType]
    by_cases hand : word.isIdent "and"
    · have hrest := hnone name read type hname hform word rest rfl (beq_iff_eq.mp hand)
      rw [if_neg (by simp [hand]), if_pos hrest]
      exact .error ⟨_, rfl, word, hword, rfl⟩
    · rw [if_pos (by simp [hand])]
      exact .error ⟨_, rfl, word, hword, rfl⟩

theorem queryFailed_of_query (eof : Nat) (levels : Option Nat) (ts : List Lexeme) :
    Fails (QueryFailed eof levels ts) (query eof levels ts) := by
  by_cases hcondition : ∃ orAllowed us, ConditionIn ts orAllowed us
  · obtain ⟨orAllowed, us, h⟩ := hcondition
    obtain ⟨f, hread⟩ := h.query_eq eof levels
    rw [hread]
    exact (Fails.mapError fun e he => .condition h he).map f
  have hnone : ∀ orAllowed us, ¬ ConditionIn ts orAllowed us :=
    fun orAllowed us h => hcondition ⟨orAllowed, us, h⟩
  cases ts with
  | nil => exact .error (.empty rfl)
  | cons first rest =>
  rcases query_cases eof first rest with
    ⟨kind, hkind, t, ht, h⟩ | h | ⟨before, modifier, t, after, hbefore, heq, h⟩
  · have hkinds : ∀ kind ∈ queryKinds, kind.isFatal = false := by decide
    rw [h levels]
    exact .error (.single hnone (hkinds kind hkind) (spansPart_of_mem ht))
  · exact absurd (.alone h) (hnone _ _)
  · rw [h levels]
    have hrest : ∀ name read type, t.kind = .ident name → TypeForm modifier name read type →
        ∀ word rest, after = word :: rest → word.kind = .ident "and" → rest = [] := by
      intro name read type hname htype word rest hafter hand
      by_contra hrest
      rw [heq, hafter] at hnone
      exact hnone _ _ (.afterType hbefore hname htype hand hrest)
    refine (atLexeme_of_typed hrest).mono fun e he => ?_
    obtain ⟨kind, hkind, u, hu, rfl⟩ := he
    exact .single hnone hkind (spansPart_of_mem (heq ▸ List.mem_append_right before hu))

/-! ## Places -/

variable {length : Nat}

/-- After a media type and `and` stands a `not`, and nothing behind that. -/
def NegatesNothing (ts : List Lexeme) : Prop :=
  ∃ negation, negation.kind = .ident "not" ∧ ConditionIn ts false [negation]

theorem StartsCondition.leadingNot_ne_nil (h : StartsCondition ts) : (leadingNot ts).2 ≠ [] := by
  cases h with
  | paren hfirst =>
    rw [leadingNot_openParen hfirst]
    exact List.cons_ne_nil _ _
  | negated hword =>
    rw [leadingNot_not hword]
    exact List.cons_ne_nil _ _

theorem eq_not_of_leadingNot (hne : ts ≠ []) (h : (leadingNot ts).2 = []) :
    ∃ negation, negation.kind = .ident "not" ∧ ts = [negation] := by
  cases ts with
  | nil => exact absurd rfl hne
  | cons t ts =>
    rw [leadingNot] at h
    split at h
    · next hnot =>
      cases h
      exact ⟨t, beq_iff_eq.mp hnot, rfl⟩
    · cases h

theorem ConditionIn.negatesNothing (h : ConditionIn ts orAllowed us)
    (hnone : (leadingNot us).2 = []) : NegatesNothing ts := by
  obtain ⟨negation, hnot, hus⟩ := eq_not_of_leadingNot h.ne_nil hnone
  cases h with
  | alone h => exact absurd hnone h.leadingNot_ne_nil
  | afterType hbefore hword htype hand hts =>
    subst hus
    exact ⟨negation, hnot, .afterType hbefore hword htype hand hts⟩

theorem ConditionIn.failed (h : ConditionIn ts orAllowed us) (horder : Lexeme.InOrder length ts)
    (he : condition eof levels orAllowed us = .error e) : ConditionFailed eof levels us e :=
  conditionFailed_of_condition orAllowed (horder.sublist h.suffix.sublist) e he

theorem QueryFailed.harmless (h : QueryFailed eof levels ts e) (horder : Lexeme.InOrder length ts) :
    e.isFatal = false := by
  cases h with
  | condition h he =>
    rw [isFatal_within rfl]
    exact (h.failed horder he).harmless
  | single _ hkind => rw [ParseError.isFatal_single, hkind]
  | empty => rfl

theorem QueryFailed.parts (h : QueryFailed eof levels ts e) (horder : Lexeme.InOrder length ts)
    (hne : ts ≠ []) :
    ∀ l ∈ e.chain, SpansPart eof ts l.span ∨ NegatesNothing ts ∧ l.span = ⟨eof, eof⟩ := by
  cases h with
  | @condition _ us e h he =>
    intro l hl
    have hpart := h.suffix.isInfix
    rcases mem_chain_within hl with rfl | hl
    · exact .inl ((spansPart_self h.ne_nil).mono hpart)
    rcases h.failed horder he with hfailed | ⟨hnone, kind, -, rfl⟩
    · exact .inl ((hfailed.parts l hl).mono hpart)
    · rw [List.mem_singleton.mp hl]
      exact .inr ⟨h.negatesNothing hnone, rfl⟩
  | single _ _ hspan => exact List.forall_mem_singleton.mpr (.inl hspan)
  | empty hnil => exact absurd hnil hne

theorem NegatesNothing.exists_end (h : NegatesNothing ts) (he : query eof levels ts = .error e) :
    ∃ l ∈ e.chain, l.span = ⟨eof, eof⟩ := by
  obtain ⟨negation, hnot, h⟩ := h
  have hnothing : (leadingNot [negation]).2 = [] := by rw [leadingNot_not hnot]
  obtain ⟨inner, ⟨kind, -, rfl⟩, hinner⟩ := condition_of_nothing false hnothing
  obtain ⟨f, hread⟩ := h.query_eq eof levels
  rw [hread, hinner] at he
  cases he
  exact ⟨⟨kind, ⟨eof, eof⟩⟩, mem_chain_within_of_mem (List.mem_cons_self ..), rfl⟩

end CssMedia.Grammar
