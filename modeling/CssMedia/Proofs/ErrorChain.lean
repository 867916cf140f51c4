import CssMedia.Proofs.FatalErrors

/-!
# The links of an error

The links of an error lead from the whole condition of a query through the groups in it, each
inside of the one before, to what is wrong in the innermost of them.
-/

namespace CssMedia

namespace Grammar

open Lexeme (SpansPart)

/-- What fails in the condition of a query fails there as by itself, and a link of the query goes
before all of that but a want of levels. A query without a condition fails with one link. -/
def HasQueryChain (eof : Nat) (levels : Option Nat) (ts : List Lexeme) (e : ParseError) : Prop :=
  (∃ orAllowed us inner, ConditionIn ts orAllowed us ∧
    condition eof levels orAllowed us = .error inner ∧
    ((∃ span, inner = .single .nestedTooDeeply span) ∧ e = inner ∨
      ∃ groups last, inner.chain = groups ++ [last] ∧ GroupChain levels us groups last ∧
        e.chain = ⟨.expectCondition, Lexeme.spanOf eof us⟩ :: inner.chain ∧
        ∀ l ∈ groups, l.span.Inside (Lexeme.spanOf eof us))) ∨
  (∀ orAllowed us, ¬ ConditionIn ts orAllowed us) ∧ e.causes = []

variable {eof length : Nat} {levels : Option Nat} {orAllowed : Bool} {ts us : List Lexeme}
  {e : ParseError}

theorem QueryFailed.hasQueryChain (h : QueryFailed eof levels ts e)
    (horder : Lexeme.InOrder length ts) : HasQueryChain eof levels ts e := by
  cases h with
  | @condition orAllowed us inner h he =>
    refine .inl ⟨orAllowed, us, inner, h, he, ?_⟩
    rcases (h.failed horder he).hasGroupChain with ⟨span, rfl⟩ | ⟨groups, last, hchain, hgroups⟩
    · exact .inl ⟨⟨span, rfl⟩, rfl⟩
    · have hus := horder.sublist h.suffix.sublist
      refine .inr ⟨groups, last, hchain, hgroups, ?_, fun l hl => ?_⟩
      · rw [within, if_neg (hgroups.not_tooDeep hchain)]
        rfl
      · exact ((hgroups.group l hl).2.spansPart hus).inside hus
  | single hnone => exact .inr ⟨hnone, rfl⟩
  | empty hts =>
    subst hts
    exact .inr ⟨fun orAllowed us h => h.ne_nil (List.suffix_nil.mp h.suffix), rfl⟩

/-! ## Places -/

theorem ConditionFailed.inText (h : ConditionFailed eof levels ts e)
    (horder : Lexeme.InOrder eof ts) : ∀ l ∈ e.chain, l.span.InText eof := by
  rcases h with h | ⟨-, kind, -, rfl⟩
  · exact fun l hl => (h.parts l hl).inText horder
  · exact List.forall_mem_singleton.mpr (Span.inText_end eof)

theorem QueryFailed.inText (h : QueryFailed eof levels ts e) (horder : Lexeme.InOrder eof ts) :
    ∀ l ∈ e.chain, l.span.InText eof := by
  cases h with
  | @condition orAllowed us inner h he =>
    have hus := horder.sublist h.suffix.sublist
    intro l hl
    rcases mem_chain_within hl with rfl | hl
    · exact (Lexeme.spansPart_self h.ne_nil).inText hus
    · exact (h.failed horder he).inText hus l hl
  | single _ _ hspan => exact List.forall_mem_singleton.mpr (hspan.inText horder)
  | empty => exact List.forall_mem_singleton.mpr (Span.inText_end eof)

theorem inText_of_singleQuery (horder : Lexeme.InOrder eof ts) :
    Fails (fun e => ∀ l ∈ e.chain, l.span.InText eof) (singleQuery eof levels ts) := by
  refine (fails_singleQuery eof levels ts).mono fun e he => ?_
  rcases he with he | ⟨span, rfl, hspan⟩
  · exact he.inText (horder.sublist (List.take_sublist ..))
  · exact List.forall_mem_singleton.mpr (hspan.inText horder)

end Grammar

/-! ## Texts -/

theorem Source.Unreadable.inText_chain {text : String} {e : ParseError}
    (h : Source.Unreadable text e) : ∀ l ∈ e.chain, l.span.InText (Input.read text).length := by
  rw [ParseError.chain, h.isFatal.1]
  exact List.forall_mem_singleton.mpr h.inText

/-- A condition fails as a text that is not read, for want of levels, or with the links of no more
groups than there are levels before the one link of what is wrong. For a query one link is around
those of its condition, and anything else is one link, also for the member of a list. Every link is
about code points of the text, or its end. -/
theorem error_chains (settings : Settings) (text : String) :
    (∀ e, Condition.parse settings text = .error e →
      (∀ l ∈ e.chain, l.span.InText (Input.read text).length) ∧
      (Source.Unreadable text e ∧ e.causes = [] ∨
        ∃ source, Source.read text = .ok source ∧
          Grammar.HasGroupChain settings.levels source.lexemes e)) ∧
    (∀ e, Query.parse settings text = .error e →
      (∀ l ∈ e.chain, l.span.InText (Input.read text).length) ∧
      (Source.Unreadable text e ∧ e.causes = [] ∨
        ∃ source, Source.read text = .ok source ∧
          ((∃ span, e = .single .invalidQuery span) ∨ Grammar.HasQueryChain source.eof
            settings.levels (Grammar.beforeComma source.lexemes) e))) ∧
    ∀ list errors, QueryList.parse settings text = .ok (list, errors) → ∀ e ∈ errors,
      (∀ l ∈ e.chain, l.span.InText (Input.read text).length) ∧
      ∃ source ts, Source.read text = .ok source ∧ ts ∈ Grammar.memberLexemes source.lexemes ∧
        Grammar.query source.eof settings.levels ts = .error e ∧
        Grammar.HasQueryChain source.eof settings.levels ts e := by
  cases hread : Source.read text with
  | error e' =>
    have h := Source.read_eq_error_iff.mp hread
    have hcondition := eq_error_of_map (Node.parse_of_unreadable h settings .condition)
    have hquery := eq_error_of_map (Node.parse_of_unreadable h settings .query)
    rw [hcondition, hquery, QueryList.parse_eq_error_iff.mpr h]
    refine ⟨?_, ?_, nofun⟩
    · rintro _ ⟨⟩
      exact ⟨h.inText_chain, .inl ⟨h, h.isFatal.1⟩⟩
    · rintro _ ⟨⟩
      exact ⟨h.inText_chain, .inl ⟨h, h.isFatal.1⟩⟩
  | ok source =>
    have horder := Source.inOrder_of_read hread
    have heof := Source.eof_eq_of_read hread
    rw [Condition.parse_eq hread, Query.parse_eq hread, QueryList.parse_eq hread, ← heof]
    refine ⟨fun e he => ?_, fun e he => ?_, fun list errors hlist e he => ?_⟩
    · have hfailed := Grammar.conditionFailed_of_condition true horder e (eq_error_of_map he)
      exact ⟨hfailed.inText horder, .inr ⟨source, rfl, hfailed.hasGroupChain⟩⟩
    · have he := eq_error_of_map he
      refine ⟨Grammar.inText_of_singleQuery horder e he, .inr ⟨source, rfl, ?_⟩⟩
      rcases Grammar.fails_singleQuery _ _ _ e he with hfailed | ⟨span, rfl, -⟩
      · exact .inr (hfailed.hasQueryChain (horder.sublist (List.take_sublist ..)))
      · exact .inl ⟨span, rfl⟩
    · cases hlist
      obtain ⟨ts, hts, he⟩ := Grammar.mem_failures.mp he
      have hpart := horder.sublist (Grammar.mem_memberLexemes hts).2.sublist
      have hfailed := Grammar.queryFailed_of_query _ _ _ e he
      exact ⟨hfailed.inText hpart, source, ts, rfl, hts, he, hfailed.hasQueryChain hpart⟩

/-- Two groups are around the empty one in a condition, and the same error of a query has one link
more. -/
theorem error_chains_nested :
    let text := "((a) and ())"
    let ts : List Lexeme := [⟨.openParen, ⟨0, 0⟩, false⟩, ⟨.openParen, ⟨1, 1⟩, false⟩,
      ⟨.ident "a", ⟨2, 2⟩, false⟩, ⟨.closeParen, ⟨3, 3⟩, false⟩, ⟨.ident "and", ⟨5, 7⟩, true⟩,
      ⟨.openParen, ⟨9, 9⟩, true⟩, ⟨.closeParen, ⟨10, 10⟩, false⟩, ⟨.closeParen, ⟨11, 11⟩, false⟩]
    let c : ParseError := ⟨⟨.expectFeatureOrCondition, ⟨0, 11⟩⟩,
      [⟨.expectFeatureOrCondition, ⟨9, 10⟩⟩, ⟨.emptyFeature, ⟨9, 10⟩⟩]⟩
    let q := c.wrap .expectCondition ⟨0, 11⟩
    Condition.parse {} text = .error c ∧ Query.parse {} text = .error q ∧
      QueryList.parse {} text = .ok (⟨[none]⟩, [q]) ∧
      (∀ l ∈ q.chain, l.span.InText 12) ∧ Grammar.HasGroupChain (some 256) ts c ∧
      Grammar.HasQueryChain 12 (some 256) ts q := by
  intro text ts c q
  have hread : (Source.read text).toOption.map (fun s => (s.lexemes, s.eof)) = some (ts, 12) := by
    decide +kernel
  obtain ⟨⟨_, _⟩, hsource, hts⟩ := Option.map_eq_some_iff.mp hread
  obtain ⟨rfl, rfl⟩ := Prod.mk.inj hts
  have hsource := eq_ok_of_toOption hsource
  have hcondition : Grammar.condition 12 (some 256) true ts = .error c := by
    -- Equations open what recurses on lengths; the rest is evaluated.
    simp +decide [ts, c, Grammar.condition, Grammar.enter, Grammar.leadingNot, Grammar.operands,
      Grammar.cutAtClose, Grammar.group, Grammar.feature, Grammar.items]
    rfl
  have hquery : Grammar.query 12 (some 256) ts = .error q := by
    rw [(Grammar.StartsCondition.paren rfl).query_eq, Grammar.conditionQuery_eq, hcondition]
    rfl
  have halone : Grammar.topCommas ts = [] := by decide
  have hparseCondition : Condition.parse {} text = .error c := by
    rw [Condition.parse_eq hsource]
    exact congrArg (Except.map _) hcondition
  have hparseQuery : Query.parse {} text = .error q := by
    rw [Query.parse_eq hsource]
    exact congrArg (Except.map _) ((Grammar.singleQuery_alone halone).trans hquery)
  have hmembers : Grammar.members 12 (some 256) ts = [.error q] := by
    rw [Grammar.members_alone halone (List.cons_ne_nil _ _), hquery]
  have hparseList : QueryList.parse {} text = .ok (⟨[none]⟩, [q]) := by
    rw [QueryList.parse_eq hsource]
    simp only [hmembers]
    rfl
  obtain ⟨hconditions, -, hlists⟩ := error_chains {} text
  obtain ⟨-, ⟨hunreadable, -⟩ | ⟨_, hsame, hchain⟩⟩ := hconditions c hparseCondition
  · rw [Source.read_eq_error_iff.mpr hunreadable] at hsource
    cases hsource
  cases hsource.symm.trans hsame
  obtain ⟨htext, _, us, hsame, hus, -, hqueryChain⟩ :=
    hlists _ _ hparseList q (List.mem_singleton_self q)
  cases hsource.symm.trans hsame
  have hmember : Grammar.memberLexemes ts = [ts] := by decide
  rw [hmember, List.mem_singleton] at hus
  subst hus
  rw [← Source.eof_eq_of_read hsource] at htext
  exact ⟨hparseCondition, hparseQuery, hparseList, htext, hchain, hqueryChain⟩

end CssMedia