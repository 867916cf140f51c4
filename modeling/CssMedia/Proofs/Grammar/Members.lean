import CssMedia.Proofs.Grammar.Counter
import CssMedia.Proofs.Grammar.Segments

/-!
# The members of a list, each on its own

What a member is and whether it fails depends on its own lexemes and on nothing else in the
list, also where all members are read with one count.
-/

namespace CssMedia.Grammar

/-- What lies between the commas outside all brackets, without the empty stretches. -/
def memberLexemes (ts : List Lexeme) : List (List Lexeme) :=
  (stretches ts 0 (topCommas ts)).filter (· != [])

def failure? {α : Type} : Except ParseError α → Option ParseError
  | .error e => some e
  | .ok _ => none

theorem failure?_eq_some {α : Type} {r : Except ParseError α} {e : ParseError} :
    failure? r = some e ↔ r = .error e := by
  cases r <;> simp [failure?]

section

variable {eof : Nat} {levels : Option Nat} {ts us rest : List Lexeme} {comma : Lexeme}

theorem mem_memberLexemes (h : us ∈ memberLexemes ts) : us ≠ [] ∧ us <:+: ts := by
  obtain ⟨hus, hne⟩ := List.mem_filter.mp h
  exact ⟨bne_iff_ne.mp hne, infix_of_mem_stretches hus⟩

theorem members_eq : members eof levels ts =
    if memberLexemes ts = [] then [.ok .all] else (memberLexemes ts).map (query eof levels) := by
  unfold members
  rw [segments_eq_stretches, ← memberLexemes]
  cases memberLexemes ts <;> rfl

theorem queryList_eq : queryList eof levels ts =
    (⟨(members eof levels ts).map Except.toOption⟩, (members eof levels ts).filterMap failure?) := by
  refine Prod.ext rfl ?_
  exact congrArg (List.filterMap · _) (funext fun r => by cases r <;> rfl)

theorem memberLexemes_append (hopen : openBrackets ts = []) (hcomma : comma.kind = .comma) :
    memberLexemes (ts ++ comma :: rest) = memberLexemes ts ++ memberLexemes rest := by
  simp only [memberLexemes, ← segments_eq_stretches]
  rw [segments_append hopen hcomma, List.filter_append]

theorem failures_members :
    (members eof levels ts).filterMap failure? =
      ((memberLexemes ts).map (query eof levels)).filterMap failure? := by
  rw [members_eq]
  split
  · next h => rw [h]; rfl
  · rfl

theorem mem_failures {e : ParseError} : e ∈ (members eof levels ts).filterMap failure? ↔
    ∃ us ∈ memberLexemes ts, query eof levels us = .error e := by
  rw [failures_members]
  simp [failure?_eq_some]

theorem members_append (hopen : openBrackets ts = []) (hcomma : comma.kind = .comma) :
    members eof levels (ts ++ comma :: rest) =
      if memberLexemes ts = [] then members eof levels rest
      else if memberLexemes rest = [] then members eof levels ts
      else members eof levels ts ++ members eof levels rest := by
  simp only [members_eq, memberLexemes_append hopen hcomma]
  by_cases hts : memberLexemes ts = []
  · simp [hts]
  · by_cases hrest : memberLexemes rest = []
    · simp [hts, hrest]
    · simp [hts, hrest]

end

/-- The members of a list are those stretches between its outer commas that are not empty, read
as by themselves, and one count for all of them changes nothing. Lexemes that leave no bracket
open and those behind a comma after them are read as two lists would be. -/
theorem queryList_memberwise (eof : Nat) (limit : Option Nat) (ts : List Lexeme) :
    let alone := fun us => ((countingQuery eof limit us).run.run 0).1
    let results := if memberLexemes ts = [] then [.ok .all] else (memberLexemes ts).map alone
    (∀ us, alone us = query eof limit us) ∧
    (countingMembers eof limit ts).run 0 = (results, 0) ∧
    queryList eof limit ts =
      (⟨results.map Except.toOption⟩, results.filterMap failure?) ∧
    ∀ comma rest, comma.kind = .comma → openBrackets ts = [] →
      memberLexemes (ts ++ comma :: rest) = memberLexemes ts ++ memberLexemes rest ∧
      (queryList eof limit (ts ++ comma :: rest)).1.members =
        (if memberLexemes ts = [] then (queryList eof limit rest).1.members
        else if memberLexemes rest = [] then (queryList eof limit ts).1.members
        else (queryList eof limit ts).1.members ++ (queryList eof limit rest).1.members) ∧
      (queryList eof limit (ts ++ comma :: rest)).2 =
        (queryList eof limit ts).2 ++ (queryList eof limit rest).2 := by
  intro alone results
  have hfresh : levelsLeft limit 0 = limit := by cases limit <;> rfl
  have halone : ∀ us, alone us = query eof limit us := by
    intro us
    have h := restores_query eof limit us 0
    rw [hfresh] at h
    exact congrArg Prod.fst h
  have hresults : members eof limit ts = results := by
    rw [members_eq, ← funext halone]
  refine ⟨halone, ?_, ?_, ?_⟩
  · rw [run_countingMembers, hfresh, hresults]
  · rw [queryList_eq, hresults]
  · intro comma rest hcomma hopen
    have hmembers : memberLexemes (ts ++ comma :: rest) = memberLexemes ts ++ memberLexemes rest :=
      memberLexemes_append hopen hcomma
    refine ⟨hmembers, ?_, ?_⟩
    · simp only [queryList_eq, members_append hopen hcomma]
      split
      · rfl
      split
      · rfl
      · exact List.map_append
    · simp only [queryList_eq, failures_members, hmembers, List.map_append, List.filterMap_append]

/-- In `((a)), (b)` the first member is too deep for one level, and the second is read with that
level all the same. -/
theorem queryList_memberwise_tooDeep :
    let ts : List Lexeme := [⟨.openParen, ⟨0, 0⟩, false⟩, ⟨.openParen, ⟨1, 1⟩, false⟩,
      ⟨.ident "a", ⟨2, 2⟩, false⟩, ⟨.closeParen, ⟨3, 3⟩, false⟩, ⟨.closeParen, ⟨4, 4⟩, false⟩]
    let comma : Lexeme := ⟨.comma, ⟨5, 5⟩, false⟩
    let rest : List Lexeme := [⟨.openParen, ⟨7, 7⟩, true⟩, ⟨.ident "b", ⟨8, 8⟩, false⟩,
      ⟨.closeParen, ⟨9, 9⟩, false⟩]
    comma.kind = .comma ∧ openBrackets ts = [] ∧
      memberLexemes (ts ++ comma :: rest) = [ts, rest] ∧
      (queryList 10 (some 1) (ts ++ comma :: rest)).1.members =
        [none, some ⟨none, .all, some (.only (.feature (.boolean "b")))⟩] ∧
      (queryList 10 (some 1) (ts ++ comma :: rest)).2 = [.single .nestedTooDeeply ⟨1, 3⟩] := by
  intro ts comma rest
  have hopen : openBrackets ts = [] := by decide
  have hmembers : memberLexemes ts = [ts] ∧ memberLexemes rest = [rest] := by decide
  have htooDeep : query 10 (some 1) ts = .error (.single .nestedTooDeeply ⟨1, 3⟩) := by
    simp +decide [ts, query, conditionQuery, condition, enter, leadingNot, operands, cutAtClose,
      group, within, Except.map, Lexeme.spanOf, Span.cover]
  have hread : query 10 (some 1) rest =
      .ok ⟨none, .all, some (.only (.feature (.boolean "b")))⟩ := by
    simp +decide [rest, query, conditionQuery, condition, enter, leadingNot, operands, cutAtClose,
      group, feature, items, ratio?, featureOfItems, Item.ident?, Lexeme.ident?, Except.map,
      Condition.only]
  have hfirst : queryList 10 (some 1) ts = (⟨[none]⟩, [.single .nestedTooDeeply ⟨1, 3⟩]) := by
    rw [queryList_eq, members_eq, hmembers.1, if_neg (List.cons_ne_nil _ _), List.map_singleton,
      htooDeep]
    rfl
  have hsecond : queryList 10 (some 1) rest =
      (⟨[some ⟨none, .all, some (.only (.feature (.boolean "b")))⟩]⟩, []) := by
    rw [queryList_eq, members_eq, hmembers.2, if_neg (List.cons_ne_nil _ _), List.map_singleton,
      hread]
    rfl
  have hlist := (queryList_memberwise 10 (some 1) ts).2.2.2 comma rest rfl hopen
  rw [hmembers.1, hmembers.2, hfirst, hsecond] at hlist
  exact ⟨rfl, hopen, hlist⟩

end CssMedia.Grammar
