import CssMedia.Proofs.Grammar.SeenQuery

/-!
# Spaces and positions

What lexemes are read as depends on their kinds alone, not on where they are, and on one kind of
space: the one between a `<` or `>` and an `=`.
-/

namespace CssMedia.Grammar

open Lexeme (seenAll)

/-- The same kinds, and the same space before each `=` that follows a `<` or `>`. -/
structure SameButSpacing (ts us : List Lexeme) : Prop where
  kinds : ts.map (·.kind) = us.map (·.kind)
  joined : ∀ i < ts.length, ts[i]?.any Lexeme.mayJoin → ts[i + 1]?.any (·.isDelim '=') →
    ts[i + 1]?.map (·.afterSpace) = us[i + 1]?.map (·.afterSpace)

instance (ts us : List Lexeme) : Decidable (SameButSpacing ts us) :=
  decidable_of_iff
    (ts.map (·.kind) = us.map (·.kind) ∧
      ∀ i < ts.length, ts[i]?.any Lexeme.mayJoin → ts[i + 1]?.any (·.isDelim '=') →
        ts[i + 1]?.map (·.afterSpace) = us[i + 1]?.map (·.afterSpace))
    ⟨fun h => ⟨h.1, h.2⟩, fun h => ⟨h.kinds, h.joined⟩⟩

/-- A result without the positions in its failure. -/
def outcome {α : Type} (r : Except ParseError α) : Except (List ErrorKind) α :=
  r.mapError ParseError.kinds

/-! ## What is seen of such lexemes -/

theorem SameButSpacing.tail {t u : Lexeme} {ts us : List Lexeme}
    (h : SameButSpacing (t :: ts) (u :: us)) : SameButSpacing ts us where
  kinds := (List.cons_eq_cons.mp h.kinds).2
  joined i hi := h.joined (i + 1) (Nat.succ_lt_succ hi)

/-- `joins` is for a `<` or `>` before both lists. -/
theorem SameButSpacing.seenAll_eq {ts us : List Lexeme} (h : SameButSpacing ts us) (joins : Bool)
    (hfirst : joins → ts.head?.any (·.isDelim '=') →
      ts.head?.map (·.afterSpace) = us.head?.map (·.afterSpace)) :
    seenAll (fun _ => ⟨0, 0⟩) joins ts = seenAll (fun _ => ⟨0, 0⟩) joins us := by
  induction ts generalizing us joins with
  | nil =>
    have hus : us = [] := by simpa using h.kinds
    rw [hus]
  | cons t ts ih =>
    rcases us with _ | ⟨u, us⟩
    · exact absurd h.kinds (by simp)
    have hkind : t.kind = u.kind := (List.cons_eq_cons.mp h.kinds).1
    have hdelim : ∀ c, t.isDelim c = u.isDelim c := fun c => by
      rw [Lexeme.isDelim, hkind, Lexeme.isDelim]
    have hjoin : t.mayJoin = u.mayJoin := by simp only [Lexeme.mayJoin, hdelim]
    have hspace : (joins && t.isDelim '=' && t.afterSpace) =
        (joins && u.isDelim '=' && u.afterSpace) := by
      rw [← hdelim]
      cases hjoins : joins with
      | false => rfl
      | true =>
        cases hequal : t.isDelim '=' with
        | false => rfl
        | true => exact Option.some.inj (hfirst hjoins hequal)
    have htail := ih h.tail t.mayJoin fun hmay hequal => by
      simpa [List.head?_eq_getElem?] using
        h.joined 0 (Nat.succ_pos _) hmay (by simpa [List.head?_eq_getElem?] using hequal)
    rw [seenAll, seenAll, Lexeme.seen, Lexeme.seen, hkind, hspace, htail, hjoin]

/-! ## Outcomes -/

section

variable {α : Type} {move : Span → Span}

theorem outcome_moved (move : Span → Span) (r : Except ParseError α) :
    outcome (r.mapError (·.moved move)) = outcome r := by
  cases r with
  | error e => exact congrArg Except.error (e.kinds_moved move)
  | ok a => rfl

theorem outcome_eq_of_moved {r r' : Except ParseError α}
    (h : r.mapError (·.moved move) = r'.mapError (·.moved move)) : outcome r = outcome r' := by
  rw [← outcome_moved move r, h, outcome_moved]

theorem map_outcome_eq_of_moved {rs rs' : List (Except ParseError α)}
    (h : rs.map (·.mapError (·.moved move)) = rs'.map (·.mapError (·.moved move))) :
    rs.map outcome = rs'.map outcome := by
  have houtcomes := congrArg (List.map outcome) h
  simpa only [List.map_map, Function.comp_def, outcome_moved] using houtcomes

theorem map_toOption_outcome (rs : List (Except ParseError α)) :
    (rs.map outcome).map Except.toOption = rs.map Except.toOption := by
  rw [List.map_map]
  exact congrArg (rs.map ·) (funext fun r => by cases r <;> rfl)

theorem filterMap_failure?_outcome (rs : List (Except ParseError α)) :
    ((rs.map outcome).filterMap fun
      | .error kinds => some kinds
      | .ok _ => none) = (rs.filterMap failure?).map ParseError.kinds := by
  rw [List.filterMap_map, List.map_filterMap]
  exact congrArg (rs.filterMap ·) (funext fun r => by cases r <;> rfl)

end

/-- The trees are the same, and so are the kinds of all failures, link by link; in a list this is
so of each member. -/
theorem outcome_of_sameButSpacing {ts us : List Lexeme} (h : SameButSpacing ts us)
    (eof eof' : Nat) (levels : Option Nat) :
    (members eof levels ts).map outcome = (members eof' levels us).map outcome ∧
    (queryList eof levels ts).1 = (queryList eof' levels us).1 ∧
    (queryList eof levels ts).2.map ParseError.kinds =
      (queryList eof' levels us).2.map ParseError.kinds ∧
    outcome (query eof levels ts) = outcome (query eof' levels us) ∧
    (∀ orAllowed, outcome (condition eof levels orAllowed ts) =
      outcome (condition eof' levels orAllowed us)) ∧
    outcome (feature eof ts) = outcome (feature eof' us) := by
  have hts := moves_zero eof
  have hus := moves_zero eof'
  have hseen := h.seenAll_eq false nofun
  have hmembers : (members eof levels ts).map outcome = (members eof' levels us).map outcome := by
    apply map_outcome_eq_of_moved
    rw [← members_seen hts, ← members_seen hus, hseen]
  refine ⟨hmembers, ?_, ?_, ?_, fun orAllowed => ?_, ?_⟩
  · rw [queryList_eq, queryList_eq, ← map_toOption_outcome, hmembers, map_toOption_outcome]
  · rw [queryList_eq, queryList_eq, ← filterMap_failure?_outcome, hmembers,
      filterMap_failure?_outcome]
  · apply outcome_eq_of_moved
    rw [← query_seen hts, ← query_seen hus, hseen]
  · apply outcome_eq_of_moved
    rw [← condition_seen hts, ← condition_seen hus, hseen]
  · apply outcome_eq_of_moved
    rw [← feature_seen hts, ← feature_seen hus, hseen]

/-- The member `(infinite<=a)` without spaces and with all but the one inside the comparison, and
behind it a member that does not end: it fails in the same way at another place. -/
theorem outcome_of_sameButSpacing_range :
    let value : TokenKind := .ident "infinite"
    let ts : List Lexeme := [⟨.openParen, ⟨0, 0⟩, false⟩, ⟨value, ⟨1, 1⟩, false⟩,
      ⟨.delim '<', ⟨2, 2⟩, false⟩, ⟨.delim '=', ⟨3, 3⟩, false⟩, ⟨.ident "a", ⟨4, 4⟩, false⟩,
      ⟨.closeParen, ⟨5, 5⟩, false⟩, ⟨.comma, ⟨6, 6⟩, false⟩, ⟨.openParen, ⟨7, 7⟩, false⟩]
    let us : List Lexeme := [⟨.openParen, ⟨3, 3⟩, true⟩, ⟨value, ⟨5, 5⟩, true⟩,
      ⟨.delim '<', ⟨7, 7⟩, true⟩, ⟨.delim '=', ⟨8, 8⟩, false⟩, ⟨.ident "a", ⟨10, 10⟩, true⟩,
      ⟨.closeParen, ⟨12, 12⟩, true⟩, ⟨.comma, ⟨14, 14⟩, true⟩, ⟨.openParen, ⟨16, 16⟩, true⟩]
    SameButSpacing ts us ∧ (queryList 8 none ts).1 = (queryList 18 none us).1 ∧
      (queryList 8 none ts).2.map ParseError.kinds = (queryList 18 none us).2.map ParseError.kinds ∧
      (queryList 18 none us).2.map ParseError.kinds = [[.expectCondition, .mismatchedParens]] := by
  intro value ts us
  have h : SameButSpacing ts us := by decide
  obtain ⟨-, hlist, hkinds, -⟩ := outcome_of_sameButSpacing h 8 18 none
  have hmembers : memberLexemes us = [us.take 6, us.drop 7] := by decide
  have hread : ∃ q, query 18 none (us.take 6) = .ok q := by
    -- Equations open what recurses on lengths; the rest is evaluated.
    simp +decide [us, value, query, conditionQuery, condition, enter, leadingNot, operands,
      cutAtClose, group, feature, items]
    exact ⟨_, rfl⟩
  have hfails : ∃ e, query 18 none (us.drop 7) = .error e ∧
      e.kinds = [.expectCondition, .mismatchedParens] := by
    simp +decide [us, query, conditionQuery, condition, enter, leadingNot, operands, cutAtClose]
  obtain ⟨q, hread⟩ := hread
  obtain ⟨e, hfails, he⟩ := hfails
  refine ⟨h, hlist, hkinds, ?_⟩
  rw [queryList_eq, members_eq, hmembers, if_neg (List.cons_ne_nil _ _), List.map_cons, hread,
    List.map_singleton, hfails]
  exact congrArg ([·]) he

end CssMedia.Grammar
