import CssMedia.Node
import CssMedia.Proofs.Grammar.Members
import CssMedia.Proofs.Grammar.QueryFailure

/-!
# Entry points

All entry points fail alike where a text is not read, and otherwise read the same lexemes. Where
two of them read the same, they give the same.
-/

namespace CssMedia

namespace Grammar

variable {eof : Nat} {levels : Option Nat} {ts : List Lexeme}

/-! ## One query -/

theorem singleQuery_alone (h : topCommas ts = []) :
    singleQuery eof levels ts = query eof levels ts :=
  singleQuery_of_none (topCommas_eq_nil_iff.mp h)

theorem members_alone (h : topCommas ts = []) (hne : ts ≠ []) :
    members eof levels ts = [query eof levels ts] := by
  have hmembers : memberLexemes ts = [ts] := by
    simp [memberLexemes, h, stretches, hne]
  rw [members_eq, hmembers, if_neg (List.cons_ne_nil _ _), List.map_singleton]

theorem singleQuery_comma {i : Nat} {is : List Nat} (h : topCommas ts = i :: is) :
    i < ts.length ∧ singleQuery eof levels ts = query eof levels (ts.take i) >>= fun _ =>
      .error (.single .invalidQuery (Lexeme.spanOf eof (ts.drop i))) := by
  cases hcut : cutAtComma [] ts with
  | none =>
    rw [topCommas_eq_nil_iff.mpr hcut] at h
    cases h
  | some cut =>
    obtain ⟨before, comma, after⟩ := cut
    rw [topCommas_of_some hcut] at h
    obtain ⟨rfl, -⟩ := List.cons.inj h
    rw [singleQuery_of_some hcut, eq_of_cutAtComma hcut, List.take_left, List.drop_left]
    exact ⟨by simp, rfl⟩

/-- The lexemes that a single query is read of. -/
def beforeComma (ts : List Lexeme) : List Lexeme := ts.take ((topCommas ts).headD ts.length)

theorem fails_singleQuery (eof : Nat) (levels : Option Nat) (ts : List Lexeme) :
    Fails (fun e => QueryFailed eof levels (beforeComma ts) e ∨
        ∃ span, e = .single .invalidQuery span ∧ Lexeme.SpansPart eof ts span)
      (singleQuery eof levels ts) := by
  cases hcommas : topCommas ts with
  | nil =>
    rw [singleQuery_alone hcommas, beforeComma, hcommas, List.headD_nil, List.take_length]
    exact (queryFailed_of_query eof levels ts).mono fun _ => .inl
  | cons i is =>
    obtain ⟨hlt, hquery⟩ := singleQuery_comma hcommas
    have hne : ts.drop i ≠ [] := by simpa using hlt
    have hspan : Lexeme.SpansPart eof ts (Lexeme.spanOf eof (ts.drop i)) :=
      (Lexeme.spansPart_self hne).mono (List.drop_suffix i ts).isInfix
    rw [hquery, beforeComma, hcommas, List.headD_cons]
    exact ((queryFailed_of_query eof levels (ts.take i)).mono fun _ => .inl).bind fun _ _ =>
      .error (.inr ⟨_, rfl, hspan⟩)

theorem StartsCondition.singleQuery_iff (h : StartsCondition ts) {q : Query} :
    singleQuery eof levels ts = .ok q ↔
      ∃ c, condition eof levels true ts = .ok c ∧ q = ⟨none, .all, some c⟩ := by
  rw [Grammar.singleQuery_iff, ← query_iff, h.query_eq, conditionQuery_eq]
  cases condition eof levels true ts with
  | error e => simp [Except.mapError, Except.map]
  | ok c => simp [Except.mapError, Except.map, eq_comm]

theorem feature_iff_condition (hlevels : levels ≠ some 0) {f : Feature} :
    feature eof ts = .ok f ↔ condition eof levels true ts = .ok (.only (.feature f)) := by
  have hallows : Allows levels 1 := by
    intro n hn
    have hpos : n ≠ 0 := fun hzero => hlevels (hzero ▸ hn)
    omega
  rw [condition_iff, feature_iff]
  constructor
  · rintro ⟨first, interior, close, rfl, hfirst, hclose, hform⟩
    exact ⟨.only (.feature hfirst hclose hform), hallows, nofun⟩
  · rintro ⟨hform, -⟩
    cases hform with
    | only h =>
      cases h with
      | feature hfirst hclose hform => exact ⟨_, _, _, rfl, hfirst, hclose, hform⟩

end Grammar

/-! ## Settings -/

/-- What is given of a condition that was read. -/
def Condition.finished (settings : Settings) (c : Condition) : Condition :=
  if settings.simplify then c.simplify else c

/-- What is given of a query that was read. -/
def Query.finished (settings : Settings) (q : Query) : Query :=
  if settings.simplify then q.simplify else q

theorem Query.finished_condition (settings : Settings) (c : Condition) :
    (Query.mk none .all (some c)).finished settings = ⟨none, .all, some (c.finished settings)⟩ := by
  unfold finished Condition.finished
  split <;> rfl

section

variable {settings : Settings} {text : String} {source : Source}
  (h : Source.read text = .ok source)

include h

theorem QueryList.parse_eq : parse settings text =
    let results := Grammar.members source.eof settings.levels source.lexemes
    .ok (⟨results.map fun r => r.toOption.map (·.finished settings)⟩,
      results.filterMap Grammar.failure?) := by
  unfold parse
  rw [h]
  simp only [bind, Except.bind, pure, Except.pure, Grammar.queryList_eq]
  unfold Query.finished
  split <;> simp [simplify, Function.comp_def, *]

theorem Query.parse_eq : parse settings text =
    (Grammar.singleQuery source.eof settings.levels source.lexemes).map (·.finished settings) := by
  unfold parse
  rw [h]
  simp only [bind, Except.bind]
  cases Grammar.singleQuery source.eof settings.levels source.lexemes <;> rfl

theorem Condition.parse_eq : parse settings text =
    (Grammar.condition source.eof settings.levels true source.lexemes).map (·.finished settings) := by
  unfold parse
  rw [h]
  simp only [bind, Except.bind]
  cases Grammar.condition source.eof settings.levels true source.lexemes <;> rfl

theorem Feature.parse_eq : parse text = Grammar.feature source.eof source.lexemes := by
  unfold parse
  rw [h]
  rfl

end

/-! ## Agreement -/

/-- One query is read as a list of one member is, a condition as the query that it is, and a feature
as the condition that it is. A comma outside all brackets is one too many for a single query. -/
theorem entryPoints_agree {settings : Settings} {text : String} {source : Source}
    (hread : Source.read text = .ok source) (hne : source.lexemes ≠ []) :
    (Grammar.topCommas source.lexemes = [] →
      (∀ q, Query.parse settings text = .ok q ↔
        QueryList.parse settings text = .ok (⟨[some q]⟩, [])) ∧
      ∀ e, Query.parse settings text = .error e ↔
        QueryList.parse settings text = .ok (⟨[none]⟩, [e])) ∧
    (∀ i is, Grammar.topCommas source.lexemes = i :: is →
      (∀ e, Grammar.query source.eof settings.levels (source.lexemes.take i) = .error e →
        Query.parse settings text = .error e) ∧
      ∀ q, Grammar.query source.eof settings.levels (source.lexemes.take i) = .ok q →
        ∃ comma last, source.lexemes[i]? = some comma ∧ source.lexemes.getLast? = some last ∧
          Query.parse settings text =
            .error (.single .invalidQuery ⟨comma.span.start, last.span.stop⟩)) ∧
    (Grammar.StartsCondition source.lexemes → ∀ q, Query.parse settings text = .ok q ↔
      ∃ c, Condition.parse settings text = .ok c ∧ q = ⟨none, .all, some c⟩) ∧
    (settings.simplify = false → settings.levels ≠ some 0 → ∀ f, Feature.parse text = .ok f ↔
      Condition.parse settings text = .ok (.only (.feature f))) := by
  rw [QueryList.parse_eq hread, Query.parse_eq hread, Condition.parse_eq hread,
    Feature.parse_eq hread]
  refine ⟨fun halone => ?_, fun i is hcommas => ?_, fun hstarts q => ?_, fun hsimplify hlevels f => ?_⟩
  · rw [Grammar.singleQuery_alone halone, Grammar.members_alone halone hne]
    cases Grammar.query source.eof settings.levels source.lexemes with
    | error e => simp [Except.map, Except.toOption, Grammar.failure?]
    | ok q => simp [Except.map, Except.toOption, Grammar.failure?]
  · obtain ⟨hlt, hquery⟩ := Grammar.singleQuery_comma hcommas
    rw [hquery]
    refine ⟨fun e he => by rw [he]; rfl, fun q hq => ?_⟩
    obtain ⟨last, hlast⟩ : ∃ last, source.lexemes.getLast? = some last :=
      ⟨_, List.getLast?_eq_some_getLast hne⟩
    have hdrop : source.lexemes.drop i = source.lexemes[i] :: source.lexemes.drop (i + 1) :=
      List.drop_eq_getElem_cons hlt
    have hbehind := (Source.inOrder_of_read hread).sublist (List.drop_sublist i source.lexemes)
    have hend : (source.lexemes.drop i).getLast? = some last := by
      rw [List.getLast?_drop, if_neg (by omega), hlast]
    rw [hdrop] at hbehind hend
    refine ⟨source.lexemes[i], last, List.getElem?_eq_getElem hlt, hlast, ?_⟩
    rw [hq, hdrop, hbehind.spanOf_eq hend]
    rfl
  · constructor
    · intro h
      obtain ⟨r, hr, rfl⟩ := exists_of_map_eq_ok h
      obtain ⟨c, hc, rfl⟩ := hstarts.singleQuery_iff.mp hr
      exact ⟨c.finished settings, by rw [hc]; rfl, Query.finished_condition settings c⟩
    · rintro ⟨_, h, rfl⟩
      obtain ⟨c, hc, rfl⟩ := exists_of_map_eq_ok h
      rw [hstarts.singleQuery_iff.mpr ⟨c, hc, rfl⟩]
      exact congrArg Except.ok (Query.finished_condition settings c)
  · have hfinished : ∀ c : Condition, c.finished settings = c := by
      intro c
      simp [Condition.finished, hsimplify]
    rw [Grammar.feature_iff_condition hlevels]
    cases Grammar.condition source.eof settings.levels true source.lexemes with
    | error e => simp [Except.map]
    | ok c => simp [Except.map, hfinished]

/-- The feature of `(a)` is its condition, its query and the one member of its list. In `(a), b` a
query has too much behind it. -/
theorem entryPoints_agree_feature :
    let settings : Settings := ⟨false, some 1⟩
    let c : Condition := .only (.feature (.boolean "a"))
    (Feature.parse "(a)" = .ok (.boolean "a") ∧ Condition.parse settings "(a)" = .ok c ∧
      Query.parse settings "(a)" = .ok ⟨none, .all, some c⟩ ∧
      QueryList.parse settings "(a)" = .ok (⟨[some ⟨none, .all, some c⟩]⟩, [])) ∧
    Query.parse settings "(a), b" = .error (.single .invalidQuery ⟨3, 5⟩) := by
  intro settings c
  let first : Lexeme := ⟨.openParen, ⟨0, 0⟩, false⟩
  let interior : List Lexeme := [⟨.ident "a", ⟨1, 1⟩, false⟩]
  let close : Lexeme := ⟨.closeParen, ⟨2, 2⟩, false⟩
  let more : List Lexeme := [⟨.comma, ⟨3, 3⟩, false⟩, ⟨.ident "b", ⟨5, 5⟩, true⟩]
  have halone : (Source.read "(a)").toOption.map Source.lexemes =
      some (first :: (interior ++ [close])) := by
    decide +kernel
  have hmore : (Source.read "(a), b").toOption.map Source.lexemes =
      some (first :: (interior ++ [close]) ++ more) := by
    decide +kernel
  obtain ⟨⟨_, eof⟩, hsource, rfl⟩ := Option.map_eq_some_iff.mp halone
  obtain ⟨⟨_, eof'⟩, hsource', rfl⟩ := Option.map_eq_some_iff.mp hmore
  have hfeature : Feature.parse "(a)" = .ok (.boolean "a") := by
    rw [Feature.parse_eq (eq_ok_of_toOption hsource)]
    exact Grammar.feature_iff.mpr ⟨first, interior, close, rfl, rfl, rfl, .boolean rfl⟩
  obtain ⟨hone, -, hcondition, hbare⟩ :=
    @entryPoints_agree settings _ _ (eq_ok_of_toOption hsource) (List.cons_ne_nil _ _)
  have hc := (hbare rfl (by decide) _).mp hfeature
  have hq := (hcondition (.paren rfl) _).mpr ⟨c, hc, rfl⟩
  have hnone : Grammar.topCommas (first :: (interior ++ [close])) = [] := by decide
  have hlist := ((hone hnone).1 _).mp hq
  obtain ⟨-, htwo, -⟩ :=
    @entryPoints_agree settings _ _ (eq_ok_of_toOption hsource') (List.cons_ne_nil _ _)
  have hcommas : Grammar.topCommas (first :: (interior ++ [close]) ++ more) = [3] := by decide
  have hbefore : Grammar.query eof' (some 1) (first :: (interior ++ [close])) =
      .ok ⟨none, .all, some c⟩ :=
    Grammar.query_iff.mpr ⟨.condition (.only (.feature rfl rfl (.boolean rfl))), by decide⟩
  obtain ⟨comma, last, hcomma, hlast, hread⟩ := (htwo 3 [] hcommas).2 _ hbefore
  cases hcomma
  cases hlast
  exact ⟨⟨hfeature, hc, hq, hlist⟩, hread⟩

end CssMedia
