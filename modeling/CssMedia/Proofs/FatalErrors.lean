import CssMedia.Proofs.EntryPoints

/-!
# Fatal errors

An error is fatal where the text is not read, and then it comes from every entry point. What is
wrong with a text that is read is never fatal, and its list has one member left out for each error.
-/

namespace CssMedia

namespace Grammar

variable {eof length : Nat} {levels : Option Nat} {ts : List Lexeme}

theorem harmless_of_query (horder : Lexeme.InOrder length ts) :
    Fails (·.isFatal = false) (query eof levels ts) :=
  (queryFailed_of_query eof levels ts).mono fun _ he => he.harmless horder

theorem harmless_of_singleQuery (horder : Lexeme.InOrder length ts) :
    Fails (·.isFatal = false) (singleQuery eof levels ts) := by
  refine (fails_singleQuery eof levels ts).mono fun e he => ?_
  rcases he with he | ⟨span, rfl, -⟩
  · exact he.harmless (horder.sublist (List.take_sublist ..))
  · rfl

theorem harmless_of_condition (horder : Lexeme.InOrder length ts) :
    Fails (·.isFatal = false) (condition eof levels true ts) :=
  (conditionFailed_of_condition true horder).mono fun _ he => he.harmless

theorem harmless_of_feature : Fails (·.isFatal = false) (feature eof ts) := by
  intro e he
  obtain ⟨kind, hkind, heq⟩ := (failsWith_feature eof ts).exists_eq he
  have hkinds : ∀ kind ∈ featureKinds, kind.isFatal = false := by decide
  rw [heq, ParseError.isFatal_single, hkinds kind hkind]

theorem countP_isNone_eq_length (settings : Settings) (results : List (Except ParseError Query)) :
    (results.map fun r => r.toOption.map (·.finished settings)).countP (·.isNone) =
      (results.filterMap failure?).length := by
  induction results with
  | nil => rfl
  | cons r results ih =>
    rw [List.map_cons, List.countP_cons, ih]
    cases r <;> rfl

end Grammar

theorem Source.Unreadable.isFatal {text : String} {e : ParseError} (h : Source.Unreadable text e) :
    e.causes = [] ∧ e.isFatal := by
  obtain ⟨kind, hkind, heq⟩ := (failsWith_read text).exists_eq (Source.read_eq_error_iff.mpr h)
  have hkinds : ∀ kind ∈ sourceKinds, kind.isFatal := by decide
  rw [heq]
  exact ⟨rfl, by rw [ParseError.isFatal_single, hkinds kind hkind]⟩

theorem Node.parse_of_unreadable {text : String} {e : ParseError} (h : Source.Unreadable text e)
    (settings : Settings) (entry : EntryPoint) : Node.parse settings entry text = .error e := by
  have hread := Source.read_eq_error_iff.mpr h
  cases entry <;>
    simp [Node.parse, QueryList.parse, Query.parse, Condition.parse, Feature.parse, hread, bind,
      Except.bind, Except.map]

theorem Node.harmless_of_parse {text : String} {source : Source}
    (hread : Source.read text = .ok source) (settings : Settings) (entry : EntryPoint) :
    Fails (·.isFatal = false) (Node.parse settings entry text) := by
  have horder := Source.inOrder_of_read hread
  cases entry with
  | list =>
    rw [Node.parse, QueryList.parse_eq hread]
    exact .ok _
  | query =>
    rw [Node.parse, Query.parse_eq hread]
    exact ((Grammar.harmless_of_singleQuery horder).map _).map _
  | condition =>
    rw [Node.parse, Condition.parse_eq hread]
    exact ((Grammar.harmless_of_condition horder).map _).map _
  | feature =>
    rw [Node.parse, Feature.parse_eq hread]
    exact Grammar.harmless_of_feature.map _

theorem QueryList.parse_eq_error_iff {settings : Settings} {text : String} {e : ParseError} :
    QueryList.parse settings text = .error e ↔ Source.Unreadable text e := by
  have hfails : ∀ e, Source.Unreadable text e → QueryList.parse settings text = .error e :=
    fun e h => eq_error_of_map (Node.parse_of_unreadable h settings .list)
  refine ⟨fun he => ?_, hfails e⟩
  cases hsource : Source.read text with
  | error e' =>
    have h := Source.read_eq_error_iff.mp hsource
    rw [hfails e' h] at he
    exact Except.error.inj he ▸ h
  | ok source =>
    rw [parse_eq hsource] at he
    cases he

/-- A list fails where the text is not read and nowhere else, and there every entry point fails
with the same error, which is fatal. Otherwise the errors are those of the members that are left
out, in their order, and no error from any entry point has a fatal link. -/
theorem Node.parse_fatal (settings : Settings) (text : String) :
    (∀ e, QueryList.parse settings text = .error e ↔ Source.Unreadable text e) ∧
    (∀ e, Source.Unreadable text e → e.causes = [] ∧ e.isFatal ∧
      ∀ entry, Node.parse settings entry text = .error e) ∧
    ((∀ e, ¬ Source.Unreadable text e) → ∃ source list errors results,
      Source.read text = .ok source ∧ QueryList.parse settings text = .ok (list, errors) ∧
      results = Grammar.members source.eof settings.levels source.lexemes ∧
      list.members = results.map (fun r => r.toOption.map (·.finished settings)) ∧
      errors = results.filterMap Grammar.failure? ∧
      list.members ≠ [] ∧ list.members.countP (·.isNone) = errors.length ∧
      (∀ e ∈ errors, ∀ l ∈ e.chain, l.kind.isFatal = false) ∧
      ∀ entry e, Node.parse settings entry text = .error e →
        ∀ l ∈ e.chain, l.kind.isFatal = false) := by
  have hlinks : ∀ e : ParseError, e.isFatal = false → ∀ l ∈ e.chain, l.kind.isFatal = false := by
    intro e he l hl
    exact Bool.eq_false_iff.mpr (List.any_eq_false.mp he l hl)
  refine ⟨fun e => QueryList.parse_eq_error_iff, fun e h => ?_, fun hread => ?_⟩
  · exact ⟨h.isFatal.1, h.isFatal.2, Node.parse_of_unreadable h settings⟩
  · cases hsource : Source.read text with
    | error e => exact absurd (Source.read_eq_error_iff.mp hsource) (hread e)
    | ok source =>
      have horder := Source.inOrder_of_read hsource
      refine ⟨source, _, _, _, rfl, QueryList.parse_eq hsource, rfl, rfl, rfl, ?_, ?_, ?_, ?_⟩
      · intro hnil
        rw [List.map_eq_nil_iff] at hnil
        exact Grammar.members_queryList_ne_nil (by rw [Grammar.queryList_eq, hnil]; rfl)
      · exact Grammar.countP_isNone_eq_length settings _
      · intro e he
        obtain ⟨us, hus, he⟩ := Grammar.mem_failures.mp he
        have hpart := (Grammar.mem_memberLexemes hus).2
        exact hlinks e (Grammar.harmless_of_query (horder.sublist hpart.sublist) e he)
      · exact fun entry e he => hlinks e (Node.harmless_of_parse hsource settings entry e he)

/-- No entry point reads `print; :`. Of `print, :` the first member is read. -/
theorem Node.parse_fatal_semicolon :
    let e : ParseError := .single .semicolon ⟨5, 5⟩
    (Source.Unreadable "print; :" e ∧ e.isFatal ∧
      ∀ entry, Node.parse {} entry "print; :" = .error e) ∧
    (∀ e, ¬ Source.Unreadable "print, :" e) ∧
      QueryList.parse {} "print, :" = .ok (⟨[some ⟨none, .print, none⟩, none]⟩,
        [.single .expectParenOrTypeOrModifier ⟨7, 7⟩]) := by
  intro e
  have hfails : Grammar.failure? (Source.read "print; :") = some e := by decide +kernel
  have hunreadable := Source.read_eq_error_iff.mp (Grammar.failure?_eq_some.mp hfails)
  obtain ⟨-, hfatal, hentries⟩ := (Node.parse_fatal {} "print; :").2.1 e hunreadable
  let ts : List Lexeme := [⟨.ident "print", ⟨0, 4⟩, false⟩, ⟨.comma, ⟨5, 5⟩, false⟩,
    ⟨.colon, ⟨7, 7⟩, true⟩]
  have hread : (Source.read "print, :").toOption.map Source.lexemes = some ts := by decide +kernel
  obtain ⟨⟨_, eof⟩, hsource, rfl⟩ := Option.map_eq_some_iff.mp hread
  have hreadable : ∀ e, ¬ Source.Unreadable "print, :" e := by
    intro e he
    rw [Source.read_eq_error_iff.mpr he] at hsource
    cases hsource
  obtain ⟨_, ⟨members⟩, errors, results, hsource', hlist, hresults, hmembers, herrors, -⟩ :=
    (Node.parse_fatal {} "print, :").2.2 hreadable
  cases (eq_ok_of_toOption hsource).symm.trans hsource'
  have heach : Grammar.memberLexemes ts = [ts.take 1, ts.drop 2] := by decide
  have hresults : results = [.ok ⟨none, .print, none⟩,
      .error (.single .expectParenOrTypeOrModifier ⟨7, 7⟩)] := by
    rw [hresults, Grammar.members_eq, heach]
    rfl
  subst hresults herrors
  refine ⟨⟨hunreadable, hfatal, hentries⟩, hreadable, ?_⟩
  rw [hlist, show members = _ from hmembers]
  rfl

end CssMedia
