import CssMedia.Proofs.RoundTrip

/-!
# Trees as they are read

Without simplification the trees that are read are the well-formed ones: every tree that is
read is well-formed, and every well-formed tree is what its text is read as.
-/

namespace CssMedia

open Grammar (Allows AllowsIn StartsWithParen)

/-! ## Well-formed nodes -/

def Node.WellFormed : Node → Prop
  | .list l => l.members ≠ [] ∧ ∀ q, some q ∈ l.members → q.WellFormed ∧ q.RootFits
  | .query q => q.WellFormed ∧ q.RootFits
  | .condition c => c.WellFormed
  | .feature f => f.WellFormed
  | .value v => v.WellFormed

/-- The longest chain of nested conditions. -/
def Node.depth : Node → Nat
  | .list l => l.depth
  | .query q => q.depth
  | .condition c => c.depth
  | .feature _ | .value _ => 0

theorem Query.allows_depth {levels : Option Nat} {q : Query} :
    Allows levels q.depth ↔ AllowsIn levels q.condition := by
  unfold depth
  cases q.condition with
  | none => simp [Allows]
  | some c => simp

theorem QueryList.allows_depth {levels : Option Nat} {l : QueryList} :
    Allows levels l.depth ↔ ∀ q, some q ∈ l.members → Allows levels q.depth := by
  constructor
  · intro h q hq n hn
    exact QueryList.depth_le_iff.mp (h n hn) q hq
  · intro h n hn
    exact QueryList.depth_le_iff.mpr fun q hq => h q hq n hn

/-! ## Texts of well-formed nodes -/

theorem QueryList.parse_text {l : QueryList} {levels : Option Nat}
    (hne : l.members ≠ []) (h : ∀ q, some q ∈ l.members → q.WellFormed ∧ q.RootFits)
    (hdepth : Allows levels l.depth) :
    QueryList.parse ⟨false, levels⟩ l.text = .ok (⟨l.mended.map some⟩, []) := by
  have hwritten : ∀ q ∈ l.mended, q.written = q :=
    forall_mended rfl fun q hq => Query.written_eq (h q hq).2
  have hallows : ∀ q ∈ l.mended, AllowsIn levels q.written.condition := by
    -- No parentheses are added to such a query, so its text needs no more levels than it has.
    intro q hq
    rw [hwritten q hq]
    revert q
    exact forall_mended (Grammar.allowsIn_none levels) fun q hq =>
      Query.allows_depth.mp (QueryList.allows_depth.mp hdepth q hq)
  have hread : QueryList.parse ⟨false, levels⟩ (l.text ++ "") =
      .ok (⟨l.mended.map fun q => some q.written⟩, []) :=
    parse_listText hne (fun q hq => (h q hq).1) hallows (.inl rfl)
  rwa [String.append_empty, List.map_congr_left fun q hq => congrArg some (hwritten q hq)] at hread

theorem Query.WellFormed.parse_text {q : Query} {levels : Option Nat} (h : q.WellFormed)
    (hfits : q.RootFits) (hdepth : Allows levels q.depth) :
    Query.parse ⟨false, levels⟩ q.text = .ok q := by
  have hwritten := Query.written_eq hfits
  have hallows := Query.allows_depth.mp hdepth
  rw [← hwritten] at hallows
  have hread : Query.parse ⟨false, levels⟩ (q.text ++ "") = .ok q.written :=
    parse_queryText h hallows (.inl rfl)
  rwa [String.append_empty, hwritten] at hread

theorem Condition.WellFormed.parse_text {c : Condition} {levels : Option Nat}
    (h : c.WellFormed) (hdepth : Allows levels c.depth) :
    Condition.parse ⟨false, levels⟩ c.text = .ok c := by
  have hread : Condition.parse ⟨false, levels⟩ (c.text ++ "") = .ok c :=
    parse_conditionText h hdepth (.inl rfl)
  rwa [String.append_empty] at hread

theorem Feature.WellFormed.parse_text {f : Feature} (h : f.WellFormed) :
    Feature.parse f.text = .ok f := by
  have hread := parse_featureText h (.inl rfl)
  rwa [String.append_empty] at hread

/-- A well-formed tree is what its text is read as, within every limit that its depth is within. -/
theorem Node.parse_text_of_wellFormed {n : Node} {entry : EntryPoint} {levels : Option Nat}
    (h : n.WellFormed) (hentry : n.entryPoint? = some entry) (hdepth : Allows levels n.depth) :
    Node.parse ⟨false, levels⟩ entry n.text = .ok (n.mended, []) := by
  unfold parse
  match n, h, hentry with
  | .list l, ⟨hne, hmembers⟩, rfl =>
    rw [text, QueryList.parse_text hne hmembers hdepth]
    rfl
  | .query q, ⟨hwell, hfits⟩, rfl =>
    rw [text, Query.WellFormed.parse_text hwell hfits hdepth]
    rfl
  | .condition c, hwell, rfl =>
    rw [text, Condition.WellFormed.parse_text hwell hdepth]
    rfl
  | .feature f, hwell, rfl =>
    rw [text, Feature.WellFormed.parse_text hwell]
    rfl

/-- A name that begins with a digit and a unit that begins with an exponent are read back. -/
theorem Node.parse_text_of_wellFormed_escaped :
    let query : Query := ⟨some .only, .screen, some (.negation (.group (some .or)
      [.feature (.range "1a" (some ⟨.ident "infinite", .lessOrEqual⟩)
        (some ⟨.number .zero .integer, .less⟩)),
      .feature (.plain "min" (some .min) (.dimension .zero "e1" .number))]))⟩
    let n : Node := .list ⟨[none, some query]⟩
    n.WellFormed ∧ n.entryPoint? = some .list ∧ Allows (some 2) n.depth ∧
      n.text =
        "not all, only screen and not ((infinite <= \\31 a < 0) or (min-min: 0\\65 1))" ∧
      Node.parse ⟨false, some 2⟩ .list n.text = .ok (.list ⟨[some .never, some query]⟩, []) := by
  intro query n
  have hzero : Binary64.zero.IsProper := nofun
  have hwhole : Binary64.zero.isWhole := by decide +kernel
  have hinfinite : Bound.WellFormed ⟨.ident "infinite", .lessOrEqual⟩ :=
    ⟨isFolded_of_all (by decide) (by decide), fun _ h => (Value.ident.inj h).symm⟩
  have hrange : RangeWellFormed "1a" (some ⟨.ident "infinite", .lessOrEqual⟩)
      (some ⟨.number .zero .integer, .less⟩) := by
    refine ⟨.inl nofun, ?_, ?_, nofun, ?_⟩
    · rintro _ ⟨⟩
      exact hinfinite
    · rintro _ ⟨⟩
      exact ⟨⟨hzero, fun _ => hwhole⟩, nofun⟩
    · rintro _ _ ⟨⟩ ⟨⟩
      exact ⟨rfl, nofun⟩
  have hfeatures : ∀ f ∈ (query.condition.map Condition.features).getD [], f.WellFormed := by
    refine List.forall_mem_cons.mpr ⟨⟨isFolded_of_all (by decide) (by decide), hrange⟩, ?_⟩
    refine List.forall_mem_singleton.mpr ⟨isFolded_of_all (by decide) (by decide), ?_, nofun⟩
    exact ⟨hzero, isFolded_of_all (by decide) (by decide), rfl⟩
  have hquery : query.WellFormed := by
    rintro _ ⟨⟩
    exact ⟨⟨rfl, ⟨Nat.le_refl 2, trivial, trivial, trivial⟩, trivial⟩, hfeatures⟩
  have hn : n.WellFormed := by
    refine ⟨List.cons_ne_nil _ _, fun q hq => ?_⟩
    obtain rfl : q = query := by simpa using hq
    exact ⟨hquery, .inr (by rintro _ ⟨⟩; exact nofun)⟩
  have hdepth : Allows (some 2) n.depth := by decide
  exact ⟨hn, rfl, hdepth, by decide +kernel, Node.parse_text_of_wellFormed hn rfl hdepth⟩

/-! ## Nodes of texts -/

theorem Query.wellFormed_all : Query.all.WellFormed ∧ Query.all.RootFits :=
  ⟨nofun, .inr nofun⟩

/-- A root `or` was read with no media type before it. -/
def Query.OrAlone (q : Query) (ts : List Lexeme) : Prop :=
  ∀ c, q.condition = some c → c.operator = some .or → StartsWithParen ts

theorem Query.ReadOf.orAlone {levels : Option Nat} {ts : List Lexeme} {q : Query}
    (h : Query.ReadOf levels ts q) : q.OrAlone ts :=
  fun _ hc hor => h.form.starts_of_or hc hor

/-- The members of a list are read of its segments. Without a segment there is one, for every
device. -/
def Node.OrAlone (levels : Option Nat) (source : Source) : Node → Prop
  | .list l => ∀ q, some q ∈ l.members →
      (q = .all ∨
        ∃ ts ∈ Grammar.segments source.lexemes, Grammar.query source.eof levels ts = .ok q) ∧
      ∀ ts ∈ Grammar.segments source.lexemes, Grammar.query source.eof levels ts = .ok q →
        q.OrAlone ts
  | .query q => q.OrAlone source.lexemes
  | .condition _ | .feature _ | .value _ => True

theorem QueryList.parse_wellFormed {levels : Option Nat} {text : String} {l : QueryList}
    {errors : List ParseError} (h : QueryList.parse ⟨false, levels⟩ text = .ok (l, errors)) :
    (Node.list l).WellFormed ∧ Allows levels l.depth ∧
      ∃ source, Source.read text = .ok source ∧ (Node.list l).OrAlone levels source := by
  obtain ⟨source, l, hsource, hne, hmembers, rfl⟩ := QueryList.exists_of_parse h
  refine ⟨⟨hne, ?_⟩, ?_, source, hsource, ?_⟩
  · intro q hq
    rcases hmembers q hq with rfl | ⟨_, _, hread⟩
    · exact Query.wellFormed_all
    · exact ⟨hread.wellFormed, hread.rootFits⟩
  · refine QueryList.allows_depth.mpr fun q hq => Query.allows_depth.mpr ?_
    rcases hmembers q hq with rfl | ⟨_, _, hread⟩
    · exact Grammar.allowsIn_none levels
    · exact hread.depth
  · intro q hq
    refine ⟨?_, fun ts _ hts c hc hor => (Grammar.query_iff.mp hts).1.starts_of_or hc hor⟩
    rcases hmembers q hq with hall | ⟨ts, hts, hread⟩
    · exact .inl hall
    · exact .inr ⟨ts, hts, Grammar.query_iff.mpr ⟨hread.form, hread.depth⟩⟩

/-- Every node that is read is well-formed, and within the limit that it is read in. Beside a
media type no root `or` is read. -/
theorem Node.wellFormed_of_parse {entry : EntryPoint} {levels : Option Nat} {text : String}
    {n : Node} {errors : List ParseError}
    (h : Node.parse ⟨false, levels⟩ entry text = .ok (n, errors)) :
    n.WellFormed ∧ n.entryPoint? = some entry ∧ Allows levels n.depth ∧
      ∃ source, Source.read text = .ok source ∧ n.OrAlone levels source := by
  have hread := readBy_of_parse h
  have hentry := hread.entryPoint
  cases hread with
  | list hl =>
    obtain ⟨hwell, hdepth, hsource⟩ := QueryList.parse_wellFormed hl
    exact ⟨hwell, hentry, hdepth, hsource⟩
  | query hq =>
    obtain ⟨source, _, hsource, hread, rfl⟩ := Query.exists_of_parse hq
    exact ⟨⟨hread.wellFormed, hread.rootFits⟩, hentry, Query.allows_depth.mpr hread.depth, source,
      hsource, hread.orAlone⟩
  | condition hc =>
    obtain ⟨source, hsource, -⟩ := exists_of_bind_eq_ok hc
    obtain ⟨_, hwell, hdepth, rfl⟩ := Condition.exists_of_parse hc
    exact ⟨hwell, hentry, hdepth, source, hsource, trivial⟩
  | feature hf =>
    obtain ⟨source, hsource, -⟩ := exists_of_bind_eq_ok hf
    exact ⟨Feature.parse_wellFormed hf, hentry, fun _ _ => Nat.zero_le _, source, hsource, trivial⟩

/-- Upper case, an escape and the sign of a zero are gone from what is read. -/
theorem Node.wellFormed_of_parse_folded :
    let text := "only SCREEN and (\\41 < -0PX)"
    let query : Query := ⟨some .only, .screen,
      some (.only (.feature (.range "a" none (some ⟨.dimension .zero "px" .number, .less⟩))))⟩
    let n : Node := .query query
    Node.parse ⟨false, some 1⟩ .query text = .ok (n, []) ∧
      n.WellFormed ∧ n.entryPoint? = some .query ∧ Allows (some 1) n.depth ∧
      ∃ source, Source.read text = .ok source ∧ n.OrAlone (some 1) source := by
  intro text query n
  have hlexemes : (Source.read text).toOption.map Source.lexemes =
      some [⟨.ident "only", ⟨0, 3⟩, false⟩, ⟨.ident "screen", ⟨5, 10⟩, true⟩,
        ⟨.ident "and", ⟨12, 14⟩, true⟩, ⟨.openParen, ⟨16, 16⟩, true⟩,
        ⟨.ident "a", ⟨17, 20⟩, false⟩, ⟨.delim '<', ⟨21, 21⟩, false⟩,
        ⟨.dimension .zero "px" .number, ⟨23, 26⟩, true⟩, ⟨.closeParen, ⟨27, 27⟩, false⟩] := by
    decide +kernel
  obtain ⟨⟨ts, eof⟩, hsource, hts⟩ := Option.map_eq_some_iff.mp hlexemes
  have hform : Grammar.QueryForm ts query := by
    -- Reading a condition goes by the number of its lexemes and does not evaluate.
    rw [show ts = _ from hts]
    refine (?_ : Grammar.QueryForm ([_] ++ _ :: _ :: (_ :: [_, _, _] ++ [_])) _)
    have hscreen := @Grammar.TypeForm.known (some .only) .screen
    refine .typed (.some rfl) rfl hscreen (.condition rfl (.only (.feature rfl rfl ?_)) nofun)
    exact .right rfl (by decide) (.less rfl) (.dimension rfl) nofun
  have hquery : Grammar.singleQuery eof (some 1) ts = .ok query :=
    Grammar.singleQuery_iff.mpr ⟨hform, by decide⟩
  have hread : Query.parse ⟨false, some 1⟩ text = .ok query := by
    rw [Query.parse_eq (eq_ok_of_toOption hsource)]
    exact congrArg (Except.map _) hquery
  have hparse : Node.parse ⟨false, some 1⟩ .query text = .ok (n, []) := by
    unfold Node.parse
    rw [hread]
    rfl
  exact ⟨hparse, Node.wellFormed_of_parse hparse⟩

end CssMedia
