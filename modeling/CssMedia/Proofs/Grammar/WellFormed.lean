import CssMedia.Proofs.Grammar.QueryForm
import CssMedia.Proofs.Lexer.Clean

/-!
# What is read is well-formed

Every form over clean lexemes is that of a well-formed tree, so every entry point gives one.
-/

namespace CssMedia

open Operand (AllShaped featuresAll maxDepth)

namespace Grammar

/-- The feature is read of some of the lexemes. -/
def FeatureIn (ts : List Lexeme) (f : Feature) : Prop := ∃ us, us ⊆ ts ∧ FeatureForm us f

theorem FeatureIn.mono {us ts : List Lexeme} {f : Feature} (h : FeatureIn us f) (hus : us ⊆ ts) :
    FeatureIn ts f := by
  obtain ⟨vs, hvs, hform⟩ := h
  exact ⟨vs, List.Subset.trans hvs hus, hform⟩

theorem FeatureIn.wellFormed {ts : List Lexeme} {f : Feature} (h : FeatureIn ts f)
    (hclean : AllClean ts) : f.WellFormed := by
  obtain ⟨us, hus, hform⟩ := h
  exact hform.wellFormed fun t ht => hclean t (hus ht)

theorem subset_interior (first close : Lexeme) (interior : List Lexeme) :
    interior ⊆ first :: (interior ++ [close]) :=
  fun _ ht => List.mem_cons_of_mem _ (List.mem_append_left _ ht)

mutual

theorem OperandForm.shape : ∀ {ts : List Lexeme} {x : Operand}, OperandForm ts x →
    x.IsShaped ∧ ∀ f ∈ x.features, FeatureIn ts f
  | _, _, @OperandForm.feature first close interior _ _ _ h => by
    refine ⟨trivial, fun g hg => ?_⟩
    rw [List.mem_singleton.mp hg]
    exact ⟨interior, subset_interior first close interior, h⟩
  | _, _, @OperandForm.group first close interior _ _ _ _ h => by
    obtain ⟨htakes, hshaped, hfeatures⟩ := h.shape
    exact ⟨⟨htakes, hshaped⟩, fun f hf => (hfeatures f hf).mono (subset_interior first close interior)⟩

theorem ConditionForm.shape : ∀ {ts : List Lexeme} {operator : Option Operator}
    {xs : List Operand}, ConditionForm ts operator xs →
      Operator.Takes operator xs.length ∧ AllShaped xs ∧ ∀ f ∈ featuresAll xs, FeatureIn ts f
  | _, _, _, .negation _ h => by
    obtain ⟨hshaped, hfeatures⟩ := h.shape
    refine ⟨rfl, ⟨hshaped, trivial⟩, fun f hf => ?_⟩
    exact (hfeatures f (by simpa using hf)).mono (List.subset_cons_self _ _)
  | _, _, _, .only h => by
    obtain ⟨hshaped, hfeatures⟩ := h.shape
    exact ⟨rfl, ⟨hshaped, trivial⟩, by simpa using hfeatures⟩
  | _, _, _, @ConditionForm.run op _ xs hop h hmany => by
    have htakes : Operator.Takes (some op) xs.length := by
      cases op with
      | and | or => exact hmany
      | not => cases hop
    exact ⟨htakes, h.shape⟩

theorem RunForm.shape : ∀ {op : Operator} {ts : List Lexeme} {xs : List Operand},
    RunForm op ts xs → AllShaped xs ∧ ∀ f ∈ featuresAll xs, FeatureIn ts f
  | _, _, _, .one h => by
    obtain ⟨hshaped, hfeatures⟩ := h.shape
    exact ⟨⟨hshaped, trivial⟩, by simpa using hfeatures⟩
  | _, _, _, @RunForm.more _ word ts rest _ _ h _ hrest => by
    obtain ⟨hshaped, hfeatures⟩ := h.shape
    obtain ⟨hshapes, hfeatured⟩ := hrest.shape
    refine ⟨⟨hshaped, hshapes⟩, List.forall_mem_append.mpr ⟨fun f hf => ?_, fun f hf => ?_⟩⟩
    · exact (hfeatures f hf).mono (List.subset_append_left _ _)
    · have hrest : rest ⊆ ts ++ word :: rest :=
        List.subset_append_of_subset_right _ (List.subset_cons_self _ _)
      exact (hfeatured f hf).mono hrest

end

theorem condition_wellFormed {ts : List Lexeme} {c : Condition}
    (h : ConditionForm ts c.operator c.operands) (hclean : AllClean ts) : c.WellFormed := by
  obtain ⟨htakes, hshaped, hfeatures⟩ := h.shape
  exact ⟨⟨htakes, hshaped⟩, fun f hf => (hfeatures f hf).wellFormed hclean⟩

theorem QueryForm.wellFormed {ts : List Lexeme} {q : Query} (h : QueryForm ts q)
    (hclean : AllClean ts) : q.WellFormed ∧ q.RootFits := by
  cases h with
  | condition h =>
    refine ⟨?_, .inl ⟨rfl, rfl⟩⟩
    rintro _ ⟨⟩
    exact condition_wellFormed h hclean
  | typed hbefore hword htype hrest =>
    cases hrest with
    | nothing => exact ⟨nofun, .inr nofun⟩
    | condition hand h hor =>
      have hafter := (AllClean.cons.mp (AllClean.cons.mp (AllClean.append.mp hclean).2).2).2
      refine ⟨?_, .inr ?_⟩
      · rintro _ ⟨⟩
        exact condition_wellFormed h hafter
      · rintro _ ⟨⟩
        exact hor

theorem subset_of_mem_segments {ts us : List Lexeme} (hus : us ∈ segments ts) : us ⊆ ts := by
  rw [segments] at hus
  split at hus
  · exact List.mem_singleton.mp hus ▸ List.Subset.refl _
  · next before comma after hcut =>
    have hts := eq_of_cutAtComma hcut
    rw [hts]
    rcases List.mem_cons.mp hus with rfl | hus
    · exact List.subset_append_left _ _
    · have hafter : after ⊆ before ++ comma :: after :=
        List.subset_append_of_subset_right _ (List.subset_cons_self _ _)
      exact List.Subset.trans (subset_of_mem_segments hus) hafter
termination_by ts.length
decreasing_by
  simp only [hts, List.length_append, List.length_cons]
  omega

end Grammar

/-! ## Texts -/

open Grammar (Allows AllowsIn QueryForm)

theorem Feature.featureIn_of_parse {text : String} {f : Feature} (h : Feature.parse text = .ok f) :
    ∃ source, Source.read text = .ok source ∧ Grammar.FeatureIn source.lexemes f := by
  obtain ⟨source, hsource, hf⟩ := exists_of_bind_eq_ok h
  obtain ⟨first, interior, close, hts, -, -, hform⟩ := Grammar.feature_iff.mp hf
  exact ⟨source, hsource, interior, hts ▸ Grammar.subset_interior first close interior, hform⟩

theorem Feature.parse_wellFormed {text : String} {f : Feature} (h : Feature.parse text = .ok f) :
    f.WellFormed := by
  obtain ⟨source, hsource, hf⟩ := Feature.featureIn_of_parse h
  exact hf.wellFormed (Lexer.allClean_read hsource)

theorem Condition.form_of_parse {settings : Settings} {text : String} {c : Condition}
    (h : Condition.parse settings text = .ok c) :
    ∃ (source : Source) (d : Condition), Source.read text = .ok source ∧
      Grammar.ConditionForm source.lexemes d.operator d.operands ∧ Allows settings.levels d.depth ∧
      c = if settings.simplify then d.simplify else d := by
  obtain ⟨source, hsource, h⟩ := exists_of_bind_eq_ok h
  obtain ⟨d, hd, h⟩ := exists_of_bind_eq_ok h
  obtain ⟨hform, hdepth, -⟩ := Grammar.condition_iff.mp hd
  exact ⟨source, d, hsource, hform, hdepth, (Except.ok.inj h).symm⟩

theorem Condition.exists_of_parse {settings : Settings} {text : String} {c : Condition}
    (h : Condition.parse settings text = .ok c) :
    ∃ d : Condition, d.WellFormed ∧ Allows settings.levels d.depth ∧
      c = if settings.simplify then d.simplify else d := by
  obtain ⟨source, d, hsource, hform, hdepth, hc⟩ := Condition.form_of_parse h
  exact ⟨d, Grammar.condition_wellFormed hform (Lexer.allClean_read hsource), hdepth, hc⟩

/-- What is read of some lexemes, before it is simplified. -/
structure Query.ReadOf (levels : Option Nat) (ts : List Lexeme) (q : Query) : Prop where
  form : QueryForm ts q
  wellFormed : q.WellFormed
  rootFits : q.RootFits
  depth : AllowsIn levels q.condition

theorem Query.exists_of_parse {settings : Settings} {text : String} {q : Query}
    (h : Query.parse settings text = .ok q) :
    ∃ source r, Source.read text = .ok source ∧ Query.ReadOf settings.levels source.lexemes r ∧
      q = if settings.simplify then r.simplify else r := by
  obtain ⟨source, hsource, h⟩ := exists_of_bind_eq_ok h
  obtain ⟨r, hr, h⟩ := exists_of_bind_eq_ok h
  obtain ⟨hform, hdepth⟩ := Grammar.singleQuery_iff.mp hr
  obtain ⟨hwell, hfits⟩ := hform.wellFormed (Lexer.allClean_read hsource)
  exact ⟨source, r, hsource, ⟨hform, hwell, hfits, hdepth⟩, (Except.ok.inj h).symm⟩

theorem QueryList.exists_of_parse {settings : Settings} {text : String} {l : QueryList}
    {errors : List ParseError} (h : QueryList.parse settings text = .ok (l, errors)) :
    ∃ source r, Source.read text = .ok source ∧ r.members ≠ [] ∧
      (∀ q, some q ∈ r.members → q = .all ∨
        ∃ ts ∈ Grammar.segments source.lexemes, Query.ReadOf settings.levels ts q) ∧
      l = if settings.simplify then r.simplify else r := by
  obtain ⟨source, hsource, h⟩ := exists_of_bind_eq_ok h
  refine ⟨source, _, hsource, Grammar.members_queryList_ne_nil, ?_,
    (congrArg Prod.fst (Except.ok.inj h)).symm⟩
  intro q hq
  rcases Grammar.mem_queryList hq with rfl | ⟨ts, hts, hform, hdepth⟩
  · exact .inl rfl
  · have hclean : Grammar.AllClean ts := fun t ht =>
      Lexer.allClean_read hsource t (Grammar.subset_of_mem_segments hts ht)
    obtain ⟨hwell, hfits⟩ := hform.wellFormed hclean
    exact .inr ⟨ts, hts, hform, hwell, hfits, hdepth⟩

end CssMedia
