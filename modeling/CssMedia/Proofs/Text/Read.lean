import CssMedia.Proofs.EntryPoints
import CssMedia.Proofs.Lexer.Clean
import CssMedia.Proofs.Text.Query

/-!
# Texts read back

Every entry point reads the text of a well-formed tree as that tree, with a line break behind
it or without.
-/

namespace CssMedia

open Lexer (Spells lexemesFrom)
open Grammar (Allows AllowsIn)

/-! ## Lexemes -/

/-- The texts that a printed tree may be followed by at the end of an input. -/
def IsEnd (tail : String) : Prop := tail = "" ∨ tail = "\n"

theorem clean_append {s : List Char} (h : ∀ c ∈ s, CodePoint.isControl c = false)
    (rest : List Char) : Input.clean (s ++ rest) = s ++ Input.clean rest := by
  have hclean : Input.IsClean s := by
    intro c hc
    refine ⟨?_, ?_, ?_⟩ <;> rintro rfl <;> cases h _ hc
  have hbreak : ¬ Input.SplitsLineBreak s rest :=
    fun hs => (hclean _ (List.mem_of_getLast? hs.1)).1 rfl
  rw [Input.clean_append hbreak, hclean.clean_eq]

theorem read_of_spells {s : List Char} {lexemes : List Lexeme → Prop} (h : Spells s lexemes)
    {tail : String} (htail : IsEnd tail) :
    ∃ source, Source.read (String.ofList s ++ tail) = .ok source ∧ lexemes source.lexemes := by
  have hstops : Lexer.Stops tail.toList := by
    rcases htail with rfl | rfl <;> rfl
  have hend : ∀ start space, lexemesFrom start space tail.toList = .ok [] := by
    intro start space
    rcases htail with rfl | rfl
    · exact Lexer.lexemesFrom_nil start space
    · exact (Lexer.lexemesFrom_blank rfl [] start space).trans (Lexer.lexemesFrom_nil _ _)
  have hread : Input.read (String.ofList s ++ tail) = s ++ tail.toList := by
    unfold Input.read
    rw [String.toList_append, String.toList_ofList, clean_append h.visible]
    rcases htail with rfl | rfl <;> rfl
  obtain ⟨ts, hts, heq⟩ := h.reads 0 false tail.toList hstops
  refine ⟨⟨ts, (s ++ tail.toList).length⟩, ?_, hts⟩
  unfold Source.read
  rw [hread, Source.ofChars_eq, heq, hend]
  simp [Except.map]

/-! ## Trees -/

theorem parse_featureText {f : Feature} (h : f.WellFormed) {tail : String} (htail : IsEnd tail) :
    Feature.parse (f.text ++ tail) = .ok f := by
  obtain ⟨source, hread, hform⟩ := read_of_spells (Feature.spells_interior h).parens htail
  have hparse : Grammar.feature source.eof source.lexemes = .ok f := Grammar.feature_iff.mpr hform
  rw [Feature.text, Feature.chars, List.cons_append, Feature.parse_eq hread]
  exact hparse

theorem parse_conditionText {c : Condition} (h : c.WellFormed) {settings : Settings}
    (hdepth : Allows settings.levels c.depth) {tail : String} (htail : IsEnd tail) :
    Condition.parse settings (c.text ++ tail) =
      .ok (if settings.simplify then c.simplify else c) := by
  obtain ⟨source, hread, hform⟩ := read_of_spells (Condition.spells h) htail
  have hparse : Grammar.condition source.eof settings.levels true source.lexemes = .ok c :=
    Grammar.condition_iff.mpr ⟨hform, hdepth, fun _ => rfl⟩
  rw [Condition.text, Condition.parse_eq hread, hparse]
  rfl

theorem parse_queryText {q : Query} (h : q.WellFormed) {settings : Settings}
    (hdepth : AllowsIn settings.levels q.written.condition) {tail : String} (htail : IsEnd tail) :
    Query.parse settings (q.text ++ tail) =
      .ok (if settings.simplify then q.written.simplify else q.written) := by
  obtain ⟨source, hread, hform⟩ := read_of_spells (Query.spells h) htail
  have hparse : Grammar.singleQuery source.eof settings.levels source.lexemes = .ok q.written :=
    Grammar.singleQuery_iff.mpr ⟨hform, hdepth⟩
  rw [Query.text, Query.parse_eq hread, hparse]
  rfl

theorem parse_listText {l : QueryList} (hne : l.members ≠ [])
    (h : ∀ q, some q ∈ l.members → q.WellFormed) {settings : Settings}
    (hdepth : ∀ q ∈ l.mended, AllowsIn settings.levels q.written.condition) {tail : String}
    (htail : IsEnd tail) :
    QueryList.parse settings (l.text ++ tail) =
      .ok (if settings.simplify then QueryList.simplify ⟨l.mended.map fun q => some q.written⟩
        else ⟨l.mended.map fun q => some q.written⟩, []) := by
  obtain ⟨source, hread, hform⟩ := read_of_spells (QueryList.spells hne h) htail
  have hparse : Grammar.queryList source.eof settings.levels source.lexemes =
      (⟨l.mended.map fun q => some q.written⟩, []) := by
    rw [Grammar.queryList_of_form hform, List.map_map]
    · rfl
    · intro q hq
      obtain ⟨r, hr, rfl⟩ := List.mem_map.mp hq
      exact hdepth r hr
  unfold QueryList.parse
  rw [QueryList.text, hread]
  simp only [bind, Except.bind, hparse, pure, Except.pure]

end CssMedia
