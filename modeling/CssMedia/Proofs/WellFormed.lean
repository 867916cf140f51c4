import CssMedia.Proofs.Binary64.Text
import CssMedia.Proofs.Grammar.FeatureForm
import CssMedia.Proofs.Shape

/-!
# Well-formed trees

What every tree that was read satisfies, and what a tree must satisfy to be read back from
its text.
-/

namespace CssMedia

/-- A name as it is read: not empty, in lower case and without a null character. -/
structure IsFolded (name : String) : Prop where
  nonempty : name.toList ≠ []
  folded : ∀ c ∈ name.toList, c.isUpper = false ∧ c ≠ '\x00'

namespace TokenKind

/-- A name or a number that may stand for itself in a tree. -/
def IsClean : TokenKind → Prop
  | .ident name => IsFolded name
  | .number v flag => v.IsProper ∧ (flag = .integer → v.isWhole)
  | .dimension v unit flag => v.IsProper ∧ IsFolded unit ∧ flag = .number
  | _ => True

end TokenKind

def Value.WellFormed : Value → Prop
  | .number v flag => v.IsProper ∧ (flag = .integer → v.isWhole)
  | .dimension v unit flag => v.IsProper ∧ IsFolded unit ∧ flag = .number
  | .ratio n d => (n.IsProper ∧ n.isPositive) ∧ d.IsProper ∧ d.isPositive
  | .ident name => IsFolded name

def Bound.WellFormed (b : Bound) : Prop := b.value.WellFormed ∧ b.value.IsBound

/-- A range has an end, and it reads the word `infinite` as its left one. -/
structure RangeWellFormed (name : String) (left right : Option Bound) : Prop where
  bounded : left ≠ none ∨ right ≠ none
  leftBound : ∀ b, left = some b → b.WellFormed
  rightBound : ∀ b, right = some b → b.WellFormed
  noWord : left = none → name ≠ "infinite"
  sameWay : ∀ b c, left = some b → right = some c → Grammar.SameWay b.comparison c.comparison

/-- A name that was read whole could not be split. -/
def Feature.WellFormed : Feature → Prop
  | .boolean name => IsFolded name
  | .plain name extremum value => IsFolded name ∧ value.WellFormed ∧
      (extremum = none → Grammar.Unsplit name)
  | .range name left right => IsFolded name ∧ RangeWellFormed name left right

structure Condition.WellFormed (c : Condition) : Prop where
  shaped : c.IsShaped
  features : ∀ f ∈ c.features, f.WellFormed

def Query.WellFormed (q : Query) : Prop := ∀ c, q.condition = some c → c.WellFormed

/-- A root `or` stands alone: a modifier or a type beside it would need parentheses around it. -/
def Query.RootFits (q : Query) : Prop :=
  (q.modifier = none ∧ q.mediaType = .all) ∨ ∀ c, q.condition = some c → c.operator ≠ some .or

namespace Grammar

/-! ## What is read of clean lexemes -/

/-- Lexemes as the lexer gives them. -/
def AllClean (ts : List Lexeme) : Prop := ∀ t ∈ ts, t.kind.IsClean

theorem AllClean.append {us ts : List Lexeme} : AllClean (us ++ ts) ↔ AllClean us ∧ AllClean ts :=
  List.forall_mem_append

theorem AllClean.cons {t : Lexeme} {ts : List Lexeme} :
    AllClean (t :: ts) ↔ t.kind.IsClean ∧ AllClean ts :=
  List.forall_mem_cons

theorem isFolded_ident {t : Lexeme} {name : String} (ht : t.kind = .ident name)
    (h : t.kind.IsClean) : IsFolded name := by
  rw [ht] at h
  exact h

theorem ValueForm.wellFormed {vs : List Lexeme} {v : Value} (h : ValueForm vs v)
    (hclean : AllClean vs) : v.WellFormed := by
  cases h with
  | number ht | dimension ht | ident ht =>
    have := hclean _ (List.mem_singleton_self _)
    rw [ht] at this
    exact this
  | ratio ha hn hslash hb hd =>
    have hfirst := hclean _ (List.mem_cons_self ..)
    have hlast := hclean _ (List.mem_cons_of_mem _ (List.mem_cons_of_mem _ (List.mem_cons_self ..)))
    rw [ha] at hfirst
    rw [hb] at hlast
    exact ⟨⟨hfirst.1, hn⟩, hlast.1, hd⟩

theorem NameForm.isFolded {name rest : String} {extremum : Option Extremum}
    (h : NameForm name extremum rest) (hname : IsFolded name) : IsFolded rest := by
  cases h with
  | whole => exact hname
  | split hrest =>
    refine ⟨by simpa using hrest, fun c hc => hname.folded c ?_⟩
    simp [hc]

theorem NameForm.unsplit {name rest : String} (h : NameForm name none rest) : Unsplit rest := by
  cases h with
  | whole h => exact h

theorem FeatureForm.wellFormed {ts : List Lexeme} {f : Feature} (h : FeatureForm ts f)
    (hclean : AllClean ts) : f.WellFormed := by
  cases h with
  | boolean ht => exact isFolded_ident ht (AllClean.cons.mp hclean).1
  | plain ht hname hcolon hv =>
    obtain ⟨hword, -, hvs⟩ := by simpa only [AllClean.cons] using hclean
    refine ⟨hname.isFolded (isFolded_ident ht hword), hv.wellFormed hvs, ?_⟩
    rintro rfl
    exact hname.unsplit
  | right ht hne hc hv hbound =>
    obtain ⟨hname, -, hvs⟩ := by simpa only [AllClean.cons, AllClean.append] using hclean
    refine ⟨isFolded_ident ht hname, .inr (by simp), ?_, ?_, fun _ => hne, ?_⟩
    · simp
    · rintro b ⟨⟩
      exact ⟨hv.wellFormed hvs, hbound⟩
    · simp
  | left hv hbound hc ht =>
    obtain ⟨hvs, -, hname, -⟩ := by simpa only [AllClean.cons, AllClean.append] using hclean
    refine ⟨isFolded_ident ht hname, .inl (by simp), ?_, ?_, ?_, ?_⟩
    · rintro b ⟨⟩
      exact ⟨hv.wellFormed hvs, hbound⟩
    · simp
    · simp
    · simp
  | both hv hvbound hc ht hd hw hwbound hway =>
    obtain ⟨hvs, -, hname, -, hws⟩ := by simpa only [AllClean.cons, AllClean.append] using hclean
    refine ⟨isFolded_ident ht hname, .inl (by simp), ?_, ?_, ?_, ?_⟩
    · rintro b ⟨⟩
      exact ⟨hv.wellFormed hvs, hvbound⟩
    · rintro b ⟨⟩
      exact ⟨hw.wellFormed hws, hwbound⟩
    · simp
    · rintro b c ⟨⟩ ⟨⟩
      exact hway

end Grammar

end CssMedia
