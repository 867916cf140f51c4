import CssMedia.Proofs.Lexer.Clean
import CssMedia.Proofs.Lexer.Pieces

/-!
# Texts of features

The text of a well-formed feature is lexed to the form of that feature.
-/

namespace CssMedia

open Lexer (Spells IsOne Joined Stops lexemesFrom)
open Grammar (ValueForm ComparisonForm FeatureForm NameForm Unsplit InParens)

/-! ## Names -/

theorem readBack_folded {c : Char} (h : c.isUpper = false ∧ c ≠ '\x00') :
    (Lexer.readBack c).toLower = c := by
  rw [Lexer.readBack_of_ne_null h.2, CodePoint.toLower_of_not_isUpper h.1]

theorem IsFolded.lowercase_readBack {name : String} (h : IsFolded name) :
    Lexer.lowercase (name.toList.map Lexer.readBack) = name := by
  have hchars : (name.toList.map Lexer.readBack).map Char.toLower = name.toList := by
    rw [List.map_map]
    calc name.toList.map (Char.toLower ∘ Lexer.readBack)
      _ = name.toList.map id := List.map_congr_left fun c hc => readBack_folded (h.folded c hc)
      _ = name.toList := List.map_id _
  unfold Lexer.lowercase
  rw [hchars, String.ofList_toList]

theorem spells_name {name : String} (h : IsFolded name) :
    Spells (Text.name name.toList) (IsOne (.ident name)) := by
  have hspells := (Lexer.writesName_name h.nonempty).spells
  rwa [h.lowercase_readBack] at hspells

theorem spells_word {word : String} (h : IsFolded word)
    (htext : Text.name word.toList = word.toList) :
    Spells word.toList (IsOne (.ident word)) := by
  have hspells := spells_name h
  rwa [htext] at hspells

theorem toList_extremum (e : Extremum) (name : String) :
    (e.name ++ "-" ++ name).toList = e.chars ++ name.toList := by
  simp [Extremum.chars]

theorem isFolded_extremum (e : Extremum) {name : String} (h : IsFolded name) :
    IsFolded (e.name ++ "-" ++ name) := by
  have hchars : ∀ c ∈ e.chars, c.isUpper = false ∧ c ≠ '\x00' := by
    have hall : e.chars.all fun c => !c.isUpper && c != '\x00' := by cases e <;> rfl
    simpa using hall
  constructor
  · rw [toList_extremum]
    exact List.append_ne_nil_of_right_ne_nil _ h.nonempty
  · rw [toList_extremum]
    exact List.forall_mem_append.mpr ⟨hchars, h.folded⟩

theorem spells_extremum (e : Extremum) {name : String} (h : IsFolded name) :
    Spells (e.chars ++ Text.name name.toList) (IsOne (.ident (e.name ++ "-" ++ name))) := by
  have hraw : e.chars.map Lexer.readBack = e.chars := by cases e <;> rfl
  have hspells := (Lexer.writesName_extremum e name.toList).spells
  have hname := (isFolded_extremum e h).lowercase_readBack
  rw [toList_extremum, List.map_append, hraw] at hname
  rwa [hname] at hspells

/-! ## Values -/

theorem spells_ratio {n d : Binary64} (hn : n.IsProper ∧ n.isPositive)
    (hd : d.IsProper ∧ d.isPositive) :
    Spells (n.text.toList ++ '/' :: d.text.toList) (ValueForm · (.ratio n d)) := by
  obtain ⟨a, ha, hatext, havalue, -⟩ := Binary64.exists_numeral_text hn.1
  obtain ⟨b, hb, hbtext, hbvalue, -⟩ := Binary64.exists_numeral_text hd.1
  have hslash : Spells ('/' :: d.text.toList)
      (Joined (IsOne (.delim '/')) (IsOne (.number d b.flag))) := by
    rw [hbtext, ← hbvalue]
    refine (Lexer.spells_number hb).cons rfl ?_ (fun _ _ => rfl) rfl
    intro _ rest _ heq
    obtain ⟨tail, htail⟩ := List.head?_eq_some_iff.mp heq
    have hstarts := hb.startsNumber rest
    rw [htail] at hstarts
    exact absurd hstarts (by simp [CodePoint.startsNumber, CodePoint.startsUnsigned])
  have hfirst : Spells n.text.toList (IsOne (.number n a.flag)) := by
    rw [hatext, ← havalue]
    exact Lexer.spells_number ha
  apply (hfirst.append hslash rfl).mono
  rintro _ ⟨_, _, ⟨t, ht, rfl⟩, ⟨_, _, ⟨s, hs, rfl⟩, ⟨u, hu, rfl⟩, rfl⟩, rfl⟩
  exact .ratio ht hn.2 hs hu hd.2

theorem Value.spells {v : Value} (h : v.WellFormed) : Spells v.chars (ValueForm · v) := by
  cases v with
  | number v flag =>
    obtain ⟨n, hn, htext, hvalue, hflag⟩ := NumberFlag.exists_numeral_write h.1 h.2
    rw [Value.chars, htext, ← hvalue, ← hflag]
    apply (Lexer.spells_number hn).mono
    rintro _ ⟨t, ht, rfl⟩
    exact .number ht
  | dimension v unit flag =>
    obtain ⟨hv, hunit, rfl⟩ := h
    obtain ⟨n, hn, htext, hvalue, -⟩ := Binary64.exists_numeral_text hv
    rw [Value.chars, htext, ← hvalue]
    apply (Lexer.spells_dimension hn hunit.nonempty).mono
    rintro _ ⟨t, ht, rfl⟩
    rw [hunit.lowercase_readBack] at ht
    exact .dimension ht
  | ratio n d => exact spells_ratio h.1 h.2
  | ident name =>
    apply (spells_name h).mono
    rintro _ ⟨t, ht, rfl⟩
    exact .ident ht

/-! ## Comparisons -/

theorem spells_delim {c : Char} (hvisible : CodePoint.isControl c = false) (hslash : c ≠ '/')
    (hnext : ∀ rest, Stops rest → Lexer.nextToken c rest = (some (.delim c), 1)) :
    Spells [c] (IsOne (.delim c)) :=
  .one (by simpa using hvisible) (fun rest hrest => .single hslash (hnext rest hrest)) rfl

theorem spells_delim_equal {c : Char} (hvisible : CodePoint.isControl c = false) (hslash : c ≠ '/')
    (hnext : ∀ rest, Lexer.nextToken c ('=' :: rest) = (some (.delim c), 1)) :
    Spells [c, '='] fun ts => ∃ t e : Lexeme, t.kind = .delim c ∧ e.kind = .delim '=' ∧
      e.afterSpace = false ∧ ts = [t, e] where
  visible := by simpa using ⟨hvisible, rfl⟩
  reads start space rest _ := by
    refine ⟨[⟨.delim c, ⟨start, start⟩, space⟩, ⟨.delim '=', ⟨start + 1, start + 1⟩, false⟩],
      ⟨_, _, rfl, rfl, rfl, rfl⟩, ?_⟩
    have hequal : Lexer.nextToken '=' rest = (some (.delim '='), 1) := rfl
    rw [List.cons_append, List.cons_append, List.nil_append,
      Lexer.lexemesFrom_cons (fun h => absurd h hslash) (hnext rest) rfl, List.drop_zero,
      Lexer.lexemesFrom_cons (fun h => absurd h (by simp)) hequal rfl, List.drop_zero]
    exact Lexer.Spells.map_append [_] [_] _

theorem Comparison.spells (c : Comparison) : Spells c.text.toList (ComparisonForm · c) := by
  have hless : ∀ rest, Stops rest → Lexer.nextToken '<' rest = (some (.delim '<'), 1) := by
    intro rest hrest
    cases rest with
    | nil => rfl
    | cons d rest =>
      rcases Lexer.isStop_cases hrest with rfl | rfl | rfl | rfl | rfl | rfl | rfl <;> rfl
  cases c with
  | less =>
    apply (spells_delim rfl (by simp) hless).mono
    rintro _ ⟨t, ht, rfl⟩
    exact .less ht
  | greater =>
    apply (spells_delim rfl (by decide) fun _ _ => rfl).mono
    rintro _ ⟨t, ht, rfl⟩
    exact .greater ht
  | equal =>
    apply (spells_delim rfl (by decide) fun _ _ => rfl).mono
    rintro _ ⟨t, ht, rfl⟩
    exact .equal ht
  | lessOrEqual =>
    apply (spells_delim_equal rfl (by decide) fun _ => rfl).mono
    rintro _ ⟨t, e, ht, he, hspace, rfl⟩
    exact .lessOrEqual ht he hspace
  | greaterOrEqual =>
    apply (spells_delim_equal rfl (by decide) fun _ => rfl).mono
    rintro _ ⟨t, e, ht, he, hspace, rfl⟩
    exact .greaterOrEqual ht he hspace

/-! ## Features -/

theorem Bound.spells_left {b : Bound} (hb : b.WellFormed) {back : List Lexeme → Prop}
    {s : List Char} (hs : Spells s back) :
    Spells (b.leftChars ++ s) fun ts => ∃ vs cs us, ValueForm vs b.value ∧
      ComparisonForm cs b.comparison ∧ back us ∧ ts = vs ++ (cs ++ us) := by
  have htext : b.leftChars ++ s =
      b.value.chars ++ ' ' :: (b.comparison.text.toList ++ ' ' :: s) := by
    simp [leftChars]
  rw [htext]
  apply ((Value.spells hb.1).append (b.comparison.spells.append hs.blank rfl).blank rfl).mono
  rintro _ ⟨vs, _, hvs, ⟨cs, us, hcs, hus, rfl⟩, rfl⟩
  exact ⟨vs, cs, us, hvs, hcs, hus, rfl⟩

theorem Bound.spells_right {b : Bound} (hb : b.WellFormed) :
    Spells b.rightChars fun ts => ∃ cs vs, ComparisonForm cs b.comparison ∧
      ValueForm vs b.value ∧ ts = cs ++ vs := by
  have htext : b.rightChars = ' ' :: (b.comparison.text.toList ++ ' ' :: b.value.chars) := by
    simp [rightChars]
  rw [htext]
  apply (b.comparison.spells.append (Value.spells hb.1).blank rfl).blank.mono
  rintro _ ⟨cs, vs, hcs, hvs, rfl⟩
  exact ⟨cs, vs, hcs, hvs, rfl⟩

theorem exists_spells_prefixed {name : String} {extremum : Option Extremum} (h : IsFolded name)
    (hunsplit : extremum = none → Unsplit name) :
    ∃ full, NameForm full extremum name ∧
      Spells (extremum.elim [] Extremum.chars ++ Text.name name.toList) (IsOne (.ident full)) := by
  cases extremum with
  | none => exact ⟨name, .whole (hunsplit rfl), spells_name h⟩
  | some e =>
    have hrest : name ≠ "" := by simpa using h.nonempty
    exact ⟨_, .split hrest, spells_extremum e h⟩

theorem spells_plain {name : String} {extremum : Option Extremum} {v : Value}
    (h : (Feature.plain name extremum v).WellFormed) :
    Spells (Feature.plain name extremum v).interior (FeatureForm · (.plain name extremum v)) := by
  obtain ⟨hname, hv, hsplit⟩ := h
  obtain ⟨full, hfull, hspells⟩ := exists_spells_prefixed hname hsplit
  have hvalue : Spells (": ".toList ++ v.chars) (Joined (IsOne .colon) (ValueForm · v)) :=
    (Value.spells hv).blank.colon
  rw [Feature.interior, List.append_assoc]
  apply (hspells.append hvalue rfl).mono
  rintro _ ⟨_, _, ⟨t, ht, rfl⟩, ⟨_, vs, ⟨colon, hcolon, rfl⟩, hvs, rfl⟩, rfl⟩
  exact .plain ht hfull hcolon hvs

theorem Feature.spells_interior {f : Feature} (h : f.WellFormed) :
    Spells f.interior (FeatureForm · f) := by
  match f, h with
  | .boolean name, h =>
    apply (spells_name h).mono
    rintro _ ⟨t, ht, rfl⟩
    exact .boolean ht
  | .plain name extremum v, h => exact spells_plain h
  | .range name none none, ⟨_, h⟩ => exact absurd h.bounded (by simp)
  | .range name none (some b), ⟨hname, h⟩ =>
    have hb := h.rightBound b rfl
    apply ((spells_name hname).append (Bound.spells_right hb) rfl).mono
    rintro _ ⟨_, _, ⟨t, ht, rfl⟩, ⟨cs, vs, hcs, hvs, rfl⟩, rfl⟩
    rw [List.singleton_append]
    exact .right ht (h.noWord rfl) hcs hvs hb.2
  | .range name (some b) none, ⟨hname, h⟩ =>
    have hb := h.leftBound b rfl
    have htext : (Feature.range name (some b) none).interior =
        b.leftChars ++ Text.name name.toList := by simp [interior]
    rw [htext]
    apply (Bound.spells_left hb (spells_name hname)).mono
    rintro _ ⟨vs, cs, _, hvs, hcs, ⟨t, ht, rfl⟩, rfl⟩
    exact .left hvs hb.2 hcs ht
  | .range name (some b) (some c), ⟨hname, h⟩ =>
    have hb := h.leftBound b rfl
    have hc := h.rightBound c rfl
    have htext : (Feature.range name (some b) (some c)).interior =
        b.leftChars ++ (Text.name name.toList ++ c.rightChars) := by simp [interior]
    have hrest := (spells_name hname).append (Bound.spells_right hc) rfl
    rw [htext]
    apply (Bound.spells_left hb hrest).mono
    rintro _ ⟨vs, cs, _, hvs, hcs, ⟨_, _, ⟨t, ht, rfl⟩, ⟨ds, ws, hds, hws, rfl⟩, rfl⟩, rfl⟩
    rw [List.singleton_append]
    exact .both hvs hb.2 hcs ht hds hws hc.2 (h.sameWay b c rfl rfl)

theorem Lexer.Spells.parens {s : List Char} {inner : List Lexeme → Prop} (h : Spells s inner) :
    Spells ('(' :: (s ++ [')'])) (InParens inner) := by
  apply (h.append .closeParen rfl).openParen.mono
  rintro _ ⟨_, _, ⟨first, hfirst, rfl⟩, ⟨interior, _, hinner, ⟨close, hclose, rfl⟩, rfl⟩, rfl⟩
  exact ⟨first, interior, close, rfl, hfirst, hclose, hinner⟩

end CssMedia
