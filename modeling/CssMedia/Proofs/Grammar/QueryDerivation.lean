import CssMedia.Proofs.Grammar.Derivation
import CssMedia.Proofs.Grammar.Steps

/-!
# Derivations of queries

A query is a condition, or a media type with a modifier before it and a condition with no `or`
of its own behind it. The lexemes determine which of the two, and every word's part in it, and
`query` gives the tree that the derivation says.
-/

namespace CssMedia.Grammar

/-- A modifier and its word. -/
structure ModifierWord where
  modifier : Modifier
  word : Lexeme
  hword : word.kind = .ident modifier.name

/-- The word of a media type, which a device may have or none has. -/
inductive TypeWord where
  | known (type : MediaType) (word : Lexeme) (hword : word.kind = .ident type.name)
  | never (name : String) (word : Lexeme) (hname : name ∈ MediaType.neverMatching)
    (hword : word.kind = .ident name)

/-- What is behind a media type: nothing, or the word `and` and a negation or a run of `and`. -/
inductive TailDerivation (eof : Nat) where
  | nothing
  | negation (conjunction word : Lexeme) (x : OperandDerivation eof)
    (hconjunction : conjunction.kind = .ident "and") (hword : word.kind = .ident "not")
  | run (conjunction : Lexeme) (xs : RunDerivation eof .and)
    (hconjunction : conjunction.kind = .ident "and")

inductive QueryDerivation (eof : Nat) where
  | condition (d : ConditionDerivation eof)
  | typed (before : Option ModifierWord) (type : TypeWord) (tail : TailDerivation eof)

variable {eof : Nat}

/-! ## What a derivation derives, and what it says -/

/-- A run is a condition, and one operand is that operand. -/
def RunDerivation.toCondition : RunDerivation eof .and → ConditionDerivation eof
  | .one x => .only x
  | .more x word rest hword => .run .and x word rest rfl hword

namespace TypeWord

def word : TypeWord → Lexeme
  | .known _ word _ | .never _ word _ _ => word

def mediaType : TypeWord → MediaType
  | .known type _ _ => type
  | .never .. => .all

/-- A type that no device has is read as `not all`, and its negation as `all`. -/
def read (modifier : Option Modifier) : TypeWord → Option Modifier
  | .known .. => modifier
  | .never .. =>
    match modifier with
    | none | some .only => some .not
    | some .not => none

end TypeWord

namespace TailDerivation

def lexemes : TailDerivation eof → List Lexeme
  | .nothing => []
  | .negation conjunction word x _ _ => conjunction :: word :: x.lexemes
  | .run conjunction xs _ => conjunction :: xs.lexemes

def tree : TailDerivation eof → Option Condition
  | .nothing => none
  | .negation _ _ x _ _ => some (.negation x.tree)
  | .run _ xs _ => some xs.toCondition.tree

end TailDerivation

namespace QueryDerivation

def lexemes : QueryDerivation eof → List Lexeme
  | .condition d => d.lexemes
  | .typed before type tail => (before.map (·.word)).toList ++ type.word :: tail.lexemes

def tree : QueryDerivation eof → Query
  | .condition d => ⟨none, .all, some d.tree⟩
  | .typed before type tail => ⟨type.read (before.map (·.modifier)), type.mediaType, tail.tree⟩

end QueryDerivation

/-! ## Derivations and forms -/

theorem RunDerivation.lexemes_toCondition (xs : RunDerivation eof .and) :
    xs.toCondition.lexemes = xs.lexemes := by
  cases xs <;> rfl

theorem RunDerivation.operator_toCondition (xs : RunDerivation eof .and) :
    xs.toCondition.tree.operator ≠ some .or := by
  cases xs <;> nofun

theorem read_never (modifier : Option Modifier) {name : String} {word : Lexeme}
    (hname : name ∈ MediaType.neverMatching) (hword : word.kind = .ident name) :
    (TypeWord.never name word hname hword).read modifier =
      if modifier = some .not then none else some .not := by
  rcases modifier with _ | _ | _ <;> rfl

theorem TypeWord.form (t : TypeWord) (modifier : Option Modifier) :
    ∃ name, t.word.kind = .ident name ∧ TypeForm modifier name (t.read modifier) t.mediaType := by
  cases t with
  | known type word hword => exact ⟨type.name, hword, .known⟩
  | never name word hname hword =>
    refine ⟨name, hword, ?_⟩
    rw [read_never]
    exact .never hname

theorem TypeForm.exists_word {modifier read : Option Modifier} {name : String} {type : MediaType}
    (h : TypeForm modifier name read type) {word : Lexeme} (hword : word.kind = .ident name) :
    ∃ t : TypeWord, t.word = word ∧ t.read modifier = read ∧ t.mediaType = type := by
  cases h with
  | known => exact ⟨.known type word hword, rfl, rfl, rfl⟩
  | never hname => exact ⟨.never name word hname hword, rfl, read_never modifier hname hword, rfl⟩

theorem TailDerivation.form (d : TailDerivation eof) : AfterForm d.lexemes d.tree := by
  cases d with
  | nothing => exact .nothing
  | negation conjunction word x hconjunction hword =>
    exact .condition hconjunction (.negation hword x.form) nofun
  | run conjunction xs hconjunction =>
    have hform := xs.toCondition.form
    rw [xs.lexemes_toCondition] at hform
    exact .condition hconjunction hform xs.operator_toCondition

theorem AfterForm.exists_derivation (eof : Nat) {ts : List Lexeme} {c : Option Condition}
    (h : AfterForm ts c) : ∃ d : TailDerivation eof, d.lexemes = ts ∧ d.tree = c := by
  cases h with
  | nothing => exact ⟨.nothing, rfl, rfl⟩
  | @condition conjunction _ c hconjunction h hor =>
    obtain ⟨d, rfl, htree⟩ := h.exists_derivation eof
    obtain rfl : d.tree = c := htree
    cases d with
    | negation word x hword => exact ⟨.negation conjunction word x hconjunction hword, rfl, rfl⟩
    | only x => exact ⟨.run conjunction (.one x) hconjunction, rfl, rfl⟩
    | run op x word rest hop hword =>
      cases op with
      | and => exact ⟨.run conjunction (.more x word rest hword) hconjunction, rfl, rfl⟩
      | or => exact absurd rfl hor
      | not => cases hop

theorem QueryDerivation.form (d : QueryDerivation eof) : QueryForm d.lexemes d.tree := by
  cases d with
  | condition d => exact .condition d.form
  | typed before type tail =>
    obtain ⟨name, hword, htype⟩ := type.form (before.map (·.modifier))
    rcases before with _ | ⟨m, word, hm⟩
    · exact .typed .none hword htype tail.form
    · exact .typed (.some hm) hword htype tail.form

theorem QueryForm.exists_derivation (eof : Nat) {ts : List Lexeme} {q : Query}
    (h : QueryForm ts q) : ∃ d : QueryDerivation eof, d.lexemes = ts ∧ d.tree = q := by
  cases h with
  | condition h =>
    obtain ⟨d, rfl, htree⟩ := h.exists_derivation eof
    exact ⟨.condition d, rfl, by rw [QueryDerivation.tree, htree]⟩
  | typed hbefore hword htype hrest =>
    obtain ⟨t, rfl, rfl, rfl⟩ := htype.exists_word hword
    obtain ⟨tail, rfl, rfl⟩ := hrest.exists_derivation eof
    cases hbefore with
    | none => exact ⟨.typed none t tail, rfl, rfl⟩
    | @some word m hm => exact ⟨.typed (some ⟨m, word, hm⟩) t tail, rfl, rfl⟩

theorem query_eq_ok_iff_exists {ts : List Lexeme} {q : Query} :
    query eof none ts = .ok q ↔ ∃ d : QueryDerivation eof, d.lexemes = ts ∧ d.tree = q := by
  rw [query_iff]
  constructor
  · rintro ⟨hform, -⟩
    exact hform.exists_derivation eof
  · rintro ⟨d, rfl, rfl⟩
    exact ⟨d.form, fun _ _ => nofun⟩

/-! ## The lexemes determine the derivation -/

theorem ModifierWord.eq_of_word {m n : ModifierWord} (h : m.word = n.word) : m = n := by
  obtain ⟨m, word, hm⟩ := m
  obtain ⟨n, _, hn⟩ := n
  cases h
  have hname : m.name = n.name := TokenKind.ident.inj (hm.symm.trans hn)
  have hsame : m = n := by
    cases m <;> cases n <;> first | rfl | exact absurd hname (by decide)
  cases hsame
  rfl

theorem mediaType_eq_of_name {type other : MediaType} (h : type.name = other.name) :
    type = other :=
  Option.some.inj ((mediaType_ofName?.mpr rfl).symm.trans (mediaType_ofName?.mpr h))

theorem ne_name_of_neverMatching {name : String} (h : name ∈ MediaType.neverMatching)
    (type : MediaType) : name ≠ type.name := by
  intro heq
  have hnone := ofName?_neverMatching h
  rw [mediaType_ofName?.mpr heq] at hnone
  cases hnone

theorem TypeWord.eq_of_word {t u : TypeWord} (h : t.word = u.word) : t = u := by
  have hname : ∀ {name other : String}, t.word.kind = .ident name → u.word.kind = .ident other →
      name = other := by
    intro name other ht hu
    rw [h, hu] at ht
    exact (TokenKind.ident.inj ht).symm
  cases t with
  | known type word hword =>
    cases u with
    | known other _ hother =>
      cases h
      obtain rfl := mediaType_eq_of_name (hname hword hother)
      rfl
    | never name _ hnever hother =>
      exact absurd (hname hword hother).symm (ne_name_of_neverMatching hnever type)
  | never name word hnever hword =>
    cases u with
    | known type _ hother => exact absurd (hname hword hother) (ne_name_of_neverMatching hnever type)
    | never other _ _ hother =>
      cases h
      obtain rfl := hname hword hother
      rfl

theorem OperandDerivation.lexemes_injective {x y : OperandDerivation eof}
    (h : x.lexemes = y.lexemes) : x = y := by
  have hsame : ConditionDerivation.only x = .only y := ConditionDerivation.lexemes_injective h
  injection hsame

theorem RunDerivation.lexemes_injective {xs ys : RunDerivation eof .and}
    (h : xs.lexemes = ys.lexemes) : xs = ys := by
  have hsame : xs.toCondition = ys.toCondition := by
    apply ConditionDerivation.lexemes_injective
    rw [xs.lexemes_toCondition, ys.lexemes_toCondition, h]
  cases xs <;> cases ys <;> cases hsame <;> rfl

theorem RunDerivation.not_negated {xs : RunDerivation eof .and} {word : Lexeme} {ts : List Lexeme}
    (hword : word.kind = .ident "not") : xs.lexemes ≠ word :: ts := by
  obtain ⟨first, rest, hstart, hfirst⟩ := xs.form.starts
  rw [hstart]
  intro heq
  obtain ⟨rfl, -⟩ := List.cons.inj heq
  rw [hword] at hfirst
  cases hfirst

theorem TailDerivation.lexemes_injective {d e : TailDerivation eof} (h : d.lexemes = e.lexemes) :
    d = e := by
  cases d with
  | nothing => cases e <;> first | rfl | cases h
  | negation conjunction word x _ hword =>
    cases e with
    | nothing => cases h
    | negation conjunction' word' y =>
      obtain ⟨rfl, htail⟩ := List.cons.inj h
      obtain ⟨rfl, hx⟩ := List.cons.inj htail
      obtain rfl := OperandDerivation.lexemes_injective hx
      rfl
    | run conjunction' ys => exact absurd (List.cons.inj h).2.symm (ys.not_negated hword)
  | run conjunction xs =>
    cases e with
    | nothing => cases h
    | negation conjunction' word' y _ hword => exact absurd (List.cons.inj h).2 (xs.not_negated hword)
    | run conjunction' ys =>
      obtain ⟨rfl, hxs⟩ := List.cons.inj h
      obtain rfl := RunDerivation.lexemes_injective hxs
      rfl

theorem ConditionDerivation.starts (d : ConditionDerivation eof) : StartsCondition d.lexemes := by
  obtain ⟨first, rest, heq, hfirst | ⟨hfirst, next, more, rfl, hnext⟩⟩ := d.form.starts
  · rw [heq]
    exact .paren hfirst
  · rw [heq]
    exact .negated hfirst hnext

theorem TypeWord.word_ne {t : TypeWord} (m : ModifierWord) : t.word ≠ m.word := by
  obtain ⟨name, hword, htype⟩ := t.form none
  intro heq
  rw [heq, m.hword] at hword
  exact htype.ne_modifier m.modifier (TokenKind.ident.inj hword).symm

theorem startsCondition_cons {first : Lexeme} {rest : List Lexeme} :
    StartsCondition (first :: rest) ↔ first.kind = .openParen ∨
      first.kind = .ident "not" ∧ ∃ next more, rest = next :: more ∧ next.kind = .openParen := by
  constructor
  · rintro (hfirst | ⟨hnot, hnext⟩)
    · exact .inl hfirst
    · exact .inr ⟨hnot, _, _, rfl, hnext⟩
  · rintro (hfirst | ⟨hnot, next, more, rfl, hnext⟩)
    · exact .paren hfirst
    · exact .negated hnot hnext

theorem QueryDerivation.not_startsCondition (before : Option ModifierWord) (type : TypeWord)
    (tail : TailDerivation eof) : ¬ StartsCondition (typed before type tail).lexemes := by
  obtain ⟨name, hword, htype⟩ := type.form none
  rcases before with _ | m
  · rintro h
    rcases startsCondition_cons.mp h with hfirst | ⟨hnot, -⟩
    · rw [hword] at hfirst
      cases hfirst
    · rw [hword] at hnot
      exact htype.ne_modifier .not (TokenKind.ident.inj hnot)
  · rintro h
    rcases startsCondition_cons.mp h with hfirst | ⟨-, next, more, heq, hnext⟩
    · rw [m.hword] at hfirst
      cases hfirst
    · obtain ⟨rfl, -⟩ := List.cons.inj heq
      rw [hword] at hnext
      cases hnext

theorem QueryDerivation.typed_injective {before other : Option ModifierWord} {t u : TypeWord}
    {d e : TailDerivation eof} (h : (typed before t d).lexemes = (typed other u e).lexemes) :
    typed before t d = typed other u e := by
  have hrest : ∀ {ts us}, t.word :: ts = u.word :: us → t = u ∧ ts = us := by
    intro ts us heq
    exact ⟨TypeWord.eq_of_word (List.cons.inj heq).1, (List.cons.inj heq).2⟩
  rcases before with _ | m <;> rcases other with _ | n
  · obtain ⟨rfl, htail⟩ := hrest h
    rw [TailDerivation.lexemes_injective htail]
  · exact absurd (List.cons.inj h).1 (t.word_ne n)
  · exact absurd (List.cons.inj h).1.symm (u.word_ne m)
  · obtain ⟨hword, htyped⟩ := List.cons.inj h
    obtain rfl := ModifierWord.eq_of_word hword
    obtain ⟨rfl, htail⟩ := hrest htyped
    rw [TailDerivation.lexemes_injective htail]

theorem QueryDerivation.lexemes_injective {d e : QueryDerivation eof}
    (h : d.lexemes = e.lexemes) : d = e := by
  cases d with
  | condition d =>
    cases e with
    | condition e => exact congrArg condition (ConditionDerivation.lexemes_injective h)
    | typed before type tail =>
      exact absurd (h ▸ d.starts) (not_startsCondition before type tail)
  | typed before type tail =>
    cases e with
    | condition e => exact absurd (h ▸ e.starts) (not_startsCondition before type tail)
    | typed => exact typed_injective h

/-! ## Queries and their derivations -/

/-- Without a limit exactly what has a derivation is read, as the tree of the one derivation it
has. It is a condition if a parenthesis comes first, or comes next behind `not`, and otherwise
has a media type. -/
theorem query_derivations (eof : Nat) (ts : List Lexeme) :
    (∀ q, query eof none ts = .ok q ↔
      ∃ d : QueryDerivation eof, d.lexemes = ts ∧ d.tree = q) ∧
    (∀ d e : QueryDerivation eof, d.lexemes = ts → e.lexemes = ts → d = e) ∧
    ∀ d : QueryDerivation eof, d.lexemes = ts → ((∃ c, d = .condition c) ↔ StartsCondition ts) := by
  refine ⟨fun q => query_eq_ok_iff_exists, ?_, ?_⟩
  · intro d e hd he
    exact QueryDerivation.lexemes_injective (hd.trans he.symm)
  · rintro d rfl
    cases d with
    | condition c => exact ⟨fun _ => c.starts, fun _ => ⟨c, rfl⟩⟩
    | typed before type tail =>
      constructor
      · rintro ⟨c, hc⟩
        cases hc
      · intro h
        exact absurd h (QueryDerivation.not_startsCondition before type tail)

/-- In `not tv and not (a)` the first `not` is a modifier and the second is not. -/
theorem query_derivations_not_tv :
    let ts : List Lexeme := [⟨.ident "not", ⟨0, 2⟩, false⟩, ⟨.ident "tv", ⟨4, 5⟩, true⟩,
      ⟨.ident "and", ⟨7, 9⟩, true⟩, ⟨.ident "not", ⟨11, 13⟩, true⟩,
      ⟨.openParen, ⟨15, 15⟩, true⟩, ⟨.ident "a", ⟨16, 16⟩, false⟩, ⟨.closeParen, ⟨17, 17⟩, false⟩]
    query 18 none ts = .ok ⟨none, .all, some (.negation (.feature (.boolean "a")))⟩ ∧
      ∃ d : QueryDerivation 18, d.lexemes = ts ∧ (∀ e : QueryDerivation 18, e.lexemes = ts → e = d) ∧
        ¬ StartsCondition ts := by
  intro ts
  have ha : feature 18 [⟨.openParen, ⟨15, 15⟩, true⟩, ⟨.ident "a", ⟨16, 16⟩, false⟩,
      ⟨.closeParen, ⟨17, 17⟩, false⟩] = .ok (.boolean "a") :=
    feature_iff.mpr ⟨_, [_], _, rfl, rfl, rfl, .boolean rfl⟩
  let tail : TailDerivation 18 :=
    .negation ⟨.ident "and", ⟨7, 9⟩, true⟩ ⟨.ident "not", ⟨11, 13⟩, true⟩ (.feature _ _ ha) rfl rfl
  let d : QueryDerivation 18 :=
    .typed (some ⟨.not, ⟨.ident "not", ⟨0, 2⟩, false⟩, rfl⟩)
      (.never "tv" ⟨.ident "tv", ⟨4, 5⟩, true⟩ (by decide) rfl) tail
  have hlexemes : d.lexemes = ts := rfl
  obtain ⟨hderived, hunique, hstarts⟩ := query_derivations 18 ts
  refine ⟨(hderived _).mpr ⟨d, hlexemes, rfl⟩, d, hlexemes, fun e he => hunique e d he hlexemes, ?_⟩
  intro h
  obtain ⟨c, hc⟩ := (hstarts d hlexemes).mpr h
  simp [d] at hc

end CssMedia.Grammar
