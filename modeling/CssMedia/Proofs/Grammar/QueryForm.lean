import CssMedia.Grammar.Query
import CssMedia.Proofs.Grammar.ConditionForm
import Mathlib.Data.List.Forall2

/-!
# The grammar of queries

A query is a condition, or a media type with what may stand before and after it. `query`
reads exactly these, and a list the queries between its commas.
-/

namespace CssMedia.Grammar

inductive ModifierForm : List Lexeme → Option Modifier → Prop where
  | none : ModifierForm [] none
  | some {t : Lexeme} {m : Modifier} (ht : t.kind = .ident m.name) : ModifierForm [t] (some m)

/-- What a name stands for as a media type after a modifier. -/
inductive TypeForm : Option Modifier → String → Option Modifier → MediaType → Prop where
  | known {modifier : Option Modifier} {type : MediaType} :
    TypeForm modifier type.name modifier type
  | never {modifier : Option Modifier} {name : String} (h : name ∈ MediaType.neverMatching) :
    TypeForm modifier name (if modifier = some .not then none else some .not) .all

inductive AfterForm : List Lexeme → Option Condition → Prop where
  | nothing : AfterForm [] none
  | condition {word : Lexeme} {ts : List Lexeme} {c : Condition} (hword : word.kind = .ident "and")
    (h : ConditionForm ts c.operator c.operands) (hor : c.operator ≠ some .or) :
    AfterForm (word :: ts) (some c)

inductive QueryForm : List Lexeme → Query → Prop where
  | condition {ts : List Lexeme} {c : Condition} (h : ConditionForm ts c.operator c.operands) :
    QueryForm ts ⟨none, .all, some c⟩
  | typed {before rest : List Lexeme} {word : Lexeme} {name : String}
    {modifier read : Option Modifier} {type : MediaType} {c : Option Condition}
    (hbefore : ModifierForm before modifier) (hword : word.kind = .ident name)
    (htype : TypeForm modifier name read type) (hrest : AfterForm rest c) :
    QueryForm (before ++ word :: rest) ⟨read, type, c⟩

/-- The levels are enough for the condition of a query, if there is one. -/
def AllowsIn (levels : Option Nat) (c : Option Condition) : Prop :=
  ∀ d, c = some d → Allows levels d.depth

@[simp] theorem allowsIn_none (levels : Option Nat) : AllowsIn levels none := fun _ h => by cases h

@[simp] theorem allowsIn_some {levels : Option Nat} {c : Condition} :
    AllowsIn levels (some c) ↔ Allows levels c.depth := by
  simp [AllowsIn]

instance (levels : Option Nat) (c : Option Condition) : Decidable (AllowsIn levels c) :=
  match c with
  | none => .isTrue (allowsIn_none levels)
  | some c => decidable_of_iff (Allows levels c.depth) allowsIn_some.symm

/-! ## Media types -/

theorem mediaType_ofName? {name : String} {type : MediaType} :
    MediaType.ofName? name = some type ↔ name = type.name := by
  constructor
  · intro h
    unfold MediaType.ofName? at h
    split at h <;> cases h <;> rfl
  · rintro rfl
    cases type <;> rfl

theorem ofName?_neverMatching {name : String} (h : name ∈ MediaType.neverMatching) :
    MediaType.ofName? name = none := by
  simp only [MediaType.neverMatching, List.mem_cons, List.not_mem_nil, or_false] at h
  rcases h with rfl | rfl | rfl | rfl | rfl | rfl | rfl | rfl <;> rfl

theorem mediaType_iff {modifier read : Option Modifier} {t : Lexeme} {type : MediaType} :
    mediaType modifier t = .ok (read, type) ↔
      ∃ name, t.kind = .ident name ∧ TypeForm modifier name read type := by
  constructor
  · intro h
    unfold mediaType at h
    split at h
    · simp at h
    next name hname =>
    refine ⟨name, ident?_eq_some.mp hname, ?_⟩
    split at h
    · next type' htype =>
      cases h
      rw [mediaType_ofName?.mp htype]
      exact .known
    · split at h
      · next hnever =>
        cases h
        exact .never (List.contains_iff_mem.mp hnever)
      · simp at h
  · rintro ⟨name, hname, htype⟩
    unfold mediaType
    rw [ident?_eq_some.mpr hname]
    cases htype with
    | known => simp only [mediaType_ofName?.mpr rfl]
    | never h => simp only [ofName?_neverMatching h, List.contains_iff_mem.mpr h, if_true]

theorem TypeForm.ne_modifier {modifier read : Option Modifier} {name : String} {type : MediaType}
    (h : TypeForm modifier name read type) (m : Modifier) : name ≠ m.name := by
  intro heq
  cases h with
  | known => cases type <;> cases m <;> exact absurd heq (by decide)
  | never h => subst heq; cases m <;> exact absurd h (by decide)

theorem modifier?_iff {t : Lexeme} {m : Modifier} : modifier? t = some m ↔ t.kind = .ident m.name := by
  constructor
  · intro h
    unfold modifier? at h
    split at h
    · next hnot => cases h; exact beq_iff_eq.mp hnot
    split at h
    · next honly => cases h; exact beq_iff_eq.mp honly
    · simp at h
  · intro h
    cases m <;> simp [modifier?, Lexeme.isIdent, h, Modifier.name]

/-! ## After a media type -/

theorem afterType_iff {eof : Nat} {levels : Option Nat} {ts : List Lexeme} {c : Option Condition} :
    afterType eof levels ts = .ok c ↔ AfterForm ts c ∧ AllowsIn levels c := by
  constructor
  · intro h
    cases ts with
    | nil => cases h; exact ⟨.nothing, allowsIn_none levels⟩
    | cons t ts =>
      rw [afterType] at h
      split at h
      · simp at h
      next hword =>
      split at h
      · simp at h
      split at h
      · simp at h
      next d hd =>
      cases h
      obtain ⟨hform, hdepth, hor⟩ := condition_iff.mp hd
      have hand : t.kind = .ident "and" := by simpa [Lexeme.isIdent] using hword
      exact ⟨.condition hand hform fun h => absurd (hor h) (by simp), allowsIn_some.mpr hdepth⟩
  · rintro ⟨hform, hdepth⟩
    cases hform with
    | nothing => rfl
    | condition hword h hor =>
      have hne := h.ne_nil
      rw [afterType, if_neg (by simp [Lexeme.isIdent, hword]), if_neg hne,
        condition_iff.mpr ⟨h, allowsIn_some.mp hdepth, fun heq => absurd heq hor⟩]

/-! ## Queries -/

theorem conditionQuery_iff {eof : Nat} {levels : Option Nat} {ts : List Lexeme} {q : Query} :
    conditionQuery eof levels ts = .ok q ↔
      ∃ c, q = ⟨none, .all, some c⟩ ∧ ConditionForm ts c.operator c.operands ∧
        Allows levels c.depth := by
  constructor
  · intro h
    unfold conditionQuery at h
    split at h
    · simp at h
    next c hc =>
    cases h
    obtain ⟨hform, hdepth, -⟩ := condition_iff.mp hc
    exact ⟨c, rfl, hform, hdepth⟩
  · rintro ⟨c, rfl, hform, hdepth⟩
    unfold conditionQuery
    rw [condition_iff.mpr ⟨hform, hdepth, fun _ => rfl⟩]

theorem typed_iff {eof : Nat} {levels : Option Nat} {modifier : Option Modifier} {t : Lexeme}
    {rest : List Lexeme} {q : Query} :
    typed eof levels modifier t rest = .ok q ↔
      ∃ name, t.kind = .ident name ∧ TypeForm modifier name q.modifier q.mediaType ∧
        AfterForm rest q.condition ∧ AllowsIn levels q.condition := by
  constructor
  · intro h
    unfold typed at h
    obtain ⟨⟨read, type⟩, htype, h⟩ := exists_of_bind_eq_ok h
    obtain ⟨c, hc, h⟩ := exists_of_bind_eq_ok h
    cases h
    obtain ⟨name, hname, hform⟩ := mediaType_iff.mp htype
    exact ⟨name, hname, hform, afterType_iff.mp hc⟩
  · rintro ⟨name, hname, htype, hafter⟩
    unfold typed
    rw [mediaType_iff.mpr ⟨name, hname, htype⟩]
    simp only [bind, Except.bind, afterType_iff.mpr hafter, pure, Except.pure]

theorem query_openParen {eof : Nat} {levels : Option Nat} {first : Lexeme} {rest : List Lexeme}
    (hfirst : first.kind = .openParen) :
    query eof levels (first :: rest) = conditionQuery eof levels (first :: rest) := by
  unfold query
  exact if_pos hfirst

theorem query_not_openParen {eof : Nat} {levels : Option Nat} {first next : Lexeme}
    {after : List Lexeme} (hfirst : first.kind = .ident "not") (hnext : next.kind = .openParen) :
    query eof levels (first :: next :: after) = conditionQuery eof levels (first :: next :: after) := by
  have hmodifier : modifier? first = some .not := modifier?_iff.mpr hfirst
  unfold query
  simp [hfirst, Lexeme.ident?, hmodifier, hnext]

theorem query_modifier {eof : Nat} {levels : Option Nat} {first next : Lexeme}
    {after : List Lexeme} {m : Modifier} {name : String} (hfirst : first.kind = .ident m.name)
    (hnext : next.kind = .ident name) :
    query eof levels (first :: next :: after) = typed eof levels (some m) next after := by
  unfold query
  simp [hfirst, Lexeme.ident?, modifier?_iff.mpr hfirst, hnext]

theorem query_type {eof : Nat} {levels : Option Nat} {first : Lexeme} {rest : List Lexeme}
    {name : String} (hfirst : first.kind = .ident name) (hname : ∀ m : Modifier, name ≠ m.name) :
    query eof levels (first :: rest) = typed eof levels none first rest := by
  have hmodifier : modifier? first = none := by
    rw [Option.eq_none_iff_forall_ne_some]
    intro m hm
    rw [modifier?_iff, hfirst] at hm
    exact hname m (TokenKind.ident.inj hm)
  unfold query
  simp [hfirst, Lexeme.ident?, hmodifier]

theorem QueryForm.query_eq {eof : Nat} {levels : Option Nat} {ts : List Lexeme} {q : Query}
    (h : QueryForm ts q) (hdepth : AllowsIn levels q.condition) : query eof levels ts = .ok q := by
  cases h with
  | condition h =>
    have hread : conditionQuery eof levels ts = .ok _ :=
      conditionQuery_iff.mpr ⟨_, rfl, h, allowsIn_some.mp hdepth⟩
    obtain ⟨first, rest, rfl, hfirst | ⟨hfirst, next, more, rfl, hnext⟩⟩ := h.starts
    · rw [query_openParen hfirst, hread]
    · rw [query_not_openParen hfirst hnext, hread]
  | typed hbefore hword htype hrest =>
    have hread : Grammar.typed eof levels _ _ _ = .ok _ :=
      typed_iff.mpr ⟨_, hword, htype, hrest, hdepth⟩
    cases hbefore with
    | none => rw [List.nil_append, query_type hword htype.ne_modifier, hread]
    | some ht => rw [List.singleton_append, query_modifier ht hword, hread]

theorem query_sound {eof : Nat} {levels : Option Nat} {ts : List Lexeme} {q : Query}
    (h : query eof levels ts = .ok q) : QueryForm ts q ∧ AllowsIn levels q.condition := by
  have hcondition : ∀ {us}, conditionQuery eof levels us = .ok q →
      QueryForm us q ∧ AllowsIn levels q.condition := by
    intro us hus
    obtain ⟨c, rfl, hform, hdepth⟩ := conditionQuery_iff.mp hus
    exact ⟨.condition hform, allowsIn_some.mpr hdepth⟩
  have htyped : ∀ {before modifier t rest}, ModifierForm before modifier →
      typed eof levels modifier t rest = .ok q →
      QueryForm (before ++ t :: rest) q ∧ AllowsIn levels q.condition := by
    intro before modifier t rest hbefore ht
    obtain ⟨name, hname, htype, hafter, hdepth⟩ := typed_iff.mp ht
    exact ⟨.typed hbefore hname htype hafter, hdepth⟩
  cases ts with
  | nil => cases h
  | cons first rest =>
    unfold query at h
    simp only at h
    split at h
    · exact hcondition h
    split at h
    · simp at h
    split at h
    · exact htyped .none h
    · simp at h
    next m next after hmodifier =>
    split at h
    · exact hcondition h
    split at h
    · exact htyped (.some (modifier?_iff.mp hmodifier)) h
    · simp at h

theorem query_iff {eof : Nat} {levels : Option Nat} {ts : List Lexeme} {q : Query} :
    query eof levels ts = .ok q ↔ QueryForm ts q ∧ AllowsIn levels q.condition :=
  ⟨query_sound, fun ⟨hform, hdepth⟩ => hform.query_eq hdepth⟩

/-! ## Lists -/

theorem ModifierForm.balanced {ts : List Lexeme} {modifier : Option Modifier}
    (h : ModifierForm ts modifier) : Balanced ts := by
  cases h with
  | none => exact .nil
  | some ht => exact .ident ht .nil

theorem AfterForm.balanced {ts : List Lexeme} {c : Option Condition} (h : AfterForm ts c) :
    Balanced ts := by
  cases h with
  | nothing => exact .nil
  | condition hword h => exact .ident hword h.balanced

theorem QueryForm.balanced {ts : List Lexeme} {q : Query} (h : QueryForm ts q) : Balanced ts := by
  cases h with
  | condition h => exact h.balanced
  | typed hbefore hword htype hrest => exact .append hbefore.balanced (.ident hword hrest.balanced)

theorem QueryForm.ne_nil {ts : List Lexeme} {q : Query} (h : QueryForm ts q) : ts ≠ [] := by
  cases h with
  | condition h => exact h.ne_nil
  | typed => simp

def StartsWithParen (ts : List Lexeme) : Prop :=
  ∃ first rest, ts = first :: rest ∧ first.kind = .openParen

theorem QueryForm.starts_of_or {ts : List Lexeme} {q : Query} (h : QueryForm ts q) {c : Condition}
    (hc : q.condition = some c) (hor : c.operator = some .or) : StartsWithParen ts := by
  cases h with
  | condition h =>
    cases hc
    rw [hor] at h
    cases h with
    | run _ h => exact h.starts
  | typed _ _ _ hrest =>
    dsimp only at hc
    subst hc
    cases hrest with
    | condition _ _ hnot => exact absurd hor hnot

theorem singleQuery_iff {eof : Nat} {levels : Option Nat} {ts : List Lexeme} {q : Query} :
    singleQuery eof levels ts = .ok q ↔ QueryForm ts q ∧ AllowsIn levels q.condition := by
  constructor
  · intro h
    unfold singleQuery at h
    split at h
    · exact query_sound h
    · split at h <;> simp at h
  · rintro ⟨hform, hdepth⟩
    unfold singleQuery
    rw [hform.balanced.cutAtComma_eq_none]
    exact hform.query_eq hdepth

inductive ListForm : List Lexeme → List Query → Prop where
  | one {ts : List Lexeme} {q : Query} (h : QueryForm ts q) : ListForm ts [q]
  | more {ts rest : List Lexeme} {comma : Lexeme} {q : Query} {qs : List Query} (h : QueryForm ts q)
    (hcomma : comma.kind = .comma) (hrest : ListForm rest qs) :
    ListForm (ts ++ comma :: rest) (q :: qs)

theorem segments_balanced {ts : List Lexeme} (h : Balanced ts) : segments ts = [ts] := by
  rw [segments]
  split
  · rfl
  · next heq =>
    simp [h.cutAtComma_eq_none] at heq

theorem segments_comma {ts rest : List Lexeme} {comma : Lexeme} (h : Balanced ts)
    (hcomma : comma.kind = .comma) : segments (ts ++ comma :: rest) = ts :: segments rest := by
  rw [segments]
  split
  · next heq =>
    simp [h.cutAtComma hcomma] at heq
  · next heq =>
    rw [h.cutAtComma hcomma] at heq
    cases heq
    rfl

theorem ListForm.segments {ts : List Lexeme} {qs : List Query} (h : ListForm ts qs) :
    List.Forall₂ QueryForm (Grammar.segments ts) qs := by
  induction h with
  | one h =>
    rw [segments_balanced h.balanced]
    exact .cons h .nil
  | more h hcomma hrest ih =>
    rw [segments_comma h.balanced hcomma]
    exact .cons h ih

theorem map_query_eq {eof : Nat} {levels : Option Nat} {segments : List (List Lexeme)}
    {qs : List Query} (h : List.Forall₂ QueryForm segments qs)
    (hdepth : ∀ q ∈ qs, AllowsIn levels q.condition) :
    segments.map (query eof levels) = qs.map .ok := by
  induction h with
  | nil => rfl
  | cons hq _ ih =>
    rw [List.map_cons, List.map_cons, hq.query_eq (hdepth _ (List.mem_cons_self ..)),
      ih fun q hq => hdepth q (List.mem_cons_of_mem _ hq)]

theorem ne_nil_of_forms {segments : List (List Lexeme)} {qs : List Query}
    (h : List.Forall₂ QueryForm segments qs) : ∀ ts ∈ segments, ts ≠ [] := by
  induction h with
  | nil => simp
  | cons hq _ ih => exact List.forall_mem_cons.mpr ⟨hq.ne_nil, ih⟩

theorem ListForm.ne_nil {ts : List Lexeme} {qs : List Query} (h : ListForm ts qs) : qs ≠ [] := by
  cases h <;> exact List.cons_ne_nil _ _

theorem members_of_form {eof : Nat} {levels : Option Nat} {ts : List Lexeme} {qs : List Query}
    (h : ListForm ts qs) (hdepth : ∀ q ∈ qs, AllowsIn levels q.condition) :
    members eof levels ts = qs.map .ok := by
  have hsegments := h.segments
  have hfilter : (segments ts).filter (· != []) = segments ts := by
    rw [List.filter_eq_self]
    intro us hus
    simpa using ne_nil_of_forms hsegments us hus
  unfold members
  rw [hfilter]
  split
  · next hnil =>
    rw [hnil] at hsegments
    cases hsegments
    exact absurd rfl h.ne_nil
  · exact map_query_eq hsegments hdepth

theorem queryList_of_form {eof : Nat} {levels : Option Nat} {ts : List Lexeme} {qs : List Query}
    (h : ListForm ts qs) (hdepth : ∀ q ∈ qs, AllowsIn levels q.condition) :
    queryList eof levels ts = (⟨qs.map some⟩, []) := by
  simp [queryList, members_of_form h hdepth, Except.toOption, Function.comp_def]

theorem members_queryList_ne_nil {eof : Nat} {levels : Option Nat} {ts : List Lexeme} :
    (queryList eof levels ts).1.members ≠ [] := by
  have hne : members eof levels ts ≠ [] := by
    unfold members
    split
    · exact List.cons_ne_nil _ _
    · next h => simpa using h
  simpa [queryList] using hne

theorem mem_queryList {eof : Nat} {levels : Option Nat} {ts : List Lexeme} {q : Query}
    (h : some q ∈ (queryList eof levels ts).1.members) :
    q = .all ∨ ∃ us ∈ segments ts, QueryForm us q ∧ AllowsIn levels q.condition := by
  obtain ⟨r, hr, hq⟩ := List.mem_map.mp h
  have hok : r = .ok q := by
    cases r with
    | error e => cases hq
    | ok q' => rw [Option.some.inj hq]
  rw [hok, members] at hr
  split at hr
  · rw [List.mem_singleton] at hr
    exact .inl (Except.ok.inj hr)
  · obtain ⟨us, hus, heq⟩ := List.mem_map.mp hr
    exact .inr ⟨us, (List.mem_filter.mp hus).1, query_sound heq⟩

end CssMedia.Grammar
