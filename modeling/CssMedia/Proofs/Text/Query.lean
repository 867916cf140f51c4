import CssMedia.Proofs.Grammar.WellFormed
import CssMedia.Proofs.Text.Feature

/-!
# Texts of conditions, queries and lists

The text of a well-formed tree is lexed to the form of that tree. Only an `or` after a media
type is read in parentheses of its own.
-/

namespace CssMedia

open Lexer (Spells IsOne Joined)
open Grammar (FeatureForm OperandForm ConditionForm RunForm QueryForm ListForm)
open Operand (AllShaped featuresAll maxDepth run)

/-! ## Words -/

theorem isFolded_of_all {word : String} (hne : word.toList ≠ [])
    (h : word.toList.all fun c => !c.isUpper && c != '\x00') : IsFolded word := by
  refine ⟨hne, fun c hc => ?_⟩
  simpa using List.all_eq_true.mp h c hc

theorem wellFormed_map_boolean {names : List String} (hne : names.all fun name => name.toList ≠ [])
    (h : names.all fun name => name.toList.all fun c => !c.isUpper && c != '\x00') :
    ∀ f ∈ names.map Feature.boolean, f.WellFormed := by
  rw [List.forall_mem_map]
  intro name hname
  have hfilled := List.all_eq_true.mp hne name hname
  exact isFolded_of_all (of_decide_eq_true hfilled) (List.all_eq_true.mp h name hname)

theorem Operator.spells (op : Operator) : Spells op.name.toList (IsOne (.ident op.name)) := by
  cases op <;> exact spells_word (isFolded_of_all (by decide) (by decide)) rfl

theorem Modifier.spells (m : Modifier) : Spells m.name.toList (IsOne (.ident m.name)) := by
  cases m <;> exact spells_word (isFolded_of_all (by decide) (by decide)) rfl

theorem MediaType.spells (type : MediaType) :
    Spells type.name.toList (IsOne (.ident type.name)) := by
  cases type <;> exact spells_word (isFolded_of_all (by decide) (by decide)) rfl

/-! ## Conditions -/

theorem spells_run {op : Operator} (hop : op.isAssociative) : ∀ {xs : List Operand},
    (∀ x ∈ xs, Spells x.chars (OperandForm · x)) → xs ≠ [] →
      Spells (run (Text.separator (some op)) xs) (RunForm op · xs)
  | [], _, hne => absurd rfl hne
  | [x], h, _ => (h x (List.mem_singleton_self x)).mono fun _ => .one
  | x :: y :: rest, h, _ => by
    have hfirst := h x (List.mem_cons_self ..)
    have hrest := spells_run hop (fun z hz => h z (List.mem_cons_of_mem _ hz)) (List.cons_ne_nil y rest)
    have hword : Text.separator (some op) = ' ' :: (op.name.toList ++ [' ']) := by
      cases op with
      | and | or => rfl
      | not => cases hop
    have htext : run (Text.separator (some op)) (x :: y :: rest) =
        x.chars ++ ' ' :: (op.name.toList ++ ' ' :: run (Text.separator (some op)) (y :: rest)) := by
      rw [run, hword]
      · simp
      · simp
    rw [htext]
    apply (hfirst.append (op.spells.append hrest.blank rfl).blank rfl).mono
    rintro _ ⟨ts, _, hts, ⟨_, us, ⟨word, hword, rfl⟩, hus, rfl⟩, rfl⟩
    exact .more hts hword hus

theorem spells_condition {operator : Option Operator} {xs : List Operand}
    (h : ∀ x ∈ xs, Spells x.chars (OperandForm · x)) (htakes : Operator.Takes operator xs.length) :
    Spells (Text.opening operator ++ run (Text.separator operator) xs)
      (ConditionForm · operator xs) := by
  match operator, xs, htakes with
  | none, [x], _ => exact (h x (List.mem_singleton_self x)).mono fun _ => .only
  | some .not, [x], _ =>
    apply ((Operator.spells .not).append (h x (List.mem_singleton_self x)).blank rfl).mono
    rintro _ ⟨_, ts, ⟨word, hword, rfl⟩, hts, rfl⟩
    exact .negation hword hts
  | some .and, xs, htakes =>
    have hne : xs ≠ [] := List.ne_nil_of_length_pos htakes.pos
    exact (spells_run rfl h hne).mono fun _ hts => .run rfl hts htakes
  | some .or, xs, htakes =>
    have hne : xs ≠ [] := List.ne_nil_of_length_pos htakes.pos
    exact (spells_run rfl h hne).mono fun _ hts => .run rfl hts htakes

mutual

theorem Operand.spells : ∀ {x : Operand}, x.IsShaped → (∀ f ∈ x.features, f.WellFormed) →
    Spells x.chars (OperandForm · x)
  | .feature f, _, h => by
    apply (Feature.spells_interior (h f (List.mem_singleton_self f))).parens.mono
    rintro _ ⟨first, interior, close, rfl, hfirst, hclose, hinterior⟩
    exact .feature hfirst hclose hinterior
  | .group operator xs, hshaped, h => by
    apply (spells_condition (spells_all hshaped.2 h) hshaped.1).parens.mono
    rintro _ ⟨first, interior, close, rfl, hfirst, hclose, hinterior⟩
    exact .group hfirst hclose hinterior

theorem spells_all : ∀ {xs : List Operand}, AllShaped xs → (∀ f ∈ featuresAll xs, f.WellFormed) →
    ∀ x ∈ xs, Spells x.chars (OperandForm · x)
  | [], _, _ => fun _ hx => absurd hx List.not_mem_nil
  | x :: xs, hshaped, h => by
    obtain ⟨hx, hxs⟩ := List.forall_mem_append.mp h
    exact List.forall_mem_cons.mpr ⟨Operand.spells hshaped.1 hx, spells_all hshaped.2 hxs⟩

end

theorem Condition.spells {c : Condition} (h : c.WellFormed) :
    Spells c.chars (ConditionForm · c.operator c.operands) :=
  spells_condition (spells_all h.shaped.2 h.features) h.shaped.1

/-! ## Queries -/

/-- The condition that the text after a media type is: an `or` is one operand there. -/
def Condition.besideType (c : Condition) : Condition :=
  if c.operator = some .or then .only c.toOperand else c

/-- The query that the text of a query is. -/
def Query.written (q : Query) : Query :=
  if q.showsType then ⟨q.modifier, q.mediaType, q.condition.map Condition.besideType⟩ else q

theorem Condition.operator_besideType (c : Condition) : c.besideType.operator ≠ some .or := by
  unfold besideType
  split
  · exact nofun
  · next h => exact h

theorem Condition.besideType_eq {c : Condition} (h : c.operator ≠ some .or) : c.besideType = c :=
  if_neg h

theorem Query.RootFits.operator_ne {q : Query} (h : q.RootFits) (hshows : q.showsType)
    {c : Condition} (hc : q.condition = some c) : c.operator ≠ some .or := by
  rcases h with ⟨hmodifier, htype⟩ | hor
  · simp [showsType, hmodifier, htype, hc] at hshows
  · exact hor c hc

theorem Query.written_eq {q : Query} (h : q.RootFits) : q.written = q := by
  unfold written
  split
  · next hshows =>
    obtain ⟨modifier, type, condition⟩ := q
    cases condition with
    | none => rfl
    | some c => rw [Option.map_some, Condition.besideType_eq (h.operator_ne hshows rfl)]
  · rfl

theorem Condition.spells_besideType {c : Condition} (h : c.WellFormed) :
    Spells (Query.conditionAfterType c)
      (ConditionForm · c.besideType.operator c.besideType.operands) := by
  unfold Query.conditionAfterType
  rw [besideType]
  split
  · apply (Condition.spells h).parens.mono
    rintro _ ⟨first, interior, close, rfl, hfirst, hclose, hinterior⟩
    exact .only (.group hfirst hclose hinterior)
  · exact Condition.spells h

theorem Query.spells_type (q : Query) :
    Spells q.typeChars fun ts => ∃ before word, Grammar.ModifierForm before q.modifier ∧
      word.kind = .ident q.mediaType.name ∧ ts = before ++ [word] := by
  unfold typeChars
  cases q.modifier with
  | none =>
    apply q.mediaType.spells.mono
    rintro _ ⟨word, hword, rfl⟩
    exact ⟨[], word, .none, hword, rfl⟩
  | some m =>
    have htext : (some m).elim [] (fun m : Modifier => m.name.toList ++ [' ']) ++
        q.mediaType.name.toList = m.name.toList ++ ' ' :: q.mediaType.name.toList := by simp
    rw [htext]
    apply (m.spells.append q.mediaType.spells.blank rfl).mono
    rintro _ ⟨_, _, ⟨t, ht, rfl⟩, ⟨word, hword, rfl⟩, rfl⟩
    exact ⟨[t], word, .some ht, hword, rfl⟩

theorem Query.spells {q : Query} (h : q.WellFormed) : Spells q.chars (QueryForm · q.written) := by
  obtain ⟨modifier, type, condition⟩ := q
  cases condition with
  | none =>
    apply (Query.spells_type _).mono
    rintro _ ⟨before, word, hbefore, hword, rfl⟩
    have hshows : (Query.mk modifier type none).showsType := by simp [showsType]
    unfold written
    rw [if_pos hshows]
    exact .typed hbefore hword .known .nothing
  | some c =>
    have hc := h c rfl
    unfold chars
    rw [written]
    simp only
    split
    · have htext : " and ".toList = ' ' :: (Operator.and.name.toList ++ [' ']) := rfl
      rw [htext, List.append_assoc, List.cons_append, List.append_assoc, List.singleton_append]
      have hafter := (Operator.spells .and).append (Condition.spells_besideType hc).blank rfl
      apply ((Query.spells_type _).append hafter.blank rfl).mono
      rintro _ ⟨_, _, ⟨before, word, hbefore, hword, rfl⟩, ⟨_, ts, ⟨t, ht, rfl⟩, hts, rfl⟩, rfl⟩
      rw [List.append_assoc]
      exact .typed hbefore hword .known (.condition ht hts c.operator_besideType)
    · next hshows =>
      obtain ⟨rfl, rfl⟩ : modifier = none ∧ type = .all := by
        simpa [showsType] using hshows
      exact (Condition.spells hc).mono fun _ => .condition

/-! ## Lists -/

/-- An invalid member is written as the query that matches no device. -/
def QueryList.mended (l : QueryList) : List Query := l.members.map (·.getD .never)

theorem QueryList.forall_mended {l : QueryList} {p : Query → Prop} (hnever : p .never)
    (h : ∀ q, some q ∈ l.members → p q) : ∀ q ∈ l.mended, p q := by
  intro q hq
  obtain ⟨m, hm, rfl⟩ := List.mem_map.mp hq
  cases m with
  | none => exact hnever
  | some q => exact h q hm

theorem spells_members : ∀ {qs : List Query}, qs ≠ [] → (∀ q ∈ qs, q.WellFormed) →
    Spells (List.intercalate ", ".toList (qs.map Query.chars)) (ListForm · (qs.map Query.written))
  | [], hne, _ => absurd rfl hne
  | [q], _, h => by
    have htext : List.intercalate ", ".toList ([q].map Query.chars) = q.chars := by simp
    rw [htext]
    exact (Query.spells (h q (List.mem_singleton_self q))).mono fun _ => .one
  | q :: r :: qs, _, h => by
    have hfirst := Query.spells (h q (List.mem_cons_self ..))
    have hrest := spells_members (List.cons_ne_nil r qs) fun p hp => h p (List.mem_cons_of_mem _ hp)
    have htext : List.intercalate ", ".toList ((q :: r :: qs).map Query.chars) =
        q.chars ++ ',' :: ' ' :: List.intercalate ", ".toList ((r :: qs).map Query.chars) := by
      simp [List.intercalate]
    rw [htext]
    apply (hfirst.append hrest.blank.comma rfl).mono
    rintro _ ⟨ts, _, hts, ⟨_, us, ⟨comma, hcomma, rfl⟩, hus, rfl⟩, rfl⟩
    exact .more hts hcomma hus

theorem QueryList.spells {l : QueryList} (hne : l.members ≠ [])
    (h : ∀ q, some q ∈ l.members → q.WellFormed) :
    Spells l.chars (ListForm · (l.mended.map Query.written)) := by
  have htext : l.members.map memberChars = l.mended.map Query.chars := by
    rw [mended, List.map_map]
    apply List.map_congr_left
    intro m _
    cases m with
    | none => rfl
    | some q => rfl
  unfold chars
  rw [htext]
  exact spells_members (by simpa [mended] using hne) (forall_mended nofun h)

end CssMedia
