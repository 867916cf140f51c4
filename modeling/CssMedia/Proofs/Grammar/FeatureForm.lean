import CssMedia.Grammar.Brackets
import CssMedia.Grammar.Feature
import CssMedia.Proofs.Results

/-!
# The grammar of features

What the lexemes between two parentheses say, form by form. `feature` reads exactly these
forms.
-/

namespace CssMedia

/-- In a range the only word is `infinite`. -/
def Value.IsBound (v : Value) : Prop := ∀ name, v = .ident name → name = "infinite"

namespace Grammar

inductive ValueForm : List Lexeme → Value → Prop where
  | number {t : Lexeme} {v : Binary64} {flag : NumberFlag} (ht : t.kind = .number v flag) :
    ValueForm [t] (.number v flag)
  | dimension {t : Lexeme} {v : Binary64} {unit : String} {flag : NumberFlag}
    (ht : t.kind = .dimension v unit flag) : ValueForm [t] (.dimension v unit flag)
  | ident {t : Lexeme} {name : String} (ht : t.kind = .ident name) : ValueForm [t] (.ident name)
  | ratio {a slash b : Lexeme} {n d : Binary64} {f g : NumberFlag} (ha : a.kind = .number n f)
    (hn : n.isPositive) (hslash : slash.kind = .delim '/') (hb : b.kind = .number d g)
    (hd : d.isPositive) : ValueForm [a, slash, b] (.ratio n d)

/-- An `=` belongs to the `<` or `>` before it if nothing is between them. -/
inductive ComparisonForm : List Lexeme → Comparison → Prop where
  | less {t : Lexeme} (ht : t.kind = .delim '<') : ComparisonForm [t] .less
  | lessOrEqual {t e : Lexeme} (ht : t.kind = .delim '<') (he : e.kind = .delim '=')
    (hspace : e.afterSpace = false) : ComparisonForm [t, e] .lessOrEqual
  | greater {t : Lexeme} (ht : t.kind = .delim '>') : ComparisonForm [t] .greater
  | greaterOrEqual {t e : Lexeme} (ht : t.kind = .delim '>') (he : e.kind = .delim '=')
    (hspace : e.afterSpace = false) : ComparisonForm [t, e] .greaterOrEqual
  | equal {t : Lexeme} (ht : t.kind = .delim '=') : ComparisonForm [t] .equal

/-- Nothing can be split off such a name. -/
def Unsplit (name : String) : Prop :=
  ∀ (e : Extremum) (rest : String), rest ≠ "" → name ≠ e.name ++ "-" ++ rest

/-- The name before a colon, without `min-` or `max-` where something is left of it then. -/
inductive NameForm : String → Option Extremum → String → Prop where
  | whole {name : String} (h : Unsplit name) : NameForm name none name
  | split {e : Extremum} {rest : String} (hrest : rest ≠ "") :
    NameForm (e.name ++ "-" ++ rest) (some e) rest

/-- Both ends of a range look the same way, and neither is an equality. -/
def SameWay (c d : Comparison) : Prop := c.direction = d.direction ∧ c ≠ .equal

inductive FeatureForm : List Lexeme → Feature → Prop where
  | boolean {t : Lexeme} {name : String} (ht : t.kind = .ident name) :
    FeatureForm [t] (.boolean name)
  | plain {t colon : Lexeme} {name rest : String} {extremum : Option Extremum} {vs : List Lexeme}
    {v : Value} (ht : t.kind = .ident name) (hname : NameForm name extremum rest)
    (hcolon : colon.kind = .colon) (hv : ValueForm vs v) :
    FeatureForm (t :: colon :: vs) (.plain rest extremum v)
  | right {t : Lexeme} {name : String} {cs vs : List Lexeme} {c : Comparison} {v : Value}
    (ht : t.kind = .ident name) (hname : name ≠ "infinite") (hc : ComparisonForm cs c)
    (hv : ValueForm vs v) (hbound : v.IsBound) :
    FeatureForm (t :: (cs ++ vs)) (.range name none (some ⟨v, c⟩))
  | left {t : Lexeme} {name : String} {cs vs : List Lexeme} {c : Comparison} {v : Value}
    (hv : ValueForm vs v) (hbound : v.IsBound) (hc : ComparisonForm cs c)
    (ht : t.kind = .ident name) :
    FeatureForm (vs ++ (cs ++ [t])) (.range name (some ⟨v, c⟩) none)
  | both {t : Lexeme} {name : String} {cs vs ds ws : List Lexeme} {c d : Comparison} {v w : Value}
    (hv : ValueForm vs v) (hvbound : v.IsBound) (hc : ComparisonForm cs c)
    (ht : t.kind = .ident name) (hd : ComparisonForm ds d) (hw : ValueForm ws w)
    (hwbound : w.IsBound) (hway : SameWay c d) :
    FeatureForm (vs ++ (cs ++ t :: (ds ++ ws))) (.range name (some ⟨v, c⟩) (some ⟨w, d⟩))

/-! ## Names -/

theorem splitExtremum_split (e : Extremum) {rest : String} (hrest : rest ≠ "") :
    splitExtremum (e.name ++ "-" ++ rest) = (some e, rest) := by
  obtain ⟨c, cs, hchars⟩ : ∃ c cs, rest.toList = c :: cs :=
    List.exists_cons_of_ne_nil (by simpa using hrest)
  have hback : String.ofList (c :: cs) = rest := by rw [← hchars, String.ofList_toList]
  unfold splitExtremum
  cases e <;> simp [hchars, hback, Extremum.name]

theorem splitExtremum_whole {name : String} (h : Unsplit name) :
    splitExtremum name = (none, name) := by
  have hsplit : ∀ (e : Extremum) (c : Char) (cs : List Char),
      name.toList ≠ e.name.toList ++ '-' :: c :: cs := by
    intro e c cs heq
    apply h e (String.ofList (c :: cs)) (by simp)
    rw [← String.toList_inj, heq]
    simp
  unfold splitExtremum
  split
  · next c cs heq => exact absurd heq (hsplit .min c cs)
  · next c cs heq => exact absurd heq (hsplit .max c cs)
  · rfl

theorem nameForm_splitExtremum (name : String) :
    NameForm name (splitExtremum name).1 (splitExtremum name).2 := by
  by_cases h : Unsplit name
  · rw [splitExtremum_whole h]
    exact .whole h
  · simp only [Unsplit, Classical.not_forall, Classical.not_not] at h
    obtain ⟨e, rest, hrest, rfl⟩ := h
    rw [splitExtremum_split e hrest]
    exact .split hrest

theorem NameForm.splitExtremum_eq {name rest : String} {extremum : Option Extremum}
    (h : NameForm name extremum rest) : splitExtremum name = (extremum, rest) := by
  cases h with
  | whole h => exact splitExtremum_whole h
  | split hrest => exact splitExtremum_split _ hrest

/-! ## Items -/

inductive ItemForm : List Lexeme → Item → Prop where
  | lexeme (t : Lexeme) : ItemForm [t] (.lexeme t)
  | ratio {a slash b : Lexeme} {n d : Binary64} {f g : NumberFlag} (ha : a.kind = .number n f)
    (hn : n.isPositive) (hslash : slash.kind = .delim '/') (hb : b.kind = .number d g)
    (hd : d.isPositive) : ItemForm [a, slash, b] (.ratio n d (a.span.cover b.span))

theorem positiveNumber?_eq_some {t : Lexeme} {n : Binary64} (h : positiveNumber? t = some n) :
    n.isPositive ∧ ∃ flag, t.kind = .number n flag := by
  unfold positiveNumber? at h
  split at h
  · next v flag hkind =>
    split at h
    · next hpos => cases h; exact ⟨hpos, flag, hkind⟩
    · simp at h
  · simp at h

theorem positiveNumber?_number {t : Lexeme} {n : Binary64} {flag : NumberFlag}
    (ht : t.kind = .number n flag) (hn : n.isPositive) : positiveNumber? t = some n := by
  simp [positiveNumber?, ht, hn]

theorem ratio?_eq_some {ts : List Lexeme} {i : Item} (h : ratio? ts = some i) :
    ∃ a slash b rest, ts = a :: slash :: b :: rest ∧ ItemForm [a, slash, b] i := by
  unfold ratio? at h
  split at h
  · next a slash b rest =>
    split at h
    · next n d ha hb =>
      split at h
      · next hslash =>
        cases h
        obtain ⟨hn, f, ha⟩ := positiveNumber?_eq_some ha
        obtain ⟨hd, g, hb⟩ := positiveNumber?_eq_some hb
        exact ⟨a, slash, b, rest, rfl, .ratio ha hn (beq_iff_eq.mp hslash) hb hd⟩
      · simp at h
    · simp at h
  · simp at h

theorem items_eq_cons {ts : List Lexeme} {i : Item} {is : List Item} (h : items ts = i :: is) :
    ∃ us rest, ts = us ++ rest ∧ ItemForm us i ∧ items rest = is := by
  cases ts with
  | nil => simp [items] at h
  | cons t ts =>
    unfold items at h
    split at h
    · next ratio hratio =>
      cases h
      obtain ⟨a, slash, b, rest, heq, hform⟩ := ratio?_eq_some hratio
      cases heq
      exact ⟨[_, _, _], rest, rfl, hform, rfl⟩
    · cases h
      exact ⟨[t], ts, rfl, .lexeme t, rfl⟩

theorem items_eq_nil {ts : List Lexeme} (h : items ts = []) : ts = [] := by
  cases ts with
  | nil => rfl
  | cons t ts =>
    unfold items at h
    split at h <;> simp at h

/-- No ratio goes on with these lexemes. -/
def NoSlash (rest : List Lexeme) : Prop := rest.head?.all fun t => !t.isDelim '/'

theorem items_append {us rest : List Lexeme} {i : Item} (h : ItemForm us i) (hrest : NoSlash rest) :
    items (us ++ rest) = i :: items rest := by
  cases h with
  | lexeme t =>
    have hnone : ratio? (t :: rest) = none := by
      unfold ratio?
      split
      · next a slash b rest heq =>
        cases heq
        have hslash : slash.isDelim '/' = false := by simpa [NoSlash] using hrest
        split
        · rw [hslash]; rfl
        · rfl
      · rfl
    rw [List.singleton_append, items, hnone]
  | ratio ha hn hslash hb hd =>
    rw [List.cons_append, items]
    simp [ratio?, positiveNumber?_number ha hn, positiveNumber?_number hb hd, Lexeme.isDelim, hslash]

theorem items_cons {t : Lexeme} (ht : positiveNumber? t = none) (rest : List Lexeme) :
    items (t :: rest) = .lexeme t :: items rest := by
  have hnone : ratio? (t :: rest) = none := by
    unfold ratio?
    split
    · next heq => cases heq; simp [ht]
    · rfl
  rw [items, hnone]

theorem items_ident {t : Lexeme} {name : String} (ht : t.kind = .ident name) (rest : List Lexeme) :
    items (t :: rest) = .lexeme t :: items rest :=
  items_cons (by simp [positiveNumber?, ht]) rest

theorem items_delim {t : Lexeme} {c : Char} (ht : t.kind = .delim c) (rest : List Lexeme) :
    items (t :: rest) = .lexeme t :: items rest :=
  items_cons (by simp [positiveNumber?, ht]) rest

/-! ## Values -/

theorem valueForm_iff {ts : List Lexeme} {v : Value} :
    ValueForm ts v ↔ ∃ i, ItemForm ts i ∧ i.value? = some v := by
  constructor
  · rintro (ht | ht | ht | ⟨ha, hn, hslash, hb, hd⟩)
    · exact ⟨_, .lexeme _, by simp [Item.value?, ht]⟩
    · exact ⟨_, .lexeme _, by simp [Item.value?, ht]⟩
    · exact ⟨_, .lexeme _, by simp [Item.value?, ht]⟩
    · exact ⟨_, .ratio ha hn hslash hb hd, rfl⟩
  · rintro ⟨i, hi, hv⟩
    cases hi with
    | lexeme t =>
      simp only [Item.value?] at hv
      split at hv
      · next ht => cases hv; exact .number ht
      · next ht => cases hv; exact .dimension ht
      · next ht => cases hv; exact .ident ht
      · simp at hv
    | ratio ha hn hslash hb hd =>
      cases hv
      exact .ratio ha hn hslash hb hd

theorem rangeValue?_eq_some {i : Item} {v : Value} :
    i.rangeValue? = some v ↔ i.value? = some v ∧ v.IsBound := by
  unfold Item.rangeValue?
  split
  · next name hname =>
    rw [hname]
    by_cases hinfinite : name = "infinite"
    · simp only [if_pos hinfinite, Option.some.injEq]
      refine ⟨fun h => ⟨h, ?_⟩, fun h => h.1⟩
      rintro other rfl
      cases h
      exact hinfinite
    · simp only [if_neg hinfinite, reduceCtorEq, Option.some.injEq, false_iff, not_and]
      rintro rfl hbound
      exact hinfinite (hbound name rfl)
  · next hnot =>
    refine ⟨fun h => ⟨h, ?_⟩, fun h => h.1⟩
    rintro name rfl
    exact absurd h (hnot name)

theorem item_ident {ts : List Lexeme} {i : Item} (h : ItemForm ts i) {name : String}
    (hname : i.ident? = some name) : ∃ t, ts = [t] ∧ i = .lexeme t ∧ t.kind = .ident name := by
  cases h with
  | lexeme t =>
    refine ⟨t, rfl, rfl, ?_⟩
    simp only [Item.ident?, Lexeme.ident?] at hname
    split at hname
    · next ht => cases hname; exact ht
    · simp at hname
  | ratio => cases hname

theorem item_eq_lexeme {ts : List Lexeme} {t : Lexeme} (h : ItemForm ts (.lexeme t)) : ts = [t] := by
  cases h
  rfl

theorem items_eq_lexeme {ts : List Lexeme} {t : Lexeme} {is : List Item}
    (h : items ts = .lexeme t :: is) : ∃ rest, ts = t :: rest ∧ items rest = is := by
  obtain ⟨us, rest, rfl, hform, hrest⟩ := items_eq_cons h
  rw [item_eq_lexeme hform]
  exact ⟨rest, rfl, hrest⟩

theorem items_eq_ident {ts : List Lexeme} {i : Item} {is : List Item} {name : String}
    (h : items ts = i :: is) (hname : i.ident? = some name) :
    ∃ t rest, ts = t :: rest ∧ t.kind = .ident name ∧ items rest = is := by
  obtain ⟨us, rest, rfl, hform, hrest⟩ := items_eq_cons h
  obtain ⟨t, rfl, -, ht⟩ := item_ident hform hname
  exact ⟨t, rest, rfl, ht, hrest⟩

theorem items_eq_value {ts : List Lexeme} {i : Item} {is : List Item} {v : Value}
    (h : items ts = i :: is) (hv : i.value? = some v) :
    ∃ vs rest, ts = vs ++ rest ∧ ValueForm vs v ∧ items rest = is := by
  obtain ⟨us, rest, rfl, hform, hrest⟩ := items_eq_cons h
  exact ⟨us, rest, rfl, valueForm_iff.mpr ⟨i, hform, hv⟩, hrest⟩

/-! ## Comparisons -/

theorem isDelim_item {i : Item} {c : Char} (h : i.isDelim c) : ∃ t, i = .lexeme t ∧ t.kind = .delim c := by
  cases i with
  | lexeme t => exact ⟨t, rfl, beq_iff_eq.mp h⟩
  | ratio => cases h

/-- The next item is an `=` right after the one before. -/
def Inclusive (is : List Item) : Prop :=
  ∃ e after, is = .lexeme e :: after ∧ e.kind = .delim '=' ∧ e.afterSpace = false

theorem comparison_inclusive (span : Span) (i : Item) {e : Lexeme} (he : e.kind = .delim '=')
    (hspace : e.afterSpace = false) (after : List Item) :
    comparison span (i :: .lexeme e :: after) =
      if i.isDelim '<' then .ok (.lessOrEqual, after)
      else if i.isDelim '>' then .ok (.greaterOrEqual, after)
      else if i.isDelim '=' then .ok (.equal, .lexeme e :: after)
      else .error (.single .expectComparison i.span) := by
  have he' : e.isDelim '=' = true := beq_iff_eq.mpr he
  simp [comparison, he', hspace]

theorem comparison_exclusive (span : Span) (i : Item) {rest : List Item} (h : ¬ Inclusive rest) :
    comparison span (i :: rest) =
      if i.isDelim '<' then .ok (.less, rest)
      else if i.isDelim '>' then .ok (.greater, rest)
      else if i.isDelim '=' then .ok (.equal, rest)
      else .error (.single .expectComparison i.span) := by
  cases rest with
  | nil => simp [comparison]
  | cons j after =>
    cases j with
    | ratio => simp [comparison]
    | lexeme e =>
      have hnot : (e.isDelim '=' && !e.afterSpace) = false := by
        cases hequal : e.isDelim '=' && !e.afterSpace with
        | false => rfl
        | true =>
          simp only [Bool.and_eq_true, Bool.not_eq_true'] at hequal
          exact absurd ⟨e, after, rfl, beq_iff_eq.mp hequal.1, hequal.2⟩ h
      simp [comparison, hnot]

theorem comparisonForm_one {ts : List Lexeme} {t : Lexeme} {is : List Item} {c : Comparison}
    (hitems : items ts = .lexeme t :: is) (hc : ComparisonForm [t] c) :
    ∃ cs rest, ts = cs ++ rest ∧ ComparisonForm cs c ∧ items rest = is := by
  obtain ⟨rest, rfl, hrest⟩ := items_eq_lexeme hitems
  exact ⟨[t], rest, rfl, hc, hrest⟩

theorem comparisonForm_two {ts : List Lexeme} {t e : Lexeme} {is : List Item} {c : Comparison}
    (hitems : items ts = .lexeme t :: .lexeme e :: is) (hc : ComparisonForm [t, e] c) :
    ∃ cs rest, ts = cs ++ rest ∧ ComparisonForm cs c ∧ items rest = is := by
  obtain ⟨more, rfl, hmore⟩ := items_eq_lexeme hitems
  obtain ⟨rest, rfl, hrest⟩ := items_eq_lexeme hmore
  exact ⟨[t, e], rest, rfl, hc, hrest⟩

theorem comparison_sound {span : Span} {ts : List Lexeme} {c : Comparison} {is : List Item}
    (h : comparison span (items ts) = .ok (c, is)) :
    ∃ cs rest, ts = cs ++ rest ∧ ComparisonForm cs c ∧ items rest = is := by
  cases hitems : items ts with
  | nil => rw [hitems] at h; cases h
  | cons i rest =>
    rw [hitems] at h
    by_cases hinclusive : Inclusive rest
    · obtain ⟨e, after, rfl, he, hspace⟩ := hinclusive
      rw [comparison_inclusive span i he hspace] at h
      split at h
      · next hless =>
        obtain ⟨t, rfl, ht⟩ := isDelim_item hless
        cases h
        exact comparisonForm_two hitems (.lessOrEqual ht he hspace)
      split at h
      · next hgreater =>
        obtain ⟨t, rfl, ht⟩ := isDelim_item hgreater
        cases h
        exact comparisonForm_two hitems (.greaterOrEqual ht he hspace)
      split at h
      · next hequal =>
        obtain ⟨t, rfl, ht⟩ := isDelim_item hequal
        cases h
        exact comparisonForm_one hitems (.equal ht)
      · simp at h
    · rw [comparison_exclusive span i hinclusive] at h
      split at h
      · next hless =>
        obtain ⟨t, rfl, ht⟩ := isDelim_item hless
        cases h
        exact comparisonForm_one hitems (.less ht)
      split at h
      · next hgreater =>
        obtain ⟨t, rfl, ht⟩ := isDelim_item hgreater
        cases h
        exact comparisonForm_one hitems (.greater ht)
      split at h
      · next hequal =>
        obtain ⟨t, rfl, ht⟩ := isDelim_item hequal
        cases h
        exact comparisonForm_one hitems (.equal ht)
      · simp at h

/-- No comparison goes on with these lexemes. -/
def NoEqual (rest : List Lexeme) : Prop := rest.head?.all fun t => !t.isDelim '='

theorem NoEqual.not_inclusive {rest : List Lexeme} (h : NoEqual rest) : ¬ Inclusive (items rest) := by
  rintro ⟨e, after, heq, he, -⟩
  obtain ⟨more, rfl, -⟩ := items_eq_lexeme heq
  simp [NoEqual, Lexeme.isDelim, he] at h

theorem comparison_complete {span : Span} {cs rest : List Lexeme} {c : Comparison}
    (hc : ComparisonForm cs c) (hrest : NoEqual rest) :
    comparison span (items (cs ++ rest)) = .ok (c, items rest) := by
  cases hc with
  | less ht =>
    rw [List.singleton_append, items_delim ht, comparison_exclusive _ _ hrest.not_inclusive]
    simp [Item.isDelim, Lexeme.isDelim, ht]
  | lessOrEqual ht he hspace =>
    rw [List.cons_append, List.singleton_append, items_delim ht, items_delim he,
      comparison_inclusive _ _ he hspace]
    simp [Item.isDelim, Lexeme.isDelim, ht]
  | greater ht =>
    rw [List.singleton_append, items_delim ht, comparison_exclusive _ _ hrest.not_inclusive]
    simp [Item.isDelim, Lexeme.isDelim, ht]
  | greaterOrEqual ht he hspace =>
    rw [List.cons_append, List.singleton_append, items_delim ht, items_delim he,
      comparison_inclusive _ _ he hspace]
    simp [Item.isDelim, Lexeme.isDelim, ht]
  | equal ht =>
    rw [List.singleton_append, items_delim ht, comparison_exclusive _ _ hrest.not_inclusive]
    simp [Item.isDelim, Lexeme.isDelim, ht]

/-! ## Ranges -/

theorem items_value {vs rest : List Lexeme} {v : Value} (hv : ValueForm vs v)
    (hrest : NoSlash rest) : ∃ i, items (vs ++ rest) = i :: items rest ∧ i.value? = some v := by
  obtain ⟨i, hi, hvalue⟩ := valueForm_iff.mp hv
  exact ⟨i, items_append hi hrest, hvalue⟩

theorem ComparisonForm.noSlash {cs : List Lexeme} {c : Comparison} (h : ComparisonForm cs c)
    (rest : List Lexeme) : NoSlash (cs ++ rest) := by
  cases h <;> simp_all [NoSlash, Lexeme.isDelim]

theorem ValueForm.noEqual {vs : List Lexeme} {v : Value} (h : ValueForm vs v)
    (rest : List Lexeme) : NoEqual (vs ++ rest) := by
  cases h <;> simp_all [NoEqual, Lexeme.isDelim]

theorem noEqual_ident {t : Lexeme} {name : String} (ht : t.kind = .ident name)
    (rest : List Lexeme) : NoEqual (t :: rest) := by
  simp [NoEqual, Lexeme.isDelim, ht]

theorem lastValue_iff {span : Span} {ts : List Lexeme} {v : Value} :
    lastValue span (items ts) = .ok v ↔ ValueForm ts v ∧ v.IsBound := by
  constructor
  · intro h
    unfold lastValue at h
    split at h
    · next i hitems =>
      split at h
      · next value hvalue =>
        cases h
        obtain ⟨hvalue, hbound⟩ := rangeValue?_eq_some.mp hvalue
        obtain ⟨vs, rest, rfl, hform, hrest⟩ := items_eq_value hitems hvalue
        rw [items_eq_nil hrest, List.append_nil]
        exact ⟨hform, hbound⟩
      · simp at h
    · simp at h
  · rintro ⟨hv, hbound⟩
    obtain ⟨i, hi, hvalue⟩ := @items_value _ [] _ hv rfl
    rw [List.append_nil, items] at hi
    rw [hi, lastValue, rangeValue?_eq_some.mpr ⟨hvalue, hbound⟩]

theorem rightRange_iff {span : Span} {name : String} {ts : List Lexeme} {f : Feature} :
    rightRange span name (items ts) = .ok f ↔
      ∃ cs vs c v, ts = cs ++ vs ∧ ComparisonForm cs c ∧ ValueForm vs v ∧ v.IsBound ∧
        f = .range name none (some ⟨v, c⟩) := by
  constructor
  · intro h
    unfold rightRange at h
    obtain ⟨⟨c, is⟩, hcomparison, h⟩ := exists_of_bind_eq_ok h
    obtain ⟨cs, vs, rfl, hc, rfl⟩ := comparison_sound hcomparison
    obtain ⟨v, hlast, h⟩ := exists_of_bind_eq_ok h
    obtain ⟨hv, hbound⟩ := lastValue_iff.mp hlast
    exact ⟨cs, vs, c, v, rfl, hc, hv, hbound, (Except.ok.inj h).symm⟩
  · rintro ⟨cs, vs, c, v, rfl, hc, hv, hbound, rfl⟩
    have hrest : NoEqual vs := by simpa using hv.noEqual []
    unfold rightRange
    rw [comparison_complete hc hrest]
    simp only [bind, Except.bind, lastValue_iff.mpr ⟨hv, hbound⟩, pure, Except.pure]

/-- What may follow the first value of a range. -/
inductive AfterFirst (v : Value) : List Lexeme → Feature → Prop where
  | left {t : Lexeme} {name : String} {cs : List Lexeme} {c : Comparison}
    (hc : ComparisonForm cs c) (ht : t.kind = .ident name) :
    AfterFirst v (cs ++ [t]) (.range name (some ⟨v, c⟩) none)
  | both {t : Lexeme} {name : String} {cs ds ws : List Lexeme} {c d : Comparison} {w : Value}
    (hc : ComparisonForm cs c) (ht : t.kind = .ident name) (hd : ComparisonForm ds d)
    (hw : ValueForm ws w) (hbound : w.IsBound) (hway : SameWay c d) :
    AfterFirst v (cs ++ t :: (ds ++ ws)) (.range name (some ⟨v, c⟩) (some ⟨w, d⟩))

theorem leftRange_sound {span : Span} {first : Value} {ts : List Lexeme} {f : Feature}
    (h : leftRange span first (items ts) = .ok f) : AfterFirst first ts f := by
  unfold leftRange at h
  obtain ⟨⟨c, is⟩, hcomparison, h⟩ := exists_of_bind_eq_ok h
  obtain ⟨cs, rest, rfl, hc, rfl⟩ := comparison_sound hcomparison
  cases hitems : items rest with
  | nil => simp [hitems] at h
  | cons i is =>
    rw [hitems] at h
    simp only at h
    split at h
    · simp at h
    · next name hname =>
      cases h
      obtain ⟨t, more, rfl, ht, hmore⟩ := items_eq_ident hitems hname
      rw [items_eq_nil hmore]
      exact .left hc ht
    · next name hname hne =>
      obtain ⟨t, more, rfl, ht, rfl⟩ := items_eq_ident hitems hname
      obtain ⟨⟨d, is⟩, hsecond, h⟩ := exists_of_bind_eq_ok h
      obtain ⟨ds, ws, rfl, hd, rfl⟩ := comparison_sound hsecond
      obtain ⟨w, hlast, h⟩ := exists_of_bind_eq_ok h
      obtain ⟨hw, hbound⟩ := lastValue_iff.mp hlast
      split at h
      · next hway =>
        cases h
        exact .both hc ht hd hw hbound hway
      · simp at h

theorem leftRange_complete {span : Span} {first : Value} {ts : List Lexeme} {f : Feature}
    (h : AfterFirst first ts f) : leftRange span first (items ts) = .ok f := by
  cases h with
  | left hc ht =>
    unfold leftRange
    rw [comparison_complete hc (noEqual_ident ht []), items_ident ht, items]
    simp [bind, Except.bind, Item.ident?, Lexeme.ident?, ht, pure, Except.pure]
  | both hc ht hd hw hbound hway =>
    rename_i t name cs ds ws c d w
    have hrest : NoEqual ws := by simpa using hw.noEqual []
    have hne : items (ds ++ ws) ≠ [] := by
      intro hnil
      have := items_eq_nil hnil
      cases hd <;> simp at this
    unfold leftRange
    rw [comparison_complete hc (noEqual_ident ht _), items_ident ht]
    -- What follows the name is not empty, so this is the form with two ends.
    simp only [bind, Except.bind, Item.ident?, Lexeme.ident?, ht, comparison_complete hd hrest,
      lastValue_iff.mpr ⟨hw, hbound⟩]
    exact if_pos hway

/-! ## All forms -/

theorem range_sound {span : Span} {ts : List Lexeme} {f : Feature}
    (h : range span (items ts) = .ok f) : FeatureForm ts f := by
  cases hitems : items ts with
  | nil => rw [hitems] at h; cases h
  | cons i is =>
    rw [hitems, range] at h
    split at h
    · next first hfirst =>
      obtain ⟨hvalue, hbound⟩ := rangeValue?_eq_some.mp hfirst
      obtain ⟨vs, rest, rfl, hv, rfl⟩ := items_eq_value hitems hvalue
      cases leftRange_sound h with
      | left hc ht => exact .left hv hbound hc ht
      | both hc ht hd hw hwbound hway => exact .both hv hbound hc ht hd hw hwbound hway
    · next name hnone hname =>
      obtain ⟨t, rest, rfl, ht, rfl⟩ := items_eq_ident hitems hname
      obtain ⟨cs, vs, c, v, rfl, hc, hv, hbound, rfl⟩ := rightRange_iff.mp h
      refine .right ht ?_ hc hv hbound
      -- The word `infinite` would have been read as a value.
      rintro rfl
      rw [items_ident ht] at hitems
      cases hitems
      simp [Item.rangeValue?, Item.value?, ht] at hnone
    · simp at h

theorem featureOfItems_sound {span : Span} {ts : List Lexeme} {f : Feature}
    (h : featureOfItems span (items ts) = .ok f) : FeatureForm ts f := by
  unfold featureOfItems at h
  split at h
  · next i hitems =>
    split at h
    · next name hname =>
      cases h
      obtain ⟨t, rest, rfl, ht, hrest⟩ := items_eq_ident hitems hname
      rw [items_eq_nil hrest]
      exact .boolean ht
    · simp at h
  · next i colon v hitems =>
    split at h
    · next hcolon =>
      split at h
      · simp at h
      · simp at h
      · next name value hname hvalue =>
        cases h
        obtain ⟨t, rest, rfl, ht, hrest⟩ := items_eq_ident hitems hname
        cases colon with
        | ratio => cases hcolon
        | lexeme colon =>
          obtain ⟨more, rfl, hmore⟩ := items_eq_lexeme hrest
          obtain ⟨vs, last, rfl, hv, hlast⟩ := items_eq_value hmore hvalue
          rw [items_eq_nil hlast, List.append_nil]
          exact .plain ht (nameForm_splitExtremum name) (beq_iff_eq.mp hcolon) hv
    · exact range_sound (hitems ▸ h)
  · next i j k rest _ hitems => exact range_sound (hitems ▸ h)
  · simp at h

theorem range_ident {span : Span} {t : Lexeme} {name : String} (ht : t.kind = .ident name)
    (hname : name ≠ "infinite") (is : List Item) :
    range span (.lexeme t :: is) = rightRange span name is := by
  simp [range, Item.rangeValue?, Item.value?, Item.ident?, Lexeme.ident?, ht, hname]

theorem range_value {span : Span} {i : Item} {v : Value} (hv : i.value? = some v)
    (hbound : v.IsBound) (is : List Item) : range span (i :: is) = leftRange span v is := by
  rw [range, rangeValue?_eq_some.mpr ⟨hv, hbound⟩]

theorem items_comparison {cs rest : List Lexeme} {c : Comparison} (hc : ComparisonForm cs c)
    (hrest : rest ≠ []) :
    ∃ t d i is, items (cs ++ rest) = .lexeme t :: i :: is ∧ t.kind = .delim d := by
  obtain ⟨t, d, more, hmore, heq, ht⟩ :
      ∃ t d more, more ≠ [] ∧ cs ++ rest = t :: more ∧ t.kind = .delim d := by
    cases hc with
    | less ht | greater ht | equal ht => exact ⟨_, _, rest, hrest, rfl, ht⟩
    | lessOrEqual ht | greaterOrEqual ht => exact ⟨_, _, _, List.cons_ne_nil _ _, rfl, ht⟩
  cases hitems : items more with
  | nil => exact absurd (items_eq_nil hitems) hmore
  | cons i is => exact ⟨t, d, i, is, by rw [heq, items_delim ht, hitems], ht⟩

theorem featureOfItems_range {span : Span} {i : Item} {cs rest : List Lexeme} {c : Comparison}
    (hc : ComparisonForm cs c) (hrest : rest ≠ []) :
    featureOfItems span (i :: items (cs ++ rest)) = range span (i :: items (cs ++ rest)) := by
  obtain ⟨t, d, j, is, heq, ht⟩ := items_comparison hc hrest
  rw [heq]
  cases is with
  | nil => simp [featureOfItems, Item.isColon, ht]
  | cons k is => rfl

theorem ValueForm.ne_nil {vs : List Lexeme} {v : Value} (h : ValueForm vs v) : vs ≠ [] := by
  cases h <;> exact List.cons_ne_nil _ _

theorem featureOfItems_complete {span : Span} {ts : List Lexeme} {f : Feature}
    (h : FeatureForm ts f) : featureOfItems span (items ts) = .ok f := by
  cases h with
  | boolean ht =>
    rw [items_ident ht, items]
    simp [featureOfItems, Item.ident?, Lexeme.ident?, ht]
  | plain ht hname hcolon hv =>
    obtain ⟨i, hi, hvalue⟩ := @items_value _ [] _ hv rfl
    rw [List.append_nil, items] at hi
    rw [items_ident ht, items_cons (by simp [positiveNumber?, hcolon]), hi]
    simp [featureOfItems, Item.isColon, Item.ident?, Lexeme.ident?, ht, hcolon, hvalue,
      hname.splitExtremum_eq]
  | right ht hname hc hv hbound =>
    rw [items_ident ht, featureOfItems_range hc hv.ne_nil, range_ident ht hname]
    exact rightRange_iff.mpr ⟨_, _, _, _, rfl, hc, hv, hbound, rfl⟩
  | left hv hbound hc ht =>
    obtain ⟨i, hi, hvalue⟩ := items_value hv (hc.noSlash _)
    rw [hi, featureOfItems_range hc (List.cons_ne_nil _ _), range_value hvalue hbound]
    exact leftRange_complete (.left hc ht)
  | both hv hvbound hc ht hd hw hwbound hway =>
    obtain ⟨i, hi, hvalue⟩ := items_value hv (hc.noSlash _)
    rw [hi, featureOfItems_range hc (List.cons_ne_nil _ _), range_value hvalue hvbound]
    exact leftRange_complete (.both hc ht hd hw hwbound hway)

/-! ## Between the parentheses -/

/-- Neither a bracket nor a comma, as all lexemes of a feature are. -/
def IsInner (t : Lexeme) : Prop :=
  Bracket.openedBy? t.kind = none ∧ Bracket.closedBy? t.kind = none ∧ t.kind ≠ .comma

theorem IsInner.not_isBracket {t : Lexeme} (h : IsInner t) : isBracket t.kind = false := by
  obtain ⟨hopen, hclose, -⟩ := h
  cases hkind : t.kind <;> simp_all [isBracket, Bracket.openedBy?, Bracket.closedBy?]

theorem ValueForm.inner {vs : List Lexeme} {v : Value} (h : ValueForm vs v) :
    ∀ t ∈ vs, IsInner t := by
  cases h <;> simp_all [IsInner, Bracket.openedBy?, Bracket.closedBy?]

theorem ComparisonForm.inner {cs : List Lexeme} {c : Comparison} (h : ComparisonForm cs c) :
    ∀ t ∈ cs, IsInner t := by
  cases h <;> simp_all [IsInner, Bracket.openedBy?, Bracket.closedBy?]

theorem isInner_ident {t : Lexeme} {name : String} (ht : t.kind = .ident name) : IsInner t := by
  simp [IsInner, Bracket.openedBy?, Bracket.closedBy?, ht]

theorem FeatureForm.inner {ts : List Lexeme} {f : Feature} (h : FeatureForm ts f) :
    ∀ t ∈ ts, IsInner t := by
  cases h with
  | boolean ht => simpa using isInner_ident ht
  | plain ht _ hcolon hv =>
    simp only [List.forall_mem_cons]
    exact ⟨isInner_ident ht, by simp [IsInner, Bracket.openedBy?, Bracket.closedBy?, hcolon], hv.inner⟩
  | right ht hname hc hv hbound =>
    simp only [List.forall_mem_cons, List.forall_mem_append]
    exact ⟨isInner_ident ht, hc.inner, hv.inner⟩
  | left hv hbound hc ht =>
    simp only [List.forall_mem_cons, List.forall_mem_append]
    exact ⟨hv.inner, hc.inner, isInner_ident ht, by simp⟩
  | both hv hvbound hc ht hd hw hwbound hway =>
    simp only [List.forall_mem_cons, List.forall_mem_append]
    exact ⟨hv.inner, hc.inner, isInner_ident ht, hd.inner, hw.inner⟩

theorem FeatureForm.ne_nil {ts : List Lexeme} {f : Feature} (h : FeatureForm ts f) : ts ≠ [] := by
  cases h with
  | boolean | plain | right => exact List.cons_ne_nil _ _
  | left hv | both hv => exact List.append_ne_nil_of_left_ne_nil hv.ne_nil _

def InParens (inner : List Lexeme → Prop) (ts : List Lexeme) : Prop :=
  ∃ first interior close, ts = first :: (interior ++ [close]) ∧ first.kind = .openParen ∧
    close.kind = .closeParen ∧ inner interior

theorem feature_iff {eof : Nat} {ts : List Lexeme} {f : Feature} :
    feature eof ts = .ok f ↔ InParens (FeatureForm · f) ts := by
  constructor
  · intro h
    cases ts with
    | nil => cases h
    | cons first rest =>
      simp only [feature] at h
      split at h
      · simp at h
      next hopen =>
      split at h
      · simp at h
      next hclose =>
      split at h
      · simp at h
      split at h
      · simp at h
      cases hlast : rest.getLast? with
      | none => simp [hlast] at hclose
      | some close =>
        simp only [hlast, Option.map_some, Decidable.not_not, Option.some.injEq] at hclose
        obtain ⟨interior, rfl⟩ := List.getLast?_eq_some_iff.mp hlast
        rw [List.dropLast_concat] at h
        exact ⟨first, interior, close, rfl, Decidable.not_not.mp hopen, hclose, featureOfItems_sound h⟩
  · rintro ⟨first, interior, close, rfl, hopen, hclose, hform⟩
    have hbrackets : interior.any (isBracket ·.kind) = false := by
      rw [List.any_eq_false]
      intro t ht
      simp [(hform.inner t ht).not_isBracket]
    simp [feature, hopen, hclose, hform.ne_nil, hbrackets, featureOfItems_complete hform]

/-- Exactly the groups that have a form are read, and each as the one feature that its forms say. -/
theorem feature_forms (ts : List Lexeme) :
    (∀ eof f, feature eof ts = .ok f ↔ InParens (FeatureForm · f) ts) ∧
    ∀ f g, InParens (FeatureForm · f) ts → InParens (FeatureForm · g) ts → f = g := by
  refine ⟨fun eof f => feature_iff, ?_⟩
  intro f g hf hg
  have hread : feature 0 ts = .ok f := feature_iff.mpr hf
  rw [feature_iff.mpr hg] at hread
  exact (Except.ok.inj hread).symm

/-- Both ends of `(0 <= a < infinite)` are read. -/
theorem feature_forms_two_ends :
    let ts : List Lexeme := [⟨.openParen, ⟨0, 0⟩, false⟩, ⟨.number .zero .integer, ⟨1, 1⟩, false⟩,
      ⟨.delim '<', ⟨3, 3⟩, true⟩, ⟨.delim '=', ⟨4, 4⟩, false⟩, ⟨.ident "a", ⟨6, 6⟩, true⟩,
      ⟨.delim '<', ⟨8, 8⟩, true⟩, ⟨.ident "infinite", ⟨10, 17⟩, true⟩,
      ⟨.closeParen, ⟨18, 18⟩, false⟩]
    let f : Feature := .range "a" (some ⟨.number .zero .integer, .lessOrEqual⟩)
      (some ⟨.ident "infinite", .less⟩)
    InParens (FeatureForm · f) ts ∧ feature 19 ts = .ok f ∧
      ∀ g, InParens (FeatureForm · g) ts → g = f := by
  intro ts f
  have hinfinite : (Value.ident "infinite").IsBound := by
    rintro _ ⟨⟩
    rfl
  have hgroup : InParens (FeatureForm · f) ts := by
    refine ⟨_, ts.tail.dropLast, _, rfl, rfl, rfl, ?_⟩
    exact .both (.number rfl) nofun (.lessOrEqual rfl rfl rfl) rfl (.less rfl) (.ident rfl)
      hinfinite ⟨rfl, nofun⟩
  obtain ⟨hread, hunique⟩ := feature_forms ts
  exact ⟨hgroup, (hread 19 f).mpr hgroup, fun g hg => hunique g f hg hgroup⟩

end Grammar

end CssMedia
