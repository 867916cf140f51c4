import CssMedia.Proofs.Grammar.FeatureForm
import CssMedia.Proofs.Grammar.Seen
import CssMedia.Proofs.Results

/-!
# What the grammar sees of a feature

A ratio is one item of three lexemes, and a space before an `=` matters after the item in front
of it. So items are seen as lexemes are, and each reader of items gives the same of what is seen.
-/

namespace CssMedia

/-- An `=` right behind it would make it another comparison. -/
def Comparison.isStrict : Comparison → Bool
  | .less | .greater => true
  | .lessOrEqual | .greaterOrEqual | .equal => false

namespace Grammar

open Lexeme (seenAll)

variable {move : Span → Span} {joins : Bool} {eof eof' : Nat}

/-! ## Items -/

namespace Item

def mayJoin (i : Item) : Bool := i.isDelim '<' || i.isDelim '>'

def seen (move : Span → Span) (joins : Bool) : Item → Item
  | .lexeme t => .lexeme (t.seen move joins)
  | .ratio n d span => .ratio n d (move span)

section

variable (i : Item)

@[simp] theorem span_seen : (i.seen move joins).span = move i.span := by
  cases i <;> rfl

@[simp] theorem isDelim_seen (c : Char) : (i.seen move joins).isDelim c = i.isDelim c := by
  cases i with
  | lexeme t => exact t.isDelim_seen c
  | ratio => rfl

@[simp] theorem mayJoin_seen : (i.seen move joins).mayJoin = i.mayJoin := by
  simp only [mayJoin, isDelim_seen]

@[simp] theorem ident?_seen : (i.seen move joins).ident? = i.ident? := by
  cases i with
  | lexeme t => exact t.ident?_seen
  | ratio => rfl

@[simp] theorem isColon_seen : (i.seen move joins).isColon = i.isColon := by
  cases i with
  | lexeme t =>
    rw [seen, isColon, isColon, Lexeme.kind_seen]
    cases t.kind <;> rfl
  | ratio => rfl

@[simp] theorem value?_seen : (i.seen move joins).value? = i.value? := by
  cases i with
  | lexeme t =>
    rw [seen, value?, value?, Lexeme.kind_seen]
    cases t.kind <;> rfl
  | ratio => rfl

@[simp] theorem rangeValue?_seen : (i.seen move joins).rangeValue? = i.rangeValue? := by
  rw [rangeValue?, value?_seen, rangeValue?]

end

end Item

def seenItems (move : Span → Span) (joins : Bool) : List Item → List Item
  | [] => []
  | i :: is => i.seen move joins :: seenItems move i.mayJoin is

/-! ## Ratios -/

theorem positiveNumber?_seen (t : Lexeme) :
    positiveNumber? (t.seen move joins) = positiveNumber? t := by
  rw [positiveNumber?, positiveNumber?, Lexeme.kind_seen]
  cases t.kind <;> rfl

theorem ratio?_seen (h : Moves move eof eof') (joins : Bool) (ts : List Lexeme) :
    ratio? (seenAll move joins ts) = (ratio? ts).map (Item.seen move false) := by
  match ts with
  | [] | [_] | [_, _] => rfl
  | a :: slash :: b :: rest =>
    simp only [seenAll, ratio?, positiveNumber?_seen, Lexeme.isDelim_seen, Lexeme.span_seen,
      ← h.cover]
    split
    · split <;> rfl
    · rfl

theorem items_of_ratio {t : Lexeme} {ts : List Lexeme} {ratio : Item}
    (h : ratio? (t :: ts) = some ratio) : items (t :: ts) = ratio :: items (ts.drop 2) := by
  rw [items, h]

theorem items_of_not_ratio {t : Lexeme} {ts : List Lexeme} (h : ratio? (t :: ts) = none) :
    items (t :: ts) = .lexeme t :: items ts := by
  rw [items, h]

theorem items_seen (h : Moves move eof eof') (joins : Bool) (ts : List Lexeme) :
    items (seenAll move joins ts) = seenItems move joins (items ts) := by
  cases ts with
  | nil => simp [seenAll, items, seenItems]
  | cons t ts =>
    have hseen := ratio?_seen h joins (t :: ts)
    cases hratio : ratio? (t :: ts) with
    | none =>
      rw [hratio] at hseen
      rw [seenAll, items_of_not_ratio hseen, items_of_not_ratio hratio, items_seen h]
      rfl
    | some ratio =>
      rw [hratio] at hseen
      rw [seenAll, items_of_ratio hseen, items_of_ratio hratio]
      obtain ⟨a, slash, b, rest, heq, hform⟩ := ratio?_eq_some hratio
      cases heq
      cases hform with
      | ratio ha hn hslash hb hd =>
        -- The lexeme before what is left is a number.
        have hb' : b.mayJoin = false := Lexeme.mayJoin_of_not_delim (by simp [hb])
        exact congrArg _ ((items_seen h b.mayJoin rest).trans (by rw [hb']; rfl))
termination_by ts.length

/-! ## Comparisons -/

theorem inclusive_seen {is : List Item} : Inclusive (seenItems move true is) ↔ Inclusive is := by
  constructor
  · rintro ⟨e, after, heq, he, hspace⟩
    rcases is with _ | ⟨i, is⟩
    · cases heq
    cases i with
    | ratio => cases heq
    | lexeme t =>
      cases heq
      have ht : t.isDelim '=' := by rw [← t.isDelim_seen]; exact beq_iff_eq.mpr he
      exact ⟨t, is, rfl, beq_iff_eq.mp ht, by simpa [Lexeme.seen, ht] using hspace⟩
  · rintro ⟨e, after, rfl, he, hspace⟩
    have he' : (e.seen move true).kind = .delim '=' := by rw [Lexeme.kind_seen, he]; rfl
    exact ⟨e.seen move true, _, rfl, he', by simp [Lexeme.seen, hspace]⟩

section

variable {i : Item}

theorem comparison_of_not_mayJoin (span : Span) (h : i.mayJoin = false) (rest : List Item) :
    comparison span (i :: rest) =
      if i.isDelim '=' then .ok (.equal, rest)
      else .error (.single .expectComparison i.span) := by
  rw [Item.mayJoin, Bool.or_eq_false_iff] at h
  simp [comparison, h.1, h.2]

theorem ite_mayJoin {α : Type} (h : i.mayJoin) (less greater other : α) :
    (if i.isDelim '<' then less else if i.isDelim '>' then greater else other) =
      if i.isDelim '<' then less else greater := by
  by_cases hless : i.isDelim '<'
  · rw [if_pos hless, if_pos hless]
  · have hgreater : i.isDelim '>' := by simpa [Item.mayJoin, hless] using h
    rw [if_neg hless, if_pos hgreater, if_neg hless]

end

theorem comparison_seen (move : Span → Span) (joins : Bool) (span : Span) (is : List Item) :
    comparison (move span) (seenItems move joins is) =
      ((comparison span is).map fun (c, rest) => (c, seenItems move c.isStrict rest)).mapError
        (·.moved move) := by
  rcases is with _ | ⟨i, rest⟩
  · rfl
  rw [seenItems]
  -- Whether an `=` has a space in front counts only after a `<` or `>`, and there it is still seen.
  cases hjoin : i.mayJoin with
  | false =>
    have hjoin' : (i.seen move joins).mayJoin = false := i.mayJoin_seen.trans hjoin
    rw [comparison_of_not_mayJoin _ hjoin', comparison_of_not_mayJoin _ hjoin, Item.isDelim_seen,
      Item.span_seen]
    split <;> rfl
  | true =>
    have hjoin' : (i.seen move joins).mayJoin := i.mayJoin_seen.trans hjoin
    by_cases hinclusive : Inclusive rest
    · obtain ⟨e, after, rfl, he, hspace⟩ := hinclusive
      have he' : (e.seen move true).kind = .delim '=' := by rw [Lexeme.kind_seen, he]; rfl
      have hspace' : (e.seen move true).afterSpace = false := by simp [Lexeme.seen, hspace]
      have hequal : (Item.lexeme e).mayJoin = false := by
        simp [Item.mayJoin, Item.isDelim, Lexeme.isDelim, he]
      rw [seenItems, hequal, Item.seen, comparison_inclusive _ _ he' hspace', ite_mayJoin hjoin',
        comparison_inclusive _ _ he hspace, ite_mayJoin hjoin, Item.isDelim_seen]
      split <;> rfl
    · have hseen : ¬ Inclusive (seenItems move true rest) := by rwa [inclusive_seen]
      rw [comparison_exclusive _ _ hseen, ite_mayJoin hjoin', comparison_exclusive _ _ hinclusive,
        ite_mayJoin hjoin, Item.isDelim_seen]
      split <;> rfl

/-! ## Ranges -/

theorem lastValue_seen (span : Span) (is : List Item) :
    lastValue (move span) (seenItems move joins is) =
      (lastValue span is).mapError (·.moved move) := by
  match is with
  | [] | _ :: _ :: _ => rfl
  | [i] =>
    simp only [seenItems, lastValue, Item.rangeValue?_seen]
    split <;> rfl

theorem rightRange_seen (span : Span) (name : String) (is : List Item) :
    rightRange (move span) name (seenItems move joins is) =
      (rightRange span name is).mapError (·.moved move) := by
  unfold rightRange
  rw [comparison_seen]
  cases comparison span is with
  | error e => rfl
  | ok p =>
    show lastValue (move span) (seenItems move _ p.2) >>= _ = (lastValue span p.2 >>= _).mapError _
    rw [lastValue_seen, mapError_bind]
    rfl

theorem leftRange_seen (span : Span) (first : Value) (is : List Item) :
    leftRange (move span) first (seenItems move joins is) =
      (leftRange span first is).mapError (·.moved move) := by
  unfold leftRange
  rw [comparison_seen]
  cases comparison span is with
  | error e => rfl
  | ok p =>
    obtain ⟨c, rest⟩ := p
    rcases rest with _ | ⟨i, rest⟩
    · rfl
    dsimp only [bind, Except.bind, Except.map, Except.mapError, seenItems]
    rw [Item.ident?_seen]
    cases hname : i.ident? with
    | none => rfl
    | some name =>
      rcases rest with _ | ⟨j, rest⟩
      · rfl
      have hsecond := comparison_seen move i.mayJoin span (j :: rest)
      rw [seenItems] at hsecond ⊢
      dsimp only
      rw [hsecond]
      cases comparison span (j :: rest) with
      | error e => rfl
      | ok p =>
        dsimp only [Except.map, Except.mapError]
        rw [lastValue_seen]
        cases lastValue span p.2 with
        | error e => rfl
        | ok last =>
          dsimp only [Except.mapError]
          split <;> rfl

theorem range_seen (move : Span → Span) (joins : Bool) (span : Span) (is : List Item) :
    range (move span) (seenItems move joins is) = (range span is).mapError (·.moved move) := by
  cases is with
  | nil => rfl
  | cons i rest =>
    simp only [seenItems, range, Item.rangeValue?_seen, Item.ident?_seen]
    split
    · exact leftRange_seen ..
    · exact rightRange_seen ..
    · rfl

/-! ## All forms -/

theorem featureOfItems_seen (span : Span) (is : List Item) :
    featureOfItems (move span) (seenItems move joins is) =
      (featureOfItems span is).mapError (·.moved move) := by
  have hrange := range_seen move joins span is
  match is with
  | [] | [_, _] => rfl
  | [i] =>
    simp only [seenItems, featureOfItems, Item.ident?_seen]
    split <;> rfl
  | [i, colon, v] =>
    simp only [seenItems] at hrange
    simp only [seenItems, featureOfItems, Item.isColon_seen, Item.ident?_seen, Item.value?_seen,
      Item.span_seen, hrange]
    split
    · split <;> rfl
    · rfl
  | _ :: _ :: _ :: _ :: _ => exact hrange

theorem isBracket_seen (kind : TokenKind) : isBracket kind.seen = isBracket kind := by
  cases kind <;> rfl

theorem feature_seen (h : Moves move eof eof') (ts : List Lexeme) :
    feature eof' (seenAll move joins ts) = (feature eof ts).mapError (·.moved move) := by
  cases ts with
  | nil =>
    rw [seenAll, feature, ← h.stop]
    rfl
  | cons first rest =>
    have hspan := Lexeme.spanOf_seenAll h joins (first :: rest)
    have hopen : first.kind.seen = .openParen ↔ first.kind = .openParen :=
      TokenKind.seen_eq_iff (by simp)
    rw [seenAll] at hspan ⊢
    simp only [feature, Lexeme.kind_seen, Lexeme.span_seen, ne_eq, hopen, hspan,
      Lexeme.getLast?_seenAll_eq_closeParen, Lexeme.dropLast_seenAll, Lexeme.seenAll_eq_nil_iff,
      Lexeme.any_seenAll isBracket_seen, items_seen h, featureOfItems_seen]
    split
    · rfl
    split
    · rfl
    split
    · rfl
    split <;> rfl

end Grammar

end CssMedia
