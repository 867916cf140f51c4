import CssMedia.Proofs.Grammar.FeatureForm
import CssMedia.Proofs.Lexer.Places

/-!
# Where features fail

A failure in a group is about some of its lexemes, from the first of them to the last. As
lexemes stand one after another, its span is inside of the group.
-/

namespace CssMedia

/-! ## Spans of parts -/

namespace Lexeme

/-- The span is that of some lexemes that follow each other. -/
def SpansPart (eof : Nat) (ts : List Lexeme) (span : Span) : Prop :=
  ∃ us, us ≠ [] ∧ us <:+: ts ∧ span = spanOf eof us

section

variable {eof length : Nat} {ts us interior : List Lexeme} {t first close : Lexeme} {span : Span}

theorem SpansPart.mono (h : SpansPart eof us span) (hpart : us <:+: ts) : SpansPart eof ts span := by
  obtain ⟨vs, hne, hvs, hspan⟩ := h
  exact ⟨vs, hne, hvs.trans hpart, hspan⟩

theorem spansPart_self (h : ts ≠ []) : SpansPart eof ts (spanOf eof ts) :=
  ⟨ts, h, List.infix_rfl, rfl⟩

theorem spansPart_of_mem (h : t ∈ ts) : SpansPart eof ts t.span := by
  obtain ⟨before, after, rfl⟩ := List.append_of_mem h
  refine ⟨[t], List.cons_ne_nil _ _, ⟨before, after, by simp⟩, ?_⟩
  exact (Span.cover_self t.span).symm

theorem spanOf_group : spanOf eof (first :: (interior ++ [close])) = first.span.cover close.span := by
  simp [spanOf, List.getLastD_eq_getLast?]

theorem InOrder.start_le {t a : Lexeme} (h : InOrder length (t :: ts)) (ha : a ∈ t :: ts) :
    t.span.start ≤ a.span.start := by
  rcases List.mem_cons.mp ha with rfl | ha
  · exact Nat.le_refl _
  · have happart := (List.pairwise_cons.mp h.apart).1 a ha
    have hbounds := h.inside t (List.mem_cons_self ..)
    omega

theorem InOrder.le_stop {b last : Lexeme} (h : InOrder length ts) (hlast : ts.getLast? = some last)
    (hb : b ∈ ts) : b.span.stop ≤ last.span.stop := by
  obtain ⟨before, rfl⟩ := List.getLast?_eq_some_iff.mp hlast
  rcases List.mem_append.mp hb with hb | hb
  · have happart := (List.pairwise_append.mp h.apart).2.2 b hb last (List.mem_singleton_self _)
    have hbounds := h.inside last (List.mem_append_right _ (List.mem_singleton_self _))
    omega
  · obtain rfl := List.mem_singleton.mp hb
    exact Nat.le_refl _

theorem InOrder.spanOf_eq {last : Lexeme} (h : InOrder length (t :: ts))
    (hlast : (t :: ts).getLast? = some last) :
    spanOf eof (t :: ts) = ⟨t.span.start, last.span.stop⟩ := by
  have hstart := h.start_le (List.mem_of_getLast? hlast)
  have hstop := h.le_stop hlast (List.mem_cons_self ..)
  have hgetLast : ts.getLastD t = last := by
    rw [List.getLast?_cons, Option.some.injEq] at hlast
    rw [List.getLastD_eq_getLast?, hlast]
  rw [spanOf, hgetLast, Span.cover, Nat.min_eq_left hstart, Nat.max_eq_right hstop]

theorem SpansPart.exists_ends (h : SpansPart eof ts span) (horder : InOrder length ts) :
    ∃ a ∈ ts, ∃ b ∈ ts, span = ⟨a.span.start, b.span.stop⟩ ∧ a.span.start ≤ b.span.stop := by
  obtain ⟨us, hne, hpart, rfl⟩ := h
  obtain ⟨a, us, rfl⟩ := List.exists_cons_of_ne_nil hne
  obtain ⟨b, hlast⟩ : ∃ b, (a :: us).getLast? = some b := ⟨_, List.getLast?_cons⟩
  have hus := horder.sublist hpart.sublist
  have hb := List.mem_of_getLast? hlast
  refine ⟨a, hpart.subset (List.mem_cons_self ..), b, hpart.subset hb, hus.spanOf_eq hlast, ?_⟩
  exact Nat.le_trans (hus.start_le hb) (hus.inside b hb).1

theorem SpansPart.start_le_stop (h : SpansPart eof ts span) (horder : InOrder length ts) :
    span.start ≤ span.stop := by
  obtain ⟨a, -, b, -, rfl, hle⟩ := h.exists_ends horder
  exact hle

theorem SpansPart.stop_lt (h : SpansPart eof ts span) (horder : InOrder length ts) :
    span.stop < length := by
  obtain ⟨a, -, b, hb, rfl, -⟩ := h.exists_ends horder
  exact (horder.inside b hb).2

theorem SpansPart.inText (h : SpansPart eof ts span) (horder : InOrder length ts) :
    span.InText length :=
  ⟨h.start_le_stop horder, Nat.le_of_lt (h.stop_lt horder)⟩

theorem SpansPart.inside (h : SpansPart eof ts span) (horder : InOrder length ts) :
    span.Inside (spanOf eof ts) := by
  obtain ⟨a, ha, b, hb, rfl, -⟩ := h.exists_ends horder
  obtain ⟨t, ts, rfl⟩ := List.exists_cons_of_ne_nil (List.ne_nil_of_mem ha)
  rw [horder.spanOf_eq List.getLast?_cons]
  exact ⟨horder.start_le ha, horder.le_stop List.getLast?_cons hb⟩

theorem SpansPart.strictlyInside (h : SpansPart eof interior span)
    (horder : InOrder length (first :: (interior ++ [close]))) :
    span.StrictlyInside ⟨first.span.start, close.span.stop⟩ := by
  obtain ⟨hfirst, hrest⟩ := List.pairwise_cons.mp horder.apart
  have hclose := (List.pairwise_append.mp hrest).2.2
  have hinterior := horder.sublist ((List.sublist_append_left ..).trans (List.sublist_cons_self ..))
  obtain ⟨a, ha, b, hb, rfl, -⟩ := h.exists_ends hinterior
  have hstart := hfirst a (List.mem_append_left _ ha)
  have hstop := hclose b hb close (List.mem_singleton_self _)
  have hopens := horder.inside first (List.mem_cons_self ..)
  have hcloses := horder.inside close
    (List.mem_cons_of_mem _ (List.mem_append_right _ (List.mem_singleton_self _)))
  exact ⟨by show first.span.start < a.span.start; omega, by show b.span.stop < close.span.stop; omega⟩

end

end Lexeme

namespace Grammar

open Lexeme (SpansPart spansPart_self spansPart_of_mem)

variable {eof : Nat} {span : Span} {is : List Item}

/-! ## Items -/

theorem ItemForm.span_eq (eof : Nat) {us : List Lexeme} {i : Item} (h : ItemForm us i) :
    us ≠ [] ∧ i.span = Lexeme.spanOf eof us := by
  cases h with
  | lexeme t => exact ⟨List.cons_ne_nil _ _, (Span.cover_self t.span).symm⟩
  | ratio => exact ⟨List.cons_ne_nil _ _, rfl⟩

theorem spansPart_of_items {ts : List Lexeme} {i : Item} (h : i ∈ items ts) :
    SpansPart eof ts i.span := by
  cases hitems : items ts with
  | nil =>
    rw [hitems] at h
    cases h
  | cons j js =>
    obtain ⟨us, rest, hts, hform, hrest⟩ := items_eq_cons hitems
    obtain ⟨hne, hspan⟩ := hform.span_eq eof
    rw [hitems] at h
    rcases List.mem_cons.mp h with rfl | h
    · exact ⟨us, hne, hts ▸ (List.prefix_append us rest).isInfix, hspan⟩
    · have hbehind : SpansPart eof rest i.span := spansPart_of_items (hrest ▸ h)
      exact hbehind.mono (hts ▸ (List.suffix_append us rest).isInfix)
termination_by ts.length
decreasing_by
  rw [hts, List.length_append]
  have := List.length_pos_iff.mpr hne
  omega

/-! ## Features -/

def rangeKinds : List ErrorKind := [.expectComparison, .invalidRange]

def featureKinds : List ErrorKind :=
  [.emptyFeature, .expectOpenParen, .expectCloseParen, .invalidFeature, .expectValue] ++ rangeKinds

/-- One link of such a kind, about the whole group or about one of its items. -/
inductive AboutItem (kinds : List ErrorKind) (span : Span) (is : List Item) : ParseError → Prop where
  | whole {kind : ErrorKind} (hkind : kind ∈ kinds) : AboutItem kinds span is (.single kind span)
  | item {kind : ErrorKind} {i : Item} (hkind : kind ∈ kinds) (hi : i ∈ is) :
    AboutItem kinds span is (.single kind i.span)

theorem AboutItem.suffix {kinds : List ErrorKind} {js : List Item} {e : ParseError}
    (h : AboutItem kinds span js e) (hjs : js <:+ is) : AboutItem kinds span is e := by
  cases h with
  | whole hkind => exact .whole hkind
  | item hkind hi => exact .item hkind (hjs.subset hi)

theorem fails_comparison : Fails (AboutItem rangeKinds span is) (comparison span is) := by
  cases is with
  | nil => exact .error (.whole (by decide))
  | cons i rest =>
    unfold comparison
    dsimp only
    split
    · exact .ok _
    split
    · exact .ok _
    split
    · exact .ok _
    · exact .error (.item (by decide) (List.mem_cons_self ..))

theorem suffix_of_comparison {c : Comparison} {rest : List Item}
    (h : comparison span is = .ok (c, rest)) : rest <:+ is := by
  cases is with
  | nil => cases h
  | cons i js =>
    have hjs : js <:+ i :: js := List.suffix_cons i js
    by_cases hinclusive : Inclusive js
    · obtain ⟨e, after, rfl, he, hspace⟩ := hinclusive
      have hafter : after <:+ i :: .lexeme e :: after := (List.suffix_cons ..).trans hjs
      rw [comparison_inclusive span i he hspace] at h
      split at h
      · cases h
        exact hafter
      split at h
      · cases h
        exact hafter
      split at h
      · cases h
        exact hjs
      · cases h
    · rw [comparison_exclusive span i hinclusive] at h
      split at h
      · cases h
        exact hjs
      split at h
      · cases h
        exact hjs
      split at h
      · cases h
        exact hjs
      · cases h

theorem fails_lastValue : Fails (AboutItem rangeKinds span is) (lastValue span is) := by
  unfold lastValue
  split
  · split
    · exact .ok _
    · exact .error (.whole (by decide))
  · exact .error (.whole (by decide))

theorem fails_rightRange (name : String) :
    Fails (AboutItem rangeKinds span is) (rightRange span name is) := by
  refine fails_comparison.bind fun (c, rest) hc => ?_
  exact (fails_lastValue.mono fun e h => h.suffix (suffix_of_comparison hc)).bind fun _ _ => .ok _

theorem fails_leftRange (first : Value) :
    Fails (AboutItem rangeKinds span is) (leftRange span first is) := by
  refine fails_comparison.bind fun (c, rest) hc => ?_
  cases rest with
  | nil => exact .error (.whole (by decide))
  | cons i rest =>
    have hafter : rest <:+ is := (List.suffix_cons i rest).trans (suffix_of_comparison hc)
    dsimp only
    split
    · exact .error (.whole (by decide))
    · exact .ok _
    refine (fails_comparison.mono fun e h => h.suffix hafter).bind fun (d, more) hd => ?_
    have hlast := (suffix_of_comparison hd).trans hafter
    refine (fails_lastValue.mono fun e h => h.suffix hlast).bind fun _ _ => ?_
    split
    · exact .ok _
    · exact .error (.whole (by decide))

theorem fails_range : Fails (AboutItem rangeKinds span is) (range span is) := by
  unfold range
  split
  · exact .error (.whole (by decide))
  next i rest =>
  have hrest : rest <:+ i :: rest := List.suffix_cons i rest
  split
  · exact (fails_leftRange _).mono fun e h => h.suffix hrest
  · exact (fails_rightRange _).mono fun e h => h.suffix hrest
  · exact .error (.whole (by decide))

theorem fails_featureOfItems : Fails (AboutItem featureKinds span is) (featureOfItems span is) := by
  have hrange : ∀ e, AboutItem rangeKinds span is e → AboutItem featureKinds span is e := by
    have hkinds : rangeKinds ⊆ featureKinds := by decide
    rintro _ (hkind | ⟨hkind, hi⟩)
    · exact .whole (hkinds hkind)
    · exact .item (hkinds hkind) hi
  unfold featureOfItems
  split
  · split
    · exact .ok _
    · exact .error (.whole (by decide))
  · split
    · split
      · exact .error (.whole (by decide))
      · exact .error (.item (by decide) (by simp))
      · exact .ok _
    · exact fails_range.mono hrange
  · exact fails_range.mono hrange
  · exact .error (.whole (by decide))

theorem fails_feature {ts : List Lexeme} (hts : ts ≠ []) :
    Fails (fun e => ∃ kind ∈ featureKinds, ∃ span, SpansPart eof ts span ∧ e = .single kind span)
      (feature eof ts) := by
  obtain ⟨first, rest, rfl⟩ := List.exists_cons_of_ne_nil hts
  have hwhole : SpansPart eof (first :: rest) (Lexeme.spanOf eof (first :: rest)) := spansPart_self hts
  unfold feature
  dsimp only
  split
  · exact .error ⟨_, by decide, _, spansPart_of_mem (List.mem_cons_self ..), rfl⟩
  split
  · exact .error ⟨_, by decide, _, hwhole, rfl⟩
  split
  · exact .error ⟨_, by decide, _, hwhole, rfl⟩
  split
  · exact .error ⟨_, by decide, _, hwhole, rfl⟩
  · refine fails_featureOfItems.mono ?_
    rintro _ (hkind | ⟨hkind, hi⟩)
    · exact ⟨_, hkind, _, hwhole, rfl⟩
    · refine ⟨_, hkind, _, (spansPart_of_items hi).mono ?_, rfl⟩
      exact (List.dropLast_prefix rest).isInfix.trans (List.suffix_cons first rest).isInfix

theorem failsWith_feature (eof : Nat) (ts : List Lexeme) : FailsWith featureKinds (feature eof ts) := by
  by_cases hts : ts = []
  · subst hts
    exact .single (by decide) _
  · refine (fails_feature hts).mono ?_
    rintro _ ⟨kind, hkind, span, -, rfl⟩
    exact ⟨rfl, hkind⟩

end Grammar

end CssMedia
