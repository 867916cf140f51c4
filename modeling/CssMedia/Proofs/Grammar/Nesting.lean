import CssMedia.Proofs.Grammar.Segments

/-!
# Lists of lexemes with nested brackets

The cuts between the members of a list lose nothing. Where the brackets of the list are nested in
pairs, the cuts are at the commas that no pair encloses, and the brackets of each member are nested too.
-/

namespace CssMedia.Grammar

/-- The brackets in some lexemes stand in pairs, where `inside` is the innermost bracket around them.
A brace that closes none is an ordinary lexeme, as no lexeme of a media query opens one. -/
inductive Nested : Option Bracket → List Lexeme → Prop where
  | nil {inside : Option Bracket} : Nested inside []
  | other {inside : Option Bracket} {t : Lexeme} {ts : List Lexeme}
    (opens : Bracket.openedBy? t.kind = none)
    (closes : Bracket.closedBy? t.kind = none ∨ t.kind = .closeBrace ∧ inside ≠ some .brace)
    (rest : Nested inside ts) : Nested inside (t :: ts)
  | pair {inside : Option Bracket} {b : Bracket} {first last : Lexeme} {ts rest : List Lexeme}
    (opens : Bracket.openedBy? first.kind = some b) (interior : Nested (some b) ts)
    (closes : Bracket.closedBy? last.kind = some b) (after : Nested inside rest) :
    Nested inside (first :: (ts ++ last :: rest))

/-- The lexeme at `i` is between two brackets that are a pair. -/
def Enclosed (ts : List Lexeme) (i : Nat) : Prop :=
  ∃ before first interior last after b, ts = before ++ first :: (interior ++ last :: after) ∧
    Bracket.openedBy? first.kind = some b ∧ Nested (some b) interior ∧
    Bracket.closedBy? last.kind = some b ∧
    before.length < i ∧ i ≤ before.length + interior.length

theorem Enclosed.append {ts : List Lexeme} {i : Nat} (h : Enclosed ts i) (us : List Lexeme) :
    Enclosed (us ++ ts) (us.length + i) := by
  obtain ⟨before, first, interior, last, after, b, rfl, hfirst, hinterior, hlast, hlt, hle⟩ := h
  refine ⟨us ++ before, first, interior, last, after, b, (List.append_assoc ..).symm, hfirst,
    hinterior, hlast, ?_, ?_⟩
  · rw [List.length_append]
    omega
  · rw [List.length_append]
    omega

/-! ## One lexeme -/

theorem nest_opens {kind : TokenKind} {b : Bracket} (h : Bracket.openedBy? kind = some b)
    (stack : List Bracket) : nest stack kind = b :: stack := by
  unfold nest
  rw [h]

theorem openedBy?_of_closes {kind : TokenKind} {b : Bracket} (h : Bracket.closedBy? kind = some b) :
    Bracket.openedBy? kind = none := by
  cases kind <;> first | rfl | cases h

theorem nest_closes {kind : TokenKind} {b : Bracket} (h : Bracket.closedBy? kind = some b)
    (stack : List Bracket) : nest (b :: stack) kind = stack := by
  unfold nest
  rw [openedBy?_of_closes h, h]
  exact if_pos rfl

theorem nest_other {kind : TokenKind} {stack : List Bracket} (hopens : Bracket.openedBy? kind = none)
    (hcloses : Bracket.closedBy? kind = none ∨ kind = .closeBrace ∧ stack.head? ≠ some .brace) :
    nest stack kind = stack := by
  rcases hcloses with hcloses | ⟨rfl, hhead⟩
  · unfold nest
    rw [hopens, hcloses]
  · cases stack with
    | nil => rfl
    | cons top below => exact if_neg fun h => hhead (congrArg some h)

/-! ## All lexemes -/

theorem Nested.bracketsAfter_eq {inside : Option Bracket} {ts : List Lexeme} (h : Nested inside ts) :
    ∀ {stack : List Bracket}, stack.head? = inside → bracketsAfter stack ts = stack := by
  induction h with
  | nil => exact fun _ => rfl
  | other opens closes rest ih =>
    rintro stack rfl
    rw [bracketsAfter_cons, nest_other opens closes, ih rfl]
  | pair opens interior closes after ihInterior ihAfter =>
    intro stack hstack
    rw [bracketsAfter_cons, nest_opens opens, bracketsAfter_append, ihInterior rfl,
      bracketsAfter_cons, nest_closes closes, ihAfter hstack]

/-! ## A pair of brackets -/

section Pair

variable {b : Bracket} {first last : Lexeme} {ts : List Lexeme}

theorem bracketsAfter_take_interior (opens : Bracket.openedBy? first.kind = some b)
    {i : Nat} (hi : i ≤ ts.length) (stack : List Bracket) (more : List Lexeme) :
    bracketsAfter stack ((first :: (ts ++ more)).take (i + 1)) =
      bracketsAfter (b :: stack) (ts.take i) := by
  rw [List.take_succ_cons, bracketsAfter_cons, nest_opens opens,
    List.take_append_of_le_length hi]

theorem Nested.bracketsAfter_pair (opens : Bracket.openedBy? first.kind = some b)
    (interior : Nested (some b) ts) (closes : Bracket.closedBy? last.kind = some b)
    (stack : List Bracket) (rest : List Lexeme) :
    bracketsAfter stack (first :: (ts ++ last :: rest)) = bracketsAfter stack rest := by
  rw [bracketsAfter_cons, nest_opens opens, bracketsAfter_append, interior.bracketsAfter_eq rfl,
    bracketsAfter_cons, nest_closes closes]

theorem take_pair (first last : Lexeme) (ts rest : List Lexeme) (i : Nat) :
    (first :: (ts ++ last :: rest)).take (ts.length + i + 1 + 1) =
      first :: (ts ++ last :: rest.take i) := by
  rw [List.take_succ_cons, Nat.add_assoc, List.take_length_add_append, List.take_succ_cons]

end Pair

/-! ## Places in the lexemes -/

theorem Nested.suffix_bracketsAfter {inside : Option Bracket} {ts : List Lexeme}
    (h : Nested inside ts) : ∀ {stack : List Bracket}, stack.head? = inside →
      ∀ i, stack <:+ bracketsAfter stack (ts.take i) := by
  induction h with
  | nil =>
    intro stack _ i
    rw [List.take_nil]
    exact List.suffix_refl stack
  | other opens closes rest ih =>
    rintro stack rfl i
    cases i with
    | zero => exact List.suffix_refl stack
    | succ i =>
      rw [List.take_succ_cons, bracketsAfter_cons, nest_other opens closes]
      exact ih rfl i
  | @pair inside b first last ts rest opens interior closes after ihInterior ihAfter =>
    intro stack hstack i
    cases i with
    | zero => exact List.suffix_refl stack
    | succ i =>
      rcases Nat.lt_or_ge ts.length i with hlt | hle
      · obtain ⟨k, rfl⟩ := Nat.exists_eq_add_of_lt hlt
        rw [take_pair, interior.bracketsAfter_pair opens closes]
        exact ihAfter hstack k
      · rw [bracketsAfter_take_interior opens hle]
        exact (List.suffix_cons b stack).trans (ihInterior rfl i)

theorem Enclosed.openBrackets_ne_nil {ts : List Lexeme} {i : Nat} (h : Enclosed ts i) :
    openBrackets (ts.take i) ≠ [] := by
  obtain ⟨before, first, interior, last, after, b, rfl, hfirst, hinterior, -, hlt, hle⟩ := h
  obtain ⟨k, rfl⟩ := Nat.exists_eq_add_of_lt hlt
  have hk : k ≤ interior.length := by omega
  rw [Nat.add_assoc, List.take_length_add_append, openBrackets, bracketsAfter_append,
    bracketsAfter_take_interior hfirst hk]
  intro hnil
  have hsuffix : b :: bracketsAfter [] before <:+
      bracketsAfter (b :: bracketsAfter [] before) (interior.take k) :=
    hinterior.suffix_bracketsAfter rfl k
  rw [hnil] at hsuffix
  exact List.cons_ne_nil _ _ (List.suffix_nil.mp hsuffix)

theorem Nested.bracketsAfter_or_enclosed {inside : Option Bracket} {ts : List Lexeme}
    (h : Nested inside ts) : ∀ {stack : List Bracket}, stack.head? = inside →
      ∀ {i}, ts[i]?.map (·.kind) = some .comma →
        bracketsAfter stack (ts.take i) = stack ∨ Enclosed ts i := by
  induction h with
  | nil => exact fun _ _ h => nomatch h
  | @other inside t ts opens closes rest ih =>
    rintro stack rfl i hcomma
    cases i with
    | zero => exact .inl rfl
    | succ i =>
      rw [List.take_succ_cons, bracketsAfter_cons, nest_other opens closes]
      refine (ih rfl hcomma).imp_right fun henclosed => ?_
      rw [Nat.add_comm]
      exact henclosed.append [t]
  | @pair inside b first last ts rest opens interior closes after ihInterior ihAfter =>
    intro stack hstack i hcomma
    cases i with
    | zero => exact .inl rfl
    | succ i =>
      rw [List.getElem?_cons_succ] at hcomma
      rcases Nat.lt_trichotomy i ts.length with hlt | rfl | hgt
      · exact .inr ⟨[], first, ts, last, rest, b, rfl, opens, interior, closes, Nat.succ_pos i,
          by rw [List.length_nil]; omega⟩
      · rw [List.getElem?_append_right (Nat.le_refl _), Nat.sub_self] at hcomma
        have hlast : last.kind = .comma := Option.some.inj hcomma
        rw [hlast] at closes
        cases closes
      · obtain ⟨k, rfl⟩ := Nat.exists_eq_add_of_lt hgt
        rw [Nat.add_assoc, List.getElem?_append_right (Nat.le_add_right ..),
          Nat.add_sub_cancel_left, List.getElem?_cons_succ] at hcomma
        rw [take_pair, interior.bracketsAfter_pair opens closes]
        refine (ihAfter hstack hcomma).imp_right fun henclosed => ?_
        have hplace := henclosed.append (first :: (ts ++ [last]))
        simpa [Nat.add_assoc, Nat.add_comm, Nat.add_left_comm] using hplace

/-! ## Parentheses -/

theorem opensParen_iff {kind : TokenKind} :
    kind.opensParen = true ↔ Bracket.openedBy? kind = some .paren := by
  cases kind <;> simp [TokenKind.opensParen, Bracket.openedBy?]

theorem closeParen_iff {kind : TokenKind} :
    kind = .closeParen ↔ Bracket.closedBy? kind = some .paren := by
  cases kind <;> simp [Bracket.closedBy?]

theorem cutAtClose_cons_other {t : Lexeme} (hopens : Bracket.openedBy? t.kind ≠ some .paren)
    (hcloses : Bracket.closedBy? t.kind ≠ some .paren) (depth : Nat) (ts : List Lexeme) :
    cutAtClose depth (t :: ts) = behind [t] (cutAtClose depth ts) := by
  rw [ne_eq, ← opensParen_iff] at hopens
  rw [ne_eq, ← closeParen_iff] at hcloses
  rw [cutAtClose_cons fun h => hcloses h.1, if_neg hcloses, if_neg hopens]

theorem Nested.cutAtClose_append {inside : Option Bracket} {ts : List Lexeme}
    (h : Nested inside ts) : ∀ (depth : Nat) (more : List Lexeme),
      cutAtClose depth (ts ++ more) = behind ts (cutAtClose depth more) := by
  induction h with
  | nil => exact Balanced.nil.close
  | @other inside t ts opens closes rest ih =>
    intro depth more
    have hcloses : Bracket.closedBy? t.kind ≠ some .paren := by
      rcases closes with closes | ⟨closes, -⟩
      · rw [closes]; nofun
      · rw [closes]; nofun
    rw [List.cons_append, cutAtClose_cons_other (by rw [opens]; nofun) hcloses, ih, behind_append,
      List.singleton_append]
  | @pair inside b first last ts rest opens interior closes after ihInterior ihAfter =>
    intro depth more
    have hfirst : Bracket.closedBy? first.kind ≠ some .paren := by
      intro hclosed
      rw [openedBy?_of_closes hclosed] at opens
      cases opens
    have hlast : Bracket.openedBy? last.kind ≠ some .paren := by
      rw [openedBy?_of_closes closes]
      nofun
    rw [List.cons_append, List.append_assoc, List.cons_append]
    by_cases hparen : b = .paren
    · subst hparen
      have hclosed := mt closeParen_iff.mp hfirst
      rw [cutAtClose_cons fun h => hclosed h.1, if_neg hclosed, if_pos (opensParen_iff.mpr opens),
        ihInterior, cutAtClose_cons fun h => Nat.succ_ne_zero depth h.2,
        if_pos (closeParen_iff.mpr closes), Nat.succ_sub_one, ihAfter, behind_append,
        behind_append, behind_append]
      simp
    · have hother : some b ≠ some .paren := fun h => hparen (Option.some.inj h)
      rw [cutAtClose_cons_other (opens ▸ hother) hfirst, ihInterior,
        cutAtClose_cons_other hlast (closes ▸ hother), ihAfter, behind_append, behind_append,
        behind_append]
      simp

/-- The parenthesis that is found for an opening one is the one that it is a pair with. -/
theorem Nested.cutAtClose_eq {ts : List Lexeme} (h : Nested (some .paren) ts) {last : Lexeme}
    (hlast : last.kind = .closeParen) (rest : List Lexeme) :
    cutAtClose 0 (ts ++ last :: rest) = some (ts, last, rest) := by
  rw [h.cutAtClose_append, cutAtClose, if_pos ⟨hlast, rfl⟩, behind]
  simp

/-! ## Members -/

theorem Nested.of_append_comma {inside : Option Bracket} {ts : List Lexeme} (h : Nested inside ts) :
    ∀ {stack : List Bracket}, stack.head? = inside → ∀ {before after : List Lexeme} {comma : Lexeme},
      ts = before ++ comma :: after → comma.kind = .comma → bracketsAfter stack before = stack →
        Nested inside before ∧ Nested inside after := by
  induction h with
  | nil =>
    intro _ _ before after comma hts
    exact absurd hts (by simp)
  | @other inside t ts opens closes rest ih =>
    rintro stack rfl before after comma hts hcomma hopen
    cases before with
    | nil =>
      obtain ⟨-, rfl⟩ := List.cons.inj hts
      exact ⟨.nil, rest⟩
    | cons u before =>
      rw [List.cons_append] at hts
      obtain ⟨rfl, htail⟩ := List.cons.inj hts
      rw [bracketsAfter_cons, nest_other opens closes] at hopen
      obtain ⟨hbefore, hafter⟩ := ih rfl htail hcomma hopen
      exact ⟨.other opens closes hbefore, hafter⟩
  | @pair inside b first last ts rest opens interior closes after ihInterior ihAfter =>
    intro stack hstack before behind comma hts hcomma hopen
    cases before with
    | nil =>
      obtain ⟨rfl, -⟩ := List.cons.inj hts
      rw [hcomma] at opens
      cases opens
    | cons u before =>
      rw [List.cons_append] at hts
      obtain ⟨rfl, htail⟩ := List.cons.inj hts
      rcases List.append_eq_append_iff.mp htail with ⟨more, rfl, hmore⟩ | ⟨more, rfl, -⟩
      · cases more with
        | nil =>
          obtain ⟨rfl, -⟩ := List.cons.inj hmore
          rw [hcomma] at closes
          cases closes
        | cons v more =>
          rw [List.cons_append] at hmore
          obtain ⟨rfl, hrest⟩ := List.cons.inj hmore
          rw [interior.bracketsAfter_pair opens closes] at hopen
          obtain ⟨hbefore, hbehind⟩ := ihAfter hstack hrest hcomma hopen
          exact ⟨.pair opens interior closes hbefore, hbehind⟩
      · -- The cut would be between the two brackets, where the first of them is open.
        have hsuffix : b :: stack <:+
            bracketsAfter (b :: stack) ((before ++ more).take before.length) :=
          interior.suffix_bracketsAfter rfl before.length
        rw [bracketsAfter_cons, nest_opens opens] at hopen
        rw [List.take_left, hopen] at hsuffix
        exact absurd hsuffix.length_le (by simp)

theorem Nested.of_mem_segments {ts : List Lexeme} (h : Nested none ts) :
    ∀ us ∈ segments ts, Nested none us := by
  cases hcut : cutAtComma [] ts with
  | none =>
    rw [segments_of_none hcut]
    exact List.forall_mem_singleton.mpr h
  | some cut =>
    obtain ⟨before, comma, after⟩ := cut
    obtain ⟨hcomma, hopen, -⟩ := cutAtComma_first hcut
    obtain ⟨hbefore, hafter⟩ := h.of_append_comma rfl (eq_of_cutAtComma hcut) hcomma hopen
    rw [segments_of_some hcut]
    exact List.forall_mem_cons.mpr ⟨hbefore, hafter.of_mem_segments⟩
termination_by ts.length
decreasing_by
  have := length_of_cutAtComma hcut
  omega

/-- The segments with commas between them. -/
def rejoin : List (List Lexeme) → List Lexeme → List Lexeme
  | us :: rest, comma :: commas => us ++ comma :: rejoin rest commas
  | [us], [] => us
  | _, _ => []

theorem rejoin_segments (ts : List Lexeme) :
    rejoin (segments ts) ((topCommas ts).filterMap (ts[·]?)) = ts := by
  cases hcut : cutAtComma [] ts with
  | none => rw [segments_of_none hcut, topCommas_eq_nil_iff.mpr hcut, List.filterMap_nil, rejoin]
  | some cut =>
    obtain ⟨before, comma, after⟩ := cut
    have hts := eq_of_cutAtComma hcut
    have hcommas : (topCommas ts).filterMap (ts[·]?) =
        comma :: (topCommas after).filterMap (after[·]?) := by
      have hhere : ts[before.length]? = some comma := by
        rw [hts, List.getElem?_append_right (Nat.le_refl _), Nat.sub_self, List.getElem?_cons_zero]
      have hafter : ∀ i, ts[before.length + 1 + i]? = after[i]? := by
        intro i
        rw [hts, Nat.add_assoc, List.getElem?_append_right (Nat.le_add_right ..),
          Nat.add_sub_cancel_left, Nat.add_comm 1, List.getElem?_cons_succ]
      rw [topCommas_of_some hcut, List.filterMap_cons_some hhere, List.filterMap_map]
      simp only [Function.comp_def, hafter]
    rw [segments_of_some hcut, hcommas, rejoin, rejoin_segments after, hts]
termination_by ts.length
decreasing_by
  have := length_of_cutAtComma hcut
  omega

theorem length_segments (ts : List Lexeme) :
    (segments ts).length = (topCommas ts).length + 1 := by
  rw [segments_eq_stretches]
  generalize topCommas ts = is
  generalize 0 = start
  induction is generalizing start with
  | nil => rfl
  | cons i is ih => rw [stretches, List.length_cons, ih, List.length_cons]

theorem head?_topCommas (ts : List Lexeme) :
    (topCommas ts).head? = (cutAtComma [] ts).map (·.1.length) := by
  cases hcut : cutAtComma [] ts with
  | none => rw [topCommas_eq_nil_iff.mpr hcut]; rfl
  | some cut =>
    obtain ⟨before, comma, after⟩ := cut
    rw [topCommas_of_some hcut]
    rfl

theorem mem_topCommas {ts : List Lexeme} {i : Nat} : i ∈ topCommas ts ↔ IsTopComma [] ts i := by
  rw [topCommas, List.mem_filter, List.mem_range, decide_eq_true_eq, and_iff_right_iff_imp]
  intro h
  obtain ⟨t, ht, -⟩ := Option.map_eq_some_iff.mp h.1
  exact (List.getElem?_eq_some_iff.mp ht).1

theorem Nested.mem_topCommas_iff {ts : List Lexeme} (h : Nested none ts) (i : Nat) :
    i ∈ topCommas ts ↔ ts[i]?.map (·.kind) = some .comma ∧ ¬ Enclosed ts i := by
  rw [mem_topCommas]
  refine and_congr_right fun hcomma => ?_
  constructor
  · exact fun hopen henclosed => henclosed.openBrackets_ne_nil hopen
  · exact fun hnot => (h.bracketsAfter_or_enclosed rfl hcomma).resolve_right hnot

/-- The segments lie between the cuts, which lose nothing. The first cut is where a query stops, and
where the brackets are nested the cuts are at the commas outside all pairs. -/
theorem segments_spec (ts : List Lexeme) :
    segments ts = stretches ts 0 (topCommas ts) ∧
      rejoin (segments ts) ((topCommas ts).filterMap (ts[·]?)) = ts ∧
      (segments ts).length = (topCommas ts).length + 1 ∧
      (cutAtComma [] ts).map (·.1.length) = (topCommas ts).head? ∧
      (Nested none ts →
        (∀ i, i ∈ topCommas ts ↔ ts[i]?.map (·.kind) = some .comma ∧ ¬ Enclosed ts i) ∧
          ∀ us ∈ segments ts, Nested none us) :=
  ⟨segments_eq_stretches ts, rejoin_segments ts, length_segments ts, (head?_topCommas ts).symm,
    fun h => ⟨h.mem_topCommas_iff, h.of_mem_segments⟩⟩

/-- Commas inside parentheses and brackets do not cut `f(a, b), [,]`. -/
theorem segments_spec_function :
    let lexeme (kind : TokenKind) : Lexeme := ⟨kind, ⟨0, 0⟩, false⟩
    let arguments := [.ident "a", .comma, .ident "b"].map lexeme
    let ts := lexeme (.function "f") :: (arguments ++ lexeme .closeParen ::
      [.comma, .openBracket, .comma, .closeBracket].map lexeme)
    topCommas ts = [5] ∧ ¬ Enclosed ts 5 ∧ Enclosed ts 2 ∧ Enclosed ts 7 := by
  intro lexeme arguments ts
  have hplain : ∀ {inside : Option Bracket} {ts : List Lexeme}, Nested inside ts →
      Nested inside (lexeme .comma :: ts) := fun h => .other rfl (.inl rfl) h
  have hnested : Nested none ts :=
    .pair rfl (.other rfl (.inl rfl) (hplain (.other rfl (.inl rfl) .nil))) rfl
      (hplain (.pair rfl (hplain .nil) rfl .nil))
  obtain ⟨-, -, -, -, hspec⟩ := segments_spec ts
  obtain ⟨hcommas, -⟩ := hspec hnested
  have htop : topCommas ts = [5] := by decide
  rw [htop] at hcommas
  have henclosed : ∀ i, ts[i]?.map (·.kind) = some .comma → i ≠ 5 → Enclosed ts i := by
    intro i hcomma hi
    refine Classical.byContradiction fun hnot => hi ?_
    exact List.mem_singleton.mp ((hcommas i).mpr ⟨hcomma, hnot⟩)
  exact ⟨htop, ((hcommas 5).mp (List.mem_singleton.mpr rfl)).2, henclosed 2 rfl (by decide),
    henclosed 7 rfl (by decide)⟩

end CssMedia.Grammar
