import CssMedia.Proofs.EntryPoints

/-!
# Where the errors of members are

The error of a member of a list stays between the start of the member and the comma behind it. It
is past that comma for one form of member only: one that ends in `and not`.
-/

namespace CssMedia

namespace Grammar

open Lexeme (SpansPart)

/-- The stretches between some positions, each with the lexeme that it ends at. -/
def endedStretches (ts : List Lexeme) (start : Nat) : List Nat → List (List Lexeme × Option Lexeme)
  | [] => [(ts.drop start, none)]
  | i :: is => ((ts.drop start).take (i - start), ts[i]?) :: endedStretches ts (i + 1) is

/-- The members of a list, each with the comma behind it. -/
def endedMembers (ts : List Lexeme) : List (List Lexeme × Option Lexeme) :=
  (endedStretches ts 0 (topCommas ts)).filter (·.1 != [])

/-- No part of the span is before the member, and none is behind the comma after it. -/
def InMember (eof : Nat) (m : List Lexeme × Option Lexeme) (span : Span) : Prop :=
  (∀ first, m.1.head? = some first → first.span.start ≤ span.start) ∧
    span.stop ≤ m.2.elim eof (·.span.start)

variable {eof : Nat} {levels : Option Nat} {ts us : List Lexeme} {comma : Lexeme} {e : ParseError}

theorem map_fst_endedStretches (ts : List Lexeme) (start : Nat) (is : List Nat) :
    (endedStretches ts start is).map Prod.fst = stretches ts start is := by
  induction is generalizing start with
  | nil => rfl
  | cons i is ih => rw [endedStretches, List.map_cons, ih, stretches]

theorem map_fst_endedMembers (ts : List Lexeme) :
    (endedMembers ts).map Prod.fst = memberLexemes ts := by
  have hfilter := List.filter_map (p := (· != [])) (f := Prod.fst)
    (l := endedStretches ts 0 (topCommas ts))
  rw [map_fst_endedStretches] at hfilter
  exact hfilter.symm

theorem sorted_topCommas (ts : List Lexeme) : (topCommas ts).Pairwise (· < ·) :=
  List.pairwise_lt_range.filter _

theorem infix_of_mem_endedStretches {start : Nat} {is : List Nat} (hsorted : is.Pairwise (· < ·))
    (hstart : ∀ i ∈ is, start ≤ i) (h : (us, some comma) ∈ endedStretches ts start is) :
    us ++ [comma] <:+: ts := by
  induction is generalizing start with
  | nil =>
    have heq := List.mem_singleton.mp h
    cases heq
  | cons i is ih =>
    obtain ⟨hnext, hsorted⟩ := List.pairwise_cons.mp hsorted
    rcases List.mem_cons.mp h with heq | h
    · obtain ⟨rfl, hcomma⟩ := Prod.mk.inj heq
      have hle := hstart i (List.mem_cons_self ..)
      have hnext : (ts.drop start)[i - start]? = some comma := by
        rw [List.getElem?_drop, Nat.add_sub_cancel' hle, ← hcomma]
      have htake : (ts.drop start).take (i - start + 1) =
          (ts.drop start).take (i - start) ++ [comma] := by
        rw [List.take_add_one, hnext, Option.toList_some]
      rw [← htake]
      exact (List.take_prefix _ _).isInfix.trans (List.drop_suffix start ts).isInfix
    · exact ih hsorted hnext h

variable {m : List Lexeme × Option Lexeme} {span : Span}

theorem mem_endedMembers (h : m ∈ endedMembers ts) :
    m.1 ≠ [] ∧ m.1 <:+: ts ∧ ∀ comma, m.2 = some comma → m.1 ++ [comma] <:+: ts := by
  have hmember : m.1 ∈ memberLexemes ts := map_fst_endedMembers ts ▸ List.mem_map_of_mem h
  obtain ⟨hne, hpart⟩ := mem_memberLexemes hmember
  refine ⟨hne, hpart, fun comma hcomma => ?_⟩
  obtain ⟨us, comma?⟩ := m
  subst hcomma
  exact infix_of_mem_endedStretches (sorted_topCommas ts) (fun _ _ => Nat.zero_le _)
    (List.mem_filter.mp h).1

theorem inMember_of_spansPart (h : m ∈ endedMembers ts) (horder : Lexeme.InOrder eof ts)
    (hspan : SpansPart eof m.1 span) : InMember eof m span := by
  obtain ⟨-, hpart, hcomma⟩ := mem_endedMembers h
  have hmember := horder.sublist hpart.sublist
  obtain ⟨a, ha, b, hb, rfl, -⟩ := hspan.exists_ends hmember
  constructor
  · intro first hfirst
    obtain ⟨rest, hrest⟩ := List.head?_eq_some_iff.mp hfirst
    rw [hrest] at hmember ha
    exact hmember.start_le ha
  · cases hend : m.2 with
    | none => exact Nat.le_of_lt (hmember.inside b hb).2
    | some comma =>
      have happart := (horder.sublist (hcomma comma hend).sublist).apart
      have hlt := (List.pairwise_append.mp happart).2.2 b hb comma (List.mem_singleton_self _)
      exact Nat.le_of_lt hlt

theorem not_inMember_end (h : m ∈ endedMembers ts) (horder : Lexeme.InOrder eof ts)
    (hcomma : m.2 = some comma) : ¬ InMember eof m ⟨eof, eof⟩ := by
  intro hin
  have hmem : comma ∈ ts := ((mem_endedMembers h).2.2 comma hcomma).subset (by simp)
  have hbounds := horder.inside comma hmem
  have hstop := hin.2
  rw [hcomma] at hstop
  simp only [Option.elim_some] at hstop
  omega

/-- Of what is missing behind a last `not` the error says that it is missing at the end of the text. -/
theorem query_of_nothing_negated {inner : Option Nat} {negation : Lexeme}
    (h : ConditionIn ts false [negation]) (hnot : negation.kind = .ident "not")
    (hinner : enter levels = some inner) :
    query eof levels ts =
      .error ⟨⟨.expectCondition, negation.span⟩, [⟨.emptyCondition, ⟨eof, eof⟩⟩]⟩ := by
  obtain ⟨f, hread⟩ := h.query_eq eof levels
  have hspan : Lexeme.spanOf eof [negation] = negation.span := Span.cover_self negation.span
  rw [hread, condition_enter hinner, leadingNot_not hnot, operands_nil, hspan]
  rfl

theorem inMember_iff (h : m ∈ endedMembers ts) (horder : Lexeme.InOrder eof ts)
    (he : query eof levels m.1 = .error e) :
    (∀ l ∈ e.chain, InMember eof m l.span) ↔ ¬ (m.2.isSome ∧ NegatesNothing m.1) := by
  constructor
  · rintro hall ⟨hsome, hnot⟩
    obtain ⟨comma, hcomma⟩ := Option.isSome_iff_exists.mp hsome
    obtain ⟨l, hl, hspan⟩ := hnot.exists_end he
    exact not_inMember_end h horder hcomma (hspan ▸ hall l hl)
  · intro hbut l hl
    obtain ⟨hne, hpart, -⟩ := mem_endedMembers h
    have hmember := horder.sublist hpart.sublist
    rcases (queryFailed_of_query _ _ _ e he).parts hmember hne l hl with hspan | ⟨hnot, hspan⟩
    · exact inMember_of_spansPart h horder hspan
    · have hlast : m.2 = none := by
        by_contra hsome
        exact hbut ⟨Option.isSome_iff_ne_none.mpr hsome, hnot⟩
      rw [hspan]
      refine ⟨fun first hfirst => ?_, by rw [hlast]; exact Nat.le_refl _⟩
      have hbounds := hmember.inside first (List.mem_of_head? hfirst)
      show first.span.start ≤ eof
      omega

end Grammar

/-- The errors of a list are those of its members. Each link of such an error is between the start
of its member and the comma behind it, or the end of the text, if the member is not one that ends
in `and not` before a comma. For that one the end of the text is said to be what is wrong. -/
theorem QueryList.member_errors_inside_iff {settings : Settings} {text : String} {list : QueryList}
    {errors : List ParseError} (h : QueryList.parse settings text = .ok (list, errors)) :
    ∃ source, Source.read text = .ok source ∧
      errors = (Grammar.endedMembers source.lexemes).filterMap (fun m =>
        Grammar.failure? (Grammar.query source.eof settings.levels m.1)) ∧
      ∀ m ∈ Grammar.endedMembers source.lexemes, ∀ e,
        Grammar.query source.eof settings.levels m.1 = .error e →
          ((∀ l ∈ e.chain, Grammar.InMember source.eof m l.span) ↔
            ¬ (m.2.isSome ∧ Grammar.NegatesNothing m.1)) := by
  obtain ⟨source, hread, -⟩ := exists_of_bind_eq_ok h
  rw [parse_eq hread] at h
  cases h
  refine ⟨source, hread, ?_, fun m hm e he => ?_⟩
  · rw [Grammar.failures_members, ← Grammar.map_fst_endedMembers, List.map_map, List.filterMap_map]
    rfl
  · exact Grammar.inMember_iff hm (Source.inOrder_of_read hread) he

/-- Of two members that fail the first ends in `and not`, and the second in `and`. -/
theorem QueryList.member_errors_inside_iff_and_not :
    let text := "screen and not, print and"
    let m : List Lexeme × Option Lexeme := ([⟨.ident "screen", ⟨0, 5⟩, false⟩,
      ⟨.ident "and", ⟨7, 9⟩, true⟩, ⟨.ident "not", ⟨11, 13⟩, true⟩],
      some ⟨.comma, ⟨14, 14⟩, false⟩)
    let n : List Lexeme × Option Lexeme := ([⟨.ident "print", ⟨16, 20⟩, true⟩,
      ⟨.ident "and", ⟨22, 24⟩, true⟩], none)
    let e : ParseError := ⟨⟨.expectCondition, ⟨11, 13⟩⟩, [⟨.emptyCondition, ⟨25, 25⟩⟩]⟩
    let f : ParseError := .single .expectCondition ⟨22, 24⟩
    QueryList.parse {} text = .ok (⟨[none, none]⟩, [e, f]) ∧
      ¬ (∀ l ∈ e.chain, Grammar.InMember 25 m l.span) ∧
      ∀ l ∈ f.chain, Grammar.InMember 25 n l.span := by
  intro text m n e f
  have hread : (Source.read text).toOption.map (fun s => (Grammar.endedMembers s.lexemes, s.eof)) =
      some ([m, n], 25) := by
    decide +kernel
  obtain ⟨⟨ts, _⟩, hsource, hmembers⟩ := Option.map_eq_some_iff.mp hread
  obtain ⟨hmembers, rfl⟩ := Prod.mk.inj hmembers
  have hsource := eq_ok_of_toOption hsource
  have hcondition : Grammar.ConditionIn m.1 false [⟨.ident "not", ⟨11, 13⟩, true⟩] :=
    .afterType .none rfl (@Grammar.TypeForm.known none .screen) rfl (List.cons_ne_nil _ _)
  have hm : Grammar.query 25 (some 256) m.1 = .error e :=
    Grammar.query_of_nothing_negated hcondition rfl rfl
  have hlist : Grammar.members 25 (some 256) ts = [.error e, .error f] := by
    rw [Grammar.members_eq, ← Grammar.map_fst_endedMembers, hmembers, ← hm]
    rfl
  have hparse : parse {} text = .ok (⟨[none, none]⟩, [e, f]) := by
    rw [parse_eq hsource]
    simp only [hlist]
    rfl
  obtain ⟨_, hsame, -, hinside⟩ := member_errors_inside_iff hparse
  cases hsource.symm.trans hsame
  rw [hmembers] at hinside
  refine ⟨hparse, fun hall => ?_, (hinside n (by simp) f rfl).mpr (fun h => nomatch h.1)⟩
  exact (hinside m (by simp) e hm).mp hall ⟨rfl, _, rfl, hcondition⟩

/-- The member before the comma at 14 ends there, and its error is said to be at 21. -/
theorem QueryList.member_error_past_comma :
    let text := "screen and not, print"
    let e : ParseError := ⟨⟨.expectCondition, ⟨11, 13⟩⟩, [⟨.emptyCondition, ⟨21, 21⟩⟩]⟩
    QueryList.parse {} text = .ok (⟨[none, some ⟨none, .print, none⟩]⟩, [e]) ∧
      ∃ source m, Source.read text = .ok source ∧ m ∈ Grammar.endedMembers source.lexemes ∧
        Grammar.query source.eof (some 256) m.1 = .error e ∧
        ¬ ∀ l ∈ e.chain, Grammar.InMember source.eof m l.span := by
  intro text e
  let m : List Lexeme × Option Lexeme := ([⟨.ident "screen", ⟨0, 5⟩, false⟩,
    ⟨.ident "and", ⟨7, 9⟩, true⟩, ⟨.ident "not", ⟨11, 13⟩, true⟩], some ⟨.comma, ⟨14, 14⟩, false⟩)
  let n : List Lexeme × Option Lexeme := ([⟨.ident "print", ⟨16, 20⟩, true⟩], none)
  have hread : (Source.read text).toOption.map (fun s => (Grammar.endedMembers s.lexemes, s.eof)) =
      some ([m, n], 21) := by
    decide +kernel
  obtain ⟨⟨ts, _⟩, hsource, hmembers⟩ := Option.map_eq_some_iff.mp hread
  obtain ⟨hmembers, rfl⟩ := Prod.mk.inj hmembers
  have hsource := eq_ok_of_toOption hsource
  have hcondition : Grammar.ConditionIn m.1 false [⟨.ident "not", ⟨11, 13⟩, true⟩] :=
    .afterType .none rfl (@Grammar.TypeForm.known none .screen) rfl (List.cons_ne_nil _ _)
  have hm : Grammar.query 21 (some 256) m.1 = .error e :=
    Grammar.query_of_nothing_negated hcondition rfl rfl
  have hlist : Grammar.members 21 (some 256) ts = [.error e, .ok ⟨none, .print, none⟩] := by
    rw [Grammar.members_eq, ← Grammar.map_fst_endedMembers, hmembers, ← hm]
    rfl
  have hparse : parse {} text = .ok (⟨[none, some ⟨none, .print, none⟩]⟩, [e]) := by
    rw [parse_eq hsource]
    simp only [hlist]
    rfl
  have hmem : m ∈ Grammar.endedMembers ts := by simp [hmembers]
  refine ⟨hparse, ⟨ts, 21⟩, m, hsource, hmem, hm, fun hall => ?_⟩
  exact Grammar.not_inMember_end hmem (Source.inOrder_of_read hsource) rfl
    (hall ⟨.emptyCondition, ⟨21, 21⟩⟩ (by simp [e, ParseError.chain]))

end CssMedia
