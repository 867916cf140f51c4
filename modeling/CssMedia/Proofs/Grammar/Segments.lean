import CssMedia.Proofs.Grammar.Balanced

/-!
# The members of a list of lexemes

A comma is between two members if the lexemes before it leave no bracket open. `segments`
starts anew after each such comma, and that loses nothing: no bracket is open there.
-/

namespace CssMedia.Grammar

/-- The brackets open after some lexemes, where `stack` is open before them. -/
def bracketsAfter (stack : List Bracket) (ts : List Lexeme) : List Bracket :=
  ts.foldl (fun stack t => nest stack t.kind) stack

def openBrackets (ts : List Lexeme) : List Bracket := bracketsAfter [] ts

/-- At `i` is a comma outside the brackets of all lexemes before it. -/
def IsTopComma (stack : List Bracket) (ts : List Lexeme) (i : Nat) : Prop :=
  ts[i]?.map (·.kind) = some .comma ∧ bracketsAfter stack (ts.take i) = []

instance (stack : List Bracket) (ts : List Lexeme) (i : Nat) : Decidable (IsTopComma stack ts i) :=
  inferInstanceAs (Decidable (_ ∧ _))

def topCommas (ts : List Lexeme) : List Nat :=
  (List.range ts.length).filter (IsTopComma [] ts ·)

/-- The stretches between some positions, from `start` on. -/
def stretches (ts : List Lexeme) (start : Nat) : List Nat → List (List Lexeme)
  | [] => [ts.drop start]
  | i :: is => (ts.drop start).take (i - start) :: stretches ts (i + 1) is

/-! ## Open brackets -/

@[simp] theorem bracketsAfter_nil (stack : List Bracket) : bracketsAfter stack [] = stack := rfl

@[simp] theorem bracketsAfter_cons (stack : List Bracket) (t : Lexeme) (ts : List Lexeme) :
    bracketsAfter stack (t :: ts) = bracketsAfter (nest stack t.kind) ts := rfl

@[simp] theorem bracketsAfter_append (stack : List Bracket) (ts us : List Lexeme) :
    bracketsAfter stack (ts ++ us) = bracketsAfter (bracketsAfter stack ts) us :=
  List.foldl_append

theorem nest_comma (stack : List Bracket) : nest stack .comma = stack := rfl

/-! ## Cuts -/

theorem isTopComma_zero {stack : List Bracket} {t : Lexeme} {ts : List Lexeme} :
    IsTopComma stack (t :: ts) 0 ↔ t.kind = .comma ∧ stack = [] := by
  simp [IsTopComma]

theorem isTopComma_succ {stack : List Bracket} {t : Lexeme} {ts : List Lexeme} {i : Nat} :
    IsTopComma stack (t :: ts) (i + 1) ↔ IsTopComma (nest stack t.kind) ts i := by
  simp [IsTopComma]

theorem isTopComma_append_left {stack : List Bracket} {ts rest : List Lexeme} {i : Nat}
    (h : i < ts.length) : IsTopComma stack (ts ++ rest) i ↔ IsTopComma stack ts i := by
  rw [IsTopComma, List.getElem?_append_left h, List.take_append_of_le_length (Nat.le_of_lt h),
    IsTopComma]

theorem isTopComma_append_right {stack : List Bracket} {ts rest : List Lexeme} {i : Nat} :
    IsTopComma stack (ts ++ rest) (ts.length + i) ↔
      IsTopComma (bracketsAfter stack ts) rest i := by
  rw [IsTopComma, List.getElem?_append_right (Nat.le_add_right ..), Nat.add_sub_cancel_left,
    List.take_length_add_append, bracketsAfter_append, IsTopComma]

theorem cutAtComma_eq_none_iff {stack : List Bracket} {ts : List Lexeme} :
    cutAtComma stack ts = none ↔ ∀ i, ¬ IsTopComma stack ts i := by
  induction ts generalizing stack with
  | nil => simp [cutAtComma, IsTopComma]
  | cons t ts ih =>
    by_cases hhere : t.kind = .comma ∧ stack = []
    · simp only [cutAtComma, if_pos hhere, reduceCtorEq, false_iff, Classical.not_forall,
        Classical.not_not]
      exact ⟨0, isTopComma_zero.mpr hhere⟩
    · rw [cutAtComma_cons hhere, behind, Option.map_eq_none_iff, ih]
      constructor
      · intro h i
        cases i with
        | zero => exact fun h => hhere (isTopComma_zero.mp h)
        | succ i => exact fun hi => h i (isTopComma_succ.mp hi)
      · exact fun h i hi => h (i + 1) (isTopComma_succ.mpr hi)

theorem cutAtComma_first {stack : List Bracket} {ts before after : List Lexeme} {comma : Lexeme}
    (h : cutAtComma stack ts = some (before, comma, after)) :
    comma.kind = .comma ∧ bracketsAfter stack before = [] ∧ cutAtComma stack before = none := by
  induction ts generalizing stack before with
  | nil => cases h
  | cons t ts ih =>
    by_cases hhere : t.kind = .comma ∧ stack = []
    · rw [cutAtComma, if_pos hhere] at h
      cases h
      exact ⟨hhere.1, hhere.2, rfl⟩
    · rw [cutAtComma_cons hhere, behind, Option.map_eq_some_iff] at h
      obtain ⟨⟨before', t', after'⟩, hcut, heq⟩ := h
      cases heq
      obtain ⟨hcomma, hopen, hnone⟩ := ih hcut
      refine ⟨hcomma, hopen, ?_⟩
      rw [List.singleton_append, cutAtComma_cons hhere, hnone]
      rfl

theorem cutAtComma_append_of_none {stack : List Bracket} {ts : List Lexeme}
    (h : cutAtComma stack ts = none) (rest : List Lexeme) :
    cutAtComma stack (ts ++ rest) = behind ts (cutAtComma (bracketsAfter stack ts) rest) := by
  induction ts generalizing stack with
  | nil =>
    rw [List.nil_append, bracketsAfter_nil]
    rcases cutAtComma stack rest with _ | ⟨before, t, after⟩ <;> rfl
  | cons t ts ih =>
    by_cases hhere : t.kind = .comma ∧ stack = []
    · rw [cutAtComma, if_pos hhere] at h
      cases h
    · rw [cutAtComma_cons hhere, behind, Option.map_eq_none_iff] at h
      rw [List.cons_append, cutAtComma_cons hhere, ih h, behind_append, List.singleton_append,
        bracketsAfter_cons]

theorem cutAtComma_append_of_some {stack : List Bracket} {ts before after : List Lexeme}
    {comma : Lexeme} (h : cutAtComma stack ts = some (before, comma, after)) (rest : List Lexeme) :
    cutAtComma stack (ts ++ rest) = some (before, comma, after ++ rest) := by
  obtain ⟨hcomma, hopen, hnone⟩ := cutAtComma_first h
  rw [eq_of_cutAtComma h, List.append_assoc, cutAtComma_append_of_none hnone, hopen,
    List.cons_append, cutAtComma, if_pos ⟨hcomma, rfl⟩, behind]
  simp

theorem segments_of_none {ts : List Lexeme} (h : cutAtComma [] ts = none) : segments ts = [ts] := by
  rw [segments]
  split
  · rfl
  · next heq => rw [h] at heq; cases heq

theorem segments_of_some {ts before after : List Lexeme} {comma : Lexeme}
    (h : cutAtComma [] ts = some (before, comma, after)) :
    segments ts = before :: segments after := by
  rw [segments]
  split
  · next heq => rw [h] at heq; cases heq
  · next heq =>
    rw [h] at heq
    cases heq
    rfl

/-! ## Segments -/

theorem stretches_shift (before after : List Lexeme) (comma : Lexeme) (start : Nat)
    (is : List Nat) :
    stretches (before ++ comma :: after) (before.length + 1 + start)
        (is.map (before.length + 1 + ·)) =
      stretches after start is := by
  have hdrop : ∀ n, (before ++ comma :: after).drop (before.length + 1 + n) = after.drop n := by
    intro n
    rw [Nat.add_assoc, List.drop_length_add_append, Nat.add_comm 1, List.drop_succ_cons]
  induction is generalizing start with
  | nil => rw [List.map_nil, stretches, stretches, hdrop]
  | cons i is ih =>
    rw [List.map_cons, stretches, stretches, hdrop, Nat.add_sub_add_left, Nat.add_assoc _ i 1, ih]

theorem infix_of_mem_stretches {ts us : List Lexeme} {start : Nat} {is : List Nat}
    (h : us ∈ stretches ts start is) : us <:+: ts := by
  induction is generalizing start with
  | nil =>
    rw [List.mem_singleton.mp h]
    exact (List.drop_suffix start ts).isInfix
  | cons i is ih =>
    rcases List.mem_cons.mp h with rfl | h
    · exact (List.take_prefix _ _).isInfix.trans (List.drop_suffix start ts).isInfix
    · exact ih h

theorem topCommas_of_some {ts before after : List Lexeme} {comma : Lexeme}
    (h : cutAtComma [] ts = some (before, comma, after)) :
    topCommas ts = before.length :: (topCommas after).map (before.length + 1 + ·) := by
  obtain ⟨hcomma, hopen, hnone⟩ := cutAtComma_first h
  have hts := eq_of_cutAtComma h
  have hbefore : ∀ i ∈ List.range before.length, ¬ IsTopComma [] ts i := by
    intro i hi
    rw [hts, isTopComma_append_left (List.mem_range.mp hi)]
    exact cutAtComma_eq_none_iff.mp hnone i
  have hhere : IsTopComma [] ts (before.length + 0) := by
    rw [hts, isTopComma_append_right, hopen, isTopComma_zero]
    exact ⟨hcomma, rfl⟩
  have hafter : ∀ i, IsTopComma [] ts (before.length + 1 + i) ↔ IsTopComma [] after i := by
    intro i
    rw [hts, Nat.add_assoc, isTopComma_append_right, hopen, Nat.add_comm 1, isTopComma_succ, hcomma,
      nest_comma]
  have hlen : ts.length = before.length + 1 + after.length := by
    rw [hts]
    simp [Nat.add_assoc, Nat.add_comm 1]
  rw [topCommas, hlen, List.range_add, List.filter_append, List.range_succ, List.filter_append,
    List.filter_map, List.filter_eq_nil_iff.mpr (by simpa using hbefore),
    List.filter_eq_self.mpr (by simpa using hhere), topCommas]
  simp only [List.nil_append, List.singleton_append, Function.comp_def, hafter]

theorem topCommas_eq_nil_iff {ts : List Lexeme} : topCommas ts = [] ↔ cutAtComma [] ts = none := by
  constructor
  · intro h
    cases hcut : cutAtComma [] ts with
    | none => rfl
    | some cut =>
      obtain ⟨before, comma, after⟩ := cut
      rw [topCommas_of_some hcut] at h
      cases h
  · intro h
    rw [topCommas, List.filter_eq_nil_iff]
    intro i _
    simpa using cutAtComma_eq_none_iff.mp h i

theorem segments_eq_stretches (ts : List Lexeme) : segments ts = stretches ts 0 (topCommas ts) := by
  cases hcut : cutAtComma [] ts with
  | none => rw [segments_of_none hcut, topCommas_eq_nil_iff.mpr hcut, stretches, List.drop_zero]
  | some cut =>
    obtain ⟨before, comma, after⟩ := cut
    have hts := eq_of_cutAtComma hcut
    rw [segments_of_some hcut, topCommas_of_some hcut, segments_eq_stretches after, hts, stretches,
      Nat.sub_zero, List.drop_zero, List.take_left]
    exact congrArg _ (stretches_shift before after comma 0 _).symm
termination_by ts.length
decreasing_by
  have := length_of_cutAtComma hcut
  omega

theorem segments_append {ts : List Lexeme} {comma : Lexeme} (hopen : openBrackets ts = [])
    (hcomma : comma.kind = .comma) (rest : List Lexeme) :
    segments (ts ++ comma :: rest) = segments ts ++ segments rest := by
  cases hcut : cutAtComma [] ts with
  | none =>
    have hwhole : cutAtComma [] (ts ++ comma :: rest) = some (ts, comma, rest) := by
      rw [cutAtComma_append_of_none hcut, show bracketsAfter [] ts = [] from hopen, cutAtComma,
        if_pos ⟨hcomma, rfl⟩, behind]
      simp
    rw [segments_of_some hwhole, segments_of_none hcut, List.singleton_append]
  | some cut =>
    obtain ⟨before, first, after⟩ := cut
    obtain ⟨hfirst, hbefore, -⟩ := cutAtComma_first hcut
    have hafter : openBrackets after = [] := by
      rw [eq_of_cutAtComma hcut, openBrackets, bracketsAfter_append, hbefore, bracketsAfter_cons,
        hfirst, nest_comma] at hopen
      exact hopen
    rw [segments_of_some (cutAtComma_append_of_some hcut _), segments_of_some hcut,
      segments_append hafter hcomma, List.cons_append]
termination_by ts.length
decreasing_by
  have := length_of_cutAtComma hcut
  omega

end CssMedia.Grammar
