import CssMedia.Proofs.Grammar.Places
import CssMedia.Proofs.Grammar.Steps
import CssMedia.Proofs.Grammar.ConditionForm

/-!
# Chains of failed conditions

A condition fails at one place, and each group around that place has a link of its own in the
failure. Only a want of levels is one link wherever it is.
-/

namespace CssMedia.Grammar

open Lexeme (SpansPart spansPart_self spansPart_of_mem)

/-! ## Groups -/

def opened (ts : List Lexeme) : Nat := ts.countP (·.kind.opensParen)

def closed (ts : List Lexeme) : Nat := ts.countP (·.kind == .closeParen)

/-- Each parenthesis that is opened is closed, and none is closed that was not opened. The name of a
function opens one too. -/
structure Matched (ts : List Lexeme) : Prop where
  whole : closed ts = opened ts
  part : ∀ us, us <+: ts → closed us ≤ opened us

/-- A parenthesis somewhere in `ts`, what is in it, and the one that closes it. -/
structure IsGroup (ts : List Lexeme) (first : Lexeme) (interior : List Lexeme) (close : Lexeme) :
    Prop where
  part : first :: (interior ++ [close]) <:+: ts
  opens : first.kind = .openParen
  closes : close.kind = .closeParen
  matched : Matched interior

def SpansGroup (ts : List Lexeme) (span : Span) : Prop :=
  ∃ first interior close, IsGroup ts first interior close ∧
    span = ⟨first.span.start, close.span.stop⟩

theorem IsGroup.mono {ts us interior : List Lexeme} {first close : Lexeme}
    (h : IsGroup us first interior close) (hpart : us <:+: ts) : IsGroup ts first interior close :=
  { h with part := h.part.trans hpart }

theorem SpansGroup.mono {ts us : List Lexeme} {span : Span} (h : SpansGroup us span)
    (hpart : us <:+: ts) : SpansGroup ts span := by
  obtain ⟨first, interior, close, hgroup, hspan⟩ := h
  exact ⟨first, interior, close, hgroup.mono hpart, hspan⟩

theorem opened_cons (t : Lexeme) (ts : List Lexeme) :
    opened (t :: ts) = opened ts + if t.kind.opensParen then 1 else 0 := List.countP_cons

theorem closed_cons (t : Lexeme) (ts : List Lexeme) :
    closed (t :: ts) = closed ts + if t.kind = .closeParen then 1 else 0 := by
  simp [closed, List.countP_cons]

theorem depth_step {depth : Nat} {t : Lexeme} (h : ¬ (t.kind = .closeParen ∧ depth = 0)) :
    (if t.kind = .closeParen then 1 else 0) +
        (if t.kind = .closeParen then depth - 1 else if t.kind.opensParen then depth + 1 else depth) =
      (if t.kind.opensParen then 1 else 0) + depth := by
  by_cases hclose : t.kind = .closeParen
  · have hdepth : depth ≠ 0 := fun hzero => h ⟨hclose, hzero⟩
    rw [if_pos hclose, if_pos hclose, if_neg (by simp [hclose, TokenKind.opensParen])]
    omega
  · rw [if_neg hclose, if_neg hclose]
    split <;> omega

theorem counts_of_cutAtClose {depth : Nat} {ts interior after : List Lexeme} {close : Lexeme}
    (h : cutAtClose depth ts = some (interior, close, after)) :
    closed interior = opened interior + depth ∧
      ∀ us, us <+: interior → closed us ≤ opened us + depth := by
  induction ts generalizing depth interior with
  | nil => cases h
  | cons t ts ih =>
    by_cases hhere : t.kind = .closeParen ∧ depth = 0
    · rw [cutAtClose, if_pos hhere] at h
      cases h
      refine ⟨by simp [hhere.2, opened, closed], fun us hus => ?_⟩
      rw [List.prefix_nil.mp hus]
      exact Nat.zero_le _
    · rw [cutAtClose_cons hhere, behind, Option.map_eq_some_iff] at h
      obtain ⟨⟨before, t', after'⟩, hcut, heq⟩ := h
      cases heq
      obtain ⟨hwhole, hpart⟩ := ih hcut
      have hstep := depth_step hhere
      constructor
      · rw [List.singleton_append, opened_cons, closed_cons]
        omega
      · intro us hus
        rcases List.prefix_cons_iff.mp hus with rfl | ⟨vs, rfl, hvs⟩
        · exact Nat.zero_le _
        · have hbehind := hpart vs hvs
          rw [opened_cons, closed_cons]
          omega

theorem matched_of_cutAtClose {ts interior after : List Lexeme} {close : Lexeme}
    (h : cutAtClose 0 ts = some (interior, close, after)) : Matched interior :=
  ⟨(counts_of_cutAtClose h).1, (counts_of_cutAtClose h).2⟩

theorem isGroup_of_cutAtClose {first close : Lexeme} {rest interior after : List Lexeme}
    (hfirst : first.kind = .openParen) (h : cutAtClose 0 rest = some (interior, close, after)) :
    IsGroup (first :: rest) first interior close where
  part := ⟨[], after, by rw [(eq_of_cutAtClose h).1]; simp⟩
  opens := hfirst
  closes := (eq_of_cutAtClose h).2
  matched := matched_of_cutAtClose h

theorem infix_interior (first : Lexeme) (interior : List Lexeme) (close : Lexeme) :
    interior <:+: first :: (interior ++ [close]) :=
  ⟨[first], [close], by simp⟩

/-! ## Failures -/

/-- The kinds of link for what fails in a condition, the want of levels apart. -/
def conditionKinds : List ErrorKind := featureKinds ++ operatorKinds ++ [.emptyCondition]

/-- Links of groups, each strictly inside of the one before, and the link of what failed in the
last of them. -/
structure GroupChain (levels : Option Nat) (ts : List Lexeme) (groups : List ErrorLink)
    (last : ErrorLink) : Prop where
  group : ∀ l ∈ groups, l.kind = .expectFeatureOrCondition ∧ SpansGroup ts l.span
  levels : Allows levels groups.length
  nested : groups.Pairwise fun a b => b.span.StrictlyInside a.span
  last_kind : last.kind ≠ .expectFeatureOrCondition ∧ last.kind ≠ .nestedTooDeeply
  last_inside : ∀ l ∈ groups, last.span.Inside l.span

/-- One link for a want of levels, or the links of groups and of what failed in the last. -/
def HasGroupChain (levels : Option Nat) (ts : List Lexeme) (e : ParseError) : Prop :=
  (∃ span, e = .single .nestedTooDeeply span) ∨
    ∃ groups last, e.chain = groups ++ [last] ∧ GroupChain levels ts groups last

/-- How a condition fails that is not empty: each link is about some of its lexemes. -/
structure FailedIn (eof : Nat) (levels : Option Nat) (ts : List Lexeme) (e : ParseError) : Prop where
  shape : HasGroupChain levels ts e
  parts : ∀ l ∈ e.chain, SpansPart eof ts l.span
  harmless : e.isFatal = false

section

variable {eof : Nat} {levels inner : Option Nat} {ts us : List Lexeme} {e : ParseError} {span : Span}

theorem HasGroupChain.single {kind : ErrorKind} (h : kind ∈ conditionKinds) (span : Span) :
    HasGroupChain levels ts (.single kind span) := by
  have hkinds : ∀ kind ∈ conditionKinds,
      kind ≠ .expectFeatureOrCondition ∧ kind ≠ .nestedTooDeeply := by decide
  exact .inr ⟨[], ⟨kind, span⟩, rfl, ⟨nofun, allows_zero levels, .nil, hkinds kind h, nofun⟩⟩

theorem HasGroupChain.mono (h : HasGroupChain levels us e) (hpart : us <:+: ts) :
    HasGroupChain levels ts e :=
  h.imp_right fun ⟨groups, last, hchain, hgroups⟩ => ⟨groups, last, hchain,
    { hgroups with group := fun l hl => (hgroups.group l hl).imp_right fun hspan => hspan.mono hpart }⟩

theorem FailedIn.mono (h : FailedIn eof levels us e) (hpart : us <:+: ts) :
    FailedIn eof levels ts e where
  shape := h.shape.mono hpart
  parts l hl := (h.parts l hl).mono hpart
  harmless := h.harmless

theorem FailedIn.single {kind : ErrorKind} (h : kind ∈ conditionKinds) (hspan : SpansPart eof ts span) :
    FailedIn eof levels ts (.single kind span) where
  shape := .single h span
  parts := List.forall_mem_singleton.mpr hspan
  harmless := by
    have hkinds : ∀ kind ∈ conditionKinds, kind.isFatal = false := by decide
    rw [ParseError.isFatal_single, hkinds kind h]

theorem FailedIn.tooDeep (hspan : SpansPart eof ts span) :
    FailedIn eof levels ts (.single .nestedTooDeeply span) where
  shape := .inl ⟨span, rfl⟩
  parts := List.forall_mem_singleton.mpr hspan
  harmless := rfl

end

section

variable {eof length : Nat} {levels inner : Option Nat} {ts interior : List Lexeme}
  {first close : Lexeme} {e : ParseError} {span : Span}

theorem IsGroup.span_eq (h : IsGroup ts first interior close) (horder : Lexeme.InOrder length ts) :
    Lexeme.spanOf eof (first :: (interior ++ [close])) = ⟨first.span.start, close.span.stop⟩ :=
  (horder.sublist h.part.sublist).spanOf_eq (by simp [List.getLast?_cons])

theorem SpansGroup.spansPart (h : SpansGroup ts span) (horder : Lexeme.InOrder length ts) :
    SpansPart eof ts span := by
  obtain ⟨first, interior, close, hgroup, rfl⟩ := h
  exact ⟨_, List.cons_ne_nil _ _, hgroup.part, (hgroup.span_eq horder).symm⟩

theorem GroupChain.not_tooDeep {groups : List ErrorLink} {last : ErrorLink}
    (h : GroupChain levels ts groups last) (hchain : e.chain = groups ++ [last]) :
    e.outermost.kind ≠ .nestedTooDeeply := by
  cases groups with
  | nil =>
    rw [(List.cons.inj hchain).1]
    exact h.last_kind.2
  | cons l groups =>
    rw [(List.cons.inj hchain).1, (h.group l (List.mem_cons_self ..)).1]
    decide

theorem HasGroupChain.within (h : HasGroupChain inner interior e)
    (hgroup : IsGroup ts first interior close) (horder : Lexeme.InOrder length ts)
    (hinner : enter levels = some inner)
    (hparts : ∀ l ∈ e.chain, SpansPart eof (first :: (interior ++ [close])) l.span) :
    HasGroupChain levels ts (within .expectFeatureOrCondition (first.span.cover close.span) e) := by
  have hwhole := horder.sublist hgroup.part.sublist
  have hspan : first.span.cover close.span = ⟨first.span.start, close.span.stop⟩ :=
    (@Lexeme.spanOf_group eof ..).symm.trans (hgroup.span_eq horder)
  rcases h with ⟨span, rfl⟩ | ⟨groups, last, hchain, hgroups⟩
  · exact .inl ⟨span, rfl⟩
  refine .inr ⟨⟨.expectFeatureOrCondition, first.span.cover close.span⟩ :: groups, last, ?_, ?_⟩
  · rw [Grammar.within, if_neg (hgroups.not_tooDeep hchain), List.cons_append, ← hchain]
    rfl
  have hinterior := infix_interior first interior close
  constructor
  · refine List.forall_mem_cons.mpr ⟨⟨rfl, first, interior, close, hgroup, hspan⟩, fun l hl => ?_⟩
    exact (hgroups.group l hl).imp_right fun h => h.mono (hinterior.trans hgroup.part)
  · exact (allows_of_enter hinner).mp hgroups.levels
  · refine List.pairwise_cons.mpr ⟨fun l hl => ?_, hgroups.nested⟩
    have hpart : SpansPart eof interior l.span :=
      (hgroups.group l hl).2.spansPart (hwhole.sublist hinterior.sublist)
    rw [hspan]
    exact hpart.strictlyInside hwhole
  · exact hgroups.last_kind
  · refine List.forall_mem_cons.mpr ⟨?_, hgroups.last_inside⟩
    rw [← @Lexeme.spanOf_group eof]
    exact (hparts last (by simp [hchain])).inside hwhole

theorem mem_chain_within {kind : ErrorKind} {l : ErrorLink}
    (h : l ∈ (within kind span e).chain) : l = ⟨kind, span⟩ ∨ l ∈ e.chain := by
  unfold within at h
  split at h
  · exact .inr h
  · exact List.mem_cons.mp h

theorem mem_chain_within_of_mem {kind : ErrorKind} {l : ErrorLink} (h : l ∈ e.chain) :
    l ∈ (within kind span e).chain := by
  unfold within
  split
  · exact h
  · exact List.mem_cons_of_mem _ h

theorem isFatal_within {kind : ErrorKind} (h : kind.isFatal = false) :
    (within kind span e).isFatal = e.isFatal := by
  unfold within
  split
  · rfl
  · simp [ParseError.isFatal, ParseError.chain, ParseError.wrap, h]

theorem FailedIn.within (hgroup : IsGroup ts first interior close)
    (horder : Lexeme.InOrder length ts) (hinner : enter levels = some inner)
    (hshape : HasGroupChain inner interior e)
    (hparts : ∀ l ∈ e.chain, SpansPart eof (first :: (interior ++ [close])) l.span)
    (hharmless : e.isFatal = false) :
    FailedIn eof levels ts (within .expectFeatureOrCondition (first.span.cover close.span) e) where
  shape := hshape.within hgroup horder hinner hparts
  parts l hl := by
    refine SpansPart.mono ?_ hgroup.part
    rcases mem_chain_within hl with rfl | hl
    · rw [← @Lexeme.spanOf_group eof]
      exact spansPart_self (List.cons_ne_nil _ _)
    · exact hparts l hl
  harmless := by rwa [isFatal_within rfl]

end

/-! ## Conditions

The recursion is that of the readers. A condition in a group is never without lexemes behind its
`not`, as parentheses open there, so only the outermost one fails at the end of the text. -/

theorem failedIn_nextOperator {eof : Nat} {levels : Option Nat} {ts : List Lexeme} (orAllowed : Bool)
    (current : Option Operator) {t : Lexeme} (after : List Lexeme) (ht : t ∈ ts) :
    Fails (FailedIn eof levels ts) (nextOperator orAllowed current t after) := by
  refine (fails_nextOperator orAllowed current t after).mono ?_
  rintro _ ⟨kind, hkind, rfl⟩
  have hkinds : operatorKinds ⊆ conditionKinds := by decide
  exact .single (hkinds hkind) (spansPart_of_mem ht)

theorem leadingNot_ne_nil {ts : List Lexeme} (h : ts.any (·.kind.opensParen)) :
    (leadingNot ts).2 ≠ [] := by
  cases ts with
  | nil => cases h
  | cons t ts =>
    rw [leadingNot]
    split
    · next hnot =>
      have hword : t.kind = .ident "not" := beq_iff_eq.mp hnot
      rintro rfl
      simp [hword, TokenKind.opensParen] at h
    · exact List.cons_ne_nil _ _

theorem leadingNot_suffix (ts : List Lexeme) : (leadingNot ts).2 <:+ ts := by
  cases ts with
  | nil => exact List.suffix_rfl
  | cons t ts =>
    rw [leadingNot]
    split
    · exact List.suffix_cons t ts
    · exact List.suffix_rfl

mutual

theorem failedIn_group {eof length : Nat} {levels inner : Option Nat} {ts interior : List Lexeme}
    {first close : Lexeme} (hgroup : IsGroup ts first interior close)
    (horder : Lexeme.InOrder length ts) (hinner : enter levels = some inner) :
    Fails (fun e => FailedIn eof levels ts
        (within .expectFeatureOrCondition (first.span.cover close.span) e))
      (group eof inner first interior close) := by
  by_cases hparens : interior.any (·.kind.opensParen)
  -- The link of the group stands for the level that its condition enters.
  · have hinterior := infix_interior first interior close
    have hinside := horder.sublist (hinterior.trans hgroup.part).sublist
    rw [group, if_pos hparens]
    refine ((failedIn_condition hinside (leadingNot_ne_nil hparens)).mono fun e he => ?_).map _
    exact .within hgroup horder hinner he.shape (fun l hl => (he.parts l hl).mono hinterior)
      he.harmless
  · have hkinds : featureKinds ⊆ conditionKinds := by decide
    rw [group, if_neg hparens]
    refine ((fails_feature (List.cons_ne_nil first (interior ++ [close]))).mono ?_).map _
    rintro _ ⟨kind, hkind, span, hspan, rfl⟩
    have hfailed : FailedIn eof inner (first :: (interior ++ [close])) (.single kind span) :=
      .single (hkinds hkind) hspan
    exact .within hgroup horder hinner (.single (hkinds hkind) span) hfailed.parts hfailed.harmless
termination_by (interior.length, 2)

theorem failedIn_condition {eof length : Nat} {levels : Option Nat} {orAllowed : Bool}
    {ts : List Lexeme} (horder : Lexeme.InOrder length ts) (hts : (leadingNot ts).2 ≠ []) :
    Fails (FailedIn eof levels ts) (condition eof levels orAllowed ts) := by
  have hpart := (leadingNot_suffix ts).isInfix
  cases hinner : enter levels with
  | none =>
    rw [condition, hinner]
    exact .error (.tooDeep ((spansPart_self hts).mono hpart))
  | some inner =>
    obtain ⟨first, rest, heq⟩ := List.exists_cons_of_ne_nil hts
    rw [heq] at hpart
    rw [condition_enter hinner, heq]
    exact (failedIn_operands (horder.sublist hpart.sublist) hinner).mono fun e he => he.mono hpart
termination_by (ts.length, 1)
decreasing_by
  have := length_leadingNot_le ts
  rw [heq, List.length_cons] at this
  rcases Nat.lt_or_eq_of_le this with h | h
  · exact Prod.Lex.left _ _ h
  · rw [← h]; exact Prod.Lex.right _ (by omega)

theorem failedIn_operands {eof length : Nat} {levels inner : Option Nat} {orAllowed : Bool}
    {current : Option Operator} {first : Lexeme} {rest : List Lexeme}
    (horder : Lexeme.InOrder length (first :: rest)) (hinner : enter levels = some inner) :
    Fails (FailedIn eof levels (first :: rest)) (operands eof inner orAllowed current (first :: rest)) := by
  by_cases hfirst : first.kind = .openParen
  · cases hcut : cutAtClose 0 rest with
    | none =>
      rw [operands_unclosed hfirst hcut]
      exact .error (.single (by decide) (spansPart_self (List.cons_ne_nil _ _)))
    | some cut =>
      obtain ⟨interior, close, after⟩ := cut
      have hlen := length_of_cutAtClose hcut
      rw [operands_cut hfirst hcut]
      refine (failedIn_group (isGroup_of_cutAtClose hfirst hcut) horder hinner).mapError.bind
        fun operand _ => ?_
      cases after with
      | nil => exact .ok _
      | cons t after =>
        have hafter : t :: after <:+: first :: rest :=
          ⟨first :: (interior ++ [close]), [], by rw [(eq_of_cutAtClose hcut).1]; simp⟩
        have ht : t ∈ first :: rest := hafter.subset (List.mem_cons_self ..)
        refine (failedIn_nextOperator orAllowed current after ht).bind fun op hop => ?_
        obtain ⟨-, -, -, -, hne⟩ := nextOperator_iff.mp hop
        obtain ⟨next, more, rfl⟩ := List.exists_cons_of_ne_nil hne
        have hrest : next :: more <:+: first :: rest := (List.suffix_cons ..).isInfix.trans hafter
        exact ((failedIn_operands (horder.sublist hrest.sublist) hinner).mono fun e he =>
          he.mono hrest).bind fun _ _ => .ok _
  · rw [operands_start hfirst]
    exact .error (.single (by decide) (spansPart_of_mem (List.mem_cons_self ..)))
termination_by (rest.length + 1, 0)
decreasing_by
  · exact Prod.Lex.left _ _ (by omega)
  · exact Prod.Lex.left _ _ (by simp only [List.length_cons] at hlen; omega)

end

/-- One link at the end of the text. -/
def FailedAtEnd (eof : Nat) (e : ParseError) : Prop :=
  ∃ kind, (kind = .emptyCondition ∨ kind = .nestedTooDeeply) ∧ e = .single kind ⟨eof, eof⟩

section

variable {eof length : Nat} {levels : Option Nat} {ts : List Lexeme} {e : ParseError}

theorem FailedAtEnd.hasGroupChain (h : FailedAtEnd eof e) : HasGroupChain levels ts e := by
  obtain ⟨_, rfl | rfl, rfl⟩ := h
  · exact .single (by decide) _
  · exact .inl ⟨_, rfl⟩

theorem FailedAtEnd.harmless (h : FailedAtEnd eof e) : e.isFatal = false := by
  obtain ⟨_, rfl | rfl, rfl⟩ := h <;> rfl

theorem condition_of_nothing (orAllowed : Bool) (h : (leadingNot ts).2 = []) :
    ∃ e, FailedAtEnd eof e ∧ condition eof levels orAllowed ts = .error e := by
  cases hinner : enter levels with
  | none =>
    rw [condition, hinner, h]
    exact ⟨_, ⟨_, .inr rfl, rfl⟩, rfl⟩
  | some inner =>
    rw [condition_enter hinner, h, operands_nil]
    exact ⟨_, ⟨_, .inl rfl, rfl⟩, rfl⟩

/-- How a condition fails. Where nothing is, or no more than a `not`, there is no lexeme to tell of. -/
def ConditionFailed (eof : Nat) (levels : Option Nat) (ts : List Lexeme) (e : ParseError) : Prop :=
  FailedIn eof levels ts e ∨ (leadingNot ts).2 = [] ∧ FailedAtEnd eof e

theorem conditionFailed_of_condition (orAllowed : Bool) (horder : Lexeme.InOrder length ts) :
    Fails (ConditionFailed eof levels ts) (condition eof levels orAllowed ts) := by
  by_cases hts : (leadingNot ts).2 = []
  · obtain ⟨e, hend, he⟩ := condition_of_nothing orAllowed hts
    rw [he]
    exact .error (.inr ⟨hts, hend⟩)
  · exact (failedIn_condition horder hts).mono fun _ => .inl

theorem ConditionFailed.hasGroupChain (h : ConditionFailed eof levels ts e) :
    HasGroupChain levels ts e :=
  h.elim FailedIn.shape fun h => h.2.hasGroupChain

theorem ConditionFailed.harmless (h : ConditionFailed eof levels ts e) : e.isFatal = false :=
  h.elim FailedIn.harmless fun h => h.2.harmless

end

end CssMedia.Grammar
