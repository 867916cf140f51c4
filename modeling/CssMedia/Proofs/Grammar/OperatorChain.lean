import CssMedia.Proofs.Grammar.Steps

/-!
# Where a run of operands ends

A run goes on from operand to operand as long as the words between them are its operator. The
first lexeme behind an operand that does not go on with it is the one that the failure is about,
however long the run is and whatever follows.
-/

namespace CssMedia.Grammar

variable {eof : Nat} {levels inner : Option Nat} {orAllowed : Bool} {current : Option Operator}

/-! ## One operand -/

/-- The operand at the start of some lexemes, and what is behind it. -/
def inParens (eof : Nat) (levels : Option Nat) :
    List Lexeme → Except ParseError (Operand × List Lexeme)
  | [] => .error (.single .emptyCondition ⟨eof, eof⟩)
  | first :: rest =>
    if first.kind ≠ .openParen then .error (.single .expectOpenParen first.span)
    else
      match cutAtClose 0 rest with
      | none => .error (.single .mismatchedParens (Lexeme.spanOf eof (first :: rest)))
      | some (interior, close, after) =>
        ((group eof levels first interior close).mapError
          (within .expectFeatureOrCondition (first.span.cover close.span))).map (·, after)

theorem operands_eq (ts : List Lexeme) :
    operands eof levels orAllowed current ts =
      inParens eof levels ts >>= fun (x, after) => runAfter eof levels orAllowed current x after := by
  cases ts with
  | nil => exact operands_nil
  | cons first rest =>
    by_cases hfirst : first.kind = .openParen
    · cases hcut : cutAtClose 0 rest with
      | none => simp only [operands_unclosed hfirst hcut, inParens, hfirst, hcut]; rfl
      | some cut =>
        obtain ⟨interior, close, after⟩ := cut
        rw [operands_cut hfirst hcut]
        simp only [inParens, hfirst, hcut]
        cases group eof levels first interior close <;> rfl
    · simp only [operands_start hfirst, inParens, ne_eq, hfirst, not_false_eq_true, if_true]
      rfl

theorem cutAtClose_append {depth : Nat} {ts interior after : List Lexeme} {close : Lexeme}
    (h : cutAtClose depth ts = some (interior, close, after)) (us : List Lexeme) :
    cutAtClose depth (ts ++ us) = some (interior, close, after ++ us) := by
  induction ts generalizing depth interior with
  | nil => cases h
  | cons t ts ih =>
    by_cases hhere : t.kind = .closeParen ∧ depth = 0
    · rw [cutAtClose, if_pos hhere] at h
      cases h
      rw [List.cons_append, cutAtClose, if_pos hhere]
    · rw [cutAtClose_cons hhere, behind, Option.map_eq_some_iff] at h
      obtain ⟨⟨before, t', after'⟩, hcut, heq⟩ := h
      cases heq
      rw [List.cons_append, cutAtClose_cons hhere, ih hcut]
      rfl

theorem inParens_append {ts after : List Lexeme} {x : Operand}
    (h : inParens eof levels ts = .ok (x, after)) (us : List Lexeme) :
    inParens eof levels (ts ++ us) = .ok (x, after ++ us) := by
  cases ts with
  | nil => cases h
  | cons first rest =>
    by_cases hfirst : first.kind = .openParen
    · cases hcut : cutAtClose 0 rest with
      | none => simp [inParens, hfirst, hcut] at h
      | some cut =>
        obtain ⟨interior, close, behind⟩ := cut
        simp only [inParens, hfirst, hcut, ne_eq, not_true_eq_false, if_false] at h
        obtain ⟨y, hy, heq⟩ := exists_of_map_eq_ok h
        cases heq
        simp only [List.cons_append, inParens, hfirst, cutAtClose_append hcut, hy, ne_eq,
          not_true_eq_false, if_false]
        rfl
    · simp [inParens, hfirst] at h

/-- The lexemes are an operand and nothing more. -/
def IsOperand (eof : Nat) (levels : Option Nat) (ts : List Lexeme) : Prop :=
  ∃ x, inParens eof levels ts = .ok (x, [])

theorem IsOperand.exists_runAfter {ts : List Lexeme} (h : IsOperand eof levels ts)
    (us : List Lexeme) : ∃ x, operands eof levels orAllowed current (ts ++ us) =
      runAfter eof levels orAllowed current x us := by
  obtain ⟨x, hx⟩ := h
  refine ⟨x, ?_⟩
  rw [operands_eq, inParens_append hx]
  rfl

theorem IsOperand.starts {ts : List Lexeme} (h : IsOperand eof levels ts) :
    ∃ first rest, ts = first :: rest ∧ first.kind = .openParen := by
  obtain ⟨x, hx⟩ := h
  cases ts with
  | nil => cases hx
  | cons first rest =>
    refine ⟨first, rest, rfl, ?_⟩
    by_contra hfirst
    simp [inParens, hfirst] at hx

theorem OperandForm.isOperand {ts : List Lexeme} {x : Operand} (h : OperandForm ts x)
    (hdepth : Allows levels x.depth) : IsOperand eof levels ts := by
  obtain ⟨first, interior, close, rfl, hfirst, hclose, hbalanced, hgroup⟩ := h.group_eq eof hdepth
  refine ⟨x, ?_⟩
  simp only [inParens, hfirst, hbalanced.cutAtClose hclose, hgroup, ne_eq, not_true_eq_false,
    if_false]
  rfl

/-! ## The operator behind an operand -/

/-- The lexeme behind an operand continues a run with this operator so far. -/
def Continues (orAllowed : Bool) (current : Option Operator) (t : Lexeme) (rest : List Lexeme) :
    Prop :=
  ∃ op : Operator, t.kind = .ident op.name ∧ op.isAssociative ∧ (∀ o, current = some o → o = op) ∧
    (op = .or → orAllowed) ∧ rest ≠ []

/-- Why the lexeme behind an operand does not continue the run. -/
inductive Breaks (orAllowed : Bool) (current : Option Operator) (t : Lexeme) (rest : List Lexeme) :
    ErrorKind → Prop where
  | close (ht : t.kind = .closeParen) : Breaks orAllowed current t rest .mismatchedParens
  | noOperator (hclose : t.kind ≠ .closeParen) (hand : t.kind ≠ .ident "and")
    (hor : t.kind ≠ .ident "or") : Breaks orAllowed current t rest .expectAndOrOr
  | other {op o : Operator} (ht : t.kind = .ident op.name) (hop : op.isAssociative)
    (hcurrent : current = some o) (hne : o ≠ op) : Breaks orAllowed current t rest .mixedAndWithOr
  | orRefused (ht : t.kind = .ident "or") (hor : orAllowed = false) :
    Breaks orAllowed current t rest .mixedAndWithOr
  | last {op : Operator} (ht : t.kind = .ident op.name) (hop : op.isAssociative)
    (hcurrent : ∀ o, current = some o → o = op) (hor : op = .or → orAllowed) (hrest : rest = []) :
    Breaks orAllowed current t rest .expectCondition

variable {t : Lexeme} {rest : List Lexeme}

theorem associative_eq_none (hand : t.kind ≠ .ident "and") (hor : t.kind ≠ .ident "or") :
    (t.ident?.bind Operator.ofName?).filter Operator.isAssociative = none := by
  rw [Option.eq_none_iff_forall_ne_some]
  intro op hop
  obtain ⟨ht, hassoc⟩ := associative_eq_some_iff.mp hop
  cases op with
  | and => exact hand ht
  | or => exact hor ht
  | not => cases hassoc

theorem Breaks.nextOperator_eq {kind : ErrorKind} (h : Breaks orAllowed current t rest kind) :
    nextOperator orAllowed current t rest = .error (.single kind t.span) := by
  unfold nextOperator
  cases h with
  | close ht =>
    rw [associative_eq_none (by simp [ht]) (by simp [ht])]
    exact if_pos ht
  | noOperator hclose hand hor =>
    rw [associative_eq_none hand hor]
    exact if_neg hclose
  | other ht hop hcurrent hne =>
    rw [associative_eq_some_iff.mpr ⟨ht, hop⟩]
    exact if_pos (by simp [hcurrent, hne])
  | orRefused ht hor =>
    have hword : (t.ident?.bind Operator.ofName?).filter Operator.isAssociative = some .or :=
      associative_eq_some_iff.mpr ⟨ht, rfl⟩
    rw [hword]
    exact if_pos (by simp [hor])
  | last ht hop hcurrent hor hrest =>
    rw [associative_eq_some_iff.mpr ⟨ht, hop⟩]
    simp only [any_ne_eq_false_iff.mpr hcurrent, or_refused_eq_false_iff.mpr hor, Bool.or_self,
      Bool.false_eq_true, if_false, if_pos hrest]

theorem continues_or_breaks_word {op : Operator} (ht : t.kind = .ident op.name)
    (hop : op.isAssociative) :
    Continues orAllowed current t rest ∨ ∃ kind, Breaks orAllowed current t rest kind := by
  by_cases hcurrent : ∀ o, current = some o → o = op
  · by_cases hor : op = .or → orAllowed
    · by_cases hrest : rest = []
      · exact .inr ⟨_, .last ht hop hcurrent hor hrest⟩
      · exact .inl ⟨op, ht, hop, hcurrent, hor, hrest⟩
    · rw [Classical.not_imp] at hor
      obtain ⟨rfl, hrefused⟩ := hor
      exact .inr ⟨_, .orRefused ht (Bool.not_eq_true _ ▸ hrefused)⟩
  · push Not at hcurrent
    obtain ⟨o, ho, hne⟩ := hcurrent
    exact .inr ⟨_, .other ht hop ho hne⟩

theorem continues_or_breaks (orAllowed : Bool) (current : Option Operator) (t : Lexeme)
    (rest : List Lexeme) :
    Continues orAllowed current t rest ∨ ∃ kind, Breaks orAllowed current t rest kind := by
  by_cases hand : t.kind = .ident "and"
  · have hword : t.kind = .ident Operator.and.name := hand
    exact continues_or_breaks_word hword rfl
  by_cases hor : t.kind = .ident "or"
  · have hword : t.kind = .ident Operator.or.name := hor
    exact continues_or_breaks_word hword rfl
  by_cases hclose : t.kind = .closeParen
  · exact .inr ⟨_, .close hclose⟩
  · exact .inr ⟨_, .noOperator hclose hand hor⟩

/-! ## Runs -/

/-- The lexemes of an operand, and the word behind it. -/
structure Turn where
  operand : List Lexeme
  word : Lexeme

namespace Turn

def lexemes (turn : Turn) : List Lexeme := turn.operand ++ [turn.word]

/-- An operand and the word of this operator. -/
structure Fits (eof : Nat) (levels : Option Nat) (op : Operator) (turn : Turn) : Prop where
  operand : IsOperand eof levels turn.operand
  word : turn.word.kind = .ident op.name

end Turn

/-- The operator of a run after some turns with this one. -/
def operatorAfter (current : Option Operator) (op : Operator) (turns : List Turn) :
    Option Operator :=
  if turns = [] then current else some op

theorem operands_turn {op : Operator} {turn : Turn} (h : turn.Fits eof levels op)
    (hop : op.isAssociative) (hcurrent : ∀ o, current = some o → o = op) (hor : op = .or → orAllowed)
    {ts : List Lexeme} (hts : ts ≠ []) :
    ∃ f, operands eof levels orAllowed current (turn.lexemes ++ ts) =
      (operands eof levels orAllowed (some op) ts).map f := by
  obtain ⟨x, hx⟩ := h.operand.exists_runAfter (turn.word :: ts)
  have hnext : nextOperator orAllowed current turn.word ts = .ok op :=
    nextOperator_iff.mpr ⟨h.word, hop, hcurrent, hor, hts⟩
  refine ⟨fun c => ⟨c.operator, x :: c.operands⟩, ?_⟩
  rw [Turn.lexemes, List.append_assoc, List.singleton_append, hx, runAfter, hnext]
  show operands eof levels orAllowed (some op) ts >>= _ = _
  cases operands eof levels orAllowed (some op) ts <;> rfl

theorem operands_turns {op : Operator} {turns : List Turn}
    (h : ∀ turn ∈ turns, turn.Fits eof levels op) (hop : op.isAssociative)
    (hcurrent : turns ≠ [] → ∀ o, current = some o → o = op)
    (hor : turns ≠ [] → op = .or → orAllowed) {ts : List Lexeme} (hts : ts ≠ []) :
    ∃ f, operands eof levels orAllowed current (turns.flatMap Turn.lexemes ++ ts) =
      (operands eof levels orAllowed (operatorAfter current op turns) ts).map f := by
  induction turns generalizing current with
  | nil =>
    refine ⟨id, ?_⟩
    rw [operatorAfter, if_pos rfl, List.flatMap_nil, List.nil_append]
    cases operands eof levels orAllowed current ts <;> rfl
  | cons turn turns ih =>
    have hne := List.cons_ne_nil turn turns
    obtain ⟨f, hf⟩ := @ih (some op) (fun u hu => h u (List.mem_cons_of_mem _ hu))
      (fun _ _ ho => (Option.some.inj ho).symm) fun _ => hor hne
    obtain ⟨g, hg⟩ := operands_turn (h turn (List.mem_cons_self ..)) hop (hcurrent hne) (hor hne)
      (List.append_ne_nil_of_right_ne_nil (turns.flatMap Turn.lexemes) hts)
    have hsame : operatorAfter (some op) op turns = operatorAfter current op (turn :: turns) := by
      simp [operatorAfter]
    refine ⟨fun c => g (f c), ?_⟩
    rw [List.flatMap_cons, List.append_assoc, hg, hf, hsame]
    cases operands eof levels orAllowed _ ts <;> rfl

/-- What a condition may start with before its first operand. -/
inductive Leading : List Lexeme → Option Operator → Prop where
  | nothing : Leading [] none
  | negation {word : Lexeme} (hword : word.kind = .ident "not") : Leading [word] (some .not)

theorem Leading.leadingNot_eq {before : List Lexeme} (h : Leading before current)
    {first : Lexeme} (hfirst : first.kind = .openParen) (us : List Lexeme) :
    leadingNot (before ++ first :: us) = (current, first :: us) := by
  cases h with
  | nothing => exact leadingNot_openParen hfirst us
  | negation hword => exact leadingNot_not hword (first :: us)

theorem Leading.condition_eq {before ts : List Lexeme} (h : Leading before current)
    (hstarts : ∃ first rest, ts = first :: rest ∧ first.kind = .openParen)
    (hinner : enter levels = some inner) :
    condition eof levels orAllowed (before ++ ts) = operands eof inner orAllowed current ts := by
  obtain ⟨first, rest, rfl, hfirst⟩ := hstarts
  rw [condition_enter hinner, h.leadingNot_eq hfirst]

theorem operands_breaks {last : List Lexeme} (hlast : IsOperand eof levels last) {kind : ErrorKind}
    (h : Breaks orAllowed current t rest kind) :
    operands eof levels orAllowed current (last ++ t :: rest) = .error (.single kind t.span) := by
  obtain ⟨x, hx⟩ := hlast.exists_runAfter (t :: rest)
  rw [hx, runAfter, h.nextOperator_eq]
  rfl

theorem starts_turns {op : Operator} {turns : List Turn} {last : List Lexeme}
    (h : ∀ turn ∈ turns, turn.Fits eof levels op) (hlast : IsOperand eof levels last)
    (us : List Lexeme) : ∃ first rest, turns.flatMap Turn.lexemes ++ (last ++ us) = first :: rest ∧
      first.kind = .openParen := by
  cases turns with
  | nil =>
    obtain ⟨first, rest, rfl, hfirst⟩ := hlast.starts
    exact ⟨first, _, rfl, hfirst⟩
  | cons turn turns =>
    obtain ⟨first, rest, heq, hfirst⟩ := (h turn (List.mem_cons_self ..)).operand.starts
    exact ⟨first, _, by rw [List.flatMap_cons, Turn.lexemes, heq]; rfl, hfirst⟩

/-- Behind the operands of a run with one operator, a lexeme that does not continue the run is what
the condition fails about, with one link and for the one reason there is. One free level is enough,
and what follows that lexeme makes no difference. -/
theorem condition_fails_at_operator {before last rest : List Lexeme} {turns : List Turn}
    {op : Operator} {t : Lexeme} (hinner : enter levels = some inner)
    (hbefore : Leading before current) (hop : op.isAssociative)
    (hturns : ∀ turn ∈ turns, turn.Fits eof inner op) (hlast : IsOperand eof inner last)
    (hor : turns ≠ [] → op = .or → orAllowed) (hnot : current = some .not → turns = [])
    (hstops : ¬ Continues orAllowed (operatorAfter current op turns) t rest) :
    (∃ kind, Breaks orAllowed (operatorAfter current op turns) t rest kind) ∧
      ∀ kind, Breaks orAllowed (operatorAfter current op turns) t rest kind →
        condition eof levels orAllowed
          (before ++ (turns.flatMap Turn.lexemes ++ (last ++ t :: rest))) =
            .error (.single kind t.span) := by
  refine ⟨(continues_or_breaks _ _ t rest).resolve_left hstops, fun kind hkind => ?_⟩
  have hcurrent : turns ≠ [] → ∀ o, current = some o → o = op := by
    rintro hmany o rfl
    cases hbefore
    exact absurd (hnot rfl) hmany
  have hne : last ++ t :: rest ≠ [] := List.append_ne_nil_of_right_ne_nil last (List.cons_ne_nil t rest)
  obtain ⟨f, hf⟩ := operands_turns hturns hop hcurrent hor hne
  rw [hbefore.condition_eq (starts_turns hturns hlast _) hinner, hf, operands_breaks hlast hkind]
  rfl

/-- In `(a) and (b) or` the `or` fails a condition that has one level left: it is not the operator
of the run, though it also has nothing behind it. -/
theorem condition_fails_at_other_operator :
    let a : List Lexeme := [⟨.openParen, ⟨0, 0⟩, false⟩, ⟨.ident "a", ⟨1, 1⟩, false⟩,
      ⟨.closeParen, ⟨2, 2⟩, false⟩]
    let b : List Lexeme := [⟨.openParen, ⟨8, 8⟩, true⟩, ⟨.ident "b", ⟨9, 9⟩, false⟩,
      ⟨.closeParen, ⟨10, 10⟩, false⟩]
    let turns : List Turn := [⟨a, ⟨.ident "and", ⟨4, 6⟩, true⟩⟩]
    let t : Lexeme := ⟨.ident "or", ⟨12, 13⟩, true⟩
    enter (some 1) = some (some 0) ∧ Leading [] none ∧ Operator.and.isAssociative ∧
      (∀ turn ∈ turns, turn.Fits 14 (some 0) .and) ∧ IsOperand 14 (some 0) b ∧
      ¬ Continues true (some .and) t [] ∧ Breaks true (some .and) t [] .mixedAndWithOr ∧
      condition 14 (some 1) true (turns.flatMap Turn.lexemes ++ (b ++ [t])) =
        .error (.single .mixedAndWithOr ⟨12, 13⟩) := by
  intro a b turns t
  have hoperand : ∀ {first name close : Lexeme} {w : String}, first.kind = .openParen →
      name.kind = .ident w → close.kind = .closeParen →
      IsOperand 14 (some 0) (first :: ([name] ++ [close])) := fun hfirst hname hclose =>
    OperandForm.isOperand (.feature hfirst hclose (.boolean hname)) (allows_zero _)
  have hturns : ∀ turn ∈ turns, turn.Fits 14 (some 0) .and :=
    List.forall_mem_singleton.mpr ⟨hoperand rfl rfl rfl, rfl⟩
  have hb : IsOperand 14 (some 0) b := hoperand rfl rfl rfl
  have hinner : enter (some 1) = some (some 0) := rfl
  have hstops : ¬ Continues true (operatorAfter none .and turns) t [] :=
    fun ⟨_, _, _, _, _, hrest⟩ => hrest rfl
  have hword : t.kind = .ident Operator.or.name := rfl
  have hbreaks : Breaks true (some .and) t [] .mixedAndWithOr := .other hword rfl rfl nofun
  obtain ⟨-, hfails⟩ := condition_fails_at_operator hinner .nothing rfl hturns hb (fun _ _ => rfl)
    nofun hstops
  exact ⟨hinner, .nothing, rfl, hturns, hb, hstops, hbreaks, hfails _ hbreaks⟩

end CssMedia.Grammar
