import CssMedia.Proofs.Grammar.ConditionForm
import CssMedia.Proofs.Grammar.Steps

/-!
# One count of open conditions

In place of the levels that are left, a reader may keep count of the conditions that it is
inside of, one count for all members of a list. Every reader leaves the count as it found it,
also where it fails, so what it gives is the same as with levels of its own.
-/

namespace CssMedia.Grammar

/-- A reader with a count of the conditions around it. -/
abbrev Counting (α : Type) := ExceptT ParseError (StateM Nat) α

namespace Counting

variable {α : Type}

/-- Reads with the count one higher. It goes down again afterwards, with a failure too. -/
def deeper (body : Counting α) : Counting α := do
  modify (· + 1)
  let r ← ExceptT.lift body.run
  modify (· - 1)
  ofExcept r

/-- Reads inside of one more condition, unless the count has reached the limit. -/
def inside (limit : Option Nat) (span : Span) (body : Counting α) : Counting α := do
  if limit.any (· ≤ (← get)) then throw (.single .nestedTooDeeply span)
  else deeper body

theorem run_ofExcept (r : Except ParseError α) (count : Nat) :
    (ofExcept r : Counting α).run.run count = (r, count) := by
  cases r <;> rfl

theorem run_deeper (body : Counting α) (count : Nat) :
    (deeper body).run.run count =
      ((body.run.run (count + 1)).1, (body.run.run (count + 1)).2 - 1) := by
  show (ofExcept (body.run.run (count + 1)).1 : Counting α).run.run _ = _
  rw [run_ofExcept]
  rfl

theorem run_inside (limit : Option Nat) (span : Span) (body : Counting α) (count : Nat) :
    (inside limit span body).run.run count =
      if limit.any (· ≤ count) then (.error (.single .nestedTooDeeply span), count)
      else (deeper body).run.run count := by
  show (if limit.any (· ≤ count) then MonadExcept.throw (.single .nestedTooDeeply span)
    else deeper body : Counting α).run.run count = _
  split <;> rfl

end Counting

open Counting (inside)

/-! ## The readers -/

mutual

def countingGroup (eof : Nat) (limit : Option Nat) (first : Lexeme) (interior : List Lexeme)
    (close : Lexeme) : Counting Operand :=
  if interior.any (·.kind.opensParen) then do
    let c ← countingCondition eof limit true interior
    return c.toOperand
  else ofExcept ((feature eof (first :: interior ++ [close])).map Operand.feature)
termination_by (interior.length, 2)

def countingCondition (eof : Nat) (limit : Option Nat) (orAllowed : Bool) (ts : List Lexeme) :
    Counting Condition :=
  inside limit (Lexeme.spanOf eof (leadingNot ts).2)
    (countingOperands eof limit orAllowed (leadingNot ts).1 (leadingNot ts).2)
termination_by (ts.length, 1)
decreasing_by
  have := length_leadingNot_le ts
  rcases Nat.lt_or_eq_of_le this with h | h
  · exact Prod.Lex.left _ _ h
  · rw [h]; exact Prod.Lex.right _ (by decide)

def countingOperands (eof : Nat) (limit : Option Nat) (orAllowed : Bool)
    (current : Option Operator) : List Lexeme → Counting Condition
  | [] => throw (.single .emptyCondition ⟨eof, eof⟩)
  | first :: rest =>
    if first.kind ≠ .openParen then throw (.single .expectOpenParen first.span)
    else
      match _h : cutAtClose 0 rest with
      | none => throw (.single .mismatchedParens (Lexeme.spanOf eof (first :: rest)))
      | some (interior, close, after) => do
        let operand ← (countingGroup eof limit first interior close).adapt
          (within .expectFeatureOrCondition (first.span.cover close.span))
        match _hafter : after with
        | [] => return ⟨current, [operand]⟩
        | t :: more =>
          let op ← ofExcept (nextOperator orAllowed current t more)
          let c ← countingOperands eof limit orAllowed (some op) more
          return ⟨c.operator, operand :: c.operands⟩
termination_by ts => (ts.length, 0)
decreasing_by
  · have := length_of_cutAtClose _h
    exact Prod.Lex.left _ _ (by simp only [List.length_cons]; omega)
  · have := length_of_cutAtClose _h
    exact Prod.Lex.left _ _ (by simp only [_hafter, List.length_cons] at this ⊢; omega)

end

/-- What is left of a run after one more operand. -/
def countingRunAfter (eof : Nat) (limit : Option Nat) (orAllowed : Bool)
    (current : Option Operator) (operand : Operand) : List Lexeme → Counting Condition
  | [] => return ⟨current, [operand]⟩
  | t :: after => do
    let op ← ofExcept (nextOperator orAllowed current t after)
    let c ← countingOperands eof limit orAllowed (some op) after
    return ⟨c.operator, operand :: c.operands⟩

def countingConditionQuery (eof : Nat) (limit : Option Nat) (ts : List Lexeme) : Counting Query := do
  let c ← (countingCondition eof limit true ts).adapt
    (within .expectCondition (Lexeme.spanOf eof ts))
  return ⟨none, .all, some c⟩

def countingAfterType (eof : Nat) (limit : Option Nat) : List Lexeme → Counting (Option Condition)
  | [] => return none
  | t :: ts =>
    if !t.isIdent "and" then throw (.single .expectAnd t.span)
    else if ts = [] then throw (.single .expectCondition t.span)
    else do
      let c ← (countingCondition eof limit false ts).adapt
        (within .expectCondition (Lexeme.spanOf eof ts))
      return some c

def countingTyped (eof : Nat) (limit : Option Nat) (modifier : Option Modifier) (t : Lexeme)
    (rest : List Lexeme) : Counting Query := do
  let (modifier, type) ← ofExcept (mediaType modifier t)
  let c ← countingAfterType eof limit rest
  return ⟨modifier, type, c⟩

def countingQuery (eof : Nat) (limit : Option Nat) : List Lexeme → Counting Query
  | [] => throw (.single .emptyQuery ⟨eof, eof⟩)
  | first :: rest =>
    if first.kind = .openParen then countingConditionQuery eof limit (first :: rest)
    else if first.ident?.isNone then throw (.single .expectParenOrTypeOrModifier first.span)
    else
      match modifier? first, rest with
      | none, _ => countingTyped eof limit none first rest
      | some m, [] => throw (.single (missingType m) first.span)
      | some m, next :: after =>
        if m = .not ∧ next.kind = .openParen then countingConditionQuery eof limit (first :: rest)
        else if next.ident?.isSome then countingTyped eof limit (some m) next after
        else throw (.single (missingType m) next.span)

/-- The members of a list one after another, all with the same count. -/
def countingMembers (eof : Nat) (limit : Option Nat) (ts : List Lexeme) :
    StateM Nat (List (Except ParseError Query)) :=
  match (segments ts).filter (· != []) with
  | [] => return [.ok .all]
  | segments => segments.mapM fun segment => (countingQuery eof limit segment).run

/-! ## The count and the levels -/

/-- The levels that a count leaves of a limit. -/
def levelsLeft (limit : Option Nat) (count : Nat) : Option Nat := limit.map (· - count)

theorem enter_levelsLeft (limit : Option Nat) (count : Nat) :
    enter (levelsLeft limit count) =
      if limit.any (· ≤ count) then none else some (levelsLeft limit (count + 1)) := by
  cases limit with
  | none => rfl
  | some n =>
    by_cases h : n ≤ count
    · simp [levelsLeft, Nat.sub_eq_zero_of_le h, enter, h]
    · obtain ⟨k, rfl⟩ : ∃ k, n = count + 1 + k := ⟨n - (count + 1), by omega⟩
      have hleft : count + 1 + k - count = k + 1 := by omega
      simp [levelsLeft, h, hleft, enter]

/-- Gives what is read with the levels that are left, and leaves the count as it is. -/
def Restores {α : Type} (limit : Option Nat) (m : Counting α)
    (read : Option Nat → Except ParseError α) : Prop :=
  ∀ count, m.run.run count = (read (levelsLeft limit count), count)

namespace Restores

variable {α β : Type} {limit : Option Nat} {m : Counting α} {read : Option Nat → Except ParseError α}

theorem ofExcept (r : Except ParseError α) : Restores limit (ofExcept r) fun _ => r :=
  fun count => Counting.run_ofExcept r count

theorem pure (a : α) : Restores limit (pure a) fun _ => .ok a := fun _ => rfl

theorem throw (e : ParseError) : Restores limit (throw e : Counting α) fun _ => .error e :=
  fun _ => rfl

theorem bind {f : α → Counting β} {next : α → Option Nat → Except ParseError β}
    (h : Restores limit m read) (hnext : ∀ a, Restores limit (f a) (next a)) :
    Restores limit (m >>= f) fun levels => read levels >>= (next · levels) := by
  intro count
  have hrun : (m >>= f).run.run count =
      (ExceptT.bindCont f (m.run.run count).1).run (m.run.run count).2 := rfl
  rw [hrun, h count]
  dsimp only
  cases read (levelsLeft limit count) with
  | error e => rfl
  | ok a => exact hnext a count

theorem adapt (f : ParseError → ParseError) (h : Restores limit m read) :
    Restores limit (m.adapt f) fun levels => (read levels).mapError f := by
  intro count
  have hrun : (m.adapt f).run.run count =
      ((m.run.run count).1.mapError f, (m.run.run count).2) := rfl
  rw [hrun, h count]

theorem inside (span : Span) (h : Restores limit m read) :
    Restores limit (inside limit span m) fun levels =>
      match enter levels with
      | none => .error (.single .nestedTooDeeply span)
      | some inner => read inner := by
  intro count
  dsimp only
  rw [Counting.run_inside, Counting.run_deeper, h (count + 1), enter_levelsLeft]
  split <;> rfl

theorem congr {read' : Option Nat → Except ParseError α} (h : Restores limit m read)
    (heq : ∀ levels, read' levels = read levels) : Restores limit m read' := by
  rwa [funext heq]

end Restores

theorem countingOperands_unclosed {eof : Nat} {limit : Option Nat} {orAllowed : Bool}
    {current : Option Operator} {first : Lexeme} {rest : List Lexeme}
    (hfirst : first.kind = .openParen) (hcut : cutAtClose 0 rest = none) :
    countingOperands eof limit orAllowed current (first :: rest) =
      throw (.single .mismatchedParens (Lexeme.spanOf eof (first :: rest))) := by
  unfold countingOperands
  rw [if_neg (not_not_intro hfirst)]
  split
  · rfl
  · next heq => simp [hcut] at heq

theorem countingOperands_cut {eof : Nat} {limit : Option Nat} {orAllowed : Bool}
    {current : Option Operator} {first close : Lexeme} {rest interior after : List Lexeme}
    (hfirst : first.kind = .openParen) (hcut : cutAtClose 0 rest = some (interior, close, after)) :
    countingOperands eof limit orAllowed current (first :: rest) =
      (countingGroup eof limit first interior close).adapt
          (within .expectFeatureOrCondition (first.span.cover close.span)) >>=
        fun operand => countingRunAfter eof limit orAllowed current operand after := by
  unfold countingOperands
  rw [if_neg (not_not_intro hfirst)]
  split
  · next heq => simp [hcut] at heq
  next heq =>
  rw [hcut] at heq
  cases heq
  cases after <;> rfl

/-! ## The readers put the count back -/

section

variable (eof : Nat) (limit : Option Nat)

mutual

theorem restores_group (first close : Lexeme) (interior : List Lexeme) :
    Restores limit (countingGroup eof limit first interior close)
      (group eof · first interior close) := by
  unfold countingGroup
  by_cases hparens : interior.any (·.kind.opensParen)
  · rw [if_pos hparens]
    refine ((restores_condition true interior).bind fun c => .pure c.toOperand).congr fun levels => ?_
    rw [group, if_pos hparens]
    cases condition eof levels true interior <;> rfl
  · rw [if_neg hparens]
    refine (Restores.ofExcept _).congr fun levels => ?_
    rw [group, if_neg hparens]
termination_by (interior.length, 2)

theorem restores_condition (orAllowed : Bool) (ts : List Lexeme) :
    Restores limit (countingCondition eof limit orAllowed ts) (condition eof · orAllowed ts) := by
  unfold countingCondition
  refine ((restores_operands orAllowed _ _).inside _).congr fun levels => ?_
  unfold condition
  cases enter levels <;> rfl
termination_by (ts.length, 1)
decreasing_by
  have := length_leadingNot_le ts
  rcases Nat.lt_or_eq_of_le this with h | h
  · exact Prod.Lex.left _ _ h
  · rw [h]; exact Prod.Lex.right _ (by omega)

theorem restores_operands (orAllowed : Bool) (current : Option Operator) (ts : List Lexeme) :
    Restores limit (countingOperands eof limit orAllowed current ts)
      (operands eof · orAllowed current ts) := by
  cases ts with
  | nil =>
    unfold countingOperands
    exact (Restores.throw _).congr fun _ => operands_nil
  | cons first rest =>
    by_cases hfirst : first.kind = .openParen
    · cases hcut : cutAtClose 0 rest with
      | none =>
        rw [countingOperands_unclosed hfirst hcut]
        exact (Restores.throw _).congr fun _ => operands_unclosed hfirst hcut
      | some cut =>
        obtain ⟨interior, close, after⟩ := cut
        have hlen := length_of_cutAtClose hcut
        rw [countingOperands_cut hfirst hcut]
        refine (((restores_group first close interior).adapt _).bind fun operand => ?_).congr
          fun levels => operands_cut hfirst hcut
        cases after with
        | nil => exact .pure _
        | cons t after =>
          refine (Restores.ofExcept _).bind fun op => ?_
          exact (restores_operands orAllowed (some op) after).bind fun c => .pure _
    · unfold countingOperands
      rw [if_pos hfirst]
      exact (Restores.throw _).congr fun _ => operands_start hfirst rest
termination_by (ts.length, 0)
decreasing_by
  all_goals
    apply Prod.Lex.left _ _
    simp only [List.length_cons] at hlen ⊢
    omega

end

theorem restores_conditionQuery (ts : List Lexeme) :
    Restores limit (countingConditionQuery eof limit ts) (conditionQuery eof · ts) := by
  refine (((restores_condition eof limit true ts).adapt _).bind fun c => .pure _).congr fun levels => ?_
  rw [conditionQuery_eq]
  cases condition eof levels true ts <;> rfl

theorem restores_afterType (ts : List Lexeme) :
    Restores limit (countingAfterType eof limit ts) (afterType eof · ts) := by
  cases ts with
  | nil => exact .pure none
  | cons t ts =>
    rw [countingAfterType]
    by_cases hand : t.isIdent "and"
    · rw [if_neg (by simp [hand])]
      by_cases hts : ts = []
      · rw [if_pos hts]
        exact (Restores.throw _).congr fun _ => by simp [afterType, hand, hts]
      · rw [if_neg hts]
        refine (((restores_condition eof limit false ts).adapt _).bind fun c => .pure _).congr
          fun levels => ?_
        rw [afterType_and hand hts]
        cases condition eof levels false ts <;> rfl
    · rw [if_pos (by simp [hand])]
      exact (Restores.throw _).congr fun _ => by simp [afterType, hand]

theorem restores_typed (modifier : Option Modifier) (t : Lexeme) (rest : List Lexeme) :
    Restores limit (countingTyped eof limit modifier t rest) (typed eof · modifier t rest) :=
  (Restores.ofExcept _).bind fun _ => (restores_afterType eof limit rest).bind fun _ => .pure _

theorem restores_query (ts : List Lexeme) :
    Restores limit (countingQuery eof limit ts) (query eof · ts) := by
  cases ts with
  | nil => exact .throw _
  | cons first rest =>
    unfold countingQuery query
    by_cases hparen : first.kind = .openParen
    · simp only [if_pos hparen]
      exact restores_conditionQuery eof limit _
    simp only [if_neg hparen]
    by_cases hname : first.ident?.isNone
    · simp only [if_pos hname]
      exact .throw _
    simp only [if_neg hname]
    cases modifier? first with
    | none => exact restores_typed eof limit none first rest
    | some m =>
      cases rest with
      | nil => exact .throw _
      | cons next after =>
        dsimp only
        by_cases hnot : m = .not ∧ next.kind = .openParen
        · simp only [if_pos hnot]
          exact restores_conditionQuery eof limit _
        simp only [if_neg hnot]
        by_cases htype : next.ident?.isSome
        · simp only [if_pos htype]
          exact restores_typed eof limit (some m) next after
        · simp only [if_neg htype]
          exact .throw _

theorem run_bind_of {α β : Type} {m : StateM Nat α} {f : α → StateM Nat β} {a : α}
    {count after : Nat} (h : m.run count = (a, after)) : (m >>= f).run count = (f a).run after := by
  show (f (m.run count).1).run (m.run count).2 = _
  rw [h]

theorem run_mapM_countingQuery (segments : List (List Lexeme)) (count : Nat) :
    (segments.mapM fun segment => (countingQuery eof limit segment).run).run count =
      (segments.map (query eof (levelsLeft limit count)), count) := by
  induction segments with
  | nil => rfl
  | cons segment segments ih =>
    have hfirst : (countingQuery eof limit segment).run.run count =
        (query eof (levelsLeft limit count) segment, count) := restores_query eof limit segment count
    rw [List.mapM_cons, run_bind_of hfirst, run_bind_of ih]
    rfl

/-- However the members before it went, each member is read with the levels that the count left
before the first. -/
theorem run_countingMembers (ts : List Lexeme) (count : Nat) :
    (countingMembers eof limit ts).run count =
      (members eof (levelsLeft limit count) ts, count) := by
  unfold countingMembers members
  cases (segments ts).filter (· != []) with
  | nil => rfl
  | cons segment segments => exact run_mapM_countingQuery eof limit (segment :: segments) count

end

end CssMedia.Grammar
