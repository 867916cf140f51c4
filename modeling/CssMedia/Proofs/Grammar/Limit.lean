import CssMedia.Proofs.Grammar.Places
import CssMedia.Proofs.Grammar.QueryForm
import CssMedia.Proofs.Grammar.Steps

/-!
# The nesting limit

A reader gives the same within every wider limit, or it fails for want of levels, and then
with one link that nothing is wrapped around.
-/

namespace CssMedia.Grammar

/-- What the one limit allows the other allows too. -/
def Wider (levels wider : Option Nat) : Prop := ∀ depth, Allows levels depth → Allows wider depth

theorem wider_none (levels : Option Nat) : Wider levels none := nofun

theorem wider_some {n m : Nat} (h : n ≤ m) : Wider (some n) (some m) := by
  rintro depth hdepth _ ⟨⟩
  exact Nat.le_trans (hdepth n rfl) h

theorem Wider.enter {levels inner wider : Option Nat} (h : Wider levels wider)
    (hinner : enter levels = some inner) : ∃ more, enter wider = some more ∧ Wider inner more := by
  have hone : Allows wider (0 + 1) := h _ ((allows_of_enter hinner).mp (allows_zero inner))
  obtain ⟨more, hmore⟩ := exists_enter hone
  refine ⟨more, hmore, fun depth hdepth => ?_⟩
  rw [allows_of_enter hmore]
  exact h _ ((allows_of_enter hinner).mp hdepth)

/-- A failure for want of levels is one link. -/
def TooDeep {α : Type} (r : Except ParseError α) : Prop :=
  ∃ span, r = .error (.single .nestedTooDeeply span)

/-- There are too few levels, or no wider limit gives anything else. -/
inductive Settled {α : Type} (read : Option Nat → Except ParseError α) (levels : Option Nat) :
    Prop where
  | tooDeep (hlimit : levels ≠ none) (h : TooDeep (read levels))
  | lasting (hkind : ∀ e, read levels = .error e → e.outermost.kind ≠ .nestedTooDeeply)
    (h : ∀ wider, Wider levels wider → read wider = read levels)

namespace Settled

variable {α β : Type} {levels : Option Nat} {read : Option Nat → Except ParseError α}

theorem const {r : Except ParseError α} (h : ∀ e, r = .error e → e.outermost.kind ≠ .nestedTooDeeply) :
    Settled (fun _ => r) levels :=
  .lasting h fun _ _ => rfl

theorem single {kind : ErrorKind} (h : kind ≠ .nestedTooDeeply) (span : Span) :
    Settled (fun _ => (.error (.single kind span) : Except ParseError α)) levels :=
  const fun _ he => by cases he; exact h

theorem of_failsWith {kinds : List ErrorKind} {r : Except ParseError α} (h : FailsWith kinds r)
    (hkinds : .nestedTooDeeply ∉ kinds) : Settled (fun _ => r) levels :=
  const fun e he heq => hkinds (heq ▸ (h e he).2)

theorem bind {next : α → Option Nat → Except ParseError β} (h : Settled read levels)
    (hnext : ∀ a, Settled (next a) levels) :
    Settled (fun levels => read levels >>= (next · levels)) levels := by
  rcases h with ⟨hlimit, span, h⟩ | ⟨hkind, h⟩
  · exact .tooDeep hlimit ⟨span, by rw [h]; rfl⟩
  · cases hread : read levels with
    | error e =>
      refine .lasting ?_ fun wider hwider => by rw [h wider hwider, hread]; rfl
      rw [hread]
      rintro _ ⟨⟩
      exact hkind e hread
    | ok a =>
      have hbind : ∀ wider, Wider levels wider → (read wider >>= (next · wider)) = next a wider :=
        fun wider hwider => by rw [h wider hwider, hread]; rfl
      have hhere := hbind levels fun _ => id
      rcases hnext a with ⟨hlimit, hdeep⟩ | ⟨hkind, hlast⟩
      · exact .tooDeep hlimit (by rwa [hhere])
      · refine .lasting (by rwa [hhere]) fun wider hwider => ?_
        rw [hhere, hbind wider hwider, hlast wider hwider]

theorem map (f : α → β) (h : Settled read levels) :
    Settled (fun levels => (read levels).map f) levels := by
  have hmap : Settled (fun levels => read levels >>= fun a => .ok (f a)) levels :=
    h.bind fun _ => const nofun
  exact hmap

theorem mapError_within (kind : ErrorKind) (hkind : kind ≠ .nestedTooDeeply) (span : Span)
    (h : Settled read levels) :
    Settled (fun levels => (read levels).mapError (within kind span)) levels := by
  rcases h with ⟨hlimit, span', h⟩ | ⟨houter, h⟩
  · exact .tooDeep hlimit ⟨span', by rw [h]; rfl⟩
  · refine .lasting ?_ fun wider hwider => by rw [h wider hwider]
    cases hread : read levels with
    | ok a => exact nofun
    | error e =>
      rintro _ ⟨⟩
      rw [within, if_neg (houter e hread)]
      exact hkind

theorem eq_or_tooDeep (h : Settled read levels) : read levels = read none ∨ TooDeep (read levels) := by
  cases h with
  | tooDeep _ h => exact .inr h
  | lasting _ h => exact .inl (h none (wider_none levels)).symm

theorem not_tooDeep (h : Settled read none) {e : ParseError} (he : read none = .error e) :
    e.outermost.kind ≠ .nestedTooDeeply := by
  cases h with
  | tooDeep hlimit => exact absurd rfl hlimit
  | lasting hkind => exact hkind e he

theorem eq_of_error (h : Settled read levels) {e : ParseError} (he : read levels = .error e)
    (hkind : e.outermost.kind ≠ .nestedTooDeeply) {wider : Option Nat} (hwider : Wider levels wider) :
    read wider = .error e := by
  rcases h with ⟨-, span, h⟩ | ⟨-, h⟩
  · rw [he] at h
    cases h
    exact absurd rfl hkind
  · rw [h wider hwider, he]

end Settled

/-! ## Conditions -/

mutual

theorem settled_group (eof : Nat) (levels : Option Nat) (first close : Lexeme)
    (interior : List Lexeme) : Settled (group eof · first interior close) levels := by
  by_cases hparens : interior.any (·.kind.opensParen)
  · simp only [group, if_pos hparens]
    exact (settled_condition eof levels true interior).map _
  · simp only [group, if_neg hparens]
    exact (Settled.of_failsWith (failsWith_feature _ _) (by decide)).map _
termination_by (interior.length, 2)

theorem settled_condition (eof : Nat) (levels : Option Nat) (orAllowed : Bool) (ts : List Lexeme) :
    Settled (condition eof · orAllowed ts) levels := by
  cases hinner : enter levels with
  | none =>
    refine .tooDeep ?_ ⟨_, by rw [condition, hinner]⟩
    rintro rfl
    cases hinner
  | some inner =>
    have hread : condition eof levels orAllowed ts =
        operands eof inner orAllowed (leadingNot ts).1 (leadingNot ts).2 := condition_enter hinner ts
    rcases settled_operands eof inner orAllowed (leadingNot ts).1 (leadingNot ts).2 with
      ⟨hlimit, h⟩ | ⟨hkind, h⟩
    · refine .tooDeep ?_ (by rwa [hread])
      rintro rfl
      cases hinner
      exact hlimit rfl
    · refine .lasting (by rwa [hread]) fun wider hwider => ?_
      obtain ⟨more, hmore, hinside⟩ := hwider.enter hinner
      rw [hread, condition_enter hmore, h more hinside]
termination_by (ts.length, 1)
decreasing_by
  have := length_leadingNot_le ts
  rcases Nat.lt_or_eq_of_le this with h | h
  · exact Prod.Lex.left _ _ h
  · rw [h]; exact Prod.Lex.right _ (by omega)

theorem settled_operands (eof : Nat) (levels : Option Nat) (orAllowed : Bool)
    (current : Option Operator) (ts : List Lexeme) :
    Settled (operands eof · orAllowed current ts) levels := by
  cases ts with
  | nil =>
    simp only [operands_nil]
    exact .single (by decide) _
  | cons first rest =>
    by_cases hfirst : first.kind = .openParen
    · cases hcut : cutAtClose 0 rest with
      | none =>
        simp only [operands_unclosed hfirst hcut]
        exact .single (by decide) _
      | some cut =>
        obtain ⟨interior, close, after⟩ := cut
        have hlen := length_of_cutAtClose hcut
        simp only [operands_cut hfirst hcut]
        refine ((settled_group eof levels first close interior).mapError_within _ (by decide) _).bind
          fun operand => ?_
        cases after with
        | nil => exact .const nofun
        | cons t after =>
          have hop := failsWith_nextOperator orAllowed current t after
          refine (Settled.of_failsWith hop (by decide)).bind fun op => ?_
          exact (settled_operands eof levels orAllowed (some op) after).bind fun _ => .const nofun
    · simp only [operands_start hfirst]
      exact .single (by decide) _
termination_by (ts.length, 0)
decreasing_by
  all_goals
    apply Prod.Lex.left _ _
    simp only [List.length_cons] at hlen ⊢
    omega

end

/-! ## Queries -/

theorem settled_conditionQuery (eof : Nat) (levels : Option Nat) (ts : List Lexeme) :
    Settled (conditionQuery eof · ts) levels := by
  simp only [conditionQuery_eq]
  exact ((settled_condition eof levels true ts).mapError_within _ (by decide) _).map _

theorem settled_afterType (eof : Nat) (levels : Option Nat) (ts : List Lexeme) :
    Settled (afterType eof · ts) levels := by
  cases ts with
  | nil => exact .const nofun
  | cons t ts =>
    by_cases hand : t.isIdent "and"
    · by_cases hts : ts = []
      · simp only [afterType, hand, hts]
        exact .single (by decide) _
      · simp only [afterType_and hand hts]
        exact ((settled_condition eof levels false ts).mapError_within _ (by decide) _).map _
    · simp only [afterType, hand]
      exact .single (by decide) _

theorem settled_typed (eof : Nat) (levels : Option Nat) (modifier : Option Modifier) (t : Lexeme)
    (rest : List Lexeme) : Settled (typed eof · modifier t rest) levels :=
  (Settled.of_failsWith (failsWith_mediaType modifier t) (by decide)).bind fun _ =>
    (settled_afterType eof levels rest).bind fun _ => .const nofun

theorem settled_query (eof : Nat) (levels : Option Nat) (ts : List Lexeme) :
    Settled (query eof · ts) levels := by
  cases ts with
  | nil => exact .single (by decide) _
  | cons first rest =>
    rcases query_cases eof first rest with ⟨kind, hkind, t, -, h⟩ | h | ⟨-, modifier, t, rest, -, -, h⟩
    · simp only [h]
      exact .of_failsWith (.single hkind t.span) (by decide)
    · simp only [h.query_eq]
      exact settled_conditionQuery eof levels _
    · simp only [h]
      exact settled_typed eof levels modifier t rest

theorem settled_singleQuery (eof : Nat) (levels : Option Nat) (ts : List Lexeme) :
    Settled (singleQuery eof · ts) levels := by
  cases hcut : cutAtComma [] ts with
  | none =>
    simp only [singleQuery_of_none hcut]
    exact settled_query eof levels ts
  | some cut =>
    obtain ⟨before, comma, after⟩ := cut
    simp only [singleQuery_of_some hcut]
    exact (settled_query eof levels before).bind fun _ => .single (by decide) _

end CssMedia.Grammar
