import CssMedia.Proofs.Grammar.Balanced
import CssMedia.Proofs.Grammar.Segments

/-!
# What the grammar sees

The grammar does not look into strings, urls and hashes. It looks at a space only before an `=`
that comes after a `<` or `>`, and of spans it only makes longer ones. `Lexeme.seen` leaves out
the rest and moves the spans, and the cuts at brackets and commas are the same after it.
-/

namespace CssMedia

def TokenKind.seen : TokenKind → TokenKind
  | .string _ => .string ""
  | .url _ => .url ""
  | .hash _ _ => .hash "" .id
  | kind => kind

/-- Spans are moved so that what covers two of them covers both afterwards, and so that an end of
the text becomes the other. -/
structure Moves (move : Span → Span) (eof eof' : Nat) : Prop where
  cover : ∀ a b, move (a.cover b) = (move a).cover (move b)
  stop : move ⟨eof, eof⟩ = ⟨eof', eof'⟩

theorem moves_id (eof : Nat) : Moves id eof eof := ⟨fun _ _ => rfl, rfl⟩

theorem moves_zero (eof : Nat) : Moves (fun _ => ⟨0, 0⟩) eof 0 := ⟨fun _ _ => rfl, rfl⟩

namespace Lexeme

/-- An `=` behind it may be part of the same comparison. -/
def mayJoin (t : Lexeme) : Bool := t.isDelim '<' || t.isDelim '>'

/-- A lexeme without what the grammar does not see, where `joins` tells whether a `<` or `>` is
right before it. -/
def seen (move : Span → Span) (joins : Bool) (t : Lexeme) : Lexeme :=
  ⟨t.kind.seen, move t.span, joins && t.isDelim '=' && t.afterSpace⟩

def seenAll (move : Span → Span) (joins : Bool) : List Lexeme → List Lexeme
  | [] => []
  | t :: ts => t.seen move joins :: seenAll move t.mayJoin ts

end Lexeme

namespace ParseError

def moved (move : Span → Span) (e : ParseError) : ParseError :=
  ⟨⟨e.outermost.kind, move e.outermost.span⟩, e.causes.map fun l => ⟨l.kind, move l.span⟩⟩

end ParseError

/-! ## Kinds -/

theorem TokenKind.seen_seen (kind : TokenKind) : kind.seen.seen = kind.seen := by
  cases kind <;> rfl

theorem TokenKind.seen_eq_iff {kind mark : TokenKind} (h : mark ∈ [openParen, closeParen, comma]) :
    kind.seen = mark ↔ kind = mark := by
  simp only [List.mem_cons, List.not_mem_nil, or_false] at h
  rcases h with rfl | rfl | rfl <;> cases kind <;> simp [seen]

theorem TokenKind.seen_beq_delim (kind : TokenKind) (c : Char) :
    (kind.seen == .delim c) = (kind == .delim c) := by
  cases kind <;> rfl

theorem TokenKind.opensParen_seen (kind : TokenKind) : kind.seen.opensParen = kind.opensParen := by
  cases kind <;> rfl

namespace Lexeme

variable {move : Span → Span} {joins : Bool}

section

variable (t : Lexeme)

@[simp] theorem kind_seen : (t.seen move joins).kind = t.kind.seen := rfl

@[simp] theorem span_seen : (t.seen move joins).span = move t.span := rfl

@[simp] theorem isDelim_seen (c : Char) : (t.seen move joins).isDelim c = t.isDelim c :=
  t.kind.seen_beq_delim c

@[simp] theorem isIdent_seen (name : String) :
    (t.seen move joins).isIdent name = t.isIdent name := by
  unfold isIdent
  rw [kind_seen]
  cases t.kind <;> rfl

@[simp] theorem ident?_seen : (t.seen move joins).ident? = t.ident? := by
  unfold ident?
  rw [kind_seen]
  cases t.kind <;> rfl

end

theorem mayJoin_of_not_delim {t : Lexeme} (h : ∀ c, t.kind ≠ .delim c) : t.mayJoin = false := by
  simp [mayJoin, isDelim, h]

theorem seen_of_not_delim {t : Lexeme} (h : ∀ c, t.kind ≠ .delim c) :
    t.seen move joins = t.seen move false := by
  simp [seen, isDelim, h]

/-! ## Lists -/

theorem seenAll_eq_nil_iff {ts : List Lexeme} : seenAll move joins ts = [] ↔ ts = [] := by
  cases ts <;> simp [seenAll]

theorem map_kind_seenAll (move : Span → Span) (joins : Bool) (ts : List Lexeme) :
    (seenAll move joins ts).map (·.kind) = ts.map (·.kind.seen) := by
  induction ts generalizing joins with
  | nil => rfl
  | cons t ts ih => rw [seenAll, List.map_cons, ih, List.map_cons, kind_seen]

theorem any_seenAll {p : TokenKind → Bool} (hp : ∀ kind : TokenKind, p kind.seen = p kind)
    (move : Span → Span) (joins : Bool) (ts : List Lexeme) :
    (seenAll move joins ts).any (p ·.kind) = ts.any (p ·.kind) := by
  have hmap := congrArg (List.any · p) (map_kind_seenAll move joins ts)
  simpa only [List.any_map, Function.comp_def, hp] using hmap

theorem getLast?_seenAll_eq_closeParen {ts : List Lexeme} :
    (seenAll move joins ts).getLast?.map (·.kind) = some .closeParen ↔
      ts.getLast?.map (·.kind) = some .closeParen := by
  rw [← List.getLast?_map, map_kind_seenAll, List.getLast?_map]
  cases ts.getLast? with
  | none => simp
  | some t => simpa using TokenKind.seen_eq_iff (by simp)

theorem seenAll_concat {t : Lexeme} (h : ∀ c, t.kind ≠ .delim c) (move : Span → Span)
    (joins : Bool) (ts : List Lexeme) :
    seenAll move joins (ts ++ [t]) = seenAll move joins ts ++ [t.seen move false] := by
  induction ts generalizing joins with
  | nil => exact congrArg ([·]) (seen_of_not_delim h)
  | cons u us ih => rw [List.cons_append, seenAll, ih]; rfl

theorem dropLast_seenAll (ts : List Lexeme) :
    (seenAll move joins ts).dropLast = seenAll move joins ts.dropLast := by
  induction ts generalizing joins with
  | nil => rfl
  | cons t ts ih =>
    cases ts with
    | nil => rfl
    | cons u us => rw [seenAll, seenAll, List.dropLast_cons_cons, ← seenAll, ih]; rfl

theorem spanOf_seenAll {eof eof' : Nat} (h : Moves move eof eof') (joins : Bool)
    (ts : List Lexeme) :
    spanOf eof' (seenAll move joins ts) = move (spanOf eof ts) := by
  cases ts with
  | nil => exact h.stop.symm
  | cons t ts =>
    have hlast : ((seenAll move t.mayJoin ts).getLastD (t.seen move joins)).span =
        move (ts.getLastD t).span := by
      induction ts generalizing t joins with
      | nil => rfl
      | cons u us ih => simpa only [seenAll, List.getLastD_cons] using ih t.mayJoin u
    rw [seenAll, spanOf, hlast, spanOf, h.cover]
    rfl

end Lexeme

/-! ## Failures -/

namespace ParseError

variable (move : Span → Span)

@[simp] theorem moved_single (kind : ErrorKind) (span : Span) :
    (single kind span).moved move = single kind (move span) := rfl

theorem kinds_moved (e : ParseError) : (e.moved move).kinds = e.kinds := by
  simp [kinds, chain, moved]

theorem moved_id (e : ParseError) : e.moved id = e := by
  simp [moved]

end ParseError

namespace Grammar

open Lexeme (seenAll)

variable {move : Span → Span} {joins : Bool}

/-! ## Cuts -/

/-- The cut of what is seen, behind a bracket or a comma. -/
def seenCut (move : Span → Span) (joins : Bool) (cut : List Lexeme × Lexeme × List Lexeme) :
    List Lexeme × Lexeme × List Lexeme :=
  (seenAll move joins cut.1, cut.2.1.seen move false, seenAll move false cut.2.2)

theorem seenCut_here {t : Lexeme} (h : ∀ c, t.kind ≠ .delim c) (ts : List Lexeme) :
    ([], t.seen move joins, seenAll move t.mayJoin ts) = seenCut move joins ([], t, ts) := by
  rw [Lexeme.mayJoin_of_not_delim h, Lexeme.seen_of_not_delim h]
  rfl

theorem behind_seen (t : Lexeme) (cut : Option (List Lexeme × Lexeme × List Lexeme)) :
    behind [t.seen move joins] (cut.map (seenCut move t.mayJoin)) =
      (behind [t] cut).map (seenCut move joins) := by
  rcases cut with _ | ⟨before, u, after⟩ <;> rfl

theorem cutAtClose_seen (move : Span → Span) (joins : Bool) (depth : Nat) (ts : List Lexeme) :
    cutAtClose depth (seenAll move joins ts) = (cutAtClose depth ts).map (seenCut move joins) := by
  induction ts generalizing depth joins with
  | nil => rfl
  | cons t ts ih =>
    have hclose : t.kind.seen = .closeParen ↔ t.kind = .closeParen :=
      TokenKind.seen_eq_iff (by simp)
    by_cases hhere : t.kind = .closeParen ∧ depth = 0
    · rw [seenAll, cutAtClose, if_pos (by rwa [Lexeme.kind_seen, hclose]), cutAtClose, if_pos hhere,
        seenCut_here (by simp [hhere.1])]
      rfl
    · rw [seenAll, cutAtClose_cons (by rwa [Lexeme.kind_seen, hclose]), cutAtClose_cons hhere, ih,
        behind_seen]
      simp only [Lexeme.kind_seen, hclose, TokenKind.opensParen_seen]

theorem nest_seen (stack : List Bracket) (kind : TokenKind) :
    nest stack kind.seen = nest stack kind := by
  cases kind <;> rfl

theorem cutAtComma_seen (move : Span → Span) (joins : Bool) (stack : List Bracket)
    (ts : List Lexeme) :
    cutAtComma stack (seenAll move joins ts) = (cutAtComma stack ts).map (seenCut move joins) := by
  induction ts generalizing stack joins with
  | nil => rfl
  | cons t ts ih =>
    have hcomma : t.kind.seen = .comma ↔ t.kind = .comma :=
      TokenKind.seen_eq_iff (by simp)
    by_cases hhere : t.kind = .comma ∧ stack = []
    · rw [seenAll, cutAtComma, if_pos (by rwa [Lexeme.kind_seen, hcomma]), cutAtComma, if_pos hhere,
        seenCut_here (by simp [hhere.1])]
      rfl
    · rw [seenAll, cutAtComma_cons (by rwa [Lexeme.kind_seen, hcomma]), cutAtComma_cons hhere,
        Lexeme.kind_seen, nest_seen, ih, behind_seen]

theorem segments_seen (move : Span → Span) (ts : List Lexeme) :
    segments (seenAll move false ts) = (segments ts).map (seenAll move false) := by
  have hseen := cutAtComma_seen move false [] ts
  cases hcut : cutAtComma [] ts with
  | none =>
    rw [hcut] at hseen
    rw [segments_of_none hcut, segments_of_none hseen]
    rfl
  | some cut =>
    obtain ⟨before, comma, after⟩ := cut
    rw [hcut] at hseen
    rw [segments_of_some hcut, segments_of_some hseen, segments_seen move after]
    rfl
termination_by ts.length
decreasing_by
  have := length_of_cutAtComma hcut
  omega

end Grammar

end CssMedia
