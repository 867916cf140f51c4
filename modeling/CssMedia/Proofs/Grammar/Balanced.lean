import CssMedia.Grammar.Brackets

/-!
# Balanced lexemes

Lexemes that the two ways of matching brackets pass over: what they look for is found behind
them or not at all.
-/

namespace CssMedia.Grammar

/-- The cut that some lexemes before it make longer. -/
def behind (ts : List Lexeme) (cut : Option (List Lexeme × Lexeme × List Lexeme)) :
    Option (List Lexeme × Lexeme × List Lexeme) :=
  cut.map fun (before, t, after) => (ts ++ before, t, after)

theorem behind_append (us ts : List Lexeme) (cut : Option (List Lexeme × Lexeme × List Lexeme)) :
    behind us (behind ts cut) = behind (us ++ ts) cut := by
  rcases cut with _ | ⟨before, t, after⟩
  · rfl
  · simp [behind]

structure Balanced (ts : List Lexeme) : Prop where
  close : ∀ depth rest, cutAtClose depth (ts ++ rest) = behind ts (cutAtClose depth rest)
  comma : ∀ stack rest, cutAtComma stack (ts ++ rest) = behind ts (cutAtComma stack rest)

theorem cutAtClose_cons {depth : Nat} {t : Lexeme} {ts : List Lexeme}
    (h : ¬ (t.kind = .closeParen ∧ depth = 0)) :
    cutAtClose depth (t :: ts) =
      behind [t] (cutAtClose
        (if t.kind = .closeParen then depth - 1 else if t.kind.opensParen then depth + 1 else depth)
        ts) := by
  rw [cutAtClose, if_neg h, behind]
  simp only
  generalize cutAtClose _ ts = cut
  rcases cut with _ | ⟨before, close, after⟩ <;> rfl

theorem cutAtComma_cons {stack : List Bracket} {t : Lexeme} {ts : List Lexeme}
    (h : ¬ (t.kind = .comma ∧ stack = [])) :
    cutAtComma stack (t :: ts) = behind [t] (cutAtComma (nest stack t.kind) ts) := by
  rw [cutAtComma, if_neg h, behind]
  generalize cutAtComma _ ts = cut
  rcases cut with _ | ⟨before, comma, after⟩ <;> rfl

namespace Balanced

theorem append {us ts : List Lexeme} (hu : Balanced us) (ht : Balanced ts) : Balanced (us ++ ts) where
  close depth rest := by rw [List.append_assoc, hu.close, ht.close, behind_append]
  comma stack rest := by rw [List.append_assoc, hu.comma, ht.comma, behind_append]

theorem nil : Balanced [] where
  close depth rest := by
    rcases h : cutAtClose depth rest with _ | ⟨before, t, after⟩ <;> simp [behind, h]
  comma stack rest := by
    rcases h : cutAtComma stack rest with _ | ⟨before, t, after⟩ <;> simp [behind, h]

theorem cons {t : Lexeme} {ts : List Lexeme} (hparen : t.kind ≠ .closeParen)
    (hopens : t.kind.opensParen = false) (hcomma : t.kind ≠ .comma)
    (hnest : ∀ stack, nest stack t.kind = stack) (ht : Balanced ts) : Balanced (t :: ts) where
  close depth rest := by
    rw [List.cons_append, cutAtClose_cons (fun h => hparen h.1), if_neg hparen,
      if_neg (by simp [hopens]), ht.close, behind_append, List.singleton_append]
  comma stack rest := by
    rw [List.cons_append, cutAtComma_cons (fun h => hcomma h.1), hnest, ht.comma, behind_append,
      List.singleton_append]

theorem ident {t : Lexeme} {name : String} (ht : t.kind = .ident name) {ts : List Lexeme}
    (hts : Balanced ts) : Balanced (t :: ts) := by
  refine cons ?_ ?_ ?_ ?_ hts <;> simp [ht, TokenKind.opensParen, nest, Bracket.openedBy?, Bracket.closedBy?]

theorem parens {first close : Lexeme} {interior : List Lexeme} (hfirst : first.kind = .openParen)
    (hclose : close.kind = .closeParen) (h : Balanced interior) :
    Balanced (first :: (interior ++ [close])) where
  close depth rest := by
    rw [List.cons_append, List.append_assoc, cutAtClose_cons (by simp [hfirst]), h.close,
      List.singleton_append, cutAtClose_cons (by simp [hfirst, TokenKind.opensParen])]
    simp [hfirst, hclose, TokenKind.opensParen, behind_append]
  comma stack rest := by
    rw [List.cons_append, List.append_assoc, cutAtComma_cons (by simp [hfirst]), h.comma,
      List.singleton_append, cutAtComma_cons (by simp [hclose])]
    simp [hfirst, hclose, nest, Bracket.openedBy?, Bracket.closedBy?, behind_append]

theorem cutAtClose {interior after : List Lexeme} {close : Lexeme} (h : Balanced interior)
    (hclose : close.kind = .closeParen) :
    Grammar.cutAtClose 0 (interior ++ close :: after) = some (interior, close, after) := by
  rw [h.close, Grammar.cutAtClose, if_pos ⟨hclose, rfl⟩]
  simp [behind]

theorem cutAtComma {ts after : List Lexeme} {comma : Lexeme} (h : Balanced ts)
    (hcomma : comma.kind = .comma) :
    Grammar.cutAtComma [] (ts ++ comma :: after) = some (ts, comma, after) := by
  rw [h.comma, Grammar.cutAtComma, if_pos ⟨hcomma, rfl⟩]
  simp [behind]

theorem cutAtComma_eq_none {ts : List Lexeme} (h : Balanced ts) : Grammar.cutAtComma [] ts = none := by
  have := h.comma [] []
  rwa [List.append_nil, Grammar.cutAtComma] at this

end Balanced

theorem eq_of_cutAtClose {depth : Nat} {ts interior after : List Lexeme} {close : Lexeme}
    (h : cutAtClose depth ts = some (interior, close, after)) :
    ts = interior ++ close :: after ∧ close.kind = .closeParen := by
  induction ts generalizing depth interior with
  | nil => cases h
  | cons t ts ih =>
    by_cases hhere : t.kind = .closeParen ∧ depth = 0
    · rw [cutAtClose, if_pos hhere] at h
      cases h
      exact ⟨rfl, hhere.1⟩
    · rw [cutAtClose_cons hhere, behind, Option.map_eq_some_iff] at h
      obtain ⟨⟨before, t', after'⟩, hcut, heq⟩ := h
      cases heq
      obtain ⟨rfl, hclose⟩ := ih hcut
      exact ⟨rfl, hclose⟩

theorem eq_of_cutAtComma {stack : List Bracket} {ts before after : List Lexeme} {comma : Lexeme}
    (h : cutAtComma stack ts = some (before, comma, after)) : ts = before ++ comma :: after := by
  induction ts generalizing stack before with
  | nil => cases h
  | cons t ts ih =>
    by_cases hhere : t.kind = .comma ∧ stack = []
    · rw [cutAtComma, if_pos hhere] at h
      cases h
      rfl
    · rw [cutAtComma_cons hhere, behind, Option.map_eq_some_iff] at h
      obtain ⟨⟨before', t', after'⟩, hcut, heq⟩ := h
      cases heq
      rw [ih hcut]
      rfl

end CssMedia.Grammar
