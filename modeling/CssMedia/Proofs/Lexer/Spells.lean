import CssMedia.Proofs.Lexer.Name
import CssMedia.Proofs.Lexer.Tokens

/-!
# Texts by their lexemes

A text spells what holds of its lexemes wherever it stands before a character that no name
and no number goes on with. Such texts are put together from pieces.
-/

namespace CssMedia.Lexer

open CodePoint

/-- No name and no number goes on with it. -/
def isStop (c : Char) : Bool := isBlank c || c == ')' || c == ':' || c == '/' || c == ','

/-- The text is at its end or goes on with such a character. -/
def Stops (rest : List Char) : Prop := rest.head?.all isStop

theorem Stops.head_any {rest : List Char} (h : Stops rest) {p : Char → Bool}
    (hp : ∀ c, isStop c → p c = false) : rest.head?.any p = false := by
  cases rest with
  | nil => rfl
  | cons c rest => exact hp c h

theorem isStop_cases {c : Char} (h : isStop c) :
    c = ' ' ∨ c = '\t' ∨ c = '\n' ∨ c = ')' ∨ c = ':' ∨ c = '/' ∨ c = ',' := by
  simpa [isStop, isBlank, or_assoc] using h

theorem isStop_class {p : Char → Bool}
    (hp : [' ', '\t', '\n', ')', ':', '/', ','].all fun c => !p c) (c : Char) (h : isStop c) :
    p c = false := by
  simp only [List.all_cons, List.all_nil, Bool.and_true, Bool.and_eq_true, Bool.not_eq_true'] at hp
  obtain ⟨h1, h2, h3, h4, h5, h6, h7⟩ := hp
  rcases isStop_cases h with rfl | rfl | rfl | rfl | rfl | rfl | rfl <;> assumption

theorem Stops.head_ne {rest : List Char} (h : Stops rest) {d : Char} (hd : isStop d = false) :
    rest.head? ≠ some d := by
  intro heq
  unfold Stops at h
  rw [heq] at h
  exact absurd h (by simp [hd])

theorem Stops.not_startsName {rest : List Char} (h : Stops rest) : startsName rest = false := by
  cases rest with
  | nil => rfl
  | cons c rest =>
    rcases isStop_cases h with rfl | rfl | rfl | rfl | rfl | rfl | rfl <;> rfl

theorem Stops.scanName {rest : List Char} (h : Stops rest) : scanName rest = ([], 0) := by
  cases rest with
  | nil => rw [Lexer.scanName]
  | cons c rest =>
    rw [Lexer.scanName]
    rcases isStop_cases h with rfl | rfl | rfl | rfl | rfl | rfl | rfl <;> rfl

/-- With `rest` behind it, the text is this one token. -/
structure TokenBefore (rest s : List Char) (kind : TokenKind) : Prop where
  head_ne : s.head? ≠ some '/'
  next : ∃ c tail, s = c :: tail ∧ nextToken c (tail ++ rest) = (some kind, s.length)

namespace TokenBefore

variable {rest s : List Char} {kind : TokenKind}

theorem single {c : Char} (hc : c ≠ '/') (hnext : nextToken c rest = (some kind, 1)) :
    TokenBefore rest [c] kind :=
  ⟨by simpa using hc, c, [], rfl, hnext⟩

theorem tokensFrom_eq (h : TokenBefore rest s kind) (start : Nat) :
    tokensFrom start (s ++ rest) = (tokensFrom (start + s.length) rest).map
      (⟨kind, ⟨start, start + (s.length - 1)⟩⟩ :: ·) := by
  obtain ⟨c, tail, rfl, hnext⟩ := h.next
  rw [List.cons_append, tokensFrom_cons (fun hc => absurd (congrArg some hc) h.head_ne) hnext,
    List.drop_left]
  rfl

theorem lexemesFrom_eq (h : TokenBefore rest s kind) (hkind : Lexeme.isLexeme kind) (start : Nat)
    (space : Bool) :
    lexemesFrom start space (s ++ rest) = (lexemesFrom (start + s.length) false rest).map
      (⟨kind, ⟨start, start + (s.length - 1)⟩, space⟩ :: ·) := by
  rw [lexemesFrom, lexemesFrom, h.tokensFrom_eq]
  cases tokensFrom (start + s.length) rest with
  | error e => rfl
  | ok ts => exact Lexeme.ofTokensAfter_cons hkind space _ ts

end TokenBefore

theorem visible_of_all {s : List Char} (h : s.all fun c => !isControl c) :
    ∀ c ∈ s, isControl c = false := by
  simpa using h

/-- Wherever the text stands, its lexemes are there with what `lexemes` says of them. -/
structure Spells (s : List Char) (lexemes : List Lexeme → Prop) : Prop where
  visible : ∀ c ∈ s, isControl c = false
  reads : ∀ (start : Nat) (space : Bool) (rest : List Char), Stops rest →
    ∃ ts, lexemes ts ∧ lexemesFrom start space (s ++ rest) =
      (lexemesFrom (start + s.length) false rest).map (ts ++ ·)

def IsOne (kind : TokenKind) (ts : List Lexeme) : Prop := ∃ t : Lexeme, t.kind = kind ∧ ts = [t]

/-- One stretch of lexemes after another. -/
def Joined (front back : List Lexeme → Prop) (ts : List Lexeme) : Prop :=
  ∃ us vs, front us ∧ back vs ∧ ts = us ++ vs

namespace Spells

variable {s t : List Char} {front back : List Lexeme → Prop}

theorem mono (h : Spells s front) (hall : ∀ ts, front ts → back ts) : Spells s back where
  visible := h.visible
  reads start space rest hrest := by
    obtain ⟨ts, hts, heq⟩ := h.reads start space rest hrest
    exact ⟨ts, hall ts hts, heq⟩

theorem map_append (us vs : List Lexeme) (r : Except ParseError (List Lexeme)) :
    (r.map (vs ++ ·)).map (us ++ ·) = r.map ((us ++ vs) ++ ·) := by
  cases r with
  | error e => rfl
  | ok ws => exact congrArg Except.ok (List.append_assoc us vs ws).symm

theorem append (hs : Spells s front) (ht : Spells t back) (hstop : t.head?.any isStop) :
    Spells (s ++ t) (Joined front back) where
  visible c hc := (List.mem_append.mp hc).elim (hs.visible c) (ht.visible c)
  reads start space rest hrest := by
    have hstops : Stops (t ++ rest) := by
      cases t with
      | nil => simp at hstop
      | cons c t => exact hstop
    obtain ⟨us, hus, hfront⟩ := hs.reads start space (t ++ rest) hstops
    obtain ⟨vs, hvs, hback⟩ := ht.reads (start + s.length) false rest hrest
    refine ⟨us ++ vs, ⟨us, vs, hus, hvs, rfl⟩, ?_⟩
    rw [List.append_assoc, hfront, hback, map_append, List.length_append, Nat.add_assoc]

theorem cons {c : Char} {kind : TokenKind} (ht : Spells t back) (hc : isControl c = false)
    (hslash : c = '/' → ∀ rest, Stops rest → (t ++ rest).head? ≠ some '*')
    (hnext : ∀ rest, Stops rest → nextToken c (t ++ rest) = (some kind, 1))
    (hkind : Lexeme.isLexeme kind) : Spells (c :: t) (Joined (IsOne kind) back) where
  visible d hd := (List.mem_cons.mp hd).elim (fun h => h ▸ hc) (ht.visible d)
  reads start space rest hrest := by
    obtain ⟨vs, hvs, hback⟩ := ht.reads (start + 1) false rest hrest
    refine ⟨⟨kind, ⟨start, start⟩, space⟩ :: vs,
      ⟨[⟨kind, ⟨start, start⟩, space⟩], vs, ⟨_, rfl, rfl⟩, hvs, rfl⟩, ?_⟩
    rw [List.cons_append, lexemesFrom_cons (fun h => hslash h rest hrest) (hnext rest hrest) hkind]
    simp only [List.drop_zero, Nat.add_zero]
    rw [hback, List.length_cons, Nat.add_comm t.length, ← Nat.add_assoc]
    exact map_append [_] vs _

theorem blank (ht : Spells t back) : Spells (' ' :: t) back where
  visible d hd := (List.mem_cons.mp hd).elim (fun h => h ▸ rfl) (ht.visible d)
  reads start space rest hrest := by
    obtain ⟨vs, hvs, hback⟩ := ht.reads (start + 1) true rest hrest
    refine ⟨vs, hvs, ?_⟩
    rw [List.cons_append, lexemesFrom_blank rfl, hback, List.length_cons, Nat.add_comm t.length,
      ← Nat.add_assoc]

theorem openParen (ht : Spells t back) : Spells ('(' :: t) (Joined (IsOne .openParen) back) :=
  ht.cons rfl (fun h => absurd h (by simp)) (fun _ _ => rfl) rfl

theorem colon (ht : Spells t back) : Spells (':' :: t) (Joined (IsOne .colon) back) :=
  ht.cons rfl (fun h => absurd h (by simp)) (fun _ _ => rfl) rfl

theorem comma (ht : Spells t back) : Spells (',' :: t) (Joined (IsOne .comma) back) :=
  ht.cons rfl (fun h => absurd h (by simp)) (fun _ _ => rfl) rfl

theorem one {s : List Char} {kind : TokenKind} (hvisible : ∀ c ∈ s, isControl c = false)
    (htoken : ∀ rest, Stops rest → TokenBefore rest s kind) (hkind : Lexeme.isLexeme kind) :
    Spells s (IsOne kind) where
  visible := hvisible
  reads start space rest hrest :=
    ⟨[⟨kind, ⟨start, start + (s.length - 1)⟩, space⟩], ⟨_, rfl, rfl⟩,
      (htoken rest hrest).lexemesFrom_eq hkind start space⟩

theorem closeParen : Spells [')'] (IsOne .closeParen) :=
  one (visible_of_all rfl) (fun _ _ => .single (by decide) rfl) rfl

end Spells

end CssMedia.Lexer
