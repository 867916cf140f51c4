import CssMedia.Proofs.Grammar.QueryForm
import CssMedia.Proofs.Lexer.Pieces

/-!
# Names in any spelling

A character of a name may stand as it is, behind a backslash, or by its number. However these are
mixed, the lexer reads the same name, and the grammar the same word.
-/

namespace CssMedia

namespace Lexer

open CodePoint

/-! ## Spellings -/

/-- The ways to write a character of a name where `rest` follows. Digits that leave room for more
need a blank behind them. -/
inductive SpellsChar (c : Char) (rest : List Char) : List Char → Prop where
  | raw (hc : isNameChar c) : SpellsChar c rest [c]
  | escaped (hhex : isHexDigit c = false) (hline : c ≠ '\n') : SpellsChar c rest ['\\', c]
  | number {digits : List Char} {blank : Char} (hdigits : IsCode digits c)
    (hblank : isBlank blank) : SpellsChar c rest ('\\' :: (digits ++ [blank]))
  | wholeNumber {digits : List Char} (hdigits : IsCode digits c) (hsix : digits.length = 6)
    (hrest : rest.head?.any isBlank = false) : SpellsChar c rest ('\\' :: digits)

/-- The ways to write the characters of a name behind its first one. -/
inductive SpellsTail (rest : List Char) : List Char → List Char → Prop where
  | nil : SpellsTail rest [] []
  | cons {c : Char} {w s name : List Char} (hc : SpellsChar c (s ++ rest) w)
    (htail : SpellsTail rest s name) : SpellsTail rest (w ++ s) (c :: name)

/-- The ways to write a name. Its first character stands as it is only where it starts a name. -/
inductive SpellsName (rest : List Char) : List Char → List Char → Prop where
  | start {c : Char} {w s name : List Char} (hc : SpellsChar c (s ++ rest) w)
    (hraw : w = [c] → isNameStart c) (htail : SpellsTail rest s name) :
    SpellsName rest (w ++ s) (c :: name)

variable {rest s w name : List Char} {c : Char}

theorem SpellsTail.plain (h : ∀ c ∈ s, isNameChar c) : SpellsTail rest s s := by
  induction s with
  | nil => exact .nil
  | cons c s ih =>
    obtain ⟨hc, hs⟩ := List.forall_mem_cons.mp h
    exact .cons (.raw hc) (ih hs)

theorem SpellsName.plain (hc : isNameStart c) (h : ∀ d ∈ s, isNameChar d) :
    SpellsName rest (c :: s) (c :: s) :=
  .start (.raw (by simp [isNameChar, hc])) (fun _ => hc) (.plain h)

/-! ## What is read of them -/

theorem SpellsChar.scanName_eq (h : SpellsChar c rest w) (hnull : c ≠ '\x00') :
    scanName (w ++ rest) = (c :: (scanName rest).1, (scanName rest).2 + w.length) := by
  cases h with
  | raw hc => exact scanName_raw hc rest
  | escaped hhex hline =>
    have hescape : scanEscape (c :: rest) = (c, 1) := by rw [scanEscape, if_neg (by simp [hhex])]
    exact scanName_escape hline hescape
  | number hdigits hblank =>
    have h := hdigits.scanName_blank hblank rest
    rw [readBack_of_ne_null hnull] at h
    simpa using h
  | wholeNumber hdigits hsix hrest =>
    have h := hdigits.scanName_whole hsix hrest
    rw [readBack_of_ne_null hnull] at h
    simpa using h

theorem SpellsTail.scanName_eq (h : SpellsTail rest s name) (hnull : '\x00' ∉ name) :
    scanName (s ++ rest) = (name ++ (scanName rest).1, (scanName rest).2 + s.length) := by
  induction h with
  | nil => rfl
  | cons hc _ ih =>
    simp only [List.mem_cons, not_or] at hnull
    rw [List.append_assoc, hc.scanName_eq (Ne.symm hnull.1), ih hnull.2]
    simp only [List.cons_append, List.length_append, Prod.mk.injEq, true_and]
    omega

theorem SpellsName.tail (h : SpellsName rest s name) : SpellsTail rest s name := by
  cases h with
  | start hc _ htail => exact .cons hc htail

theorem SpellsName.isNameHead (h : SpellsName rest s name) : IsNameHead (s ++ rest) := by
  cases h with
  | start hc hraw htail =>
    rw [List.append_assoc]
    cases hc with
    | raw => exact .inl (hraw rfl)
    | escaped hhex hline => exact .inr ⟨rfl, by simpa [startsEscape] using hline⟩
    | number hdigits hblank =>
      rw [List.cons_append, List.append_assoc]
      exact hdigits.isNameHead _
    | wholeNumber hdigits => exact hdigits.isNameHead _

theorem SpellsName.ne_nil (h : SpellsName rest s name) : s ≠ [] := by
  cases h with
  | start hc => cases hc <;> simp

theorem SpellsName.tokenBefore (h : SpellsName rest s name) (hnull : '\x00' ∉ name)
    (hrest : Stops rest) : TokenBefore rest s (.ident (lowercase name)) := by
  have hhead := h.isNameHead
  have hscan : scanName (s ++ rest) = (name, s.length) := by
    rw [h.tail.scanName_eq hnull, hrest.scanName, List.append_nil, Nat.zero_add]
  exact tokenBefore_name h.ne_nil hhead.startsName hhead.not_startsNumber hhead.not_closesComment
    hscan (hrest.head_ne rfl)

theorem SpellsName.tokens_eq (h : SpellsName [] s name) (hnull : '\x00' ∉ name) :
    tokens s = .ok [⟨.ident (lowercase name), ⟨0, s.length - 1⟩⟩, ⟨.eof, ⟨s.length, s.length⟩⟩] := by
  have htoken := (h.tokenBefore hnull rfl).tokensFrom_eq 0
  rw [List.append_nil, tokensFrom_nil, Nat.zero_add, Nat.zero_add] at htoken
  exact htoken

/-! ## What the grammar reads of them -/

/-- The text is a spelling of a name that folds to this word. -/
def SpellsWord (rest s : List Char) (word : String) : Prop :=
  ∃ name, '\x00' ∉ name ∧ SpellsName rest s name ∧ lowercase name = word

theorem SpellsChar.congr {after : List Char} (h : SpellsChar c rest w)
    (hhead : rest.head? = after.head?) : SpellsChar c after w := by
  cases h with
  | raw hc => exact .raw hc
  | escaped hhex hline => exact .escaped hhex hline
  | number hdigits hblank => exact .number hdigits hblank
  | wholeNumber hdigits hsix hrest => exact .wholeNumber hdigits hsix (hhead ▸ hrest)

theorem head?_append_congr {after : List Char} (s : List Char) (hhead : rest.head? = after.head?) :
    (s ++ rest).head? = (s ++ after).head? := by
  rw [List.head?_append, List.head?_append, hhead]

theorem SpellsTail.congr {after : List Char} (h : SpellsTail rest s name)
    (hhead : rest.head? = after.head?) : SpellsTail after s name := by
  induction h with
  | nil => exact .nil
  | cons hc _ ih => exact .cons (hc.congr (head?_append_congr _ hhead)) ih

theorem SpellsWord.congr {after : List Char} {word : String} (h : SpellsWord rest s word)
    (hhead : rest.head? = after.head?) : SpellsWord after s word := by
  obtain ⟨_, hnull, ⟨hc, hraw, htail⟩, hword⟩ := h
  exact ⟨_, hnull, .start (hc.congr (head?_append_congr _ hhead)) hraw (htail.congr hhead), hword⟩

theorem SpellsWord.lexemesFrom_eq {word : String} (h : SpellsWord rest s word) (hrest : Stops rest)
    (start : Nat) (space : Bool) :
    lexemesFrom start space (s ++ rest) = (lexemesFrom (start + s.length) false rest).map
      (⟨.ident word, ⟨start, start + (s.length - 1)⟩, space⟩ :: ·) := by
  obtain ⟨name, hnull, hname, rfl⟩ := h
  exact (hname.tokenBefore hnull hrest).lexemesFrom_eq rfl start space

theorem SpellsWord.exists_lexeme {word : String} (h : SpellsWord [' '] s word) (start : Nat)
    (space : Bool) (rest : List Char) :
    ∃ t : Lexeme, t.kind = .ident word ∧ lexemesFrom start space (s ++ ' ' :: rest) =
      (lexemesFrom (start + s.length + 1) true rest).map (t :: ·) := by
  have hword : SpellsWord (' ' :: rest) s word := h.congr rfl
  refine ⟨⟨.ident word, ⟨start, start + (s.length - 1)⟩, space⟩, rfl, ?_⟩
  rw [hword.lexemesFrom_eq rfl, lexemesFrom_blank rfl]

theorem SpellsWord.exists_parens {word : String} (h : SpellsWord [')'] s word) (start : Nat)
    (space : Bool) :
    ∃ first t close : Lexeme, first.kind = .openParen ∧ t.kind = .ident word ∧
      close.kind = .closeParen ∧
      lexemesFrom start space ('(' :: (s ++ [')'])) = .ok [first, t, close] := by
  have hopen : TokenBefore (s ++ [')']) ['('] .openParen := .single (by decide) rfl
  have hclose : TokenBefore [] [')'] .closeParen := .single (by decide) rfl
  have hfirst := hopen.lexemesFrom_eq rfl start space
  have hword := h.lexemesFrom_eq rfl (start + 1) false
  have hlast := hclose.lexemesFrom_eq rfl (start + 1 + s.length) false
  rw [List.append_nil, lexemesFrom_nil] at hlast
  rw [hlast] at hword
  rw [List.length_singleton, hword] at hfirst
  exact ⟨_, _, _, rfl, rfl, rfl, hfirst⟩

theorem SpellsWord.parse_feature {feature text : String} (h : SpellsWord [')'] s feature)
    (htext : Input.read text = '(' :: (s ++ [')'])) :
    Feature.parse text = .ok (.boolean feature) := by
  obtain ⟨first, t, close, hfirst, ht, hclose, hlexemes⟩ := h.exists_parens 0 false
  unfold Feature.parse Source.read
  rw [htext, Source.ofChars_eq, hlexemes]
  exact Grammar.feature_iff.mpr ⟨first, [t], close, rfl, hfirst, hclose, .boolean ht⟩

theorem parse_spelledQuery {m t a f : List Char} {modifier : Modifier} {read : Option Modifier}
    {type : MediaType} {typeName feature text : String} {settings : Settings}
    (hm : SpellsWord [' '] m modifier.name) (ht : SpellsWord [' '] t typeName)
    (htype : Grammar.TypeForm (some modifier) typeName read type)
    (ha : SpellsWord [' '] a "and") (hf : SpellsWord [')'] f feature)
    (hlevels : Grammar.Allows settings.levels 1)
    (htext : Input.read text = m ++ ' ' :: (t ++ ' ' :: (a ++ ' ' :: '(' :: (f ++ [')'])))) :
    Query.parse settings text = .ok ⟨read, type, some (.only (.feature (.boolean feature)))⟩ := by
  obtain ⟨tm, hmkind, hmread⟩ :=
    hm.exists_lexeme 0 false (t ++ ' ' :: (a ++ ' ' :: '(' :: (f ++ [')'])))
  obtain ⟨tt, htkind, htread⟩ :=
    ht.exists_lexeme (0 + m.length + 1) true (a ++ ' ' :: '(' :: (f ++ [')']))
  obtain ⟨ta, hakind, haread⟩ :=
    ha.exists_lexeme (0 + m.length + 1 + t.length + 1) true ('(' :: (f ++ [')']))
  obtain ⟨first, tf, close, hfirst, hfkind, hclose, hfread⟩ :=
    hf.exists_parens (0 + m.length + 1 + t.length + 1 + a.length + 1) true
  have hfeature : Grammar.OperandForm (first :: ([tf] ++ [close])) (.feature (.boolean feature)) :=
    .feature hfirst hclose (.boolean hfkind)
  have hform : Grammar.QueryForm [tm, tt, ta, first, tf, close]
      ⟨read, type, some (.only (.feature (.boolean feature)))⟩ :=
    .typed (.some hmkind) htkind htype (.condition hakind (.only hfeature) nofun)
  have hquery : ∀ eof, Grammar.singleQuery eof settings.levels [tm, tt, ta, first, tf, close] =
      .ok ⟨read, type, some (.only (.feature (.boolean feature)))⟩ := fun eof =>
    Grammar.singleQuery_iff.mpr ⟨hform, Grammar.allowsIn_some.mpr hlevels⟩
  unfold Query.parse Source.read
  rw [htext, Source.ofChars_eq, hmread, htread, haread, hfread]
  simp only [Except.map, bind, Except.bind, hquery, pure, Except.pure]
  split <;> rfl

/-- Every spelling of a name is that name to the lexer, and every spelling of a word that word to the
grammar: in running text, as a feature, and as the words of a query. -/
theorem every_spelling_is_the_name :
    (∀ {s name : List Char}, '\x00' ∉ name → SpellsName [] s name →
      tokens s =
        .ok [⟨.ident (lowercase name), ⟨0, s.length - 1⟩⟩, ⟨.eof, ⟨s.length, s.length⟩⟩]) ∧
    (∀ {rest s : List Char} {word : String}, Stops rest → SpellsWord rest s word →
      ∀ (start : Nat) (space : Bool),
        lexemesFrom start space (s ++ rest) = (lexemesFrom (start + s.length) false rest).map
          (⟨.ident word, ⟨start, start + (s.length - 1)⟩, space⟩ :: ·)) ∧
    (∀ {f : List Char} {feature text : String}, SpellsWord [')'] f feature →
      Input.read text = '(' :: (f ++ [')']) → Feature.parse text = .ok (.boolean feature)) ∧
    ∀ {m t a f : List Char} {modifier : Modifier} {read : Option Modifier} {type : MediaType}
      {typeName feature text : String} {settings : Settings},
      SpellsWord [' '] m modifier.name → SpellsWord [' '] t typeName →
      Grammar.TypeForm (some modifier) typeName read type → SpellsWord [' '] a "and" →
      SpellsWord [')'] f feature → Grammar.Allows settings.levels 1 →
      Input.read text = m ++ ' ' :: (t ++ ' ' :: (a ++ ' ' :: '(' :: (f ++ [')']))) →
      Query.parse settings text = .ok ⟨read, type, some (.only (.feature (.boolean feature)))⟩ :=
  ⟨fun hnull h => h.tokens_eq hnull, fun hrest h => h.lexemesFrom_eq hrest,
    fun h htext => h.parse_feature htext,
    fun hm ht htype ha hf hlevels htext => parse_spelledQuery hm ht htype ha hf hlevels htext⟩

/-- In `\000073c\R\65 eN` six digits come right before a letter that is itself a hex digit. The query
around it has a plain word, and a feature that starts with a number. -/
theorem every_spelling_is_the_name_screen :
    let s := ['\\', '0', '0', '0', '0', '7', '3', 'c', '\\', 'R', '\\', '6', '5', ' ', 'e', 'N']
    let name := ['s', 'c', 'R', 'e', 'e', 'N']
    let f := ['\\', '6', '3', ' ', 'o', 'l', 'o', 'r']
    '\x00' ∉ name ∧ SpellsName [] s name ∧
      tokens s = .ok [⟨.ident "screen", ⟨0, 15⟩⟩, ⟨.eof, ⟨16, 16⟩⟩] ∧
    Stops [':'] ∧ SpellsWord [':'] s "screen" ∧
      lexemesFrom 0 false (s ++ [':']) = (lexemesFrom 16 false [':']).map
        (⟨.ident "screen", ⟨0, 15⟩, false⟩ :: ·) ∧
    SpellsWord [' '] ['N', 'O', 'T'] "not" ∧ SpellsWord [' '] s "screen" ∧
      SpellsWord [' '] ['a', 'n', 'd'] "and" ∧ SpellsWord [')'] f "color" ∧
      Feature.parse "(\\63 olor)" = .ok (.boolean "color") ∧
      Query.parse {} "NOT \\000073c\\R\\65 eN and (\\63 olor)" =
        .ok ⟨some .not, .screen, some (.only (.feature (.boolean "color")))⟩ := by
  intro s name f
  have hs : IsCode ['0', '0', '0', '0', '7', '3'] 's' := ⟨nofun, List.all_eq_true.mp rfl, by decide, rfl⟩
  have he : IsCode ['6', '5'] 'e' := ⟨nofun, List.all_eq_true.mp rfl, by decide, rfl⟩
  have hc : IsCode ['6', '3'] 'c' := ⟨nofun, List.all_eq_true.mp rfl, by decide, rfl⟩
  have hname : ∀ rest, SpellsName rest s name := by
    intro rest
    have hend : SpellsTail rest (['e'] ++ (['N'] ++ [])) ['e', 'N'] :=
      .cons (.raw rfl) (.cons (.raw rfl) .nil)
    have htail : SpellsTail rest
        (['c'] ++ (['\\', 'R'] ++ ('\\' :: (['6', '5'] ++ [' ']) ++ (['e'] ++ (['N'] ++ [])))))
        ['c', 'R', 'e', 'e', 'N'] :=
      .cons (.raw rfl) (.cons (.escaped rfl (by decide)) (.cons (.number he rfl) hend))
    exact .start (.wholeNumber hs rfl rfl) nofun htail
  have hnull : '\x00' ∉ name := by decide
  have hscreen : ∀ rest, SpellsWord rest s "screen" := fun rest => ⟨name, hnull, hname rest, rfl⟩
  have hnot : SpellsWord [' '] ['N', 'O', 'T'] Modifier.not.name :=
    ⟨_, by decide, .plain rfl (List.all_eq_true.mp rfl), rfl⟩
  have hand : SpellsWord [' '] ['a', 'n', 'd'] "and" :=
    ⟨_, by decide, .plain rfl (List.all_eq_true.mp rfl), rfl⟩
  have hcolor : SpellsWord [')'] f "color" :=
    ⟨['c', 'o', 'l', 'o', 'r'], by decide,
      .start (.number hc rfl) nofun (.plain (List.all_eq_true.mp rfl)), rfl⟩
  have hstops : Stops [':'] := rfl
  have htype : Grammar.TypeForm (some .not) MediaType.screen.name (some .not) .screen := .known
  have hlevels : Grammar.Allows ({} : Settings).levels 1 := by decide
  obtain ⟨hlexer, hword, hfeature, hquery⟩ := every_spelling_is_the_name
  exact ⟨hnull, hname [], hlexer hnull (hname []), hstops, hscreen _,
    hword hstops (hscreen _) 0 false, hnot, hscreen _, hand, hcolor, hfeature hcolor rfl,
    hquery hnot (hscreen _) htype hand hcolor hlevels rfl⟩

end Lexer

end CssMedia
