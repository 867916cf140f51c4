import CssMedia.Node
import CssMedia.Proofs.EntryPoints
import CssMedia.Proofs.Grammar.QueryForm
import CssMedia.Proofs.Grammar.SeenQuery
import CssMedia.Proofs.Input
import CssMedia.Proofs.LetterCase.Token

/-!
# Letter case never matters

Two texts that differ in the case of their letters alone are read as the same, also where reading
them fails. The grammar sees the same of both, and their lexemes are in the same places.
-/

namespace CssMedia

/-- The texts differ at most in the case of ASCII letters. -/
def SameUpToCase (text text' : String) : Prop :=
  text.toList.map Char.toLower = text'.toList.map Char.toLower

instance (text text' : String) : Decidable (SameUpToCase text text') :=
  inferInstanceAs (Decidable (_ = _))

/-! ## Sources -/

theorem Input.clean_toLower (s : List Char) :
    clean (s.map Char.toLower) = (clean s).map Char.toLower := by
  cases s with
  | nil => rfl
  | cons c rest =>
    have htail := clean_toLower rest.tail
    have hrest := clean_toLower rest
    simp (disch := decide) only [List.map_cons, clean_cons, CodePoint.toLower_eq_iff,
      CodePoint.head?_toLower_eq_iff, ← List.map_tail]
    split
    · split
      · exact congrArg _ htail
      · exact congrArg _ hrest
    split
    · exact congrArg _ hrest
    split
    · exact congrArg _ hrest
    · exact congrArg _ hrest
termination_by s.length

namespace Source

/-- What the grammar sees of a text. -/
def seen (source : Source) : Source := ⟨Lexeme.seenAll id false source.lexemes, source.eof⟩

theorem map_seen_ofChars_toLower (s : List Char) :
    (ofChars (s.map Char.toLower)).map seen = (ofChars s).map seen := by
  have hbare : ∀ s, (ofChars s).map seen =
      ((Lexer.lexemesFrom 0 false s).map (List.map Lexeme.bare)).map
        fun ts => ⟨Lexeme.seenAll id false ts, s.length⟩ := by
    intro s
    rw [ofChars_eq]
    cases Lexer.lexemesFrom 0 false s with
    | error e => rfl
    | ok ts =>
      exact congrArg (fun us => Except.ok (Source.mk us s.length))
        (Lexeme.seenAll_bare id false ts).symm
  rw [hbare, hbare, Lexer.lexemesFrom_toLower, List.length_map]

theorem map_seen_read {text text' : String} (h : SameUpToCase text text') :
    (read text).map seen = (read text').map seen := by
  rw [read, Input.read, ← map_seen_ofChars_toLower, ← Input.clean_toLower, h, Input.clean_toLower,
    map_seen_ofChars_toLower]
  rfl

theorem read_bind_eq {α : Type} {text text' : String} (h : SameUpToCase text text')
    {f : Source → Except ParseError α} (hf : ∀ source, f source.seen = f source) :
    read text >>= f = read text' >>= f := by
  have hseen : ∀ text, read text >>= f = (read text).map seen >>= f := by
    intro text
    cases read text with
    | error e => rfl
    | ok source => exact (hf source).symm
  rw [hseen, map_seen_read h, ← hseen]

end Source

/-! ## Entry points -/

theorem ParseError.mapError_moved_id {α : Type} (r : Except ParseError α) :
    r.mapError (·.moved id) = r := by
  cases r with
  | error e => exact congrArg Except.error e.moved_id
  | ok a => rfl

section

open Grammar

variable {text text' : String} (h : SameUpToCase text text')
include h

theorem QueryList.parse_of_sameUpToCase (settings : Settings) :
    QueryList.parse settings text = QueryList.parse settings text' := by
  refine Source.read_bind_eq h fun source => ?_
  have hmembers := members_seen (moves_id source.eof) settings.levels source.lexemes
  simp only [ParseError.mapError_moved_id, List.map_id'] at hmembers
  simp only [Source.seen, queryList_eq, hmembers]

theorem Query.parse_of_sameUpToCase (settings : Settings) :
    Query.parse settings text = Query.parse settings text' := by
  refine Source.read_bind_eq h fun source => ?_
  simp only [Source.seen, singleQuery_seen (moves_id source.eof), ParseError.mapError_moved_id]

theorem Condition.parse_of_sameUpToCase (settings : Settings) :
    Condition.parse settings text = Condition.parse settings text' := by
  refine Source.read_bind_eq h fun source => ?_
  simp only [Source.seen, condition_seen (moves_id source.eof), ParseError.mapError_moved_id]

theorem Feature.parse_of_sameUpToCase : Feature.parse text = Feature.parse text' := by
  refine Source.read_bind_eq h fun source => ?_
  simp only [Source.seen, feature_seen (moves_id source.eof), ParseError.mapError_moved_id]

/-- From each entry point come the same tree and the same errors of members, or the same failure
with the same spans. -/
theorem Node.parse_upToCase (settings : Settings) (entry : EntryPoint) :
    Node.parse settings entry text = Node.parse settings entry text' := by
  cases entry with
  | list => rw [parse, QueryList.parse_of_sameUpToCase h, parse]
  | query => rw [parse, Query.parse_of_sameUpToCase h, parse]
  | condition => rw [parse, Condition.parse_of_sameUpToCase h, parse]
  | feature => rw [parse, Feature.parse_of_sameUpToCase h, parse]

end

/-- A name with an escape, a unit, an exponent, a string and a hash, in either case: the first
member is read and the second fails at the same place. -/
theorem Node.parse_upToCase_list :
    let text := "NOT Screen AND (\\4dIN-Width: 1E2PX), \"A\" #Fe"
    let text' := "not sCREEN and (\\4Din-wIDTH: 1e2px), \"a\" #fE"
    let value : Value := .dimension (.ofBits 0x4059000000000000) "px" .number
    let width : Feature := .plain "width" (some .min) value
    let q : Query := ⟨some .not, .screen, some (.only (.feature width))⟩
    SameUpToCase text text' ∧ Node.parse {} .list text = Node.parse {} .list text' ∧
      Node.parse {} .list text = .ok (.list ⟨[some q, none]⟩,
        [.single .expectParenOrTypeOrModifier ⟨37, 39⟩]) := by
  intro text text' value width q
  have hcase : SameUpToCase text text' := by decide +kernel
  refine ⟨hcase, Node.parse_upToCase hcase {} .list, ?_⟩
  let ts : List Lexeme := [⟨.ident "not", ⟨0, 2⟩, false⟩, ⟨.ident "screen", ⟨4, 9⟩, true⟩,
    ⟨.ident "and", ⟨11, 13⟩, true⟩, ⟨.openParen, ⟨15, 15⟩, true⟩,
    ⟨.ident "min-width", ⟨16, 26⟩, false⟩, ⟨.colon, ⟨27, 27⟩, false⟩,
    ⟨.dimension (.ofBits 0x4059000000000000) "px" .number, ⟨29, 33⟩, true⟩,
    ⟨.closeParen, ⟨34, 34⟩, false⟩, ⟨.comma, ⟨35, 35⟩, false⟩, ⟨.string "A", ⟨37, 39⟩, true⟩,
    ⟨.hash "Fe" .id, ⟨41, 43⟩, true⟩]
  have hread : (Source.read text).toOption.map Source.lexemes = some ts := by decide +kernel
  obtain ⟨⟨_, eof⟩, hsource, rfl⟩ := Option.map_eq_some_iff.mp hread
  have heach : Grammar.memberLexemes ts = [ts.take 8, ts.drop 9] := by decide
  have hwidth : Grammar.OperandForm ((ts.take 8).drop 3) (.feature width) :=
    .feature rfl rfl (.plain rfl (.split (by decide)) rfl (.dimension rfl))
  have hform : Grammar.QueryForm (ts.take 8) q :=
    .typed (.some rfl) rfl (@Grammar.TypeForm.known (some .not) .screen)
      (.condition rfl (.only hwidth) nofun)
  have hfirst : Grammar.query eof (some 256) (ts.take 8) = .ok q :=
    Grammar.query_iff.mpr ⟨hform, by decide⟩
  have hsecond : Grammar.query eof (some 256) (ts.drop 9) =
      .error (.single .expectParenOrTypeOrModifier ⟨37, 39⟩) := by rfl
  rw [Node.parse, QueryList.parse_eq (eq_ok_of_toOption hsource), Grammar.members_eq, heach]
  simp only [List.map_cons, hfirst, hsecond]
  rfl

end CssMedia
