import CssMedia.Proofs.Grammar.Seen
import CssMedia.Proofs.Text.Read

/-!
# Written names among other text

A written name is its own token where a blank, a parenthesis or a colon follows, and what follows
gives the tokens that it gives alone. A written dimension is one token whatever its unit starts
with.
-/

namespace CssMedia

def Span.shifted (k : Nat) (s : Span) : Span := ⟨k + s.start, k + s.stop⟩

def Token.shifted (k : Nat) (t : Token) : Token := ⟨t.kind, t.span.shifted k⟩

namespace Lexer

open CodePoint

/-! ## Text further on -/

/-- What the lexer gives of a text that `k` more code points stand before. -/
def shifted (k : Nat) (r : Except ParseError (List Token)) : Except ParseError (List Token) :=
  (r.mapError (ParseError.moved (Span.shifted k))).map (List.map (Token.shifted k))

theorem shifted_map_cons (k : Nat) (t : Token) (r : Except ParseError (List Token)) :
    shifted k (r.map (t :: ·)) = (shifted k r).map (t.shifted k :: ·) := by
  cases r <;> rfl

theorem tokensFrom_add (k start : Nat) (s : List Char) :
    tokensFrom (k + start) s = shifted k (tokensFrom start s) := by
  induction hlen : s.length using Nat.strongRecOn generalizing start s with
  | _ len ih =>
    rw [tokensFrom_eq, tokensFrom_eq start]
    have hdrop : (s.drop (commentsLength s)).length = s.length - commentsLength s := List.length_drop
    generalize s.drop (commentsLength s) = tail at hdrop ⊢
    cases tail with
    | nil => simp [shifted, Except.mapError, Except.map, Token.shifted, Span.shifted, Nat.add_assoc]
    | cons c rest =>
      simp only
      rcases nextToken c rest with ⟨_ | kind, n⟩
      · simp [shifted, Except.mapError, Except.map, Span.shifted, Nat.add_assoc]
      · have hless : (rest.drop (n - 1)).length < len := by
          simp only [List.length_drop, List.length_cons] at hdrop ⊢
          omega
        have hspan : k + start + commentsLength s = k + (start + commentsLength s) := by omega
        simp only [hspan, Nat.add_assoc k, ih _ hless _ _ rfl, shifted_map_cons]
        rfl

/-! ## Tokens before a stop -/

/-- What ends a name: the end, or a blank, a line break, or a sign that no name goes on with. -/
def EndsName (rest : List Char) : Prop :=
  rest.head?.all fun c => isStop c || c == '\r' || c == '\x0c'

theorem EndsName.stops_clean {rest : List Char} (h : EndsName rest) : Stops (Input.clean rest) := by
  unfold EndsName at h
  unfold Stops
  fun_cases Input.clean rest with
  | case1 | case2 | case3 => rfl
  | case4 => cases h
  | case5 c rest _ hreturn hfeed =>
    have hne : c ≠ '\r' ∧ c ≠ '\x0c' := ⟨hreturn, hfeed⟩
    simpa [hne] using h
  | case6 => rfl

theorem TokenBefore.tokens_eq {rest s : List Char} {kind : TokenKind} (h : TokenBefore rest s kind) :
    tokens (s ++ rest) =
      (shifted s.length (tokens rest)).map (⟨kind, ⟨0, s.length - 1⟩⟩ :: ·) := by
  rw [tokens, tokens, h.tokensFrom_eq, ← tokensFrom_add]
  simp

theorem tokens_append {s : List Char} {kind : TokenKind} (hvisible : ∀ c ∈ s, isControl c = false)
    (htoken : ∀ rest, Stops rest → TokenBefore rest s kind) {rest : String}
    (hrest : EndsName rest.toList) :
    tokens (Input.read (String.ofList s ++ rest)) =
      (shifted s.length (tokens (Input.read rest))).map (⟨kind, ⟨0, s.length - 1⟩⟩ :: ·) := by
  have hread : Input.read (String.ofList s ++ rest) = s ++ Input.read rest := by
    unfold Input.read
    rw [String.toList_append, String.toList_ofList, clean_append hvisible]
  have hstops : Stops (Input.read rest) := hrest.stops_clean
  rw [hread, (htoken _ hstops).tokens_eq]

theorem tokens_openString : tokens [' ', '"'] = .error (.single .invalidString ⟨1, 1⟩) := by
  have hblank : TokenBefore ['"'] [' '] .whitespace := .single (by decide) rfl
  have hnext : nextToken '"' [] = (none, 1) := by simp [nextToken, isBlank, scanString]
  have hopen : tokensFrom 1 ['"'] = .error (.single .invalidString ⟨1, 1⟩) := by
    rw [tokensFrom_eq, commentsLength_eq_zero (by decide)]
    simp [hnext]
  exact (hblank.tokensFrom_eq 0).trans (congrArg (Except.map _) hopen)

/-! ## Names and dimensions -/

/-- A name as it comes back from a text. -/
def normalized (name : String) : String := lowercase (name.toList.map readBack)

theorem tokens_name {name rest : String} (hne : name ≠ "") (hrest : EndsName rest.toList) :
    tokens (Input.read ((Value.ident name).text ++ rest)) =
      (shifted (Value.ident name).text.length (tokens (Input.read rest))).map
        (⟨.ident (normalized name), ⟨0, (Value.ident name).text.length - 1⟩⟩ :: ·) := by
  have hwrites := writesName_name (show name.toList ≠ [] by simpa using hne)
  have h := tokens_append hwrites.visible (fun _ => hwrites.tokenBefore) hrest
  simpa [Value.text, Value.chars, normalized] using h

theorem tokens_dimension {v : Binary64} (hv : v.IsProper) {unit : String} (hne : unit ≠ "")
    (flag : NumberFlag) :
    tokens (Input.read (Value.dimension v unit flag).text) =
      .ok [⟨.dimension v (normalized unit) .number,
          ⟨0, (Value.dimension v unit flag).text.length - 1⟩⟩,
        ⟨.eof, ⟨(Value.dimension v unit flag).text.length,
          (Value.dimension v unit flag).text.length⟩⟩] := by
  obtain ⟨n, hn, htext, rfl, -⟩ := Binary64.exists_numeral_text hv
  have hunit : unit.toList ≠ [] := by simpa using hne
  have hend : EndsName "".toList := rfl
  have h := tokens_append (visible_dimension hn hunit) (fun _ => tokenBefore_dimension hn hunit) hend
  have hnothing : tokens (Input.read "") = .ok [⟨.eof, ⟨0, 0⟩⟩] := tokensFrom_nil 0
  rw [hnothing] at h
  simpa [Value.text, Value.chars, htext, normalized, shifted, Except.map, Except.mapError,
    Token.shifted, Span.shifted] using h

/-- A written name is a token of its own, in front of the tokens of what follows, and a written
dimension is one token. What follows a name leaves it without tokens only where it has none itself. -/
theorem written_name_is_one_token :
    (∀ {name rest : String}, name ≠ "" → EndsName rest.toList →
      let text := (Value.ident name).text
      tokens (Input.read (text ++ rest)) =
        (shifted text.length (tokens (Input.read rest))).map
          (⟨.ident (normalized name), ⟨0, text.length - 1⟩⟩ :: ·)) ∧
    ∀ {v : Binary64} {unit : String} (flag : NumberFlag), v.IsProper → unit ≠ "" →
      let text := (Value.dimension v unit flag).text
      tokens (Input.read text) =
        .ok [⟨.dimension v (normalized unit) .number, ⟨0, text.length - 1⟩⟩,
          ⟨.eof, ⟨text.length, text.length⟩⟩] :=
  ⟨fun hne hrest => tokens_name hne hrest, fun flag hv hne => tokens_dimension hv hne flag⟩

/-- Before a parenthesis the name `-1A` is written with its digit by number, and so is the letter of
the unit `e3` behind a zero. -/
theorem written_name_is_one_token_dash :
    "-1A" ≠ "" ∧ EndsName ")".toList ∧ Binary64.zero.IsProper ∧ "e3" ≠ "" ∧
    (Value.ident "-1A").text = "-\\31 A" ∧ (Value.dimension .zero "e3" .number).text = "0\\65 3" ∧
    tokens (Input.read ("-\\31 A" ++ ")")) = .ok [⟨.ident "-1a", ⟨0, 5⟩⟩, ⟨.closeParen, ⟨6, 6⟩⟩,
      ⟨.eof, ⟨7, 7⟩⟩] ∧
    tokens (Input.read "0\\65 3") = .ok [⟨.dimension .zero "e3" .number, ⟨0, 5⟩⟩, ⟨.eof, ⟨6, 6⟩⟩] := by
  obtain ⟨hname, hdimension⟩ := written_name_is_one_token
  have hends : EndsName ")".toList := rfl
  have hproper : Binary64.zero.IsProper := nofun
  have hnamed := hname (show "-1A" ≠ "" by decide) hends
  have hdimensioned := hdimension .number hproper (show "e3" ≠ "" by decide)
  have htext : (Value.ident "-1A").text = "-\\31 A" := by decide +kernel
  have hnumber : (Value.dimension .zero "e3" .number).text = "0\\65 3" := by decide +kernel
  have hparen : TokenBefore [] [')'] .closeParen := .single (by decide) rfl
  have hrest : tokens (Input.read ")") = .ok [⟨.closeParen, ⟨0, 0⟩⟩, ⟨.eof, ⟨1, 1⟩⟩] :=
    (hparen.tokensFrom_eq 0).trans (congrArg (Except.map _) (tokensFrom_nil 1))
  refine ⟨by decide, hends, hproper, by decide, htext, hnumber, ?_, ?_⟩
  · rw [htext, hrest] at hnamed
    exact hnamed
  · rw [hnumber] at hdimensioned
    exact hdimensioned

theorem no_tokens_before_open_string :
    EndsName " \"".toList ∧
      tokens (Input.read ((Value.ident "a").text ++ " \"")) = .error (.single .invalidString ⟨2, 2⟩) := by
  have hends : EndsName " \"".toList := rfl
  have hrest : tokens (Input.read " \"") = .error (.single .invalidString ⟨1, 1⟩) := tokens_openString
  have hname := tokens_name (show "a" ≠ "" by decide) hends
  rw [hrest] at hname
  exact ⟨hends, hname⟩

end Lexer

end CssMedia
