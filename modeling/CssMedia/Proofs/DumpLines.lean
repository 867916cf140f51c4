import CssMedia.Dump.Tokens
import CssMedia.Node
import CssMedia.Proofs.Binary64.Text
import CssMedia.Proofs.Lexer.Name
import CssMedia.Proofs.Shape

/-!
# The lines of a dump

A dump has a line feed behind each item that it shows, and otherwise only where a name holds one.
Names and units stand in it as they are. Everything else is of one line.
-/

namespace CssMedia

open CodePoint

namespace Dump

/-! ## Line feeds -/

/-- There is no line feed in the text. -/
def OneLine (s : String) : Prop := '\n' ∉ s.toList

/-- How many line feeds are in a text. -/
def breaks (s : String) : Nat := s.toList.count '\n'

/-- The line feeds in all of some texts. -/
def breaksAll (texts : List String) : Nat := (texts.map breaks).sum

theorem breaks_append (s t : String) : breaks (s ++ t) = breaks s + breaks t := by
  unfold breaks
  rw [String.toList_append, List.count_append]

theorem breaks_eq_zero_iff {s : String} : breaks s = 0 ↔ OneLine s := List.count_eq_zero

@[simp] theorem breaksAll_nil : breaksAll [] = 0 := rfl

@[simp] theorem breaksAll_cons (s : String) (texts : List String) :
    breaksAll (s :: texts) = breaks s + breaksAll texts := rfl

@[simp] theorem breaksAll_append (texts others : List String) :
    breaksAll (texts ++ others) = breaksAll texts + breaksAll others := by
  unfold breaksAll
  rw [List.map_append, List.sum_append]

theorem breaksAll_eq_zero_iff {texts : List String} :
    breaksAll texts = 0 ↔ ∀ s ∈ texts, OneLine s := by
  induction texts with
  | nil => simp
  | cons s texts ih =>
    rw [breaksAll_cons, Nat.add_eq_zero_iff, breaks_eq_zero_iff, ih, List.forall_mem_cons]

theorem breaks_ofLines (lines : List String) :
    breaks (ofLines lines) = lines.length + breaksAll lines := by
  unfold ofLines
  induction lines with
  | nil => rfl
  | cons line lines ih =>
    have hend : breaks "\n" = 1 := rfl
    rw [List.map_cons, String.join_cons, breaks_append, breaks_append, hend, ih, List.length_cons,
      breaksAll_cons]
    omega

theorem ofLines_ends {lines : List String} (h : lines ≠ []) : ∃ s, ofLines lines = s ++ "\n" := by
  obtain ⟨before, last, rfl⟩ := (List.eq_nil_or_concat lines).resolve_left h
  refine ⟨ofLines before ++ last, ?_⟩
  unfold ofLines
  rw [List.concat_eq_append, List.map_append, String.join_append, String.append_assoc]
  rfl

end Dump

open Dump

/-! ## Texts of one line -/

theorem Text.lineFeed_notMem_quotedChar (quote c : Char) : '\n' ∉ quotedChar quote c := by
  have hhex : '\n' ∉ Nat.toDigits 16 c.toNat :=
    fun h => absurd (Lexer.isHexDigit_of_mem_toDigits h) (by decide)
  unfold quotedChar
  split
  · decide
  split
  · decide
  split
  · decide
  split
  · decide
  next hline =>
  have hc : '\n' ≠ c := Ne.symm hline
  split
  · simpa using hc
  split
  · simp [hhex]
  · simpa using hc

theorem Text.breaks_quoted {quote : Char} (hquote : quote ≠ '\n') (s : List Char) :
    breaks (String.ofList (quoted quote s)) = 0 := by
  rw [breaks_eq_zero_iff, OneLine, String.toList_ofList, quoted]
  simp [Ne.symm hquote, lineFeed_notMem_quotedChar quote]

theorem Binary64.breaks_text (v : Binary64) : breaks v.text = 0 := by
  have hsign : ∀ (negative : Bool) (s : String), breaks (withSign negative s) = breaks s := by
    intro negative s
    cases negative with
    | false => rfl
    | true =>
      have hminus : breaks "-" = 0 := rfl
      rw [withSign, if_pos rfl, breaks_append, hminus, Nat.zero_add]
  cases v with
  | finite negative index =>
    obtain ⟨hdigits, -⟩ := (shortest .up index.val).digitsAroundPoint_spec
    rw [text, hsign, breaks_eq_zero_iff, OneLine, Decimal.toList_positional]
    rw [List.forall_mem_append] at hdigits
    intro hline
    rcases List.mem_append.mp hline with hwhole | hpointed
    · exact absurd (hdigits.1 _ hwhole) (by decide)
    · unfold Numeral.pointed at hpointed
      split at hpointed
      · cases hpointed
      · rcases List.mem_cons.mp hpointed with hpoint | hfraction
        · cases hpoint
        · exact absurd (hdigits.2 _ hfraction) (by decide)
  | infinity negative => exact hsign negative "inf"
  | nan => rfl

theorem Span.breaks_text (s : Span) : breaks s.text = 0 := by
  have hdigits : ∀ n : Nat, '\n' ∉ Nat.toDigits 10 n :=
    fun n h => absurd (isDigit_of_mem_toDigits h) (by decide)
  rw [breaks_eq_zero_iff, OneLine, text]
  simp only [String.toList_append, List.mem_append, not_or]
  exact ⟨⟨by simpa using hdigits s.start, by decide⟩, by simpa using hdigits s.stop⟩

theorem NumberFlag.breaks_name (flag : NumberFlag) : breaks flag.name = 0 := by
  cases flag <;> rfl

theorem HashFlag.breaks_name (flag : HashFlag) : breaks flag.name = 0 := by
  cases flag <;> rfl

/-! ## Tokens -/

namespace TokenKind

/-- The name or unit that stands in a dump as it is. -/
def rawName : TokenKind → String
  | .ident name | .function name | .atKeyword name => name
  | .hash value _ => value
  | .dimension _ unit _ => unit
  | _ => ""

theorem breaks_name (kind : TokenKind) : breaks kind.name = 0 := by
  unfold name
  split <;> rfl

theorem breaks_text (kind : TokenKind) : breaks kind.text = breaks kind.rawName := by
  have hpayload : ∀ payload, breaks (kind.name ++ " " ++ payload) = breaks payload := by
    intro payload
    have hblank : breaks " " = 0 := rfl
    rw [breaks_append, breaks_append, breaks_name, hblank, Nat.zero_add]
  have hflagged : ∀ s flag : String, breaks flag = 0 → breaks (s ++ " " ++ flag) = breaks s := by
    intro s flag hflag
    have hblank : breaks " " = 0 := rfl
    rw [breaks_append, breaks_append, hflag, hblank]
    rfl
  cases kind with
  | string value | url value => exact (hpayload _).trans (Text.breaks_quoted (by decide) _)
  | delim c => exact (hpayload _).trans (Text.breaks_quoted (by decide) _)
  | ident name | function name | atKeyword name => exact hpayload name
  | hash value flag => exact (hpayload _).trans (hflagged value flag.name flag.breaks_name)
  | number v flag | percentage v flag =>
    exact (hpayload _).trans ((hflagged v.text flag.name flag.breaks_name).trans v.breaks_text)
  | dimension v unit flag =>
    refine (hpayload _).trans ((hflagged (v.text ++ unit) flag.name flag.breaks_name).trans ?_)
    rw [breaks_append, v.breaks_text, Nat.zero_add]
    rfl
  | whitespace | comma | openParen | closeParen | cdc | colon | semicolon | cdo | openBracket
  | closeBracket | openBrace | closeBrace | eof => rfl

end TokenKind

namespace Dump

theorem breaks_tokenLine (options : TokenOptions) (t : Token) :
    breaks (tokenLine options t) = breaks t.kind.rawName := by
  unfold tokenLine
  split
  · have hat : breaks " @ " = 0 := rfl
    rw [breaks_append, breaks_append, hat, t.span.breaks_text, TokenKind.breaks_text]
    rfl
  · exact TokenKind.breaks_text t.kind

/-- The tokens that a dump shows. -/
def shown (options : TokenOptions) (ts : List Token) : List Token :=
  ts.filter fun t => options.raw || !t.kind.isFiller

theorem breaksAll_tokenLines (options : TokenOptions) (ts : List Token) :
    breaksAll (tokenLines options ts) = breaksAll ((shown options ts).map (·.kind.rawName)) := by
  unfold breaksAll tokenLines
  rw [List.map_map, List.map_map]
  congr 1
  exact List.map_congr_left fun t _ => breaks_tokenLine options t

theorem tokens_ends {options : TokenOptions} {ts : List Token} (h : shown options ts ≠ []) :
    ∃ s, tokens options ts = s ++ "\n" :=
  ofLines_ends fun hnil => h (List.map_eq_nil_iff.mp hnil)

theorem breaks_tokens (options : TokenOptions) (ts : List Token) :
    breaks (tokens options ts) =
      (shown options ts).length + breaksAll ((shown options ts).map (·.kind.rawName)) := by
  rw [tokens, breaks_ofLines, breaksAll_tokenLines]
  congr 1
  exact List.length_map _

theorem breaks_tokens_eq_iff {options : TokenOptions} {ts : List Token} :
    breaks (tokens options ts) = (shown options ts).length ↔
      ∀ t ∈ shown options ts, OneLine t.kind.rawName := by
  rw [breaks_tokens, Nat.add_eq_left, breaksAll_eq_zero_iff, List.forall_mem_map]

end Dump

/-! ## Names in trees -/

/-- The name or unit in a value. -/
def Value.names : Value → List String
  | .number .. | .ratio .. => []
  | .dimension _ unit _ => [unit]
  | .ident name => [name]

/-- The name of a feature and those in its values, as they stand in a dump. -/
def Feature.names : Feature → List String
  | .boolean name => [name]
  | .plain name _ v => name :: v.names
  | .range name left right =>
    left.elim [] (·.value.names) ++ name :: right.elim [] (·.value.names)

def Condition.names (c : Condition) : List String := c.features.flatMap Feature.names

def Query.names (q : Query) : List String := q.condition.elim [] Condition.names

def QueryList.names (l : QueryList) : List String := l.valid.flatMap Query.names

def Node.names : Node → List String
  | .list l => l.names
  | .query q => q.names
  | .condition c => c.names
  | .feature f => f.names
  | .value v => v.names

/-! ## Items of trees -/

/-- The conditions and the features in it. -/
def Condition.items (c : Condition) : Nat := c.conditions.length + c.features.length

def Query.items (q : Query) : Nat := 1 + q.condition.elim 0 Condition.items

/-- The header, and for each member the items of its query or one if it is invalid. -/
def QueryList.items (l : QueryList) : Nat := 1 + (l.members.map (·.elim 1 Query.items)).sum

def Node.items : Node → Nat
  | .list l => l.items
  | .query q => q.items
  | .condition c => c.items
  | .feature _ | .value _ => 1

namespace Dump

theorem breaks_intercalate (words : List String) :
    breaks (" ".intercalate words) = breaksAll words := by
  have hblank : breaks " " = 0 := rfl
  induction words with
  | nil => rfl
  | cons word words ih =>
    cases words with
    | nil => rw [String.intercalate_singleton]; rfl
    | cons next words =>
      rw [String.intercalate_cons_cons, breaks_append, breaks_append, hblank, ih]
      rfl

theorem breaks_indent (n : Nat) : breaks ("".pushn ' ' n) = 0 := by
  rw [breaks_eq_zero_iff, OneLine, toList_pushn, String.toList_empty, List.nil_append]
  exact fun hline => absurd (List.eq_of_mem_replicate hline) (by decide)

theorem breaks_line (depth : Nat) (words : List String) :
    breaks (line depth words) = breaksAll words := by
  rw [line, breaks_append, breaks_indent, breaks_intercalate, Nat.zero_add]

theorem breaks_value (flags : Bool) (v : Value) : breaks (value flags v) = breaksAll v.names := by
  have hflagged : ∀ (s : String) (flag : NumberFlag), breaks (flagged flags s flag) = breaks s := by
    intro s flag
    have hcolon : breaks ":" = 0 := rfl
    unfold flagged
    split
    · rw [breaks_append, breaks_append, hcolon, flag.breaks_name]
      rfl
    · rfl
  have hslash : breaks "/" = 0 := rfl
  cases v with
  | number v flag => exact (hflagged v.text flag).trans v.breaks_text
  | dimension v unit flag =>
    refine (hflagged (v.text ++ unit) flag).trans ?_
    rw [breaks_append, v.breaks_text, Nat.zero_add]
    rfl
  | ratio n d =>
    rw [value, breaks_append, breaks_append, n.breaks_text, d.breaks_text, hslash]
    rfl
  | ident name => rfl

theorem breaksAll_feature (flags : Bool) (f : Feature) :
    breaksAll (feature flags f) = breaksAll f.names := by
  have hcomparison : ∀ c : Comparison, breaks c.text = 0 := by
    intro c
    cases c <;> rfl
  have hwords : breaks "Boolean" = 0 ∧ breaks "Value" = 0 ∧ breaks "Range" = 0 := ⟨rfl, rfl, rfl⟩
  have hextremum : ∀ e : Option Extremum, breaksAll (e.map (·.name)).toList = 0 := by
    intro e
    rcases e with _ | _ | _ <;> rfl
  cases f with
  | boolean name => simp [feature, Feature.names, hwords]
  | plain name extremum v => simp [feature, Feature.names, hwords, hextremum, breaks_value]
  | range name left right =>
    rcases left with _ | left <;> rcases right with _ | right <;>
      simp [feature, Feature.names, hwords, hcomparison, breaks_value]

/-! ## Lines of trees -/

/-- There is a line for each item, and line feeds inside of them only where names hold them. -/
structure Shows (lines : List String) (items : Nat) (names : List String) : Prop where
  length_eq : lines.length = items
  breaks_eq : breaksAll lines = breaksAll names

theorem Shows.append {lines others : List String} {items more : Nat} {names rest : List String}
    (h : Shows lines items names) (h' : Shows others more rest) :
    Shows (lines ++ others) (items + more) (names ++ rest) where
  length_eq := by rw [List.length_append, h.length_eq, h'.length_eq]
  breaks_eq := by rw [breaksAll_append, breaksAll_append, h.breaks_eq, h'.breaks_eq]

theorem Shows.breaks_ofLines {lines : List String} {items : Nat} {names : List String}
    (h : Shows lines items names) : breaks (ofLines lines) = items + breaksAll names := by
  rw [Dump.breaks_ofLines, h.length_eq, h.breaks_eq]

theorem shows_nil : Shows [] 0 [] := ⟨rfl, rfl⟩

theorem shows_line {depth : Nat} {words names : List String} (h : breaksAll words = breaksAll names) :
    Shows [line depth words] 1 names where
  length_eq := rfl
  breaks_eq := (breaks_line depth words).trans h

theorem shows_feature (flags : Bool) (depth : Nat) (f : Feature) :
    Shows [line depth (feature flags f)] 1 f.names := shows_line (breaksAll_feature flags f)

theorem shows_conditionHead (depth : Nat) (operator : Option Operator) :
    Shows [line depth (conditionHead operator)] 1 [] := by
  apply shows_line
  rcases operator with _ | _ | _ | _ <;> rfl

mutual

theorem shows_operandLines (flags : Bool) : ∀ (depth : Nat) (x : Operand),
    Shows (operandLines flags depth x) (x.conditions.length + x.features.length)
      (x.features.flatMap Feature.names)
  | depth, .feature f => by
    have h := shows_feature flags depth f
    simpa [operandLines] using h
  | depth, .group operator operands => by
    have h := (shows_conditionHead depth operator).append
      (shows_operandsLines flags (depth + 1) operands)
    refine ⟨h.length_eq.trans ?_, h.breaks_eq⟩
    rw [Operand.conditions_group, Operand.features_group, List.length_cons]
    omega

theorem shows_operandsLines (flags : Bool) : ∀ (depth : Nat) (xs : List Operand),
    Shows (operandsLines flags depth xs)
      ((Operand.conditionsAll xs).length + (Operand.featuresAll xs).length)
      ((Operand.featuresAll xs).flatMap Feature.names)
  | _, [] => shows_nil
  | depth, x :: xs => by
    have h := (shows_operandLines flags depth x).append (shows_operandsLines flags depth xs)
    rw [← List.flatMap_append] at h
    refine ⟨h.length_eq.trans ?_, h.breaks_eq⟩
    rw [Operand.conditionsAll_cons, Operand.featuresAll_cons, List.length_append, List.length_append]
    omega

end

theorem shows_condition (flags : Bool) (depth : Nat) (c : Condition) :
    Shows (conditionLines flags depth c) c.items c.names :=
  shows_operandLines flags depth c.toOperand

theorem shows_query (flags : Bool) (depth : Nat) (q : Query) :
    Shows (queryLines flags depth q) q.items q.names := by
  obtain ⟨modifier, mediaType, condition⟩ := q
  have hhead :
      Shows [line depth ("Query" :: (modifier.map (·.name)).toList ++ [mediaType.name])] 1 [] := by
    apply shows_line
    rcases modifier with _ | _ | _ <;> cases mediaType <;> rfl
  cases condition with
  | none => exact hhead.append shows_nil
  | some c => exact hhead.append (shows_condition flags (depth + 1) c)

theorem shows_members (flags : Bool) (members : List (Option Query)) :
    Shows (members.flatMap (memberLines flags)) (members.map (·.elim 1 Query.items)).sum
      ((members.filterMap id).flatMap Query.names) := by
  induction members with
  | nil => exact shows_nil
  | cons member members ih =>
    cases member with
    | none =>
      have hinvalid : Shows [line 1 ["Invalid"]] 1 [] := shows_line rfl
      exact hinvalid.append ih
    | some q => exact (shows_query flags 1 q).append ih

theorem shows_list (flags : Bool) (l : QueryList) :
    Shows (listLines flags l) l.items l.names := by
  have hhead : Shows ["QueryList"] 1 [] := ⟨rfl, rfl⟩
  exact hhead.append (shows_members flags l.members)

theorem shows_value (flags : Bool) (v : Value) : Shows [value flags v] 1 v.names :=
  ⟨rfl, breaks_value flags v⟩

theorem exists_shows (flags : Bool) (node : Node) :
    ∃ lines, node.dump flags = ofLines lines ∧ Shows lines node.items node.names := by
  cases node with
  | list l => exact ⟨_, rfl, shows_list flags l⟩
  | query q => exact ⟨_, rfl, shows_query flags 0 q⟩
  | condition c => exact ⟨_, rfl, shows_condition flags 0 c⟩
  | feature f => exact ⟨_, rfl, shows_feature flags 0 f⟩
  | value v => exact ⟨_, rfl, shows_value flags v⟩

end Dump

namespace Node

theorem items_pos (node : Node) : 0 < node.items := by
  cases node with
  | list | query => exact Nat.add_pos_left Nat.one_pos _
  | condition c => exact Nat.add_pos_left (Nat.succ_pos _) _
  | feature | value => exact Nat.one_pos

theorem dump_ends (flags : Bool) (node : Node) : ∃ s, node.dump flags = s ++ "\n" := by
  obtain ⟨lines, hdump, hshows⟩ := exists_shows flags node
  rw [hdump]
  apply ofLines_ends
  rintro rfl
  exact Nat.ne_of_gt node.items_pos hshows.length_eq.symm

theorem breaks_dump (flags : Bool) (node : Node) :
    breaks (node.dump flags) = node.items + breaksAll node.names := by
  obtain ⟨lines, hdump, hshows⟩ := exists_shows flags node
  rw [hdump, hshows.breaks_ofLines]

theorem breaks_dump_eq_iff {flags : Bool} {node : Node} :
    breaks (node.dump flags) = node.items ↔ ∀ name ∈ node.names, OneLine name := by
  rw [breaks_dump, Nat.add_eq_left, breaksAll_eq_zero_iff]

end Node

end CssMedia
