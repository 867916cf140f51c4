import CssMedia.Proofs.Canonical
import CssMedia.Proofs.DumpLines
import CssMedia.Proofs.Grammar.WellFormed
import CssMedia.Proofs.LetterCase.CodePoint
import CssMedia.Proofs.Lexer.Partition

/-!
# Dumps of texts

A name that was read holds a line feed only where the text has an escape for it. So the dump of a text
without a backslash has one line for each item.
-/

namespace CssMedia

open CodePoint Dump

/-! ## Names in tokens -/

namespace Lexer

theorem isNameChar_of_mem_scanName {s : List Char} (h : '\\' ∉ s) :
    ∀ c ∈ (scanName s).1, isNameChar c := by
  fun_induction scanName s with
  | case1 => exact List.forall_mem_nil _
  | case2 c rest hc name n hscan ih =>
    rw [hscan] at ih
    exact List.forall_mem_cons.mpr ⟨hc, ih fun hrest => h (List.mem_cons_of_mem _ hrest)⟩
  | case3 c rest hc hescape =>
    simp only [startsEscape_cons, Bool.and_eq_true, beq_iff_eq] at hescape
    exact absurd (hescape.1 ▸ List.mem_cons_self ..) h
  | case4 => exact List.forall_mem_nil _

theorem oneLine_ofList {name : List Char} (h : ∀ c ∈ name, isNameChar c) :
    OneLine (String.ofList name) := by
  rw [OneLine, String.toList_ofList]
  exact fun hline => absurd (h _ hline) (by decide)

theorem oneLine_lowercase {name : List Char} (h : ∀ c ∈ name, isNameChar c) :
    OneLine (lowercase name) := by
  rw [OneLine, lowercase, String.toList_ofList, List.mem_map]
  rintro ⟨c, hc, hline⟩
  rw [toLower_eq_iff rfl] at hline
  exact absurd (hline ▸ h c hc) (by decide)

theorem oneLine_scanName {s name : List Char} {n : Nat} (h : '\\' ∉ s)
    (hscan : scanName s = (name, n)) : ∀ c ∈ name, isNameChar c := by
  have hname := isNameChar_of_mem_scanName h
  rwa [hscan] at hname

theorem FirstToken.oneLine {c : Char} {rest : List Char} {kind : TokenKind} {n : Nat}
    (h : FirstToken c rest (some kind) n) (hbackslash : '\\' ∉ c :: rest) : OneLine kind.rawName := by
  have hrest : '\\' ∉ rest := fun h => hbackslash (List.mem_cons_of_mem _ h)
  cases h with
  | hash _ _ hscan => exact oneLine_ofList (oneLine_scanName hrest hscan)
  | atKeyword _ _ hscan => exact oneLine_lowercase (oneLine_scanName hrest hscan)
  | numeric _ h =>
    cases h with
    | dimension hbehind _ hscan =>
      have hunit : '\\' ∉ (c :: rest).drop (Numeral.scan (c :: rest)).length :=
        fun h => hbackslash (List.mem_of_mem_drop h)
      exact oneLine_lowercase (oneLine_scanName (hbehind ▸ hunit) hscan)
    | percentage | number => exact nofun
  | identLike _ _ _ h =>
    cases h with
    | ident hscan | function hscan => exact oneLine_lowercase (oneLine_scanName hbackslash hscan)
    | url => exact nofun
  | punctuation =>
    have hnone : (Lexer.punctuation c).rawName = "" := by
      unfold Lexer.punctuation
      split <;> rfl
    rw [hnone]
    exact nofun
  | blank | string | cdc | cdo => exact nofun

theorem oneLine_of_tokens {s : List Char} {ts : List Token} (hts : tokens s = .ok ts)
    (hbackslash : '\\' ∉ s) : ∀ t ∈ ts, OneLine t.kind.rawName := by
  intro t ht
  by_cases heof : t.kind = .eof
  · rw [heof]
    exact nofun
  · obtain ⟨place, hnext⟩ := (tokens_eq_ok_iff.mp hts).exists_nextAt ht heof
    obtain ⟨c, rest, hdrop, hread⟩ := hnext.read
    refine (firstToken_of_nextToken hread).oneLine ?_
    rw [← hdrop]
    exact fun h => hbackslash (List.mem_of_mem_drop h)

end Lexer

theorem Input.backslash_of_mem_clean {s : List Char} (h : '\\' ∈ clean s) : '\\' ∈ s := by
  fun_induction clean s with
  | case1 rest ih =>
    have hrest := ih (List.mem_of_ne_of_mem (by decide) h)
    exact List.mem_cons_of_mem _ (List.mem_cons_of_mem _ hrest)
  | case2 rest _ ih | case3 rest ih | case4 rest ih =>
    exact List.mem_cons_of_mem _ (ih (List.mem_of_ne_of_mem (by decide) h))
  | case5 c rest _ _ _ _ ih =>
    rcases List.mem_cons.mp h with hc | hrest
    · exact hc ▸ List.mem_cons_self ..
    · exact List.mem_cons_of_mem _ (ih hrest)
  | case6 => exact h

/-! ## Names in trees -/

namespace Grammar

/-- No name of the lexemes has a line feed. -/
def AllOneLine (ts : List Lexeme) : Prop := ∀ t ∈ ts, OneLine t.kind.rawName

theorem AllOneLine.append {us ts : List Lexeme} :
    AllOneLine (us ++ ts) ↔ AllOneLine us ∧ AllOneLine ts := List.forall_mem_append

theorem AllOneLine.cons {t : Lexeme} {ts : List Lexeme} :
    AllOneLine (t :: ts) ↔ OneLine t.kind.rawName ∧ AllOneLine ts := List.forall_mem_cons

theorem oneLine_ident {t : Lexeme} {name : String} (ht : t.kind = .ident name)
    (h : OneLine t.kind.rawName) : OneLine name := by
  rw [ht] at h
  exact h

theorem ValueForm.oneLine {vs : List Lexeme} {v : Value} (h : ValueForm vs v) (hvs : AllOneLine vs) :
    ∀ name ∈ v.names, OneLine name := by
  cases h with
  | number | ratio => exact nofun
  | dimension ht | ident ht =>
    have hname := hvs _ (List.mem_singleton_self _)
    rw [ht] at hname
    exact List.forall_mem_singleton.mpr hname

theorem NameForm.oneLine {name rest : String} {extremum : Option Extremum}
    (h : NameForm name extremum rest) (hname : OneLine name) : OneLine rest := by
  cases h with
  | whole => exact hname
  | split =>
    intro hrest
    apply hname
    rw [String.toList_append]
    exact List.mem_append_right _ hrest

theorem FeatureForm.oneLine {ts : List Lexeme} {f : Feature} (h : FeatureForm ts f)
    (hts : AllOneLine ts) : ∀ name ∈ f.names, OneLine name := by
  cases h with
  | boolean ht =>
    exact List.forall_mem_singleton.mpr (oneLine_ident ht (AllOneLine.cons.mp hts).1)
  | plain ht hname _ hv =>
    obtain ⟨hword, -, hvs⟩ := by simpa only [AllOneLine.cons] using hts
    exact List.forall_mem_cons.mpr ⟨hname.oneLine (oneLine_ident ht hword), hv.oneLine hvs⟩
  | right ht _ _ hv =>
    obtain ⟨hname, -, hvs⟩ := by simpa only [AllOneLine.cons, AllOneLine.append] using hts
    exact List.forall_mem_cons.mpr ⟨oneLine_ident ht hname, hv.oneLine hvs⟩
  | left hv _ _ ht =>
    obtain ⟨hvs, -, hname, -⟩ := by simpa only [AllOneLine.cons, AllOneLine.append] using hts
    exact List.forall_mem_append.mpr
      ⟨hv.oneLine hvs, List.forall_mem_singleton.mpr (oneLine_ident ht hname)⟩
  | both hv _ _ ht _ hw =>
    obtain ⟨hvs, -, hname, -, hws⟩ := by simpa only [AllOneLine.cons, AllOneLine.append] using hts
    exact List.forall_mem_append.mpr
      ⟨hv.oneLine hvs, List.forall_mem_cons.mpr ⟨oneLine_ident ht hname, hw.oneLine hws⟩⟩

theorem FeatureIn.oneLine {ts : List Lexeme} {f : Feature} (h : FeatureIn ts f)
    (hts : AllOneLine ts) : ∀ name ∈ f.names, OneLine name := by
  obtain ⟨us, hus, hform⟩ := h
  exact hform.oneLine fun t ht => hts t (hus ht)

theorem ConditionForm.oneLine {ts : List Lexeme} {c : Condition}
    (h : ConditionForm ts c.operator c.operands) (hts : AllOneLine ts) :
    ∀ name ∈ c.names, OneLine name := by
  intro name hname
  obtain ⟨f, hf, hname⟩ := List.mem_flatMap.mp hname
  exact (h.shape.2.2 f hf).oneLine hts name hname

theorem QueryForm.oneLine {ts : List Lexeme} {q : Query} (h : QueryForm ts q)
    (hts : AllOneLine ts) : ∀ name ∈ q.names, OneLine name := by
  cases h with
  | condition h => exact h.oneLine hts
  | typed _ _ _ hrest =>
    cases hrest with
    | nothing => exact nofun
    | condition _ h =>
      have hafter := (AllOneLine.cons.mp (AllOneLine.cons.mp (AllOneLine.append.mp hts).2).2).2
      exact h.oneLine hafter

end Grammar

/-! ## Simplified trees -/

theorem Condition.names_simplify (c : Condition) : c.simplify.names = c.names := by
  unfold names
  rw [features_simplify]

theorem Query.names_simplify (q : Query) : q.simplify.names = q.names := by
  obtain ⟨modifier, mediaType, _ | c⟩ := q
  · rfl
  · exact c.names_simplify

theorem QueryList.names_simplify (l : QueryList) : l.simplify.names = l.names := by
  unfold names
  rw [valid_simplify, List.flatMap_map]
  exact congrArg (l.valid.flatMap ·) (funext Query.names_simplify)

/-! ## Names in what is read -/

theorem Source.oneLine {text : String} {source : Source} (h : Source.read text = .ok source)
    (hbackslash : '\\' ∉ text.toList) : Grammar.AllOneLine source.lexemes := by
  unfold Source.read at h
  rw [Source.ofChars_eq] at h
  obtain ⟨ls, hls, rfl⟩ := exists_of_map_eq_ok h
  obtain ⟨ts, hts, hls⟩ := exists_of_bind_eq_ok hls
  intro t ht
  have htoken : t.token ∈ ts.filter (Lexeme.isLexeme ·.kind) := by
    rw [← Lexeme.map_token_ofTokensAfter hls]
    exact List.mem_map_of_mem ht
  exact Lexer.oneLine_of_tokens hts (fun h => hbackslash (Input.backslash_of_mem_clean h)) _
    (List.mem_filter.mp htoken).1

theorem Node.oneLine_of_parse {settings : Settings} {entry : EntryPoint} {text : String} {node : Node}
    {errors : List ParseError} (h : Node.parse settings entry text = .ok (node, errors))
    (hbackslash : '\\' ∉ text.toList) : ∀ name ∈ node.names, OneLine name := by
  cases entry with
  | list =>
    obtain ⟨⟨l, _⟩, hl, heq⟩ := exists_of_map_eq_ok h
    obtain ⟨source, r, hsource, -, hmembers, rfl⟩ := QueryList.exists_of_parse hl
    cases heq
    rw [names, apply_ite QueryList.names, QueryList.names_simplify, ite_self]
    intro name hname
    obtain ⟨q, hq, hname⟩ := List.mem_flatMap.mp hname
    have hq : some q ∈ r.members := by simpa [QueryList.valid] using hq
    rcases hmembers q hq with rfl | ⟨ts, hts, hread⟩
    · cases hname
    · have hlexemes := Source.oneLine hsource hbackslash
      exact hread.form.oneLine (fun t ht => hlexemes t (Grammar.subset_of_mem_segments hts ht)) name
        hname
  | query =>
    obtain ⟨q, hq, heq⟩ := exists_of_map_eq_ok h
    obtain ⟨source, r, hsource, hread, rfl⟩ := Query.exists_of_parse hq
    cases heq
    rw [names, apply_ite Query.names, Query.names_simplify, ite_self]
    exact hread.form.oneLine (Source.oneLine hsource hbackslash)
  | condition =>
    obtain ⟨c, hc, heq⟩ := exists_of_map_eq_ok h
    obtain ⟨source, d, hsource, hform, -, rfl⟩ := Condition.form_of_parse hc
    cases heq
    rw [names, apply_ite Condition.names, Condition.names_simplify, ite_self]
    exact hform.oneLine (Source.oneLine hsource hbackslash)
  | feature =>
    obtain ⟨f, hf, heq⟩ := exists_of_map_eq_ok h
    obtain ⟨source, hsource, hf⟩ := Feature.featureIn_of_parse hf
    cases heq
    exact hf.oneLine (Source.oneLine hsource hbackslash)

/-! ## Lines -/

/-- The dump of some tokens is a line for each one that is shown, and the dump of a node a line for
each of its items, unless a name in it holds a line feed. No name does that is read of a text without
a backslash. -/
theorem dump_lines (options : TokenOptions) (ts : List Token) (flags : Bool) (node : Node) :
    let dump := Dump.tokens options ts
    let items := shown options ts
    let nodeDump := node.dump flags
    ((items ≠ [] → ∃ s, dump = s ++ "\n") ∧
      breaks dump = items.length + breaksAll (items.map (·.kind.rawName)) ∧
      (breaks dump = items.length ↔ ∀ t ∈ items, OneLine t.kind.rawName) ∧
      ∀ {s : List Char}, Lexer.tokens s = .ok ts → '\\' ∉ s → breaks dump = items.length) ∧
    (∃ s, nodeDump = s ++ "\n") ∧
    breaks nodeDump = node.items + breaksAll node.names ∧
    (breaks nodeDump = node.items ↔ ∀ name ∈ node.names, OneLine name) ∧
    ∀ {settings : Settings} {entry : EntryPoint} {text : String} {errors : List ParseError},
      Node.parse settings entry text = .ok (node, errors) → '\\' ∉ text.toList →
        breaks nodeDump = node.items := by
  refine ⟨⟨tokens_ends, breaks_tokens options ts, breaks_tokens_eq_iff, ?_⟩,
    node.dump_ends flags, node.breaks_dump flags, Node.breaks_dump_eq_iff, ?_⟩
  · intro s hts hbackslash
    have hnames := Lexer.oneLine_of_tokens hts hbackslash
    exact breaks_tokens_eq_iff.mpr fun t ht => hnames t (List.mem_of_mem_filter ht)
  · intro settings entry text errors hnode hbackslash
    exact Node.breaks_dump_eq_iff.mpr (Node.oneLine_of_parse hnode hbackslash)

/-- Without an escape in the text there is a line for each of the tokens and for the feature. -/
theorem dump_lines_width :
    let text := "(width: 1px)"
    let v := Binary64.ofBits 0x3FF0000000000000
    let ts : List Token := [⟨.openParen, ⟨0, 0⟩⟩, ⟨.ident "width", ⟨1, 5⟩⟩, ⟨.colon, ⟨6, 6⟩⟩,
      ⟨.whitespace, ⟨7, 7⟩⟩, ⟨.dimension v "px" .number, ⟨8, 10⟩⟩, ⟨.closeParen, ⟨11, 11⟩⟩,
      ⟨.eof, ⟨12, 12⟩⟩]
    let f := Feature.plain "width" none (.dimension v "px" .number)
    '\\' ∉ text.toList ∧ Lexer.tokens text.toList = .ok ts ∧
      Node.parse {} .feature text = .ok (.feature f, []) ∧ breaks (Dump.tokens ⟨true, true⟩ ts) = 7 ∧
      breaks ((Node.feature f).dump true) = 1 := by
  intro text v ts f
  have hbackslash : '\\' ∉ text.toList := by decide
  have hts : Lexer.tokens text.toList = .ok ts := by
    apply eq_ok_of_toOption
    decide +kernel
  have hf : Feature.parse text = .ok f := by
    apply eq_ok_of_toOption
    decide +kernel
  have hnode : Node.parse {} .feature text = .ok (.feature f, []) := by
    rw [Node.parse, hf]
    rfl
  obtain ⟨⟨-, -, -, htokens⟩, -, -, -, hfeature⟩ := dump_lines ⟨true, true⟩ ts true (.feature f)
  exact ⟨hbackslash, hts, hnode, htokens hts hbackslash, hfeature hnode hbackslash⟩

/-- An escaped line feed in a name makes two lines of one token, and of one feature. -/
theorem dump_breaks_name :
    let t : Token := ⟨.ident "\nb", ⟨0, 3⟩⟩
    let f := Feature.boolean "\nb"
    Lexer.tokens (Input.read "\\a b") = .ok [t, ⟨.eof, ⟨4, 4⟩⟩] ∧
      shown {} [t, ⟨.eof, ⟨4, 4⟩⟩] = [t] ∧
      Dump.tokens {} [t, ⟨.eof, ⟨4, 4⟩⟩] = "Ident \nb\n" ∧
      Node.parse {} .feature "(\\a b)" = .ok (.feature f, []) ∧ (Node.feature f).items = 1 ∧
      (Node.feature f).dump false = "Boolean \nb\n" := by
  intro t f
  have hts : Lexer.tokens (Input.read "\\a b") = .ok [t, ⟨.eof, ⟨4, 4⟩⟩] := by
    apply eq_ok_of_toOption
    decide +kernel
  have hf : Feature.parse "(\\a b)" = .ok f := by
    apply eq_ok_of_toOption
    decide +kernel
  have hnode : Node.parse {} .feature "(\\a b)" = .ok (.feature f, []) := by
    rw [Node.parse, hf]
    rfl
  refine ⟨hts, by decide +kernel, by decide +kernel, hnode, rfl, by decide +kernel⟩

end CssMedia
