import CssMedia.CommandLine.Run
import CssMedia.Proofs.SimplifyCongruence
import CssMedia.Proofs.SimplifyShape
import CssMedia.Proofs.Text.Read

/-!
# The format round trip

A simplified tree is what its text is read as, within the limit that the tree was read in.
So the output of `format` passes `check`, and `format` leaves it as it is.
-/

namespace CssMedia

open Grammar (Allows AllowsIn)

/-! ## Simplified trees and their texts -/

theorem Condition.simplify_only_toOperand (c : Condition) :
    (only c.toOperand).simplify = c.simplify := by
  rw [simplify_only, toOperand, Operand.core, hoist_only_unwrap]
  rfl

theorem Condition.simplify_besideType (c : Condition) : c.besideType.simplify = c.simplify := by
  unfold besideType
  split
  · exact simplify_only_toOperand c
  · rfl

theorem Query.simplify_written (q : Query) : q.written.simplify = q.simplify := by
  unfold written
  split
  · rw [simplify, simplify, Option.map_map]
    have hsame : (fun c : Condition => c.simplify) ∘ Condition.besideType =
        fun c : Condition => c.simplify := funext Condition.simplify_besideType
    rw [hsame]
  · rfl

theorem Condition.WellFormed.simplify {c : Condition} (h : c.WellFormed) :
    c.simplify.WellFormed where
  shaped := h.shaped.simplify
  features := by
    rw [features_simplify]
    exact h.features

/-- What a condition that was read and simplified satisfies. -/
structure Condition.Readable (levels : Option Nat) (c : Condition) : Prop where
  wellFormed : c.WellFormed
  depth : Allows levels c.depth
  simple : c.simplify = c

structure Query.Readable (levels : Option Nat) (q : Query) : Prop where
  wellFormed : q.WellFormed
  depth : AllowsIn levels q.written.condition
  simple : q.simplify = q

theorem Query.readable_of_none {levels : Option Nat} {q : Query} (h : q.condition = none) :
    q.Readable levels := by
  obtain ⟨modifier, type, condition⟩ := q
  subst h
  refine ⟨nofun, ?_, rfl⟩
  unfold written
  split
  · exact Grammar.allowsIn_none levels
  · exact Grammar.allowsIn_none levels

/-- The parentheses around an `or` take no more levels than it took to be read: there were some
around it, or around what it came from. -/
theorem Condition.depth_besideType_le {c : Condition} (h : c.operator ≠ some .or) :
    c.simplify.besideType.depth ≤ c.depth := by
  unfold besideType
  split
  · next hor =>
    have hlt := depth_simplify_lt h hor
    simp only [depth, only, toOperand, Operand.maxDepth, Operand.depth] at hlt ⊢
    omega
  · exact depth_simplify_le c

theorem Condition.readable_simplify {c : Condition} {levels : Option Nat} (h : c.WellFormed)
    (hdepth : Allows levels c.depth) : c.simplify.Readable levels :=
  ⟨h.simplify, hdepth.mono (depth_simplify_le c), simplify_simplify c⟩

theorem Query.readable_simplify {q : Query} {levels : Option Nat} (h : q.WellFormed)
    (hfits : q.RootFits) (hdepth : AllowsIn levels q.condition) :
    q.simplify.Readable levels := by
  obtain ⟨modifier, type, condition⟩ := q
  cases condition with
  | none => exact readable_of_none rfl
  | some c =>
    have hc := Condition.readable_simplify (h c rfl) (Grammar.allowsIn_some.mp hdepth)
    refine ⟨?_, ?_, Query.simplify_simplify _⟩
    · rintro _ ⟨⟩
      exact hc.wellFormed
    · unfold written
      split
      · next hshows =>
        have hle := Condition.depth_besideType_le (hfits.operator_ne hshows rfl)
        exact Grammar.allowsIn_some.mpr ((Grammar.allowsIn_some.mp hdepth).mono hle)
      · exact Grammar.allowsIn_some.mpr hc.depth

/-! ## What is read -/

theorem Condition.parse_readable {levels : Option Nat} {text : String} {c : Condition}
    (h : Condition.parse ⟨true, levels⟩ text = .ok c) : c.Readable levels := by
  obtain ⟨d, hd, hdepth, rfl⟩ := Condition.exists_of_parse h
  exact readable_simplify hd hdepth

theorem Query.parse_readable {levels : Option Nat} {text : String} {q : Query}
    (h : Query.parse ⟨true, levels⟩ text = .ok q) : q.Readable levels := by
  obtain ⟨_, r, _, hr, rfl⟩ := Query.exists_of_parse h
  exact readable_simplify hr.wellFormed hr.rootFits hr.depth

structure QueryList.Readable (levels : Option Nat) (l : QueryList) : Prop where
  nonempty : l.members ≠ []
  members : ∀ q, some q ∈ l.members → q.Readable levels

theorem QueryList.parse_readable {levels : Option Nat} {text : String} {l : QueryList}
    {errors : List ParseError} (h : QueryList.parse ⟨true, levels⟩ text = .ok (l, errors)) :
    l.Readable levels := by
  obtain ⟨_, r, _, hne, hmembers, rfl⟩ := QueryList.exists_of_parse h
  refine ⟨?_, ?_⟩
  · exact fun hnil => hne (List.map_eq_nil_iff.mp hnil)
  · intro q hq
    obtain ⟨m, hm, hq⟩ := List.mem_map.mp hq
    obtain ⟨r, rfl, rfl⟩ := Option.map_eq_some_iff.mp hq
    rcases hmembers r hm with rfl | ⟨_, _, hr⟩
    · exact Query.readable_of_none rfl
    · exact Query.readable_simplify hr.wellFormed hr.rootFits hr.depth

/-! ## Nodes -/

def Node.mended : Node → Node
  | .list l => .list ⟨l.mended.map some⟩
  | n => n

def Node.Readable (levels : Option Nat) : Node → Prop
  | .list l => l.Readable levels
  | .query q => q.Readable levels
  | .condition c => c.Readable levels
  | .feature f => f.WellFormed
  | .value _ => False

/-- The nodes that an entry point can read of a text. -/
inductive Node.ReadBy (settings : Settings) (text : String) : EntryPoint → Node → Prop where
  | list {l : QueryList} {errors : List ParseError}
    (h : QueryList.parse settings text = .ok (l, errors)) : ReadBy settings text .list (.list l)
  | query {q : Query} (h : Query.parse settings text = .ok q) :
    ReadBy settings text .query (.query q)
  | condition {c : Condition} (h : Condition.parse settings text = .ok c) :
    ReadBy settings text .condition (.condition c)
  | feature {f : Feature} (h : Feature.parse text = .ok f) :
    ReadBy settings text .feature (.feature f)

theorem Node.readBy_of_parse {settings : Settings} {entry : EntryPoint} {text : String} {n : Node}
    {errors : List ParseError} (h : Node.parse settings entry text = .ok (n, errors)) :
    ReadBy settings text entry n := by
  cases entry with
  | list =>
    obtain ⟨⟨l, _⟩, hl, heq⟩ := exists_of_map_eq_ok h
    cases heq
    exact .list hl
  | query =>
    obtain ⟨q, hq, heq⟩ := exists_of_map_eq_ok h
    cases heq
    exact .query hq
  | condition =>
    obtain ⟨c, hc, heq⟩ := exists_of_map_eq_ok h
    cases heq
    exact .condition hc
  | feature =>
    obtain ⟨f, hf, heq⟩ := exists_of_map_eq_ok h
    cases heq
    exact .feature hf

theorem Node.ReadBy.entryPoint {settings : Settings} {entry : EntryPoint} {text : String} {n : Node}
    (h : ReadBy settings text entry n) : n.entryPoint? = some entry := by
  cases h <;> rfl

theorem Node.parse_readable {levels : Option Nat} {entry : EntryPoint} {text : String} {n : Node}
    {errors : List ParseError} (h : Node.parse ⟨true, levels⟩ entry text = .ok (n, errors)) :
    n.Readable levels ∧ n.entryPoint? = some entry := by
  have hread := readBy_of_parse h
  refine ⟨?_, hread.entryPoint⟩
  cases hread with
  | list hl => exact QueryList.parse_readable hl
  | query hq => exact Query.parse_readable hq
  | condition hc => exact Condition.parse_readable hc
  | feature hf => exact Feature.parse_wellFormed hf

theorem QueryList.Readable.mended {levels : Option Nat} {l : QueryList} (h : l.Readable levels) :
    ∀ q ∈ l.mended, q.Readable levels :=
  forall_mended (Query.readable_of_none rfl) h.members

/-- What the text of a list is read as, before it is simplified. -/
def QueryList.written (l : QueryList) : QueryList := ⟨l.mended.map fun q => some q.written⟩

theorem QueryList.simplify_written {levels : Option Nat} {l : QueryList} (h : l.Readable levels) :
    l.written.simplify = ⟨l.mended.map some⟩ := by
  unfold written
  rw [simplify, List.map_map]
  congr 1
  apply List.map_congr_left
  intro q hq
  rw [Function.comp_apply, Option.map_some, Query.simplify_written, (h.mended q hq).simple]

def Node.written : Node → Node
  | .list l => .list l.written
  | .query q => .query q.written
  | n => n

theorem Node.parse_text {n : Node} {entry : EntryPoint} {settings : Settings} {tail : String}
    (h : n.Readable settings.levels) (hentry : n.entryPoint? = some entry) (htail : IsEnd tail) :
    Node.parse settings entry (n.text ++ tail) =
      .ok (if settings.simplify then n.mended else n.written, []) := by
  match n, h, hentry with
  | .list l, h, rfl =>
    have hdepth := fun q hq => (h.mended q hq).depth
    unfold parse
    rw [text, parse_listText h.nonempty (fun q hq => (h.members q hq).wellFormed) hdepth htail]
    have hsimple := QueryList.simplify_written h
    unfold QueryList.written at hsimple
    cases settings.simplify
    · rfl
    · simp [Except.map, hsimple, mended]
  | .query q, h, rfl =>
    unfold parse
    rw [text, parse_queryText h.wellFormed h.depth htail, Query.simplify_written, h.simple]
    cases settings.simplify <;> rfl
  | .condition c, h, rfl =>
    unfold parse
    rw [text, parse_conditionText h.wellFormed h.depth htail, h.simple]
    cases settings.simplify <;> rfl
  | .feature f, h, rfl =>
    unfold parse
    rw [text, parse_featureText h htail]
    cases settings.simplify <;> rfl

theorem Node.text_mended (n : Node) : n.mended.text = n.text := by
  cases n with
  | list l =>
    have htext : ∀ m : Option Query,
        QueryList.memberChars (some (m.getD .never)) = QueryList.memberChars m := by
      intro m
      cases m with
      | none => rfl
      | some q => rfl
    simp [mended, text, QueryList.text, QueryList.chars, QueryList.mended, Function.comp_def, htext]
  | query | condition | feature | value => rfl

/-! ## The output of `format` -/

namespace CommandLine.Invocation

theorem exists_run_eq (i : Invocation) (bytes : Except ReadFailure ByteArray) (terminal : Bool) :
    ∃ colored, i.run bytes terminal =
      match i.input.load bytes with
      | .error message => .failed message
      | .ok input => i.runOn colored input :=
  ⟨_, rfl⟩

theorem exists_of_format {i : Invocation} {bytes : Except ReadFailure ByteArray} {terminal : Bool}
    (hi : i.command = .format) (h : (i.run bytes terminal).exitCode = 0) :
    ∃ n : Node, n.Readable (some 256) ∧ n.entryPoint? = some i.entry ∧
      i.run bytes terminal = { output := n.text ++ "\n" } := by
  have hsettings : i.settings = ⟨true, some 256⟩ := by simp [settings, hi]
  obtain ⟨colored, hrun⟩ := exists_run_eq i bytes terminal
  rw [hrun] at h ⊢
  split at h
  · cases h
  next input hinput =>
  simp only [runOn, hi, hsettings, reduceCtorEq, if_false] at h ⊢
  split at h
  · cases h
  next n errors hparse =>
  obtain ⟨hn, hentry⟩ := Node.parse_readable hparse
  refine ⟨n, hn, hentry, ?_⟩
  simp only [outcomeOf, hi]

variable {j : Invocation} {bytes : Except ReadFailure ByteArray} {terminal : Bool}
  {name : Option String} {n : Node}

theorem run_check_text (hj : j.command = .check) (h : n.Readable (some 256))
    (hentry : n.entryPoint? = some j.entry)
    (hload : j.input.load bytes = .ok ⟨name, n.text ++ "\n"⟩) : j.run bytes terminal = {} := by
  have hparse : Node.parse ⟨false, some 256⟩ j.entry (n.text ++ "\n") = .ok (n.written, []) :=
    Node.parse_text h hentry (.inr rfl)
  have hsettings : j.settings = ⟨false, some 256⟩ := by simp [settings, hj]
  obtain ⟨colored, hrun⟩ := exists_run_eq j bytes terminal
  rw [hrun, hload]
  simp [runOn, hj, hsettings, hparse, outcomeOf]

theorem run_format_text (hj : j.command = .format) (h : n.Readable (some 256))
    (hentry : n.entryPoint? = some j.entry)
    (hload : j.input.load bytes = .ok ⟨name, n.text ++ "\n"⟩) :
    j.run bytes terminal = { output := n.text ++ "\n" } := by
  have hparse : Node.parse ⟨true, some 256⟩ j.entry (n.text ++ "\n") = .ok (n.mended, []) :=
    Node.parse_text h hentry (.inr rfl)
  have hsettings : j.settings = ⟨true, some 256⟩ := by simp [settings, hj]
  obtain ⟨colored, hrun⟩ := exists_run_eq j bytes terminal
  rw [hrun, hload]
  simp [runOn, hj, hsettings, hparse, outcomeOf, Node.text_mended]

end CommandLine.Invocation

open CommandLine in
/-- The text of a node that was read and simplified is read as that node, with the same
settings. What `format` prints passes `check`, and `format` prints it again. -/
theorem format_round_trip :
    (∀ (levels : Option Nat) (entry : EntryPoint) (text : String) (n : Node)
      (errors : List ParseError), Node.parse ⟨true, levels⟩ entry text = .ok (n, errors) →
        Node.parse ⟨true, levels⟩ entry n.text = .ok (n.mended, [])) ∧
    ∀ (i j : Invocation) (bytes bytes' : Except ReadFailure ByteArray) (terminal terminal' : Bool)
      (name : Option String), i.command = .format → (i.run bytes terminal).exitCode = 0 →
        j.entry = i.entry → j.input.load bytes' = .ok ⟨name, (i.run bytes terminal).output⟩ →
          (j.command = .check → j.run bytes' terminal' = {}) ∧
          (j.command = .format →
            j.run bytes' terminal' = { output := (i.run bytes terminal).output }) := by
  constructor
  · intro levels entry text n errors hparse
    obtain ⟨hn, hentry⟩ := Node.parse_readable hparse
    have htext : Node.parse ⟨true, levels⟩ entry (n.text ++ "") = .ok (n.mended, []) :=
      Node.parse_text hn hentry (.inl rfl)
    rwa [String.append_empty] at htext
  · intro i j bytes bytes' terminal terminal' name hi hexit hentry hload
    obtain ⟨n, hn, hni, hrun⟩ := Invocation.exists_of_format hi hexit
    rw [hrun] at hload ⊢
    rw [← hentry] at hni
    exact ⟨fun hj => Invocation.run_check_text hj hn hni hload,
      fun hj => Invocation.run_format_text hj hn hni hload⟩

open CommandLine in
/-- An invalid member is printed as `not all`, and that is what is read. -/
theorem format_round_trip_screen :
    let i : Invocation := ⟨.format, .inline "SCREEN, <", .list, .auto, []⟩
    let j : Invocation := ⟨.check, .inline "screen, not all\n", .list, .auto, []⟩
    i.run (.ok .empty) false = { output := "screen, not all\n" } ∧ j.run (.ok .empty) true = {} ∧
      ∃ n errors, Node.parse {} .list "SCREEN, <" = .ok (n, errors) ∧ n.text = "screen, not all" ∧
        Node.parse {} .list "screen, not all" = .ok (n.mended, []) := by
  intro i j
  have hformat : i.run (.ok .empty) false = { output := "screen, not all\n" } := by decide +kernel
  have hload : j.input.load (.ok .empty) = .ok ⟨none, (i.run (.ok .empty) false).output⟩ := by
    rw [hformat]
    rfl
  have hcheck := format_round_trip.2 i j (.ok .empty) (.ok .empty) false true none rfl
    (by rw [hformat]) rfl hload
  refine ⟨hformat, hcheck.1 rfl, ?_⟩
  have hread : (Node.parse {} .list "SCREEN, <").toOption.map (fun r => r.1.text) =
      some "screen, not all" := by decide +kernel
  obtain ⟨⟨n, errors⟩, hparse, htext⟩ := Option.map_eq_some_iff.mp hread
  have hn := format_round_trip.1 (some 256) .list "SCREEN, <" n errors (eq_ok_of_toOption hparse)
  rw [show n.text = "screen, not all" from htext] at hn
  exact ⟨n, errors, eq_ok_of_toOption hparse, htext, hn⟩

end CssMedia
