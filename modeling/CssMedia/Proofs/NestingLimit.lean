import CssMedia.Proofs.Grammar.Limit
import CssMedia.Proofs.Unsimplified

/-!
# Texts and the nesting limit

A limit on nesting changes nothing but which trees are too deep: a tree within the limit is
read as it is without one, and a failure stays what it is or is one for want of levels.
-/

namespace CssMedia

open Grammar (Allows Settled TooDeep wider_some)

/-- A reader that a limit keeps from nothing but the trees that are deeper. -/
structure Limited {α : Type} (read : Option Nat → Except ParseError α) (depth : α → Nat) : Prop where
  settled : ∀ levels, Settled read levels
  ok_iff : ∀ levels a, read levels = .ok a ↔ read none = .ok a ∧ Allows levels (depth a)

namespace Limited

variable {α β : Type} {read : Option Nat → Except ParseError α} {depth : α → Nat}

theorem eq_ok (h : Limited read depth) {a : α} (ha : read none = .ok a) {limit : Nat}
    (hdepth : depth a ≤ limit) : read (some limit) = .ok a :=
  (h.ok_iff _ a).mpr ⟨ha, by rintro _ ⟨⟩; exact hdepth⟩

theorem tooDeep (h : Limited read depth) {a : α} (ha : read none = .ok a) {limit : Nat}
    (hdepth : limit < depth a) : TooDeep (read (some limit)) := by
  refine (h.settled (some limit)).eq_or_tooDeep.resolve_left fun heq => ?_
  have hallows := ((h.ok_iff _ a).mp (heq.trans ha)).2
  have hle := hallows limit rfl
  omega

theorem eq_error (h : Limited read depth) {e : ParseError} (he : read none = .error e)
    {limit larger : Nat} (hlimit : read (some limit) = .error e) (hle : limit ≤ larger) :
    read (some larger) = .error e :=
  (h.settled _).eq_of_error hlimit ((h.settled none).not_tooDeep he) (wider_some hle)

theorem map (h : Limited read depth) {f : α → β} {depthOf : β → Nat}
    (hdepth : ∀ a, depthOf (f a) = depth a) : Limited (fun levels => (read levels).map f) depthOf where
  settled levels := (h.settled levels).map f
  ok_iff levels b := by
    constructor
    · intro hb
      obtain ⟨a, ha, rfl⟩ := exists_of_map_eq_ok hb
      obtain ⟨hnone, hallows⟩ := (h.ok_iff levels a).mp ha
      exact ⟨by rw [hnone]; rfl, by rwa [hdepth]⟩
    · rintro ⟨hb, hallows⟩
      obtain ⟨a, ha, rfl⟩ := exists_of_map_eq_ok hb
      rw [hdepth] at hallows
      rw [(h.ok_iff levels a).mpr ⟨ha, hallows⟩]
      rfl

theorem after {r : Except ParseError β} (hr : ∀ e, r = .error e → e.outermost.kind ≠ .nestedTooDeeply)
    {next : β → Option Nat → Except ParseError α} (h : ∀ b, Limited (next b) depth) :
    Limited (fun levels => r >>= (next · levels)) depth where
  settled levels := (Settled.const hr).bind fun b => (h b).settled levels
  ok_iff levels a := by
    cases r with
    | error e => simp [bind, Except.bind]
    | ok b => exact (h b).ok_iff levels a

end Limited

/-! ## Readers with a limit -/

theorem limited_condition (eof : Nat) (ts : List Lexeme) :
    Limited (Grammar.condition eof · true ts) Condition.depth where
  settled levels := Grammar.settled_condition eof levels true ts
  ok_iff levels c := by
    rw [Grammar.condition_iff, Grammar.condition_iff]
    have hnone : Allows none c.depth := nofun
    tauto

theorem limited_singleQuery (eof : Nat) (ts : List Lexeme) :
    Limited (Grammar.singleQuery eof · ts) Query.depth where
  settled levels := Grammar.settled_singleQuery eof levels ts
  ok_iff levels q := by
    rw [Grammar.singleQuery_iff, Grammar.singleQuery_iff, ← Query.allows_depth, ← Query.allows_depth]
    have hnone : Allows none q.depth := nofun
    tauto

theorem limited_read {α : Type} {depth : α → Nat} {read : Source → Option Nat → Except ParseError α}
    (h : ∀ source, Limited (read source) depth) (text : String) :
    Limited (fun levels => Source.read text >>= (read · levels)) depth := by
  refine .after (fun e he heq => ?_) h
  have hmem := (failsWith_read text e he).2
  rw [heq] at hmem
  exact absurd hmem (by decide)

/-! ## Entry points -/

theorem Query.limited_parse (text : String) :
    Limited (fun levels => Query.parse ⟨false, levels⟩ text) Query.depth := by
  have hread : ∀ levels, Query.parse ⟨false, levels⟩ text = Source.read text >>= fun source =>
      Grammar.singleQuery source.eof levels source.lexemes := by
    intro levels
    simp [Query.parse]
  simp only [hread]
  exact limited_read (fun source => limited_singleQuery source.eof source.lexemes) text

theorem Condition.limited_parse (text : String) :
    Limited (fun levels => Condition.parse ⟨false, levels⟩ text) Condition.depth := by
  have hread : ∀ levels, Condition.parse ⟨false, levels⟩ text = Source.read text >>= fun source =>
      Grammar.condition source.eof levels true source.lexemes := by
    intro levels
    simp [Condition.parse]
  simp only [hread]
  exact limited_read (fun source => limited_condition source.eof source.lexemes) text

theorem Node.limited_parse {entry : EntryPoint} (hentry : entry = .query ∨ entry = .condition)
    (text : String) :
    Limited (fun levels => Node.parse ⟨false, levels⟩ entry text) (·.1.depth) := by
  rcases hentry with rfl | rfl
  · exact (Query.limited_parse text).map fun _ => rfl
  · exact (Condition.limited_parse text).map fun _ => rfl

/-- The condition of a query, or the condition itself. -/
def Node.condition? : Node → Option Condition
  | .condition c => some c
  | .query q => q.condition
  | .list _ | .feature _ | .value _ => none

theorem Operand.maxDepth_lt_iff {xs : List Operand} {n : Nat} :
    maxDepth xs < n ↔ 0 < n ∧ ∀ x ∈ xs, x.depth < n := by
  induction xs with
  | nil => simp
  | cons x xs ih =>
    rw [maxDepth_cons, Nat.max_lt, ih, List.forall_mem_cons]
    tauto

theorem Node.depth_le_iff {n : Node} {c : Condition} (hc : n.condition? = some c) {limit : Nat} :
    n.depth ≤ limit ↔ 0 < limit ∧ ∀ x ∈ c.operands, x.depth < limit := by
  have hdepth : n.depth = Operand.maxDepth c.operands + 1 := by
    cases n with
    | condition d =>
      cases hc
      rfl
    | query q =>
      replace hc : q.condition = some c := hc
      show q.depth = _
      rw [Query.depth, hc]
      rfl
    | list | feature | value => cases hc
  rw [hdepth, ← Operand.maxDepth_lt_iff]
  exact Iff.rfl

/-- A tree that is read without a limit is read within every limit that it is not too deep for,
and each run of operands is one level. A failure without a limit is met within a limit too, if
no failure for want of levels comes first, and then within every wider limit. -/
theorem Node.parse_within_limit {entry : EntryPoint}
    (hentry : entry = .query ∨ entry = .condition) (text : String) (limit : Nat) :
    (∀ n errors, Node.parse ⟨false, none⟩ entry text = .ok (n, errors) →
      (n.depth ≤ limit → Node.parse ⟨false, some limit⟩ entry text = .ok (n, errors)) ∧
      (limit < n.depth → TooDeep (Node.parse ⟨false, some limit⟩ entry text)) ∧
      ∀ c, n.condition? = some c →
        (Node.parse ⟨false, some limit⟩ entry text = .ok (n, errors) ↔
          0 < limit ∧ ∀ x ∈ c.operands, x.depth < limit)) ∧
    ∀ e, Node.parse ⟨false, none⟩ entry text = .error e →
      e.outermost.kind ≠ .nestedTooDeeply ∧
      (Node.parse ⟨false, some limit⟩ entry text = .error e ∨
        TooDeep (Node.parse ⟨false, some limit⟩ entry text)) ∧
      (Node.parse ⟨false, some limit⟩ entry text = .error e → ∀ larger, limit ≤ larger →
        Node.parse ⟨false, some larger⟩ entry text = .error e) := by
  have h := Node.limited_parse hentry text
  constructor
  · intro n errors hread
    have hdeep : limit < n.depth → TooDeep (Node.parse ⟨false, some limit⟩ entry text) :=
      fun hdepth => h.tooDeep hread hdepth
    refine ⟨fun hdepth => h.eq_ok hread hdepth, hdeep, fun c hc => ?_⟩
    rw [← Node.depth_le_iff hc]
    refine ⟨fun hok => ?_, fun hdepth => h.eq_ok hread hdepth⟩
    exact ((h.ok_iff (some limit) _).mp hok).2 limit rfl
  · intro e hread
    refine ⟨(h.settled none).not_tooDeep hread, ?_, fun hlimit larger => h.eq_error hread hlimit⟩
    exact (h.settled (some limit)).eq_or_tooDeep.imp_left fun heq => heq.trans hread

/-- Three operands of one run take one level, and the parentheses around them one more. A word
that is missing after two levels of parentheses is missing within every limit from two on. -/
theorem Node.parse_within_limit_run :
    let text := "((a) or (b) or (c)) and (d)"
    let c : Condition := ⟨some .and, [.group (some .or)
      [.feature (.boolean "a"), .feature (.boolean "b"), .feature (.boolean "c")],
      .feature (.boolean "d")]⟩
    let e : ParseError := .single .expectCondition ⟨6, 7⟩
    (Node.parse ⟨false, none⟩ .condition text = .ok (.condition c, []) ∧
      (Node.condition c).depth = 2 ∧
      Node.parse ⟨false, some 2⟩ .condition text = .ok (.condition c, []) ∧
      TooDeep (Node.parse ⟨false, some 1⟩ .condition text)) ∧
    Node.parse ⟨false, none⟩ .condition "((a)) or" = .error e ∧
      ∀ larger, 2 ≤ larger → Node.parse ⟨false, some larger⟩ .condition "((a)) or" = .error e := by
  intro text c e
  have hfeatures : ∀ f ∈ ["a", "b", "c", "d"].map Feature.boolean, f.WellFormed :=
    wellFormed_map_boolean (by decide) (by decide)
  have hshaped : c.IsShaped :=
    ⟨by decide, ⟨by decide, trivial, trivial, trivial, trivial⟩, trivial, trivial⟩
  have hwell : c.WellFormed := ⟨hshaped, hfeatures⟩
  have htext : c.text = text := by decide +kernel
  have hread : Node.parse ⟨false, none⟩ .condition text = .ok (.condition c, []) := by
    unfold Node.parse
    rw [← htext, hwell.parse_text (fun _ h => by cases h)]
    rfl
  have htwo := (Node.parse_within_limit (.inr rfl) text 2).1 _ _ hread
  have hone := (Node.parse_within_limit (.inr rfl) text 1).1 _ _ hread
  let ts : List Lexeme := [⟨.openParen, ⟨0, 0⟩, false⟩, ⟨.openParen, ⟨1, 1⟩, false⟩,
    ⟨.ident "a", ⟨2, 2⟩, false⟩, ⟨.closeParen, ⟨3, 3⟩, false⟩, ⟨.closeParen, ⟨4, 4⟩, false⟩,
    ⟨.ident "or", ⟨6, 7⟩, true⟩]
  have hsource : (Source.read "((a)) or").toOption.map (fun s => (s.lexemes, s.eof)) =
      some (ts, 8) := by
    decide +kernel
  have hcondition : ∀ levels, levels = none ∨ levels = some 2 →
      Grammar.condition 8 levels true ts = .error e := by
    rintro _ (rfl | rfl)
    all_goals
      -- Equations open what recurses on lengths; the rest is evaluated.
      simp +decide [ts, e, Grammar.condition, Grammar.enter, Grammar.leadingNot, Grammar.operands,
        Grammar.cutAtClose, Grammar.group, Grammar.feature, Grammar.items]
      rfl
  obtain ⟨⟨_, _⟩, hsource, hts⟩ := Option.map_eq_some_iff.mp hsource
  obtain ⟨rfl, rfl⟩ := Prod.mk.inj hts
  have hfails : ∀ levels, levels = none ∨ levels = some 2 →
      Node.parse ⟨false, levels⟩ .condition "((a)) or" = .error e := by
    intro levels h
    unfold Node.parse Condition.parse
    rw [eq_ok_of_toOption hsource]
    show Except.map _ (Grammar.condition 8 levels true ts >>= _) = _
    rw [hcondition levels h]
    rfl
  refine ⟨⟨hread, rfl, htwo.1 (Nat.le_refl 2), hone.2.1 (by decide)⟩, hfails none (.inl rfl), ?_⟩
  exact ((Node.parse_within_limit (.inr rfl) "((a)) or" 2).2 e (hfails none (.inl rfl))).2.2
    (hfails _ (.inr rfl))

end CssMedia
