import CssMedia.Proofs.Lexer.FirstToken
import CssMedia.Proofs.Lexer.Places

/-!
# The tokens of a text are all of it

The lexer cuts a text into tokens, one behind the other, and leaves out nothing but the comments
before, between and behind them. A layout says so of a list of tokens, and the tokens of a text
are the one list with a layout.
-/

namespace CssMedia.Lexer

/-! ## Kinds -/

theorem nextToken_ne_eof (c : Char) (rest : List Char) : (nextToken c rest).1 ≠ some .eof := by
  intro heof
  rcases hnext : nextToken c rest with ⟨kind?, n⟩
  rw [hnext] at heof
  cases firstToken_of_nextToken hnext with
  | numeric _ h => cases h <;> cases heof
  | identLike _ _ _ h => cases h <;> cases heof
  | punctuation => exact punctuation_ne rfl c (Option.some.inj heof)
  | blank | string | openString | hash | cdc | cdo | atKeyword => cases heof

/-! ## Layouts -/

/-- From `start` on there are only comments before the token, and it is what is read there. -/
structure NextAt (s : List Char) (start : Nat) (t : Token) : Prop where
  start_le : start ≤ t.span.start
  ordered : t.span.start ≤ t.span.stop
  inside : t.span.stop < s.length
  comments : Comments (s.extract start t.span.start)
  noMore : ¬ StartsComment (s.drop t.span.start)
  read : ∃ c rest, s.drop t.span.start = c :: rest ∧
    nextToken c rest = (some t.kind, t.span.stop - t.span.start + 1)

/-- The tokens from `start` on, each right behind the one before it or behind comments. -/
inductive Layout (s : List Char) : Nat → List Token → Prop
  | last {start : Nat} (h : CommentsToEnd (s.drop start)) :
    Layout s start [⟨.eof, ⟨s.length, s.length⟩⟩]
  | next {start : Nat} {t : Token} {ts : List Token} (h : NextAt s start t)
    (hmore : Layout s (t.span.stop + 1) ts) : Layout s start (t :: ts)

theorem tokensFrom_of_commentsToEnd {s : List Char} (h : CommentsToEnd s) (start : Nat) :
    tokensFrom start s = .ok [⟨.eof, ⟨start + s.length, start + s.length⟩⟩] := by
  rw [tokensFrom_eq, h.commentsLength_eq, List.drop_length]

theorem Comments.tokensFrom_append {gap : List Char} (h : Comments gap) (start : Nat)
    (rest : List Char) : tokensFrom start (gap ++ rest) = tokensFrom (start + gap.length) rest := by
  rw [tokensFrom_eq, h.commentsLength_append, List.drop_length_add_append, ← Nat.add_assoc,
    ← tokensFrom_eq]

theorem extract_append_drop (s : List Char) {start stop : Nat} (h : start ≤ stop) :
    s.extract start stop ++ s.drop stop = s.drop start := by
  have hdrop : s.drop stop = (s.drop start).drop (stop - start) := by
    rw [List.drop_drop, Nat.add_sub_cancel' h]
  rw [hdrop]
  exact List.take_append_drop _ _

theorem NextAt.ne_eof {s : List Char} {start : Nat} {t : Token} (h : NextAt s start t) :
    t.kind ≠ .eof := by
  obtain ⟨c, rest, -, hread⟩ := h.read
  intro heof
  apply nextToken_ne_eof c rest
  rw [hread, heof]

theorem NextAt.tokensFrom_eq {s : List Char} {start : Nat} {t : Token} (h : NextAt s start t) :
    tokensFrom start (s.drop start) =
      (tokensFrom (t.span.stop + 1) (s.drop (t.span.stop + 1))).map (t :: ·) := by
  obtain ⟨hstart, hordered, hinside, hgap, hnoMore, c, rest, hdrop, hread⟩ := h
  have hlen : (s.extract start t.span.start).length = t.span.start - start := by
    rw [List.length_take, List.length_drop]
    omega
  have hrest : rest.drop (t.span.stop - t.span.start) = s.drop (t.span.stop + 1) := by
    have hbehind := congrArg (List.drop (t.span.stop - t.span.start + 1)) hdrop
    rw [List.drop_drop, List.drop_succ_cons] at hbehind
    rw [← hbehind]
    congr 1
    omega
  rw [hdrop, startsComment_cons] at hnoMore
  rw [← extract_append_drop s hstart, hgap.tokensFrom_append, hlen, Nat.add_sub_cancel' hstart,
    hdrop, tokensFrom_cons (fun hc hstar => hnoMore ⟨hc, hstar⟩) hread, hrest,
    Nat.add_sub_cancel' hordered]

theorem exists_nextAt {s gap rest : List Char} {c : Char} {start : Nat} (hgap : Comments gap)
    (hrest : ¬ StartsComment (c :: rest)) (hs : s.drop start = gap ++ c :: rest) :
    (∃ e, tokensFrom start (s.drop start) = .error e) ∨ ∃ t, NextAt s start t := by
  have hlen := congrArg List.length hs
  rw [List.length_drop, List.length_append, List.length_cons] at hlen
  have hdrop : s.drop (start + gap.length) = c :: rest := by
    rw [← List.drop_drop, hs, List.drop_left]
  have hpos := nextToken_pos c rest
  have hle := nextToken_le c rest
  rcases hnext : nextToken c rest with ⟨_ | kind, n⟩
  · left
    rw [hs, hgap.tokensFrom_append, tokensFrom_eq, commentsLength_of_not_startsComment hrest,
      List.drop_zero]
    dsimp only
    rw [hnext]
    exact ⟨_, rfl⟩
  · right
    rw [hnext] at hpos hle
    dsimp only at hpos hle
    refine ⟨⟨kind, ⟨start + gap.length, start + gap.length + (n - 1)⟩⟩, ?_⟩
    constructor
    · exact Nat.le_add_right _ _
    · exact Nat.le_add_right _ _
    · dsimp only
      omega
    · rw [List.extract, hs, Nat.add_sub_cancel_left, List.take_left]
      exact hgap
    · rwa [hdrop]
    · refine ⟨c, rest, hdrop, ?_⟩
      rw [hnext, Nat.add_sub_cancel_left, Nat.sub_add_cancel hpos]

theorem layout_of_tokensFrom {s : List Char} {start : Nat} {ts : List Token}
    (hstart : start ≤ s.length) (h : tokensFrom start (s.drop start) = .ok ts) :
    Layout s start ts := by
  rcases commentsToEnd_or_exists (s.drop start) with hend | ⟨gap, c, rest, hgap, hrest, hs⟩
  · rw [tokensFrom_of_commentsToEnd hend, List.length_drop, Nat.add_sub_cancel' hstart] at h
    cases h
    exact .last hend
  · rcases exists_nextAt hgap hrest hs with ⟨e, he⟩ | ⟨t, ht⟩
    · rw [he] at h
      cases h
    · rw [ht.tokensFrom_eq] at h
      obtain ⟨us, hus, rfl⟩ := exists_of_map_eq_ok h
      exact .next ht (layout_of_tokensFrom ht.inside hus)
termination_by s.length - start
decreasing_by
  have := ht.start_le
  have := ht.ordered
  have := ht.inside
  omega

theorem Layout.tokensFrom_eq {s : List Char} {start : Nat} {ts : List Token}
    (h : Layout s start ts) (hstart : start ≤ s.length) :
    tokensFrom start (s.drop start) = .ok ts := by
  induction h with
  | last hend =>
    rw [tokensFrom_of_commentsToEnd hend, List.length_drop, Nat.add_sub_cancel' hstart]
  | next ht _ ih =>
    rw [ht.tokensFrom_eq, ih ht.inside]
    rfl

theorem tokens_eq_ok_iff {s : List Char} {ts : List Token} : tokens s = .ok ts ↔ Layout s 0 ts :=
  ⟨layout_of_tokensFrom (Nat.zero_le _), fun h => h.tokensFrom_eq (Nat.zero_le _)⟩

/-! ## Tokens and gaps -/

/-- The place right behind the last of some tokens, or `start` where there are none. -/
def placeBehind (start : Nat) : List Token → Nat
  | [] => start
  | t :: ts => placeBehind (t.span.stop + 1) ts

theorem Layout.exists_inner {s : List Char} {start : Nat} {ts : List Token}
    (h : Layout s start ts) : ∃ inner, ts = inner ++ [⟨.eof, ⟨s.length, s.length⟩⟩] ∧
      (∀ before t after, inner = before ++ t :: after → NextAt s (placeBehind start before) t) ∧
      CommentsToEnd (s.drop (placeBehind start inner)) := by
  induction h with
  | last hend =>
    refine ⟨[], rfl, ?_, hend⟩
    intro before t after heq
    cases before <;> cases heq
  | @next start t ts ht _ ih =>
    obtain ⟨inner, rfl, hinner, hend⟩ := ih
    refine ⟨t :: inner, rfl, ?_, hend⟩
    intro before u after heq
    cases before with
    | nil =>
      cases heq
      exact ht
    | cons b before =>
      obtain ⟨rfl, htail⟩ := List.cons_eq_cons.mp heq
      exact hinner before u after htail

theorem Layout.exists_nextAt {s : List Char} {start : Nat} {ts : List Token}
    (h : Layout s start ts) {t : Token} (ht : t ∈ ts) (hkind : t.kind ≠ .eof) :
    ∃ place, NextAt s place t := by
  obtain ⟨inner, rfl, hinner, -⟩ := h.exists_inner
  rcases List.mem_append.mp ht with ht | ht
  · obtain ⟨before, after, heq⟩ := List.append_of_mem ht
    exact ⟨_, hinner before t after heq⟩
  · rw [List.mem_singleton.mp ht] at hkind
    exact absurd rfl hkind

/-- A text is its tokens, one behind the other and each of one code point at least, and the
comments before, between and behind them. All of these are closed but the last one behind all
tokens, which may run to the end. -/
theorem tokens_partition (s : List Char) :
    (∀ ts, tokens s = .ok ts → ∃ inner, ts = inner ++ [⟨.eof, ⟨s.length, s.length⟩⟩] ∧
      (∀ t ∈ inner, t.kind ≠ .eof ∧ t.span.start ≤ t.span.stop ∧ t.span.stop < s.length) ∧
      inner.Pairwise (fun a b => a.span.stop < b.span.start) ∧
      (∀ before t after, inner = before ++ t :: after → NextAt s (placeBehind 0 before) t) ∧
      CommentsToEnd (s.drop (placeBehind 0 inner))) ∧
    ∀ c rest, 0 < (nextToken c rest).2 ∧ (nextToken c rest).2 ≤ (c :: rest).length := by
  refine ⟨fun ts hts => ?_, fun c rest => ⟨nextToken_pos c rest, nextToken_le c rest⟩⟩
  obtain ⟨inner, rfl, hinner, hend⟩ := (tokens_eq_ok_iff.mp hts).exists_inner
  refine ⟨inner, rfl, ?_, ?_, hinner, hend⟩
  · intro t ht
    obtain ⟨before, after, heq⟩ := List.append_of_mem ht
    have hnext := hinner before t after heq
    exact ⟨hnext.ne_eof, hnext.ordered, hnext.inside⟩
  · exact (inOrder_tokensFrom hts).apart.sublist (List.sublist_append_left _ _)

/-- Where a url with a quote backs off, the blank behind it is a token of its own. The comment
behind all tokens has no end. -/
theorem tokens_partition_url :
    let s := "/**/url( ''/*".toList
    let inner : List Token :=
      [⟨.function "url", ⟨4, 7⟩⟩, ⟨.whitespace, ⟨8, 8⟩⟩, ⟨.string "", ⟨9, 10⟩⟩]
    tokens s = .ok (inner ++ [⟨.eof, ⟨13, 13⟩⟩]) ∧
      inner.Pairwise (fun a b => a.span.stop < b.span.start) ∧
      Comments (s.extract 0 4) ∧ Comments (s.extract 8 8) ∧ CommentsToEnd (s.drop 11) := by
  intro s inner
  have hread : (tokens s).toOption = some (inner ++ [⟨.eof, ⟨13, 13⟩⟩]) := by decide +kernel
  have hts := eq_ok_of_toOption hread
  obtain ⟨inner', heq, -, hapart, hgaps, hend⟩ := (tokens_partition s).1 _ hts
  obtain ⟨rfl, -⟩ := List.append_inj' heq rfl
  exact ⟨hts, hapart, (hgaps [] _ _ rfl).comments, (hgaps [_] _ _ rfl).comments, hend⟩

end CssMedia.Lexer
