import CssMedia.Lexer

/-!
# Comments

A comment is closed at the first `*/` behind its opening, and one without it runs to the end of
the text. The lexer passes over the longest run of comments, and over nothing else.
-/

namespace CssMedia.Lexer

/-- A comment that holds this text is not closed in it. -/
def Unclosed (body : List Char) : Prop := ¬ ['*', '/'] <:+: body

/-- Comments one after another, each of them closed. -/
inductive Comments : List Char → Prop
  | none : Comments []
  | more {body rest : List Char} (hbody : Unclosed body) (hrest : Comments rest) :
    Comments ('/' :: '*' :: (body ++ '*' :: '/' :: rest))

/-- Comments up to the end of a text, where the last one may never be closed. -/
inductive CommentsToEnd : List Char → Prop
  | closed {s : List Char} (h : Comments s) : CommentsToEnd s
  | unclosed {s body : List Char} (h : Comments s) (hbody : Unclosed body) :
    CommentsToEnd (s ++ '/' :: '*' :: body)

def StartsComment (s : List Char) : Prop := ['/', '*'] <+: s

instance (s : List Char) : Decidable (StartsComment s) :=
  inferInstanceAs (Decidable (['/', '*'] <+: s))

theorem unclosed_nil : Unclosed [] := by
  simp [Unclosed]

theorem unclosed_cons {c : Char} {body : List Char} :
    Unclosed (c :: body) ↔ ¬ (c = '*' ∧ body.head? = some '/') ∧ Unclosed body := by
  rw [Unclosed, List.infix_cons_iff, not_or, List.cons_prefix_cons,
    List.singleton_prefix_iff_head?_eq_some, eq_comm, Unclosed]

theorem startsComment_cons {c : Char} {rest : List Char} :
    StartsComment (c :: rest) ↔ c = '/' ∧ rest.head? = some '*' := by
  rw [StartsComment, List.cons_prefix_cons,
    List.singleton_prefix_iff_head?_eq_some, eq_comm]

/-! ## One comment -/

theorem commentLength_cons (c : Char) (rest : List Char) :
    commentLength (c :: rest) =
      if c = '*' ∧ rest.head? = some '/' then 2 else commentLength rest + 1 := by
  rw [commentLength.eq_def]
  split
  · next heq => cases heq; rfl
  · next hnot heq =>
    cases heq
    rw [if_neg]
    rintro ⟨rfl, hslash⟩
    obtain ⟨tail, rfl⟩ := List.head?_eq_some_iff.mp hslash
    exact hnot _ rfl rfl
  · next heq => cases heq

theorem commentLength_le (s : List Char) : commentLength s ≤ s.length := by
  fun_induction commentLength s with
  | case1 rest => simp
  | case2 c rest _ ih => exact Nat.succ_le_succ ih
  | case3 => exact Nat.le_refl 0

theorem commentLength_closed {body : List Char} (h : Unclosed body) (rest : List Char) :
    commentLength (body ++ '*' :: '/' :: rest) = body.length + 2 := by
  induction body with
  | nil => rfl
  | cons c body ih =>
    obtain ⟨hclose, hbody⟩ := unclosed_cons.mp h
    rw [List.cons_append, commentLength_cons, if_neg, ih hbody, List.length_cons]
    rintro ⟨hc, hslash⟩
    cases body with
    | nil => simp at hslash
    | cons d body => exact hclose ⟨hc, hslash⟩

theorem commentLength_unclosed {body : List Char} (h : Unclosed body) :
    commentLength body = body.length := by
  induction body with
  | nil => rfl
  | cons c body ih =>
    obtain ⟨hclose, hbody⟩ := unclosed_cons.mp h
    rw [commentLength_cons, if_neg hclose, ih hbody, List.length_cons]

theorem exists_close (s : List Char) :
    Unclosed s ∨ ∃ body rest, Unclosed body ∧ s = body ++ '*' :: '/' :: rest := by
  induction s with
  | nil => exact .inl unclosed_nil
  | cons c s ih =>
    by_cases hclose : c = '*' ∧ s.head? = some '/'
    · obtain ⟨rfl, hslash⟩ := hclose
      obtain ⟨rest, rfl⟩ := List.head?_eq_some_iff.mp hslash
      exact .inr ⟨[], rest, unclosed_nil, rfl⟩
    · rcases ih with hs | ⟨body, rest, hbody, rfl⟩
      · exact .inl (unclosed_cons.mpr ⟨hclose, hs⟩)
      · refine .inr ⟨c :: body, rest, unclosed_cons.mpr ⟨?_, hbody⟩, rfl⟩
        rintro ⟨hc, hslash⟩
        cases body with
        | nil => cases hslash
        | cons d body => exact hclose ⟨hc, hslash⟩

/-! ## Runs of comments -/

theorem commentsLength_of_not_startsComment {s : List Char} (h : ¬ StartsComment s) :
    commentsLength s = 0 := by
  rw [commentsLength]
  rintro rest rfl
  exact h (startsComment_cons.mpr ⟨rfl, rfl⟩)

theorem commentsLength_le (s : List Char) : commentsLength s ≤ s.length := by
  fun_induction commentsLength s with
  | case1 rest ih =>
    have := commentLength_le rest
    rw [List.length_drop] at ih
    simp only [List.length_cons]
    omega
  | case2 => exact Nat.zero_le _

theorem Comments.commentsLength_append {s : List Char} (h : Comments s) (rest : List Char) :
    commentsLength (s ++ rest) = s.length + commentsLength rest := by
  induction h with
  | none => simp
  | @more body tail hbody _ ih =>
    have hlen := commentLength_closed hbody (tail ++ rest)
    have hdrop : (body ++ '*' :: '/' :: (tail ++ rest)).drop (body.length + 2) = tail ++ rest := by
      rw [List.drop_length_add_append]
      rfl
    simp only [List.cons_append, List.append_assoc]
    rw [commentsLength, hlen, hdrop, ih]
    simp only [List.length_cons, List.length_append]
    omega

theorem CommentsToEnd.commentsLength_eq {s : List Char} (h : CommentsToEnd s) :
    commentsLength s = s.length := by
  cases h with
  | closed h =>
    have hrun := h.commentsLength_append []
    rw [List.append_nil] at hrun
    simpa [commentsLength] using hrun
  | @unclosed s body h hbody =>
    rw [h.commentsLength_append, commentsLength, commentLength_unclosed hbody, List.drop_length]
    simp [commentsLength]
    omega

/-! ## What a text starts with -/

theorem CommentsToEnd.more {body s : List Char} (hbody : Unclosed body) (h : CommentsToEnd s) :
    CommentsToEnd ('/' :: '*' :: (body ++ '*' :: '/' :: s)) := by
  cases h with
  | closed h => exact .closed (.more hbody h)
  | unclosed h hlast =>
    have hmore := CommentsToEnd.unclosed (.more hbody h) hlast
    simp only [List.cons_append, List.append_assoc] at hmore
    exact hmore

theorem commentsToEnd_or_exists (s : List Char) :
    CommentsToEnd s ∨ ∃ gap c rest, Comments gap ∧ ¬ StartsComment (c :: rest) ∧
      s = gap ++ c :: rest := by
  by_cases hstart : StartsComment s
  · obtain ⟨rest, rfl⟩ := hstart
    rcases exists_close rest with hrest | ⟨body, tail, hbody, rfl⟩
    · exact .inl (.unclosed .none hrest)
    · rcases commentsToEnd_or_exists tail with hend | ⟨gap, c, rest, hgap, hrest, rfl⟩
      · exact .inl (hend.more hbody)
      · exact .inr ⟨_, c, rest, .more hbody hgap, hrest, by simp⟩
  · cases s with
    | nil => exact .inl (.closed .none)
    | cons c rest => exact .inr ⟨[], c, rest, .none, hstart, rfl⟩
termination_by s.length
decreasing_by
  subst_vars
  simp only [List.length_append, List.length_cons]
  omega

end CssMedia.Lexer
