import CssMedia.Proofs.Runs
import CssMedia.Report

/-!
# Plain reports

The plain report of some errors tells them all apart. A line ends where its numbers do, its blanks
tell how deep the link is, and only an empty line starts another error.
-/

namespace CssMedia

/-! ## Kinds and spans -/

namespace ErrorKind

theorem ofCode?_code (kind : ErrorKind) : ofCode? kind.code = some kind := by
  cases kind <;> decide

theorem code_injective {kind other : ErrorKind} (h : kind.code = other.code) : kind = other := by
  have hkind := ofCode?_code kind
  rw [h, ofCode?_code] at hkind
  exact (Option.some.inj hkind).symm

theorem code_spec (kind : ErrorKind) :
    (∀ c ∈ kind.code.toList, c != ':') ∧ ∃ c rest, kind.code.toList = c :: rest ∧ c ≠ ' ' := by
  have hcolon : kind.code.toList.all (· != ':') := by cases kind <;> rfl
  refine ⟨List.all_eq_true.mp hcolon, ?_⟩
  cases kind <;> exact ⟨_, _, rfl, by decide⟩

end ErrorKind

namespace Span

theorem toList_text (s : Span) :
    s.text.toList = Nat.toDigits 10 s.start ++ "..".toList ++ Nat.toDigits 10 s.stop := by
  have hdigits : ∀ n : Nat, (toString n).toList = Nat.toDigits 10 n := fun n => Nat.toList_repr
  show (toString s.start ++ ".." ++ toString s.stop).toList = _
  rw [String.toList_append, String.toList_append, hdigits, hdigits]

theorem text_inj {s t : Span} {rest after : List Char}
    (hrest : rest.head?.any Char.isDigit = false) (hafter : after.head?.any Char.isDigit = false)
    (h : s.text.toList ++ rest = t.text.toList ++ after) : s = t ∧ rest = after := by
  rw [toList_text, toList_text] at h
  simp only [List.append_assoc] at h
  obtain ⟨hstart, h⟩ := digits_inj rfl rfl h
  obtain ⟨hstop, h⟩ := digits_inj hrest hafter (List.append_cancel_left h)
  exact ⟨congrArg₂ mk hstart hstop, h⟩

end Span

/-! ## Lines -/

namespace Report

/-- The characters of a line behind its blanks. -/
def linkChars (l : ErrorLink) : List Char :=
  l.kind.code.toList ++ (": ".toList ++ (l.kind.message.toList ++ (" at ".toList ++
    (l.span.text.toList ++ ['\n']))))

theorem toList_linkLine (depth : Nat) (l : ErrorLink) :
    (linkLine depth l).toList = List.replicate (2 * depth) ' ' ++ linkChars l := by
  have htext : l.text.toList = l.kind.message.toList ++ (" at ".toList ++ l.span.text.toList) := by
    show (l.kind.message ++ " at " ++ l.span.text).toList = _
    rw [String.toList_append, String.toList_append, List.append_assoc]
  simp only [linkLine, linkChars, String.toList_append, toList_pushn, htext, List.append_assoc]
  rfl

theorem linkChars_ne_blank (l : ErrorLink) (rest : List Char) :
    (linkChars l ++ rest).head?.any (· == ' ') = false := by
  obtain ⟨-, c, more, hcode, hc⟩ := l.kind.code_spec
  simp [linkChars, hcode, hc]

theorem linkChars_inj {l m : ErrorLink} {rest after : List Char}
    (h : linkChars l ++ rest = linkChars m ++ after) : l = m ∧ rest = after := by
  unfold linkChars at h
  simp only [List.append_assoc] at h
  obtain ⟨hcode, h⟩ := append_stop_inj (· != ':') l.kind.code_spec.1 m.kind.code_spec.1 rfl rfl h
  have hkind := ErrorKind.code_injective (String.toList_inj.mp hcode)
  rw [hkind] at h
  have hplace := List.append_cancel_left (List.append_cancel_left (List.append_cancel_left h))
  obtain ⟨hspan, hend⟩ := Span.text_inj rfl rfl hplace
  exact ⟨congrArg₂ ErrorLink.mk hkind hspan, List.append_cancel_left hend⟩

theorem linkLine_inj {depth other : Nat} {l m : ErrorLink} {rest after : List Char}
    (h : (linkLine depth l).toList ++ rest = (linkLine other m).toList ++ after) :
    depth = other ∧ l = m ∧ rest = after := by
  simp only [toList_linkLine, List.append_assoc] at h
  have hblanks : ∀ n, ∀ c ∈ List.replicate n ' ', c == ' ' :=
    fun n c hc => beq_iff_eq.mpr (List.eq_of_mem_replicate hc)
  obtain ⟨hdepth, h⟩ := append_stop_inj (· == ' ') (hblanks _) (hblanks _)
    (linkChars_ne_blank l rest) (linkChars_ne_blank m after) h
  have hlength := congrArg List.length hdepth
  rw [List.length_replicate, List.length_replicate] at hlength
  exact ⟨by omega, linkChars_inj h⟩

/-! ## Chains -/

theorem head_linkLine {depth : Nat} (hdepth : 0 < depth) (l : ErrorLink) (rest : List Char) :
    ((linkLine depth l).toList ++ rest).head? = some ' ' := by
  obtain ⟨n, rfl⟩ := Nat.exists_eq_add_of_lt hdepth
  rw [toList_linkLine, Nat.zero_add, Nat.mul_succ]
  rfl

/-- The links under the outermost are indented, and what is behind a chain is not. -/
theorem chainText_inj {depth : Nat} (hdepth : 0 < depth) {ls ms : List ErrorLink}
    {rest after : List Char} (hrest : rest.head? ≠ some ' ') (hafter : after.head? ≠ some ' ')
    (h : (chainText depth ls).toList ++ rest = (chainText depth ms).toList ++ after) :
    ls = ms ∧ rest = after := by
  induction ls generalizing depth ms with
  | nil =>
    cases ms with
    | nil => exact ⟨rfl, h⟩
    | cons m ms =>
      rw [chainText, chainText, String.toList_append, List.append_assoc] at h
      exact absurd ((congrArg List.head? h).trans (head_linkLine hdepth m _)) hrest
  | cons l ls ih =>
    cases ms with
    | nil =>
      rw [chainText, chainText, String.toList_append, List.append_assoc] at h
      exact absurd ((congrArg List.head? h.symm).trans (head_linkLine hdepth l _)) hafter
    | cons m ms =>
      simp only [chainText, String.toList_append, List.append_assoc] at h
      obtain ⟨-, hlink, hunder⟩ := linkLine_inj h
      obtain ⟨hlinks, hend⟩ := ih (Nat.succ_pos depth) hunder
      exact ⟨congrArg₂ List.cons hlink hlinks, hend⟩

theorem errorText_inj {e f : ParseError} {rest after : List Char} (hrest : rest.head? ≠ some ' ')
    (hafter : after.head? ≠ some ' ')
    (h : (chainText 0 e.chain).toList ++ rest = (chainText 0 f.chain).toList ++ after) :
    e = f ∧ rest = after := by
  simp only [ParseError.chain, chainText, String.toList_append, List.append_assoc] at h
  obtain ⟨-, houter, hunder⟩ := linkLine_inj h
  obtain ⟨hcauses, hend⟩ := chainText_inj Nat.one_pos hrest hafter hunder
  exact ⟨congrArg₂ ParseError.mk houter hcauses, hend⟩

/-! ## Reports -/

/-- The errors behind the first of a report, each with an empty line before it. -/
def furtherChars (errors : List ParseError) : List Char :=
  errors.flatMap fun e => '\n' :: (chainText 0 e.chain).toList

theorem toList_plain (e : ParseError) (errors : List ParseError) :
    (plain (e :: errors)).toList = (chainText 0 e.chain).toList ++ furtherChars errors := by
  unfold plain
  induction errors generalizing e with
  | nil =>
    rw [List.map_singleton, String.intercalate_singleton, furtherChars, List.flatMap_nil,
      List.append_nil]
  | cons next errors ih =>
    have hnext := ih next
    rw [List.map_cons] at hnext
    rw [List.map_cons, List.map_cons, String.intercalate_cons_cons, String.toList_append,
      String.toList_append, hnext, List.append_assoc]
    rfl

theorem head_furtherChars (errors : List ParseError) : (furtherChars errors).head? ≠ some ' ' := by
  cases errors with
  | nil => exact nofun
  | cons e errors => exact fun h => absurd (Option.some.inj h) (by decide)

theorem furtherChars_inj {errors others : List ParseError}
    (h : furtherChars errors = furtherChars others) : errors = others := by
  induction errors generalizing others with
  | nil =>
    cases others with
    | nil => rfl
    | cons f others => cases h
  | cons e errors ih =>
    cases others with
    | nil => cases h
    | cons f others =>
      obtain ⟨rfl, hrest⟩ := errorText_inj (head_furtherChars errors) (head_furtherChars others)
        (List.cons.inj h).2
      rw [ih hrest]

/-- Two reports are the same only of the same errors: as many, with as many links each, and every link
of the same kind at the same place. -/
theorem plain_eq_iff (errors others : List ParseError) :
    plain errors = plain others ↔ errors = others := by
  refine ⟨fun h => ?_, congrArg plain⟩
  have hnonempty : ∀ e errors, (plain (e :: errors)).toList ≠ [] := by
    intro e errors
    rw [toList_plain, ParseError.chain, chainText, String.toList_append, toList_linkLine]
    simp [linkChars]
  have hchars := congrArg String.toList h
  cases errors with
  | nil =>
    cases others with
    | nil => rfl
    | cons f others => exact absurd hchars.symm (hnonempty f others)
  | cons e errors =>
    cases others with
    | nil => exact absurd hchars (hnonempty e errors)
    | cons f others =>
      rw [toList_plain, toList_plain] at hchars
      obtain ⟨hfirst, hfurther⟩ :=
        errorText_inj (head_furtherChars errors) (head_furtherChars others) hchars
      exact congrArg₂ List.cons hfirst (furtherChars_inj hfurther)

end Report

end CssMedia
