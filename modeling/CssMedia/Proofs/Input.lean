import CssMedia.Input
import CssMedia.Proofs.CodePoint

/-!
# Cleaned text

Cleaning leaves nothing to clean, and both readers give the same of one text. Each works piece by
piece: only a line break can lie across two texts, and only a surrogate pair across two runs of units.
-/

namespace CssMedia.Input

open CodePoint

/-! ## Cleaning -/

/-- Nothing in the text is left to clean. -/
def IsClean (s : List Char) : Prop := ∀ c ∈ s, c ≠ '\r' ∧ c ≠ '\x0c' ∧ c ≠ '\x00'

theorem clean_cons (c : Char) (rest : List Char) :
    clean (c :: rest) =
      if c = '\r' then '\n' :: clean (if rest.head? = some '\n' then rest.tail else rest)
      else if c = '\x0c' then '\n' :: clean rest
      else if c = '\x00' then replacement :: clean rest
      else c :: clean rest := by
  by_cases hreturn : c = '\r'
  · subst hreturn
    rcases rest with _ | ⟨d, rest⟩
    · rfl
    · by_cases hd : d = '\n'
      · subst hd
        rfl
      · simp [clean, hd]
  by_cases hfeed : c = '\x0c'
  · subst hfeed
    rfl
  by_cases hnull : c = '\x00'
  · subst hnull
    rfl
  · simp [clean, hreturn, hfeed, hnull]

theorem isClean_clean (s : List Char) : IsClean (clean s) := by
  fun_induction clean s with
  | case1 rest ih | case2 rest _ ih | case3 rest ih | case4 rest ih =>
    exact List.forall_mem_cons.mpr ⟨by decide, ih⟩
  | case5 c rest _ hreturn hfeed hnull ih =>
    exact List.forall_mem_cons.mpr ⟨⟨hreturn, hfeed, hnull⟩, ih⟩
  | case6 => exact List.forall_mem_nil _

theorem IsClean.clean_eq {s : List Char} (h : IsClean s) : clean s = s := by
  induction s with
  | nil => rfl
  | cons c s ih =>
    obtain ⟨⟨hreturn, hfeed, hnull⟩, hs⟩ := List.forall_mem_cons.mp h
    rw [clean_cons, if_neg hreturn, if_neg hfeed, if_neg hnull, ih hs]

theorem clean_clean (s : List Char) : clean (clean s) = clean s := (isClean_clean s).clean_eq

/-! ## Line breaks across two texts -/

/-- The first text ends in a carriage return, and the other starts with its line feed. -/
def SplitsLineBreak (s rest : List Char) : Prop := s.getLast? = some '\r' ∧ rest.head? = some '\n'

instance (s rest : List Char) : Decidable (SplitsLineBreak s rest) :=
  inferInstanceAs (Decidable (_ ∧ _))

theorem SplitsLineBreak.cons {s rest : List Char} (h : SplitsLineBreak s rest) (c : Char) :
    SplitsLineBreak (c :: s) rest :=
  ⟨by rw [List.getLast?_cons, h.1]; rfl, h.2⟩

theorem clean_append {s rest : List Char} (h : ¬ SplitsLineBreak s rest) :
    clean (s ++ rest) = clean s ++ clean rest := by
  fun_induction clean s with
  | case1 s ih => exact congrArg _ (ih fun hs => h ((hs.cons _).cons _))
  | case2 s hreturn ih =>
    have hhead : (s ++ rest).head? ≠ some '\n' := by
      cases s with
      | nil => exact fun hrest => h ⟨rfl, hrest⟩
      | cons d s => exact fun hd => hreturn s (by rw [Option.some.inj hd])
    rw [List.cons_append, clean_cons, if_pos rfl, if_neg hhead, ih fun hs => h (hs.cons _),
      List.cons_append]
  | case3 s ih | case4 s ih => exact congrArg _ (ih fun hs => h (hs.cons _))
  | case5 c s _ hreturn hfeed hnull ih =>
    rw [List.cons_append, clean_cons, if_neg hreturn, if_neg hfeed, if_neg hnull,
      ih fun hs => h (hs.cons _), List.cons_append]
  | case6 => rfl

theorem SplitsLineBreak.exists_clean {s rest : List Char} (h : SplitsLineBreak s rest) :
    ∃ before after, clean s = before ++ ['\n'] ∧ clean rest = '\n' :: after ∧
      clean (s ++ rest) = before ++ '\n' :: after := by
  obtain ⟨s, rfl⟩ := List.getLast?_eq_some_iff.mp h.1
  obtain ⟨rest, rfl⟩ := List.head?_eq_some_iff.mp h.2
  have hreturn : ∀ t, ¬ SplitsLineBreak s ('\r' :: t) := fun t ht => absurd ht.2 (by simp)
  refine ⟨clean s, clean rest, clean_append (hreturn []), rfl, ?_⟩
  rw [List.append_assoc]
  exact clean_append (hreturn _)

/-! ## UTF-16 -/

/-- A scalar value past the first `0x10000` has two units. -/
def utf16Units (c : Char) : List UInt16 :=
  if c.toNat < 0x10000 then [UInt16.ofNat c.toNat]
  else
    [UInt16.ofNat (0xD800 + (c.toNat - 0x10000) / 0x400),
      UInt16.ofNat (0xDC00 + (c.toNat - 0x10000) % 0x400)]

def encodeUtf16 (text : String) : List UInt16 := text.toList.flatMap utf16Units

/-- The surrogate `u` has no partner in the units around it. -/
def IsLone (before : List UInt16) (u : UInt16) (after : List UInt16) : Prop :=
  isHighSurrogate u ∧ ¬ after.head?.any isLowSurrogate ∨
    isLowSurrogate u ∧ ¬ before.getLast?.any isHighSurrogate

instance (before : List UInt16) (u : UInt16) (after : List UInt16) :
    Decidable (IsLone before u after) :=
  inferInstanceAs (Decidable (_ ∨ _))

theorem isHighSurrogate_iff {u : UInt16} :
    isHighSurrogate u ↔ 0xD800 ≤ u.toNat ∧ u.toNat < 0xDC00 := by
  simp [isHighSurrogate, UInt16.le_iff_toNat_le, UInt16.lt_iff_toNat_lt]

theorem isLowSurrogate_iff {u : UInt16} :
    isLowSurrogate u ↔ 0xDC00 ≤ u.toNat ∧ u.toNat < 0xE000 := by
  simp [isLowSurrogate, UInt16.le_iff_toNat_le, UInt16.lt_iff_toNat_lt]

/-! ### Single units -/

theorem decodeUtf16_cons {u : UInt16} {rest : List UInt16}
    (h : ¬ (isHighSurrogate u ∧ rest.head?.any isLowSurrogate)) :
    decodeUtf16 (u :: rest) = scalar u.toNat :: decodeUtf16 rest := by
  cases rest with
  | nil => rfl
  | cons v rest => rw [decodeUtf16, if_neg (by simpa using h)]

theorem decodeUtf16_pair {u v : UInt16} (hu : isHighSurrogate u) (hv : isLowSurrogate v)
    (rest : List UInt16) : decodeUtf16 (u :: v :: rest) = surrogatePair u v :: decodeUtf16 rest := by
  rw [decodeUtf16, if_pos (by simp [hu, hv])]

/-- The first units end in the first half of a pair, and the others start with its second half. -/
def SplitsPair (us rest : List UInt16) : Prop :=
  us.getLast?.any isHighSurrogate ∧ rest.head?.any isLowSurrogate

theorem SplitsPair.cons {us rest : List UInt16} (h : SplitsPair us rest) (u : UInt16) :
    SplitsPair (u :: us) rest := by
  obtain ⟨v, hv, hhigh⟩ := (Option.any_eq_true _ _).mp h.1
  exact ⟨by rw [List.getLast?_cons, hv]; exact hhigh, h.2⟩

theorem decodeUtf16_append {us rest : List UInt16} (h : ¬ SplitsPair us rest) :
    decodeUtf16 (us ++ rest) = decodeUtf16 us ++ decodeUtf16 rest := by
  fun_induction decodeUtf16 us with
  | case1 u v us hpair ih =>
    rw [Bool.and_eq_true] at hpair
    rw [List.cons_append, List.cons_append, decodeUtf16_pair hpair.1 hpair.2,
      ih fun hs => h ((hs.cons _).cons _), List.cons_append]
  | case2 u v us hpair ih =>
    have hsingle : ¬ (isHighSurrogate u ∧ (v :: us ++ rest).head?.any isLowSurrogate) := by
      simpa using hpair
    rw [List.cons_append, decodeUtf16_cons hsingle, ih fun hs => h (hs.cons _), List.cons_append]
  | case3 u =>
    have hsingle : ¬ (isHighSurrogate u ∧ rest.head?.any isLowSurrogate) := h
    exact decodeUtf16_cons hsingle
  | case4 => rfl

/-! ### Surrogates by themselves -/

theorem IsLone.surrogate {before after : List UInt16} {u : UInt16} (h : IsLone before u after) :
    0xD800 ≤ u.toNat ∧ u.toNat < 0xE000 := by
  rcases h with ⟨hu, -⟩ | ⟨hu, -⟩
  · rw [isHighSurrogate_iff] at hu
    omega
  · rw [isLowSurrogate_iff] at hu
    omega

theorem not_isHighSurrogate_of_low {u : UInt16} (h : isLowSurrogate u) : ¬ isHighSurrogate u := by
  rw [isLowSurrogate_iff] at h
  rw [isHighSurrogate_iff]
  omega

theorem IsLone.decodeUtf16_eq {before after : List UInt16} {u : UInt16} (h : IsLone before u after) :
    decodeUtf16 (before ++ u :: after) =
      decodeUtf16 before ++ replacement :: decodeUtf16 after := by
  have hbefore : ¬ SplitsPair before (u :: after) := by
    rintro ⟨hlast, hu⟩
    rcases h with ⟨hhigh, -⟩ | ⟨-, hnot⟩
    · exact not_isHighSurrogate_of_low hu hhigh
    · exact hnot hlast
  have hafter : ¬ (isHighSurrogate u ∧ after.head?.any isLowSurrogate) := by
    rintro ⟨hhigh, hhead⟩
    rcases h with ⟨-, hnot⟩ | ⟨hlow, -⟩
    · exact hnot hhead
    · exact not_isHighSurrogate_of_low hlow hhigh
  rw [decodeUtf16_append hbefore, decodeUtf16_cons hafter,
    scalar_surrogate h.surrogate.1 h.surrogate.2]

theorem clean_replacement (s rest : List Char) :
    clean (s ++ replacement :: rest) = clean s ++ replacement :: clean rest := by
  have hs : ¬ SplitsLineBreak s (replacement :: rest) := fun h => absurd (Option.some.inj h.2) (by decide)
  rw [clean_append hs]
  rfl

/-! ### Encoded texts -/

theorem decodeUtf16_units (c : Char) (rest : List UInt16) :
    decodeUtf16 (utf16Units c ++ rest) = c :: decodeUtf16 rest := by
  have hvalid : c.toNat < 0xD800 ∨ 0xDFFF < c.toNat ∧ c.toNat < 0x110000 := c.valid
  unfold utf16Units
  split
  · have hunit : (UInt16.ofNat c.toNat).toNat = c.toNat := UInt16.toNat_ofNat_of_lt (by omega)
    have hsingle : ¬ (isHighSurrogate (.ofNat c.toNat) ∧ rest.head?.any isLowSurrogate) := by
      rw [isHighSurrogate_iff, hunit]
      omega
    rw [List.singleton_append, decodeUtf16_cons hsingle, hunit, scalar_toNat]
  · generalize hhigh : 0xD800 + (c.toNat - 0x10000) / 0x400 = high
    generalize hlow : 0xDC00 + (c.toNat - 0x10000) % 0x400 = low
    have hsize : UInt16.size = 0x10000 := rfl
    have hu : (UInt16.ofNat high).toNat = high := UInt16.toNat_ofNat_of_lt (by omega)
    have hv : (UInt16.ofNat low).toNat = low := UInt16.toNat_ofNat_of_lt (by omega)
    have hvalue : 0x10000 + (high - 0xD800) * 0x400 + (low - 0xDC00) = c.toNat := by omega
    rw [List.cons_append, List.singleton_append,
      decodeUtf16_pair (isHighSurrogate_iff.mpr (by omega)) (isLowSurrogate_iff.mpr (by omega)),
      surrogatePair, hu, hv, hvalue, scalar_toNat]

theorem decodeUtf16_encodeUtf16 (text : String) : decodeUtf16 (encodeUtf16 text) = text.toList := by
  unfold encodeUtf16
  induction text.toList with
  | nil => rfl
  | cons c s ih => rw [List.flatMap_cons, decodeUtf16_units, ih]

theorem utf16Units_scalar {u : UInt16} (h : ¬ (0xD800 ≤ u.toNat ∧ u.toNat < 0xE000)) :
    utf16Units (scalar u.toNat) = [u] := by
  have hlt : u.toNat < 0x10000 := u.toNat_lt
  have hvalid : u.toNat.isValidChar := by
    unfold Nat.isValidChar
    omega
  rw [utf16Units, toNat_scalar hvalid, if_pos hlt, UInt16.ofNat_toNat]

theorem utf16Units_pair {u v : UInt16} (hu : isHighSurrogate u) (hv : isLowSurrogate v) :
    utf16Units (surrogatePair u v) = [u, v] := by
  rw [isHighSurrogate_iff] at hu
  rw [isLowSurrogate_iff] at hv
  have hvalid : (0x10000 + (u.toNat - 0xD800) * 0x400 + (v.toNat - 0xDC00)).isValidChar := by
    unfold Nat.isValidChar
    omega
  have hhigh : 0xD800 + (0x10000 + (u.toNat - 0xD800) * 0x400 + (v.toNat - 0xDC00) - 0x10000) / 0x400 =
      u.toNat := by omega
  have hlow : 0xDC00 + (0x10000 + (u.toNat - 0xD800) * 0x400 + (v.toNat - 0xDC00) - 0x10000) % 0x400 =
      v.toNat := by omega
  rw [utf16Units, surrogatePair, toNat_scalar hvalid, if_neg (by omega), hhigh, hlow,
    UInt16.ofNat_toNat, UInt16.ofNat_toNat]

/-- No surrogate is without its partner. -/
def AllPaired (units : List UInt16) : Prop :=
  ∀ before u after, units = before ++ u :: after → ¬ IsLone before u after

theorem IsLone.behind {front before after : List UInt16} {u : UInt16} (h : IsLone before u after)
    (hfront : ¬ front.getLast?.any isHighSurrogate) : IsLone (front ++ before) u after := by
  refine h.imp id fun ⟨hlow, hbefore⟩ => ⟨hlow, ?_⟩
  rw [List.getLast?_append]
  cases hlast : before.getLast? with
  | none => exact hfront
  | some v => rwa [hlast] at hbefore

theorem AllPaired.rest {units : List UInt16} (front : List UInt16) (h : AllPaired (front ++ units))
    (hfront : ¬ front.getLast?.any isHighSurrogate) : AllPaired units := by
  intro before u after hunits hlone
  exact h (front ++ before) u after (by rw [hunits, List.append_assoc]) (hlone.behind hfront)

theorem AllPaired.not_surrogate {u : UInt16} {units : List UInt16} (h : AllPaired (u :: units))
    (hpair : ¬ (isHighSurrogate u ∧ units.head?.any isLowSurrogate)) :
    ¬ (0xD800 ≤ u.toNat ∧ u.toNat < 0xE000) := by
  intro hu
  apply h [] u units rfl
  by_cases hhigh : isHighSurrogate u
  · exact .inl ⟨hhigh, fun hlow => hpair ⟨hhigh, hlow⟩⟩
  · rw [isHighSurrogate_iff] at hhigh
    exact .inr ⟨isLowSurrogate_iff.mpr (by omega), by simp⟩

theorem AllPaired.exists_chars {units : List UInt16} (h : AllPaired units) :
    ∃ s : List Char, units = s.flatMap utf16Units := by
  -- A unit that is no part of a pair is no surrogate and stands for itself.
  have hsingle : ∀ {u : UInt16} {us : List UInt16} {s : List Char}, AllPaired (u :: us) →
      ¬ (isHighSurrogate u ∧ us.head?.any isLowSurrogate) → us = s.flatMap utf16Units →
      u :: us = (scalar u.toNat :: s).flatMap utf16Units := by
    intro u us s hpaired hpair hus
    rw [List.flatMap_cons, utf16Units_scalar (hpaired.not_surrogate hpair), hus]
    rfl
  fun_induction decodeUtf16 units with
  | case1 u v us hpair ih =>
    rw [Bool.and_eq_true] at hpair
    obtain ⟨s, rfl⟩ := ih (h.rest [u, v] (not_isHighSurrogate_of_low hpair.2))
    exact ⟨surrogatePair u v :: s, by rw [List.flatMap_cons, utf16Units_pair hpair.1 hpair.2]; rfl⟩
  | case2 u v us hpair ih =>
    have hpair : ¬ (isHighSurrogate u ∧ (v :: us).head?.any isLowSurrogate) := by simpa using hpair
    have hu : ¬ isHighSurrogate u := by
      have := h.not_surrogate hpair
      rw [isHighSurrogate_iff]
      omega
    obtain ⟨s, hs⟩ := ih (h.rest [u] hu)
    exact ⟨_, hsingle h hpair hs⟩
  | case3 u => exact ⟨[scalar u.toNat], hsingle (s := []) h (by simp) rfl⟩
  | case4 => exact ⟨[], rfl⟩

theorem AllPaired.exists_encodeUtf16 {units : List UInt16} (h : AllPaired units) :
    ∃ text, units = encodeUtf16 text := by
  obtain ⟨s, hs⟩ := h.exists_chars
  exact ⟨String.ofList s, by rw [encodeUtf16, String.toList_ofList, hs]⟩

/-! ## Both readers -/

theorem readUtf16_encodeUtf16 (text : String) : readUtf16 (encodeUtf16 text) = read text := by
  rw [readUtf16, decodeUtf16_encodeUtf16, read]

theorem IsLone.readUtf16_eq {before after : List UInt16} {u : UInt16} (h : IsLone before u after) :
    readUtf16 (before ++ u :: after) = readUtf16 before ++ replacement :: readUtf16 after := by
  rw [readUtf16, h.decodeUtf16_eq, clean_replacement, readUtf16, readUtf16]

/-- The units of a text are read as that text is, and all other units have a lone surrogate, each of
which is one replacement between what is read on either side of it. What is read are scalar values
without a carriage return, a form feed or a null, and it is read again as it is. Two texts are read
together as each by itself, but for a line break that lies across both: that is one line feed then. -/
theorem readers_agree_and_settle :
    (∀ text : String, readUtf16 (encodeUtf16 text) = read text) ∧
    (∀ units : List UInt16, AllPaired units → ∃ text, units = encodeUtf16 text) ∧
    (∀ before u after, IsLone before u after →
      readUtf16 (before ++ u :: after) = readUtf16 before ++ replacement :: readUtf16 after) ∧
    (∀ units : List UInt16, (∀ c ∈ readUtf16 units, c.toNat.isValidChar) ∧ IsClean (readUtf16 units)) ∧
    (∀ text : String, IsClean (read text) ∧ (IsClean text.toList → read text = text.toList) ∧
      read (String.ofList (read text)) = read text) ∧
    ∀ a b : String,
      (¬ SplitsLineBreak a.toList b.toList → read (a ++ b) = read a ++ read b) ∧
      (SplitsLineBreak a.toList b.toList → ∃ before after, read a = before ++ ['\n'] ∧
        read b = '\n' :: after ∧ read (a ++ b) = before ++ '\n' :: after) := by
  refine ⟨readUtf16_encodeUtf16, fun _ h => h.exists_encodeUtf16, fun _ _ _ h => h.readUtf16_eq,
    fun units => ⟨fun c _ => c.valid, isClean_clean _⟩,
    fun text => ⟨isClean_clean _, IsClean.clean_eq, ?_⟩, fun a b => ?_⟩
  · rw [read, String.toList_ofList]
    exact clean_clean _
  · simp only [read, String.toList_append]
    exact ⟨clean_append, SplitsLineBreak.exists_clean⟩

/-- The first half of a pair without the second is replaced, the pair of U+1F600 is that scalar value, and
the line break of two texts is one. -/
theorem readers_agree_and_settle_halves :
    (IsLone [0x61] 0xD83D [0x62] ∧ readUtf16 [0x61, 0xD83D, 0x62] = ['a', replacement, 'b']) ∧
    (AllPaired [0xD83D, 0xDE00] ∧ ∃ text, [0xD83D, 0xDE00] = encodeUtf16 text) ∧
    (SplitsLineBreak "a\r".toList "\nb".toList ∧ ∃ before after, read "a\r" = before ++ ['\n'] ∧
      read "\nb" = '\n' :: after ∧ read ("a\r" ++ "\nb") = before ++ '\n' :: after) ∧
    ¬ SplitsLineBreak "a\r".toList "\rb".toList ∧ read ("a\r" ++ "\rb") = ['a', '\n', '\n', 'b'] := by
  obtain ⟨-, hpaired, hlone, -, -, hjoin⟩ := readers_agree_and_settle
  have hpair : AllPaired [0xD83D, 0xDE00] := by
    intro before u after hunits
    rcases before with _ | ⟨_, _ | ⟨_, _ | ⟨_, _⟩⟩⟩ <;> cases hunits <;> decide
  have h₁ : IsLone [0x61] 0xD83D [0x62] := by decide
  have h₂ : SplitsLineBreak "a\r".toList "\nb".toList := by decide
  have h₃ : ¬ SplitsLineBreak "a\r".toList "\rb".toList := by decide
  exact ⟨⟨h₁, hlone _ _ _ h₁⟩, ⟨hpair, hpaired _ hpair⟩, ⟨h₂, (hjoin _ _).2 h₂⟩, h₃, (hjoin _ _).1 h₃⟩

end CssMedia.Input
