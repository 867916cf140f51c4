import CssMedia.Proofs.Lexer.FirstToken
import CssMedia.Proofs.Lexer.Number

/-!
# Texts that are cut off

A scanner reads the same where a text is cut off right behind what it takes. Only a name can tell the
end from what stood there: a backslash at the end is an escape, and one before a line break is none.
-/

namespace CssMedia

theorem takeWhile_take {α : Type} {p : α → Bool} {s : List α} {k : Nat}
    (h : (s.takeWhile p).length ≤ k) : (s.take k).takeWhile p = s.takeWhile p := by
  rw [← List.take_takeWhile, List.take_of_length_le h]

theorem head?_take_any {α : Type} {p : α → Bool} {s : List α} {k : Nat}
    (hk : s.head?.any p → k ≠ 0) : (s.take k).head?.any p = s.head?.any p := by
  by_cases hzero : k = 0
  · have hnone : ¬ s.head?.any p := fun h => hk h hzero
    rw [hzero, List.take_zero, Bool.eq_false_iff.mpr hnone]
    rfl
  · rw [List.head?_take, if_neg hzero]

theorem head?_take_ne {α : Type} {a : α} {s : List α} {k : Nat} (h : s.head? ≠ some a) :
    (s.take k).head? ≠ some a := by
  rw [List.head?_take]
  split
  · nofun
  · exact h

namespace Lexer

open CodePoint

/-! ## Escapes and names -/

theorem scanEscape_pos (c : Char) (rest : List Char) : 0 < (scanEscape (c :: rest)).2 := by
  rw [scanEscape]
  split
  · next hc =>
    have hrun : hexRun (c :: rest) ≠ [] := by
      unfold hexRun
      rw [List.take_succ_cons, List.takeWhile_cons_of_pos hc]
      exact List.cons_ne_nil _ _
    exact Nat.add_pos_left (List.length_pos_iff.mpr hrun) _
  · exact Nat.one_pos

theorem hexRun_take {s : List Char} {k : Nat} (h : (hexRun s).length ≤ k) :
    hexRun (s.take k) = hexRun s := by
  unfold hexRun at h ⊢
  rw [List.take_take, Nat.min_comm, ← List.take_take, takeWhile_take h]

theorem scanEscape_take {s : List Char} {k : Nat} (h : (scanEscape s).2 ≤ k) :
    scanEscape (s.take k) = scanEscape s := by
  cases s with
  | nil => rw [List.take_nil]
  | cons c rest =>
    obtain ⟨m, rfl⟩ := Nat.exists_eq_add_one.mpr (Nat.lt_of_lt_of_le (scanEscape_pos c rest) h)
    rw [List.take_succ_cons]
    by_cases hc : isHexDigit c
    · rw [scanEscape, if_pos hc] at h
      rw [scanEscape, if_pos hc, scanEscape, if_pos hc]
      dsimp only at h ⊢
      rw [← List.take_succ_cons, hexRun_take (Nat.le_trans (Nat.le_add_right _ _) h), List.drop_take,
        head?_take_any]
      intro hblank
      rw [if_pos hblank] at h
      omega
    · rw [scanEscape, if_neg hc, scanEscape, if_neg hc]

theorem head?_of_startsEscape {s : List Char} (h : startsEscape s) : s.head? = some '\\' := by
  unfold startsEscape at h
  split at h
  · rfl
  · cases h

theorem startsEscape_take {s : List Char} (h : startsEscape s) {k : Nat} (hk : k ≠ 0) :
    startsEscape (s.take k) := by
  cases s with
  | nil => cases h
  | cons c rest =>
    obtain ⟨m, rfl⟩ := Nat.exists_eq_succ_of_ne_zero hk
    rw [startsEscape_cons] at h
    simp only [Bool.and_eq_true, beq_iff_eq, bne_iff_ne, ne_eq] at h
    rw [List.take_succ_cons, startsEscape_cons]
    simp only [Bool.and_eq_true, beq_iff_eq, bne_iff_ne, ne_eq]
    exact ⟨h.1, head?_take_ne h.2⟩

theorem scanName_take (s : List Char) {m : Nat}
    (hstop : scanName ((s.drop (scanName s).2).take m) = ([], 0)) :
    scanName (s.take ((scanName s).2 + m)) = scanName s := by
  fun_induction scanName s with
  | case1 => rw [List.take_nil, scanName]
  | case2 c rest hc name n hscan ih =>
    rw [hscan] at ih
    rw [Nat.add_right_comm, List.take_succ_cons, scanName, if_pos hc, ih hstop]
  | case3 c rest hc hescape e k hread name n hscan ih =>
    rw [hscan] at ih
    have hbehind : (c :: rest).drop (n + k + 1) = (rest.drop k).drop n := by
      rw [List.drop_succ_cons, List.drop_drop, Nat.add_comm]
    rw [hbehind] at hstop
    have hk : (scanEscape rest).2 ≤ n + m + k := by
      rw [hread]
      exact Nat.le_add_left _ _
    have hlen : n + k + 1 + m = n + m + k + 1 := by omega
    have hcut := startsEscape_take hescape (Nat.succ_ne_zero (n + m + k))
    rw [List.take_succ_cons] at hcut
    rw [hlen, List.take_succ_cons, scanName, if_neg hc, if_pos hcut, scanEscape_take hk, hread]
    dsimp only
    rw [List.drop_take, Nat.add_sub_cancel, ih hstop]
  | case4 c rest hc hescape =>
    rw [Nat.zero_add]
    exact hstop

theorem scanName_ne_zero_iff {s : List Char} :
    (scanName s).2 ≠ 0 ↔ s.head?.any isNameChar ∨ startsEscape s := by
  cases s with
  | nil => simp [scanName, startsEscape]
  | cons c rest =>
    rw [scanName, List.head?_cons, Option.any_some]
    split
    · next hc => simp [hc]
    split
    · next hescape => simp [hescape]
    · next hc hescape => simp [hc, hescape]

section Stop

variable {s : List Char} {m : Nat} (hstop : scanName ((s.drop (scanName s).2).take m) = ([], 0))
include hstop

theorem startsEscape_take_name : startsEscape (s.take ((scanName s).2 + m)) = startsEscape s := by
  by_cases hescape : startsEscape s
  · have hne := scanName_ne_zero_iff.mpr (.inr hescape)
    rw [hescape, startsEscape_take hescape (by omega)]
  · rw [Bool.not_eq_true] at hescape
    rw [hescape, Bool.eq_false_iff]
    intro hcut
    by_cases hzero : (scanName s).2 = 0
    · rw [hzero, List.drop_zero] at hstop
      rw [hzero, Nat.zero_add] at hcut
      exact scanName_ne_zero_iff.mpr (.inr hcut) (congrArg Prod.snd hstop)
    · have hchar := (scanName_ne_zero_iff.mp hzero).resolve_right (by simp [hescape])
      have hhead := head?_of_startsEscape hcut
      rw [List.head?_take, if_neg (by omega)] at hhead
      rw [hhead] at hchar
      cases hchar

theorem startsName_take_name : startsName (s.take ((scanName s).2 + m)) = startsName s := by
  by_cases hzero : (scanName s).2 = 0
  · rw [hzero, List.drop_zero] at hstop
    have hcut : startsName (s.take m) = false :=
      Bool.eq_false_iff.mpr fun h => Nat.ne_of_gt (scanName_pos h) (congrArg Prod.snd hstop)
    have hwhole : startsName s = false :=
      Bool.eq_false_iff.mpr fun h => Nat.ne_of_gt (scanName_pos h) hzero
    rw [hzero, Nat.zero_add, hcut, hwhole]
  cases s with
  | nil => rw [List.take_nil]
  | cons c rest =>
    have hescape := startsEscape_take_name hstop
    obtain ⟨j, hj⟩ := Nat.exists_eq_succ_of_ne_zero hzero
    have hlen : (scanName (c :: rest)).2 + m = j + m + 1 := by omega
    rw [hlen, List.take_succ_cons] at hescape ⊢
    rw [startsName_cons, startsName_cons, hescape]
    by_cases hc : c = '-'
    · subst hc
      rw [scanName_raw rfl] at hj hstop
      obtain rfl : (scanName rest).2 = j := Nat.succ.inj hj
      rw [if_pos rfl, if_pos rfl, startsEscape_take_name hstop, head?_take_any]
      intro hhead hnone
      have hchar : rest.head?.any isNameChar := by
        cases rest with
        | nil => cases hhead
        | cons d rest =>
          simp only [List.head?_cons, Option.any_some, Bool.or_eq_true] at hhead
          simp only [List.head?_cons, Option.any_some, isNameChar, Bool.or_eq_true]
          exact hhead.imp_left .inl
      exact scanName_ne_zero_iff.mpr (.inl hchar) (Nat.eq_zero_of_add_eq_zero_right hnone)
    · rw [if_neg hc, if_neg hc]

end Stop

theorem scanName_drop_take_zero (s : List Char) :
    scanName ((s.drop (scanName s).2).take 0) = ([], 0) := by
  rw [List.take_zero, scanName]

theorem scanName_take_self (s : List Char) : scanName (s.take (scanName s).2) = scanName s :=
  scanName_take s (scanName_drop_take_zero s)

theorem startsName_take_self (s : List Char) : startsName (s.take (scanName s).2) = startsName s :=
  startsName_take_name (scanName_drop_take_zero s)

theorem startsHash_take_self (s : List Char) : startsHash (s.take (scanName s).2) = startsHash s := by
  have hescape : startsEscape (s.take (scanName s).2) = startsEscape s :=
    startsEscape_take_name (scanName_drop_take_zero s)
  unfold startsHash
  rw [hescape, head?_take_any fun hchar => scanName_ne_zero_iff.mpr (.inl hchar)]

/-! ## Strings and urls -/

theorem scanString_take (quote : Char) (s : List Char) :
    scanString quote (s.take (scanString quote s).2) = scanString quote s := by
  fun_induction scanString quote s with
  | case1 => rw [List.take_nil, scanString]
  | case2 => rw [List.take_succ_cons, scanString_cons, if_pos rfl]
  | case3 rest hquote => rw [List.take_succ_cons, scanString_cons, if_neg hquote, if_pos rfl]
  | case4 hquote hline =>
    rw [List.take_succ_cons, scanString_cons, if_neg hquote, if_neg hline, if_pos rfl, List.take_zero,
      if_pos rfl]
  | case5 rest value n hscan hquote hline ih =>
    rw [hscan] at ih
    rw [List.take_succ_cons, List.take_succ_cons, scanString_cons, if_neg hquote, if_neg hline,
      if_pos rfl, if_neg (List.cons_ne_nil _ _), List.head?_cons, if_pos rfl, List.tail_cons, ih]
  | case6 next rest hline e k hread value n hscan hquote hline' ih =>
    rw [hscan] at ih
    have hk : (scanEscape (next :: rest)).2 ≤ n + k := by
      rw [hread]
      exact Nat.le_add_left _ _
    have hpos := scanEscape_pos next rest
    have hne : n + k ≠ 0 := by omega
    have hcut : (next :: rest).take (n + k) ≠ [] := by
      rw [ne_eq, List.take_eq_nil_iff, not_or]
      exact ⟨hne, List.cons_ne_nil _ _⟩
    have hhead : ((next :: rest).take (n + k)).head? ≠ some '\n' :=
      head?_take_ne fun heq => hline (Option.some.inj heq)
    rw [List.take_succ_cons, scanString_cons, if_neg hquote, if_neg hline', if_pos rfl, if_neg hcut,
      if_neg hhead, scanEscape_take hk, hread]
    dsimp only
    rw [List.drop_take, Nat.add_sub_cancel, ih]
  | case7 c rest hquote hline hescape value n hscan ih =>
    rw [hscan] at ih
    rw [List.take_succ_cons, scanString_cons, if_neg hquote, if_neg hline, if_neg hescape, ih]

theorem scanUrl_take {s value : List Char} {n : Nat} (h : scanUrl s = some (value, n)) :
    scanUrl (s.take n) = some (value, n) := by
  fun_induction scanUrl s generalizing value n with
  | case1 =>
    cases h
    rw [List.take_zero, scanUrl]
  | case2 =>
    cases h
    rw [List.take_succ_cons, scanUrl, if_pos rfl]
  | case3 c rest hclose hblank _ =>
    cases h
    have hrest : rest.drop (rest.takeWhile isBlank).length = [] := ‹_›
    have hlen : (c :: rest).length ≤ (rest.takeWhile isBlank).length + 1 :=
      Nat.succ_le_succ (List.drop_eq_nil_iff.mp hrest)
    rw [List.take_of_length_le hlen, scanUrl, if_neg hclose, if_pos hblank]
    dsimp only
    rw [hrest]
  | case4 c rest hclose hblank _ tail =>
    cases h
    have hrest : rest.drop (rest.takeWhile isBlank).length = ')' :: tail := ‹_›
    rw [List.take_succ_cons, scanUrl, if_neg hclose, if_pos hblank]
    dsimp only
    rw [takeWhile_take (Nat.le_succ _), List.drop_take, hrest, Nat.add_sub_cancel_left]
    rfl
  | case5 | case6 | case8 => cases h
  | case7 rest e k hread hclose hblank hquote hescape ih =>
    obtain ⟨⟨value', n'⟩, hscan, heq⟩ := Option.map_eq_some_iff.mp h
    cases heq
    have hk : (scanEscape rest).2 ≤ n' + k := by
      rw [hread]
      exact Nat.le_add_left _ _
    have hcut := startsEscape_take hescape (Nat.succ_ne_zero (n' + k))
    rw [List.take_succ_cons] at hcut
    rw [List.take_succ_cons, scanUrl, if_neg hclose, if_neg hblank, if_neg hquote, if_pos rfl,
      if_pos hcut, scanEscape_take hk, hread]
    dsimp only
    rw [List.drop_take, Nat.add_sub_cancel, ih hscan]
    rfl
  | case9 c rest hclose hblank hquote hescape ih =>
    obtain ⟨⟨value', n'⟩, hscan, heq⟩ := Option.map_eq_some_iff.mp h
    cases heq
    rw [List.take_succ_cons, scanUrl, if_neg hclose, if_neg hblank, if_neg hquote, if_neg hescape,
      ih hscan]
    rfl

theorem bareUrl_take {rest value : List Char} {k : Nat} (h : bareUrl rest = some (value, k)) :
    bareUrl (rest.take k) = some (value, k) := by
  unfold bareUrl at h
  dsimp only at h
  split at h
  · cases h
  · next hquote =>
    obtain ⟨hdouble, hsingle⟩ := not_or.mp hquote
    obtain ⟨⟨value', j⟩, hscan, heq⟩ := Option.map_eq_some_iff.mp h
    cases heq
    unfold bareUrl
    dsimp only
    rw [takeWhile_take (Nat.le_add_right _ _), List.drop_take, Nat.add_sub_cancel_left,
      scanUrl_take hscan, if_neg (not_or.mpr ⟨head?_take_ne hdouble, head?_take_ne hsingle⟩)]
    rfl

theorem scanName_paren (rest : List Char) (m : Nat) : scanName (('(' :: rest).take m) = ([], 0) := by
  cases m with
  | zero => rw [List.take_zero, scanName]
  | succ m =>
    rw [List.take_succ_cons, scanName]
    rfl

theorem bareUrl_nil : bareUrl [] = some ([], 0) := by
  simp [bareUrl, scanUrl]

/-- Only behind a function named `url` the text matters: with nothing there it is a url without an
end. -/
theorem IdentLike.take {s : List Char} {kind : TokenKind} {n : Nat} (h : IdentLike s kind n)
    (hkind : kind ≠ .function "url") :
    startsName (s.take n) = startsName s ∧ IdentLike (s.take n) kind n := by
  -- What is kept behind the name is nothing, or it starts with the parenthesis.
  have hcut : ∀ {name : List Char} {j : Nat} (m : Nat), scanName s = (name, j) →
      scanName ((s.drop j).take m) = ([], 0) →
      startsName (s.take (j + m)) = startsName s ∧ scanName (s.take (j + m)) = (name, j) := by
    intro name j m hscan hstop
    have hstarts := startsName_take_name (s := s) (m := m)
    have hname := scanName_take s (m := m)
    rw [hscan] at hstarts hname
    exact ⟨hstarts hstop, hname hstop⟩
  cases h with
  | @ident name n hscan =>
    obtain ⟨hstarts, hname⟩ := hcut 0 hscan (by rw [List.take_zero, scanName])
    refine ⟨hstarts, .ident hname ?_⟩
    rw [List.drop_take, Nat.sub_self, List.take_zero, List.head?_nil]
    exact (Option.some_ne_none _).symm
  | @function name rest n hscan hrest hbare =>
    obtain ⟨hstarts, hname⟩ := hcut 1 hscan (by rw [hrest, scanName_paren])
    have hparen : (s.take (n + 1)).drop n = ['('] := by
      rw [List.drop_take, Nat.add_sub_cancel_left, hrest]
      rfl
    exact ⟨hstarts, .function hname hparen fun hurl => absurd (congrArg TokenKind.function hurl) hkind⟩
  | @url name rest value n k hscan hrest hurl hbare =>
    obtain ⟨hstarts, hname⟩ := hcut (1 + k) hscan (by rw [hrest, scanName_paren])
    rw [← Nat.add_assoc] at hstarts hname
    refine ⟨hstarts, .url hname ?_ hurl (bareUrl_take hbare)⟩
    rw [List.drop_take, hrest]
    have hlen : n + 1 + k - n = k + 1 := by omega
    rw [hlen, List.take_succ_cons]

/-! ## Numbers -/

end Lexer

namespace Numeral

theorem scan_take {s : List Char} (h : CodePoint.startsNumber s) {k : Nat}
    (hk : (scan s).length ≤ k) : CodePoint.startsNumber (s.take k) ∧ scan (s.take k) = scan s := by
  have hn := wellFormed_scan h
  have hbegins : (scan s).chars <+: s.take k := by
    rw [List.prefix_take_iff]
    exact ⟨scan_isPrefix s, hk⟩
  have hstarts := startsNumber_iff.mpr ⟨_, hn, hbegins⟩
  have hcut := (scan_isPrefix (s.take k)).trans (List.take_prefix k s)
  have hlonger := (hn.longest hstarts hbegins).1
  obtain ⟨hshorter, heq⟩ := (wellFormed_scan hstarts).longest h hcut
  exact ⟨hstarts, heq (Nat.le_antisymm hshorter hlonger)⟩

end Numeral

namespace Lexer

open CodePoint

theorem Numeric.take {s : List Char} {kind : TokenKind} {n : Nat} (h : Numeric s kind n)
    (hnumber : startsNumber s) : startsNumber (s.take n) ∧ Numeric (s.take n) kind n := by
  have hcut : ∀ m, startsNumber (s.take ((Numeral.scan s).length + m)) ∧
      Numeral.scan (s.take ((Numeral.scan s).length + m)) = Numeral.scan s :=
    fun m => Numeral.scan_take hnumber (Nat.le_add_right _ m)
  have hbehind : ∀ m, (s.take ((Numeral.scan s).length + m)).drop
      (Numeral.scan (s.take ((Numeral.scan s).length + m))).length =
      (s.drop (Numeral.scan s).length).take m := by
    intro m
    rw [(hcut m).2, List.drop_take, Nat.add_sub_cancel_left]
  cases h with
  | @dimension rest unit n hrest hname hscan =>
    obtain ⟨hstarts, hnumeral⟩ := hcut n
    have hunit := scanName_take_self rest
    have hunitStarts := startsName_take_self rest
    rw [hscan] at hunit hunitStarts
    have hkept := Numeric.dimension (hbehind n) (by rwa [hrest, hunitStarts]) (by rw [hrest, hunit])
    rw [hnumeral] at hkept
    exact ⟨hstarts, hkept⟩
  | @percentage rest hrest =>
    obtain ⟨hstarts, hnumeral⟩ := hcut 1
    have hpercent := hbehind 1
    rw [hrest] at hpercent
    have hkept := Numeric.percentage hpercent
    rw [hnumeral] at hkept
    exact ⟨hstarts, hkept⟩
  | number =>
    obtain ⟨hstarts, hnumeral⟩ := hcut 0
    have hkept := Numeric.number (hbehind 0) rfl nofun
    rw [hnumeral, Nat.add_zero] at hkept
    rw [Nat.add_zero] at hstarts
    exact ⟨hstarts, hkept⟩

end Lexer

end CssMedia
