import CssMedia.Lexer
import CssMedia.Proofs.Numeral

/-!
# The lengths of what is read

No scanner takes more code points than there are, so every token ends inside of its text. Every
token takes one code point at least, so the lexer does not stand still.
-/

namespace CssMedia

theorem length_takeWhile_le {α : Type} (p : α → Bool) (s : List α) :
    (s.takeWhile p).length ≤ s.length :=
  (List.takeWhile_sublist p).length_le

namespace Numeral

theorem scanSign_append_drop (s : List Char) : scanSign s ++ s.drop (scanSign s).length = s := by
  unfold scanSign
  split <;> rfl

theorem takeWhile_append_drop (p : Char → Bool) (s : List Char) :
    s.takeWhile p ++ s.drop (s.takeWhile p).length = s := by
  rw [drop_length_takeWhile, List.takeWhile_append_dropWhile]

theorem pointed_append_drop (s : List Char) :
    pointed (scanFraction s) ++ s.drop (pointed (scanFraction s)).length = s := by
  by_cases hfraction : scanFraction s = []
  · rw [hfraction]
    rfl
  · have hpoint : ∃ rest, s = '.' :: rest := by
      unfold scanFraction at hfraction
      split at hfraction
      · exact ⟨_, rfl⟩
      · exact absurd rfl hfraction
    obtain ⟨rest, rfl⟩ := hpoint
    rw [pointed, if_neg hfraction, List.cons_append, List.length_cons, List.drop_succ_cons]
    exact congrArg _ (takeWhile_append_drop Char.isDigit rest)

theorem scanExponent_append_drop (s : List Char) :
    (scanExponent s).1 ++ (scanExponent s).2 ++
      s.drop ((scanExponent s).1 ++ (scanExponent s).2).length = s := by
  cases s with
  | nil => rfl
  | cons c rest =>
    unfold scanExponent
    dsimp only
    split
    · rw [List.cons_append, List.cons_append, List.length_cons, List.drop_succ_cons,
        List.append_assoc, List.length_append, ← List.drop_drop, takeWhile_append_drop,
        scanSign_append_drop]
    · rfl

theorem scan_append_drop (s : List Char) : (scan s).chars ++ s.drop (scan s).length = s := by
  unfold length chars scan
  dsimp only
  simp only [List.length_append, List.append_assoc, ← List.drop_drop]
  generalize hafter : s.drop (scanSign s).length = after
  generalize hrest : after.drop (after.takeWhile Char.isDigit).length = rest
  generalize htail : rest.drop (pointed (scanFraction rest)).length = tail
  have hexponent := scanExponent_append_drop tail
  rw [List.length_append, ← List.drop_drop, List.append_assoc] at hexponent
  rw [hexponent, ← htail, pointed_append_drop, ← hrest, takeWhile_append_drop, ← hafter,
    scanSign_append_drop]

theorem length_scan_le (s : List Char) : (scan s).length ≤ s.length := by
  have := congrArg List.length (scan_append_drop s)
  rw [List.length_append] at this
  exact this ▸ Nat.le_add_right _ _

end Numeral

namespace Lexer

open CodePoint

theorem length_hexRun_le (s : List Char) : (hexRun s).length ≤ s.length :=
  Nat.le_trans (length_takeWhile_le _ _) (List.length_take_le' 6 s)

theorem scanEscape_le (s : List Char) : (scanEscape s).2 ≤ s.length := by
  cases s with
  | nil => exact Nat.le_refl 0
  | cons c rest =>
    rw [scanEscape]
    split
    · have hdigits := length_hexRun_le (c :: rest)
      dsimp only
      split
      · next hblank =>
        have hmore : (c :: rest).drop (hexRun (c :: rest)).length ≠ [] := by
          intro hnil
          rw [hnil] at hblank
          cases hblank
        have := List.length_pos_iff.mpr hmore
        rw [List.length_drop] at this
        omega
      · exact hdigits
    · exact Nat.succ_le_succ (Nat.zero_le _)

theorem add_scanEscape_le {rest : List Char} {e : Char} {k n : Nat} (hread : scanEscape rest = (e, k))
    (hn : n ≤ (rest.drop k).length) : n + k ≤ rest.length := by
  have hk := scanEscape_le rest
  rw [hread] at hk
  rw [List.length_drop] at hn
  omega

theorem scanName_le (s : List Char) : (scanName s).2 ≤ s.length := by
  fun_induction scanName s with
  | case1 => exact Nat.le_refl 0
  | case2 c rest hc name n hscan ih =>
    rw [hscan] at ih
    exact Nat.succ_le_succ ih
  | case3 c rest hc hescape e k hread name n hscan ih =>
    rw [hscan] at ih
    exact Nat.succ_le_succ (add_scanEscape_le hread ih)
  | case4 => exact Nat.zero_le _

theorem scanString_le (quote : Char) (s : List Char) : (scanString quote s).2 ≤ s.length := by
  fun_induction scanString quote s with
  | case1 => exact Nat.le_refl 0
  | case2 | case3 | case4 => exact Nat.succ_le_succ (Nat.zero_le _)
  | case5 rest value n hscan _ _ ih =>
    rw [hscan] at ih
    exact Nat.add_le_add_right ih 2
  | case6 next rest _ e k hread value n hscan _ _ ih =>
    rw [hscan] at ih
    exact Nat.succ_le_succ (add_scanEscape_le hread ih)
  | case7 c rest _ _ _ value n hscan ih =>
    rw [hscan] at ih
    exact Nat.succ_le_succ ih

theorem scanUrl_le {s value : List Char} {n : Nat} (h : scanUrl s = some (value, n)) :
    n ≤ s.length := by
  fun_induction scanUrl s generalizing value n with
  | case1 =>
    cases h
    exact Nat.le_refl 0
  | case2 =>
    cases h
    exact Nat.succ_le_succ (Nat.zero_le _)
  | case3 c rest _ _ blanks =>
    cases h
    exact Nat.succ_le_succ (length_takeWhile_le _ _)
  | case4 c rest _ _ blanks tail =>
    cases h
    have hclose : rest.drop blanks = ')' :: tail := ‹_›
    have := congrArg List.length hclose
    rw [List.length_drop, List.length_cons] at this
    rw [List.length_cons]
    omega
  | case5 | case6 | case8 => cases h
  | case7 rest e k hread _ _ _ _ ih =>
    obtain ⟨⟨value', n'⟩, hscan, heq⟩ := Option.map_eq_some_iff.mp h
    cases heq
    exact Nat.succ_le_succ (add_scanEscape_le hread (ih hscan))
  | case9 c rest _ _ _ _ ih =>
    obtain ⟨⟨value', n'⟩, hscan, heq⟩ := Option.map_eq_some_iff.mp h
    cases heq
    exact Nat.succ_le_succ (ih hscan)

/-! ## Tokens -/

theorem scanIdentLike_le (s : List Char) : (scanIdentLike s).2 ≤ s.length := by
  have hname := scanName_le s
  unfold scanIdentLike
  generalize scanName s = scan at hname ⊢
  obtain ⟨name, n⟩ := scan
  dsimp only at hname ⊢
  split
  · next rest hrest =>
    have hlen := congrArg List.length hrest
    rw [List.length_drop, List.length_cons] at hlen
    have hfunction : n + 1 ≤ s.length := by omega
    split
    · split
      · exact hfunction
      · exact hfunction
      · exact hfunction
      · next value k hurl _ _ =>
        have hk := scanUrl_le hurl
        have hblanks := length_takeWhile_le isBlank rest
        rw [List.length_drop] at hk
        show n + 1 + _ + k ≤ _
        omega
    · exact hfunction
  · exact hname

theorem scanNumeric_le (s : List Char) : (scanNumeric s).2 ≤ s.length := by
  have hnumeral := Numeral.length_scan_le s
  unfold scanNumeric
  dsimp only
  split
  · have hunit := scanName_le (s.drop (Numeral.scan s).length)
    rw [List.length_drop] at hunit
    dsimp only
    omega
  split
  · next hpercent =>
    have hmore : s.drop (Numeral.scan s).length ≠ [] := by
      intro hnil
      rw [hnil] at hpercent
      cases hpercent
    have := List.length_pos_iff.mpr hmore
    rw [List.length_drop] at this
    dsimp only
    omega
  · exact hnumeral

theorem scanHash_le (rest : List Char) : (scanHash rest).2 ≤ rest.length + 1 := by
  unfold scanHash
  split
  · exact Nat.succ_le_succ (scanName_le rest)
  · exact Nat.succ_le_succ (Nat.zero_le _)

theorem nextToken_le (c : Char) (rest : List Char) : (nextToken c rest).2 ≤ rest.length + 1 := by
  have hpart : ∀ {s : List Char}, s <+: c :: rest → s.length ≤ rest.length + 1 :=
    fun h => h.length_le
  unfold nextToken
  split
  · exact Nat.succ_le_succ (length_takeWhile_le _ _)
  split
  · exact Nat.succ_le_succ (scanString_le c rest)
  split
  · rw [Prod.map_snd]
    exact scanHash_le rest
  split
  · rw [Prod.map_snd]
    exact scanNumeric_le (c :: rest)
  split
  · next hcdc => exact hpart hcdc
  split
  · next hcdo => exact hpart hcdo
  split
  · exact Nat.succ_le_succ (scanName_le rest)
  split
  · rw [Prod.map_snd]
    exact scanIdentLike_le (c :: rest)
  · exact Nat.succ_le_succ (Nat.zero_le _)

/-! ## Progress -/

theorem scanName_pos {s : List Char} (h : startsName s) : 0 < (scanName s).2 := by
  unfold startsName at h
  split at h
  · rw [scanName, if_pos (by decide)]
    exact Nat.succ_pos _
  · rw [scanName, if_neg (by decide), if_pos h]
    exact Nat.succ_pos _
  · rw [scanName, if_pos (by simp [isNameChar, h])]
    exact Nat.succ_pos _
  · simp at h

theorem scanIdentLike_pos {s : List Char} (h : startsName s) : 0 < (scanIdentLike s).2 := by
  have hname := scanName_pos h
  unfold scanIdentLike
  dsimp only
  split
  · split
    · split
      · exact Nat.succ_pos _
      · exact Nat.succ_pos _
      · exact Nat.succ_pos _
      · dsimp only
        omega
    · exact Nat.succ_pos _
  · exact hname

theorem scanNumeric_pos {s : List Char} (h : startsNumber s) : 0 < (scanNumeric s).2 := by
  have hnumeral : 0 < (Numeral.scan s).length :=
    List.length_pos_iff.mpr (Numeral.wellFormed_scan h).chars_ne_nil
  unfold scanNumeric
  dsimp only
  split
  · exact Nat.add_pos_left hnumeral _
  split
  · exact Nat.succ_pos _
  · exact hnumeral

theorem scanHash_pos (rest : List Char) : 0 < (scanHash rest).2 := by
  unfold scanHash
  split <;> exact Nat.succ_pos _

theorem nextToken_pos (c : Char) (rest : List Char) : 0 < (nextToken c rest).2 := by
  unfold nextToken
  split
  · exact Nat.succ_pos _
  split
  · exact Nat.succ_pos _
  split
  · rw [Prod.map_snd]
    exact scanHash_pos rest
  split
  · next hnumber =>
    rw [Prod.map_snd]
    exact scanNumeric_pos hnumber
  split
  · decide
  split
  · decide
  split
  · exact Nat.succ_pos _
  split
  · next hname =>
    rw [Prod.map_snd]
    exact scanIdentLike_pos hname
  · exact Nat.one_pos

end Lexer

end CssMedia
