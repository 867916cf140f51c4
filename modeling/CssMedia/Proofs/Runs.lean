import Mathlib.Data.List.TakeWhile

/-!
# Runs of characters

A run of one class of characters ends where the first of another class is, and so is known from any
text that it starts.
-/

namespace CssMedia

theorem takeWhile_append_stop {α : Type} {p : α → Bool} {s rest : List α} (hs : ∀ c ∈ s, p c)
    (hrest : rest.head?.any p = false) : (s ++ rest).takeWhile p = s := by
  rw [List.takeWhile_append_of_pos hs]
  cases rest with
  | nil => simp
  | cons c rest => rw [List.takeWhile_cons_of_neg (by simpa using hrest), List.append_nil]

theorem takeWhile_eq_nil {α : Type} {p : α → Bool} {rest : List α}
    (hrest : rest.head?.any p = false) : rest.takeWhile p = [] :=
  takeWhile_append_stop (s := []) (by simp) hrest

theorem append_stop_inj {α : Type} (p : α → Bool) {s t rest after : List α} (hs : ∀ c ∈ s, p c)
    (ht : ∀ c ∈ t, p c) (hrest : rest.head?.any p = false) (hafter : after.head?.any p = false)
    (h : s ++ rest = t ++ after) : s = t ∧ rest = after := by
  have hst : s = t := by
    rw [← takeWhile_append_stop hs hrest, h, takeWhile_append_stop ht hafter]
  subst hst
  exact ⟨rfl, List.append_cancel_left h⟩

theorem drop_length_takeWhile {α : Type} (p : α → Bool) (s : List α) :
    s.drop (s.takeWhile p).length = s.dropWhile p := by
  induction s with
  | nil => rfl
  | cons c s ih => by_cases hc : p c <;> simp [hc, ih]

/-! ## Digits and blanks -/

theorem isDigit_of_mem_toDigits {n : Nat} {c : Char} (h : c ∈ Nat.toDigits 10 n) : c.isDigit :=
  Nat.isDigit_of_mem_toDigits (by omega) (by omega) h

theorem digits_inj {m n : Nat} {rest after : List Char}
    (hrest : rest.head?.any Char.isDigit = false) (hafter : after.head?.any Char.isDigit = false)
    (h : Nat.toDigits 10 m ++ rest = Nat.toDigits 10 n ++ after) : m = n ∧ rest = after := by
  obtain ⟨hmn, hrest⟩ := append_stop_inj Char.isDigit (fun _ => isDigit_of_mem_toDigits)
    (fun _ => isDigit_of_mem_toDigits) hrest hafter h
  refine ⟨?_, hrest⟩
  rw [← Nat.ofDigitChars_ten_toDigits (n := m), hmn, Nat.ofDigitChars_ten_toDigits]

theorem toList_pushn (s : String) (c : Char) (n : Nat) :
    (s.pushn c n).toList = s.toList ++ List.replicate n c := by
  rw [String.pushn_eq_repeat_push]
  induction n with
  | zero => exact (List.append_nil _).symm
  | succ n ih => rw [Nat.repeat, String.toList_push, ih, List.append_assoc, List.replicate_succ']

end CssMedia
