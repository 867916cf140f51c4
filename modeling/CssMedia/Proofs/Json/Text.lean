import CssMedia.Json
import CssMedia.Proofs.Binary64.Json
import CssMedia.Proofs.Lexer.Name

/-!
# JSON texts read back

The text of a JSON value with finite numbers tells the value. Its first character tells what it is,
an escape tells its character, and a comma or a line feed is where an item ends.
-/

namespace CssMedia.Json

open CodePoint

/-! ## Strings -/

/-- One character of a string, and what is behind it; a quote ends the string. -/
def readEscaped : List Char → Option (Char × List Char)
  | '\\' :: 'b' :: rest => some ('\x08', rest)
  | '\\' :: 'f' :: rest => some ('\x0c', rest)
  | '\\' :: 'n' :: rest => some ('\n', rest)
  | '\\' :: 'r' :: rest => some ('\r', rest)
  | '\\' :: 't' :: rest => some ('\t', rest)
  | '\\' :: 'u' :: '0' :: '0' :: high :: low :: rest =>
    some (scalar (16 * hexDigitValue high + hexDigitValue low), rest)
  | '\\' :: c :: rest => some (c, rest)
  | c :: rest => if c = '"' then none else some (c, rest)
  | [] => none

theorem readEscaped_hexByte {c : Char} (hc : c.toNat < 0x20) (rest : List Char) :
    readEscaped ('\\' :: 'u' :: '0' :: '0' :: hexByte c.toNat ++ rest) = some (c, rest) := by
  have hhigh := (Lexer.digitChar_hex (c.toNat / 16) (by omega)).2
  have hlow := (Lexer.digitChar_hex (c.toNat % 16) (by omega)).2
  have hvalue : 16 * (c.toNat / 16) + c.toNat % 16 = c.toNat := Nat.div_add_mod ..
  show some (scalar (16 * hexDigitValue _ + hexDigitValue _), rest) = _
  rw [hhigh, hlow, hvalue, scalar_toNat]

theorem readEscaped_escapedChar (c : Char) (rest : List Char) :
    readEscaped (escapedChar c ++ rest) = some (c, rest) := by
  unfold escapedChar
  split
  · next h =>
    rcases (by simpa using h : c = '"' ∨ c = '\\') with rfl | rfl <;> rfl
  next hquote =>
  split
  · next h => rw [h]; rfl
  split
  · next h => rw [h]; rfl
  split
  · next h => rw [h]; rfl
  split
  · next h => rw [h]; rfl
  split
  · next h => rw [h]; rfl
  split
  · next h => exact readEscaped_hexByte h rest
  · simp only [Bool.or_eq_true, decide_eq_true_eq, not_or] at hquote
    simp [readEscaped, hquote]

theorem escapedChars_inj {rest after : List Char} : ∀ {s t : List Char},
    s.flatMap escapedChar ++ '"' :: rest = t.flatMap escapedChar ++ '"' :: after →
      s = t ∧ rest = after
  | [], [], h => ⟨rfl, (List.cons.inj h).2⟩
  | [], d :: t, h => by
    have hread := congrArg readEscaped h
    rw [List.flatMap_cons, List.append_assoc, readEscaped_escapedChar] at hread
    cases hread
  | c :: s, [], h => by
    have hread := congrArg readEscaped h
    rw [List.flatMap_cons, List.append_assoc, readEscaped_escapedChar] at hread
    cases hread
  | c :: s, d :: t, h => by
    have hread := congrArg readEscaped h
    simp only [List.flatMap_cons, List.append_assoc, readEscaped_escapedChar] at hread
    obtain ⟨hcd, h⟩ := Prod.mk.inj (Option.some.inj hread)
    obtain ⟨hst, hrest⟩ := escapedChars_inj h
    exact ⟨congrArg₂ List.cons hcd hst, hrest⟩

theorem stringChars_inj {s t : String} {rest after : List Char}
    (h : stringChars s ++ rest = stringChars t ++ after) : s = t ∧ rest = after := by
  unfold stringChars at h
  simp only [List.cons_append, List.append_assoc, List.nil_append] at h
  obtain ⟨hst, hrest⟩ := escapedChars_inj (List.cons.inj h).2
  exact ⟨String.toList_inj.mp hst, hrest⟩

/-! ## Numbers -/

mutual

/-- The numbers in a value. -/
def numbers : Json → List Binary64
  | .null | .string _ => []
  | .number v => [v]
  | .array items => itemNumbers items
  | .object fields => fieldNumbers fields

def itemNumbers : List Json → List Binary64
  | [] => []
  | item :: items => item.numbers ++ itemNumbers items

def fieldNumbers : List (String × Json) → List Binary64
  | [] => []
  | (_, value) :: fields => value.numbers ++ fieldNumbers fields

end

@[simp] theorem numbers_number (v : Binary64) : (Json.number v).numbers = [v] := rfl

@[simp] theorem numbers_string (s : String) : (Json.string s).numbers = [] := rfl

@[simp] theorem numbers_array (items : List Json) :
    (Json.array items).numbers = itemNumbers items := rfl

@[simp] theorem numbers_object (fields : List (String × Json)) :
    (Json.object fields).numbers = fieldNumbers fields := rfl

@[simp] theorem itemNumbers_cons (item : Json) (items : List Json) :
    itemNumbers (item :: items) = item.numbers ++ itemNumbers items := rfl

@[simp] theorem fieldNumbers_nil : fieldNumbers [] = [] := rfl

@[simp] theorem fieldNumbers_cons (key : String) (value : Json) (fields : List (String × Json)) :
    fieldNumbers ((key, value) :: fields) = value.numbers ++ fieldNumbers fields := rfl

/-- What may stand behind an item: nothing, a comma or a line feed. -/
def Ends (rest : List Char) : Prop := ∀ c ∈ rest.head?, c = ',' ∨ c = '\n'

theorem Ends.numeral {rest : List Char} (h : Ends rest) (n : Numeral) : n.Ends rest := by
  cases rest with
  | nil => exact ⟨rfl, fun _ _ => rfl, fun _ => rfl⟩
  | cons c rest =>
    rcases h c rfl with rfl | rfl
    · exact ⟨rfl, fun _ _ => rfl, fun _ => by simp [Numeral.scanExponent]⟩
    · exact ⟨rfl, fun _ _ => rfl, fun _ => by simp [Numeral.scanExponent]⟩

/-! ## The first character -/

inductive Form where
  | null
  | number
  | string
  | array
  | object

def form : Json → Form
  | .null => .null
  | .number _ => .number
  | .string _ => .string
  | .array _ => .array
  | .object _ => .object

/-- What a value is whose text starts so. -/
def formOf : Char → Form
  | 'n' => .null
  | '"' => .string
  | '[' => .array
  | '\x7b' => .object
  | _ => .number

theorem formOf_number {c : Char} {s : List Char} (h : startsNumber (c :: s)) :
    formOf c = .number := by
  unfold formOf
  split
  · cases h
  · cases h
  · cases h
  · cases h
  · rfl

theorem formOf_head {j : Json} (hj : ∀ v ∈ j.numbers, v.IsFinite) (depth : Nat) :
    ∃ c rest, j.chars depth = c :: rest ∧ formOf c = j.form := by
  match j with
  | .null => exact ⟨'n', _, rfl, rfl⟩
  | .number (.finite negative index) =>
    obtain ⟨n, hn, htext, -, -⟩ := Binary64.exists_numeral_jsonText negative index
    obtain ⟨c, s, hchars⟩ := List.exists_cons_of_ne_nil hn.chars_ne_nil
    have hstarts := hn.startsNumber []
    rw [List.append_nil, hchars] at hstarts
    exact ⟨c, s, htext.trans hchars, formOf_number hstarts⟩
  | .number (.infinity _) => exact (hj _ (List.mem_singleton.mpr rfl)).elim
  | .number .nan => exact (hj _ (List.mem_singleton.mpr rfl)).elim
  | .string s => exact ⟨'"', _, rfl, rfl⟩
  | .array [] => exact ⟨'[', _, rfl, rfl⟩
  | .array (item :: items) => exact ⟨'[', _, rfl, rfl⟩
  | .object [] => exact ⟨'\x7b', _, rfl, rfl⟩
  | .object ((key, value) :: fields) => exact ⟨'\x7b', _, rfl, rfl⟩

theorem form_eq {j k : Json} (hj : ∀ v ∈ j.numbers, v.IsFinite) (hk : ∀ v ∈ k.numbers, v.IsFinite)
    {depth : Nat} {rest after : List Char} (h : j.chars depth ++ rest = k.chars depth ++ after) :
    j.form = k.form := by
  obtain ⟨c, s, hjchars, hjform⟩ := formOf_head hj depth
  obtain ⟨d, t, hkchars, hkform⟩ := formOf_head hk depth
  rw [hjchars, hkchars] at h
  rw [← hjform, ← hkform, (List.cons.inj h).1]

/-! ## Values -/

/-- What is behind the items of an array or the fields of an object. -/
def closing (depth : Nat) (bracket : Char) (rest : List Char) : List Char :=
  newline depth ++ bracket :: rest

theorem closing_inj {depth : Nat} {bracket : Char} {rest after : List Char}
    (h : closing depth bracket rest = closing depth bracket after) : rest = after :=
  (List.cons.inj (List.append_cancel_left h)).2

theorem comma_ne {s : List Char} (h : s.head? = some '\n') (t : List Char) : s ≠ ',' :: t := by
  rintro rfl
  exact absurd (Option.some.inj h) (by decide)

theorem ends_of_head {s : List Char} (h : s.head? = some '\n') : Ends s := by
  intro c hc
  exact .inr (Option.some.inj (hc.symm.trans h))

/-- Items behind a comma and a line feed each, or none. -/
def Listed (s : List Char) : Prop := s = [] ∨ ∃ t, s = ',' :: '\n' :: t

theorem listed_itemsChars (depth : Nat) : ∀ items, Listed (itemsChars depth items)
  | [] => .inl rfl
  | _ :: _ => .inr ⟨_, rfl⟩

theorem listed_fieldsChars (depth : Nat) : ∀ fields, Listed (fieldsChars depth fields)
  | [] => .inl rfl
  | _ :: _ => .inr ⟨_, rfl⟩

theorem Listed.ends {s rest : List Char} (hs : Listed s) (hrest : Ends rest) : Ends (s ++ rest) := by
  rcases hs with rfl | ⟨t, rfl⟩
  · exact hrest
  · intro c hc
    exact .inl (Option.some.inj hc).symm

/-- An array or an object, where `items` has a comma before the first item too. -/
def bracketed (depth : Nat) (first last : Char) (items rest : List Char) : List Char :=
  first :: (if items = [] then last :: rest else items.tail ++ closing depth last rest)

theorem chars_array (depth : Nat) (items : List Json) (rest : List Char) :
    (array items).chars depth ++ rest =
      bracketed depth '[' ']' (itemsChars (depth + 1) items) rest := by
  cases items <;> simp [chars, itemsChars, bracketed, closing]

theorem chars_object (depth : Nat) (fields : List (String × Json)) (rest : List Char) :
    (object fields).chars depth ++ rest =
      bracketed depth '\x7b' '\x7d' (fieldsChars (depth + 1) fields) rest := by
  cases fields <;> simp [chars, fieldsChars, bracketed, closing]

theorem bracketed_inj {depth : Nat} {first last : Char} {s t rest after : List Char}
    (hs : Listed s) (ht : Listed t) (hlast : last ≠ '\n')
    (h : bracketed depth first last s rest = bracketed depth first last t after) :
    s ++ closing depth last rest = t ++ closing depth last after := by
  have htail := (List.cons.inj h).2
  rcases hs with rfl | ⟨s, rfl⟩ <;> rcases ht with rfl | ⟨t, rfl⟩
  · rw [(List.cons.inj htail).2]
  · exact absurd (List.cons.inj htail).1 hlast
  · exact absurd (List.cons.inj htail).1.symm hlast
  · exact congrArg (',' :: ·) htail

-- By the structure of the first value. What stands behind a value is arbitrary but for its first
-- character, so that the hypothesis for an item holds in front of the items behind it.
mutual

theorem chars_inj {depth : Nat} : ∀ {j k : Json} {rest after : List Char},
    (∀ v ∈ j.numbers, v.IsFinite) → (∀ v ∈ k.numbers, v.IsFinite) → Ends rest → Ends after →
    j.chars depth ++ rest = k.chars depth ++ after → j = k ∧ rest = after
  | .null, k, _, _, hj, hk, hrest, hafter, h => by
    have hform := form_eq hj hk h
    cases k with
    | null => exact ⟨rfl, List.append_cancel_left h⟩
    | _ => cases hform
  | .number v, k, _, _, hj, hk, hrest, hafter, h => by
    have hform := form_eq hj hk h
    cases k with
    | number w =>
      have hv := hj v (List.mem_singleton.mpr rfl)
      have hw := hk w (List.mem_singleton.mpr rfl)
      obtain ⟨hvw, hends⟩ := Binary64.jsonText_inj hv hw hrest.numeral hafter.numeral h
      exact ⟨congrArg number hvw, hends⟩
    | _ => cases hform
  | .string s, k, _, _, hj, hk, hrest, hafter, h => by
    have hform := form_eq hj hk h
    cases k with
    | string t =>
      obtain ⟨hst, hends⟩ := stringChars_inj h
      exact ⟨congrArg string hst, hends⟩
    | _ => cases hform
  | .array items, k, _, _, hj, hk, _, _, h => by
    have hform := form_eq hj hk h
    cases k with
    | array others =>
      rw [chars_array, chars_array] at h
      obtain ⟨hitems, h⟩ := itemsChars_inj hj hk rfl rfl
        (bracketed_inj (listed_itemsChars _ items) (listed_itemsChars _ others) (by decide) h)
      exact ⟨congrArg array hitems, closing_inj h⟩
    | _ => cases hform
  | .object fields, k, _, _, hj, hk, _, _, h => by
    have hform := form_eq hj hk h
    cases k with
    | object others =>
      rw [chars_object, chars_object] at h
      obtain ⟨hfields, h⟩ := fieldsChars_inj hj hk rfl rfl
        (bracketed_inj (listed_fieldsChars _ fields) (listed_fieldsChars _ others) (by decide) h)
      exact ⟨congrArg object hfields, closing_inj h⟩
    | _ => cases hform

theorem itemsChars_inj {depth : Nat} : ∀ {items others : List Json} {rest after : List Char},
    (∀ v ∈ itemNumbers items, v.IsFinite) → (∀ v ∈ itemNumbers others, v.IsFinite) →
    rest.head? = some '\n' → after.head? = some '\n' →
    itemsChars depth items ++ rest = itemsChars depth others ++ after → items = others ∧ rest = after
  | [], [], _, _, _, _, _, _, h => ⟨rfl, h⟩
  | [], _ :: _, _, _, _, _, hrest, _, h => (comma_ne hrest _ h).elim
  | _ :: _, [], _, _, _, _, _, hafter, h => (comma_ne hafter _ h.symm).elim
  | item :: items, other :: others, _, _, hj, hk, hrest, hafter, h => by
    rw [itemNumbers_cons, List.forall_mem_append] at hj hk
    simp only [itemsChars, List.cons_append, List.append_assoc] at h
    obtain ⟨hitem, h⟩ := chars_inj hj.1 hk.1
      ((listed_itemsChars depth items).ends (ends_of_head hrest))
      ((listed_itemsChars depth others).ends (ends_of_head hafter))
      (List.append_cancel_left (List.cons.inj h).2)
    obtain ⟨hitems, hends⟩ := itemsChars_inj hj.2 hk.2 hrest hafter h
    exact ⟨congrArg₂ List.cons hitem hitems, hends⟩

theorem fieldsChars_inj {depth : Nat} : ∀ {fields others : List (String × Json)}
    {rest after : List Char},
    (∀ v ∈ fieldNumbers fields, v.IsFinite) → (∀ v ∈ fieldNumbers others, v.IsFinite) →
    rest.head? = some '\n' → after.head? = some '\n' →
    fieldsChars depth fields ++ rest = fieldsChars depth others ++ after →
      fields = others ∧ rest = after
  | [], [], _, _, _, _, _, _, h => ⟨rfl, h⟩
  | [], _ :: _, _, _, _, _, hrest, _, h => (comma_ne hrest _ h).elim
  | _ :: _, [], _, _, _, _, _, hafter, h => (comma_ne hafter _ h.symm).elim
  | (key, value) :: fields, (name, item) :: others, _, _, hj, hk, hrest, hafter, h => by
    rw [fieldNumbers_cons, List.forall_mem_append] at hj hk
    simp only [fieldsChars, List.append_assoc] at h
    obtain ⟨hkey, h⟩ := stringChars_inj (List.append_cancel_left (List.cons.inj h).2)
    obtain ⟨hvalue, h⟩ := chars_inj hj.1 hk.1
      ((listed_fieldsChars depth fields).ends (ends_of_head hrest))
      ((listed_fieldsChars depth others).ends (ends_of_head hafter)) (List.append_cancel_left h)
    obtain ⟨hfields, hends⟩ := fieldsChars_inj hj.2 hk.2 hrest hafter h
    exact ⟨congrArg₂ List.cons (congrArg₂ Prod.mk hkey hvalue) hfields, hends⟩

end

theorem text_inj {j k : Json} (hj : ∀ v ∈ j.numbers, v.IsFinite) (hk : ∀ v ∈ k.numbers, v.IsFinite)
    (h : j.text = k.text) : j = k := by
  have hends : Ends [] := nofun
  have hchars : j.chars 0 ++ [] = k.chars 0 ++ [] := by
    rw [List.append_nil, List.append_nil]
    exact String.ofList_injective h
  exact (chars_inj hj hk hends hends hchars).1

end CssMedia.Json
