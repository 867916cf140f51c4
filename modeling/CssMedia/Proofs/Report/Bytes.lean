import CssMedia.Report.Bytes

/-!
# Ranges of bytes

A span is turned into the bytes of its code points, from the first byte of its first one to the last
byte of the last one that the text has. A span behind the text is turned into no bytes at its end.
-/

namespace CssMedia

/-! ## Code points before a place -/

theorem byteLength_append (s t : List Char) :
    byteLength (s ++ t) = byteLength s + byteLength t := by
  induction s with
  | nil => simp [byteLength]
  | cons c s ih => rw [List.cons_append, byteLength, byteLength, ih, Nat.add_assoc]

theorem size_utf8Encode (s : List Char) : s.utf8Encode.size = byteLength s := by
  induction s with
  | nil => simp [byteLength]
  | cons c s ih =>
    rw [byteLength, List.utf8Encode_cons, ByteArray.size_append, ih, List.utf8Encode_singleton,
      List.size_toByteArray, String.length_utf8EncodeChar]

theorem byteLength_toList (text : String) : byteLength text.toList = text.utf8ByteSize := by
  rw [← size_utf8Encode, String.utf8Encode_toList, String.size_toByteArray]

theorem byteLength_mono {s t : List Char} (h : s <+: t) : byteLength s ≤ byteLength t := by
  obtain ⟨rest, rfl⟩ := h
  rw [byteLength_append]
  exact Nat.le_add_right _ _

theorem isValid_byteLength_take (text : String) (n : Nat) :
    (⟨byteLength (text.toList.take n)⟩ : String.Pos.Raw).IsValid text := by
  rw [String.Pos.Raw.isValid_iff_exists_take_toList]
  refine ⟨n, ?_⟩
  rw [← byteLength_toList, String.toList_ofList]

/-! ## Code points between two places -/

theorem extract_utf8Encode (before s after : List Char) :
    (before ++ (s ++ after)).utf8Encode.extract (byteLength before) (byteLength (before ++ s)) =
      s.utf8Encode := by
  rw [byteLength_append, ← size_utf8Encode before, ← size_utf8Encode s, List.utf8Encode_append,
    List.utf8Encode_append, ← Nat.add_zero before.utf8Encode.size, Nat.add_assoc,
    ByteArray.extract_append_size_add, Nat.zero_add, ByteArray.extract_append_eq_left rfl]

theorem extract_toByteArray (text : String) {m n : Nat} (h : m ≤ n) :
    text.toByteArray.extract (byteLength (text.toList.take m)) (byteLength (text.toList.take n)) =
      (text.toList.extract m n).utf8Encode := by
  have htake : text.toList.take m ++ text.toList.extract m n = text.toList.take n := by
    rw [List.extract, ← List.take_add, Nat.add_sub_cancel' h]
  have hsplit : text.toList.take m ++ (text.toList.extract m n ++ text.toList.drop n) =
      text.toList := by
    rw [← List.append_assoc, htake, List.take_append_drop]
  have hextract := extract_utf8Encode (text.toList.take m) (text.toList.extract m n) (text.toList.drop n)
  rwa [htake, hsplit, String.utf8Encode_toList] at hextract

/-! ## Spans -/

theorem Span.bytes_eq (s : List Char) {span : Span} (h : span.start ≤ span.stop) :
    span.bytes s = ⟨byteLength (s.take span.start), byteLength (s.take (span.stop + 1))⟩ := by
  unfold Span.bytes
  split
  · next hend =>
    rw [List.take_of_length_le hend, List.take_of_length_le (by omega)]
  · rfl

theorem extract_min_length (s : List Char) (start stop : Nat) :
    s.extract start (min stop (s.length - 1) + 1) = s.extract start (stop + 1) := by
  rw [List.extract, List.extract, List.take_eq_take_iff, List.length_drop]
  omega

/-- The range of a span is cut at code points of the text. Before it are the bytes of the code points
before the span, and in it those of the span, as far as the text has them. -/
theorem Span.bytes_exact (text : String) {span : Span} (h : span.start ≤ span.stop) :
    let range := span.bytes text.toList
    range.start ≤ range.stop ∧ range.stop ≤ text.utf8ByteSize ∧
      (⟨range.start⟩ : String.Pos.Raw).IsValid text ∧ (⟨range.stop⟩ : String.Pos.Raw).IsValid text ∧
      text.toByteArray.extract 0 range.start = (text.toList.take span.start).utf8Encode ∧
      text.toByteArray.extract range.start range.stop =
        (text.toList.extract span.start (min span.stop (text.length - 1) + 1)).utf8Encode ∧
      (text.length ≤ span.start → range = ⟨text.utf8ByteSize, text.utf8ByteSize⟩) := by
  intro range
  have hrange : range = _ := Span.bytes_eq text.toList h
  have hstop : span.start ≤ span.stop + 1 := Nat.le_succ_of_le h
  have hbefore := extract_toByteArray text (Nat.zero_le span.start)
  rw [List.take_zero, byteLength, List.extract_eq_take_drop, List.drop_zero, Nat.sub_zero] at hbefore
  rw [hrange, ← byteLength_toList, ← String.length_toList]
  refine ⟨?_, ?_, isValid_byteLength_take text _, isValid_byteLength_take text _, hbefore, ?_,
    fun hend => ?_⟩
  · exact byteLength_mono (List.take_prefix_take_left hstop)
  · exact byteLength_mono (List.take_prefix _ _)
  · rw [extract_min_length]
    exact extract_toByteArray text hstop
  · rw [List.take_of_length_le hend, List.take_of_length_le (Nat.le_trans hend hstop)]

/-- Code points of two, three and four bytes, and a span that ends behind the text. -/
theorem Span.bytes_exact_multibyte :
    let text := "aé€😀"
    (⟨1, 2⟩ : Span).bytes text.toList = ⟨1, 6⟩ ∧ (⟨2, 9⟩ : Span).bytes text.toList = ⟨3, 10⟩ ∧
      text.toByteArray.extract 1 6 = "é€".toByteArray ∧
      text.toByteArray.extract 3 10 = "€😀".toByteArray := by
  intro text
  have hinner : (⟨1, 2⟩ : Span).bytes text.toList = ⟨1, 6⟩ := by decide
  have hlast : (⟨2, 9⟩ : Span).bytes text.toList = ⟨3, 10⟩ := by decide
  have hinnerBytes := (@Span.bytes_exact text ⟨1, 2⟩ (by decide)).2.2.2.2.2.1
  have hlastBytes := (@Span.bytes_exact text ⟨2, 9⟩ (by decide)).2.2.2.2.2.1
  rw [hinner] at hinnerBytes
  rw [hlast] at hlastBytes
  have hinnerText : text.toList.extract 1 (min 2 (text.length - 1) + 1) = "é€".toList := by decide
  have hlastText : text.toList.extract 2 (min 9 (text.length - 1) + 1) = "€😀".toList := by decide
  rw [hinnerText, String.utf8Encode_toList] at hinnerBytes
  rw [hlastText, String.utf8Encode_toList] at hlastBytes
  exact ⟨hinner, hlast, hinnerBytes, hlastBytes⟩

end CssMedia
