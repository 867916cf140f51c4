import CssMedia.Proofs.Lexer.WrittenName

/-!
# Written numbers among other text

A written number is its own token where a blank, a parenthesis or a slash follows. It comes back with
its value and its flag, and what follows gives the tokens that it gives alone.
-/

namespace CssMedia

/-- The flag of a number that is written without a mark. -/
def Binary64.plainFlag (v : Binary64) : NumberFlag := if v.isWhole then .integer else .number

theorem NumberFlag.write_plainFlag {v : Binary64} (hv : v.IsProper) : v.plainFlag.write v = v.text := by
  unfold Binary64.plainFlag
  split
  · rfl
  · next hwhole =>
    cases v with
    | finite negative index =>
      have hfraction : (Binary64.units index.val % Binary64.unitsPerOne != 0) = true := by
        simpa [Binary64.isWhole] using hwhole
      unfold write Binary64.markedText Binary64.text
      dsimp only
      rw [if_pos hfraction]
    | infinity => exact hv.elim
    | nan => exact hv.elim

theorem Binary64.isWhole_of_plainFlag {v : Binary64} (h : v.plainFlag = .integer) : v.isWhole := by
  unfold plainFlag at h
  split at h
  · next hwhole => exact hwhole
  · cases h

namespace Lexer

section Written

variable {v : Binary64} {flag : NumberFlag}

theorem tokenBefore_write (hv : v.IsProper) (hflag : flag = .integer → v.isWhole) {rest : List Char}
    (hrest : Stops rest) : TokenBefore rest (flag.write v).toList (.number v flag) := by
  obtain ⟨n, hn, htext, rfl, rfl⟩ := NumberFlag.exists_numeral_write hv hflag
  rw [htext]
  exact tokenBefore_number hn hrest

theorem tokens_write (hv : v.IsProper) (hflag : flag = .integer → v.isWhole) {rest : List Char}
    (hrest : Stops rest) :
    tokens ((flag.write v).toList ++ rest) = (shifted (flag.write v).length (tokens rest)).map
      (⟨.number v flag, ⟨0, (flag.write v).length - 1⟩⟩ :: ·) := by
  have h := (tokenBefore_write hv hflag hrest).tokens_eq
  rwa [String.length_toList] at h

theorem tokens_write_read (hv : v.IsProper) (hflag : flag = .integer → v.isWhole) {rest : String}
    (hrest : EndsName rest.toList) :
    tokens (Input.read (flag.write v ++ rest)) =
      (shifted (flag.write v).length (tokens (Input.read rest))).map
        (⟨.number v flag, ⟨0, (flag.write v).length - 1⟩⟩ :: ·) := by
  have hvisible : ∀ c ∈ (flag.write v).toList, CodePoint.isControl c = false := by
    obtain ⟨n, hn, htext, -⟩ := NumberFlag.exists_numeral_write hv hflag
    rw [htext]
    exact visible_numeral hn
  have h := tokens_append hvisible (fun _ => tokenBefore_write hv hflag) hrest
  rwa [String.ofList_toList, String.length_toList] at h

end Written

/-- A written number is a token of its own with its value and its flag, in front of the tokens of what
follows, which leaves it without tokens only where it has none itself. A number written without a mark
has the flag of whole numbers only where it is whole. -/
theorem written_number_is_one_token :
    (∀ {v : Binary64} {flag : NumberFlag}, v.IsProper → (flag = .integer → v.isWhole) →
      let text := flag.write v
      (∀ rest, Stops rest → tokens (text.toList ++ rest) =
        (shifted text.length (tokens rest)).map (⟨.number v flag, ⟨0, text.length - 1⟩⟩ :: ·)) ∧
      ∀ rest : String, EndsName rest.toList → tokens (Input.read (text ++ rest)) =
        (shifted text.length (tokens (Input.read rest))).map
          (⟨.number v flag, ⟨0, text.length - 1⟩⟩ :: ·)) ∧
    ∀ {v : Binary64}, v.IsProper →
      let text := v.text
      (∀ rest, Stops rest → tokens (text.toList ++ rest) =
        (shifted text.length (tokens rest)).map
          (⟨.number v v.plainFlag, ⟨0, text.length - 1⟩⟩ :: ·)) ∧
      ∀ rest : String, EndsName rest.toList → tokens (Input.read (text ++ rest)) =
        (shifted text.length (tokens (Input.read rest))).map
          (⟨.number v v.plainFlag, ⟨0, text.length - 1⟩⟩ :: ·) := by
  refine ⟨fun hv hflag => ⟨fun _ => tokens_write hv hflag, fun _ => tokens_write_read hv hflag⟩, ?_⟩
  intro v hv
  dsimp only
  rw [← NumberFlag.write_plainFlag hv]
  have hflag := v.isWhole_of_plainFlag
  exact ⟨fun _ => tokens_write hv hflag, fun _ => tokens_write_read hv hflag⟩

/-- The number 10¹⁶ is whole. It has an exponent where it keeps the flag `number` and none where it is
an integer. -/
theorem written_number_is_one_token_exponent :
    let v := Binary64.ofBits 0x4341c37937e08000
    v.IsProper ∧ v.isWhole ∧ Stops "/a".toList ∧ EndsName ")".toList ∧
      NumberFlag.number.write v = "1e16" ∧ v.text = "10000000000000000" ∧
      tokens "1e16/a".toList = .ok [⟨.number v .number, ⟨0, 3⟩⟩, ⟨.delim '/', ⟨4, 4⟩⟩,
        ⟨.ident "a", ⟨5, 5⟩⟩, ⟨.eof, ⟨6, 6⟩⟩] ∧
      tokens (Input.read "10000000000000000)") = .ok [⟨.number v .integer, ⟨0, 16⟩⟩,
        ⟨.closeParen, ⟨17, 17⟩⟩, ⟨.eof, ⟨18, 18⟩⟩] := by
  intro v
  have hproper : v.IsProper := nofun
  have hwhole : v.isWhole := by decide +kernel
  have hstops : Stops "/a".toList := rfl
  have hends : EndsName ")".toList := rfl
  have hmarked : NumberFlag.number.write v = "1e16" := by decide +kernel
  have hplain : v.text = "10000000000000000" := by decide +kernel
  have hslash : tokens "/a".toList =
      .ok [⟨.delim '/', ⟨0, 0⟩⟩, ⟨.ident "a", ⟨1, 1⟩⟩, ⟨.eof, ⟨2, 2⟩⟩] := by
    apply eq_ok_of_toOption
    decide +kernel
  have hparen : tokens (Input.read ")") = .ok [⟨.closeParen, ⟨0, 0⟩⟩, ⟨.eof, ⟨1, 1⟩⟩] := by
    apply eq_ok_of_toOption
    decide +kernel
  obtain ⟨hflagged, hunflagged⟩ := written_number_is_one_token
  have hnumber := (hflagged hproper (fun h : NumberFlag.number = .integer => nomatch h)).1 _ hstops
  have hinteger := (hunflagged hproper).2 _ hends
  refine ⟨hproper, hwhole, hstops, hends, hmarked, hplain, ?_, ?_⟩
  · rw [hmarked, hslash] at hnumber
    exact hnumber
  · have hflag : v.plainFlag = .integer := if_pos hwhole
    rw [hplain, hparen, hflag] at hinteger
    exact hinteger

theorem number_before_open_string_has_no_token :
    Binary64.zero.IsProper ∧ Binary64.zero.isWhole ∧ Stops [' ', '"'] ∧
      tokens ((NumberFlag.integer.write .zero).toList ++ [' ', '"']) =
        .error (.single .invalidString ⟨2, 2⟩) := by
  have hproper : Binary64.zero.IsProper := nofun
  have hwhole : Binary64.zero.isWhole := by decide +kernel
  have hstops : Stops [' ', '"'] := rfl
  have hnumber := tokens_write hproper (fun _ : NumberFlag.integer = .integer => hwhole) hstops
  rw [tokens_openString] at hnumber
  exact ⟨hproper, hwhole, hstops, hnumber⟩

end Lexer

end CssMedia
