import MemoryHard.Proofs.HexSpellings

/-!
# Strings with escapes

Every character of a string can be written in several ways: as itself, by a letter after a
backslash or by the hexadecimal digits of its UTF-16 units.  The strict reading takes every
such text for the same characters.  In text that is passed over the digits may also be
those of half a pair.
-/

namespace MemoryHard.Json

/-- The letter stands for the character after a backslash. -/
inductive ShortEscape : Char → Char → Prop where
  | quote : ShortEscape '"' '"'
  | backslash : ShortEscape '\\' '\\'
  | slash : ShortEscape '/' '/'
  | backspace : ShortEscape 'b' '\x08'
  | formFeed : ShortEscape 'f' '\x0c'
  | lineFeed : ShortEscape 'n' '\n'
  | carriageReturn : ShortEscape 'r' '\r'
  | tab : ShortEscape 't' '\t'

/-- The four digits of a UTF-16 unit in either case. -/
def FourDigits (unit : Nat) (digits : List Char) : Prop :=
  ∃ high low : UInt8, unit = 256 * high.toNat + low.toNat ∧
    Hex.EitherCase (Hex.encode [high, low]) digits

/-- The texts that stand for one character of a string. -/
inductive WrittenChar : Char → List Char → Prop where
  | plain {char : Char} (plain : isPlain char) : WrittenChar char [char]
  | short {letter char : Char} (escape : ShortEscape letter char) :
      WrittenChar char ['\\', letter]
  | unit {char : Char} {digits : List Char} (small : char.toNat < 0x10000)
      (unit : FourDigits char.toNat digits) : WrittenChar char ('\\' :: 'u' :: digits)
  | pair {char : Char} {first second : List Char} (large : 0x10000 ≤ char.toNat)
      (high : FourDigits (0xd800 + (char.toNat - 0x10000) / 0x400) first)
      (low : FourDigits (0xdc00 + (char.toNat - 0x10000) % 0x400) second) :
      WrittenChar char ('\\' :: 'u' :: (first ++ '\\' :: 'u' :: second))

/-- The texts that stand for a string, after the opening quote and with the closing one. -/
inductive WrittenString : List Char → List Char → Prop where
  | close : WrittenString [] ['"']
  | cons {char : Char} {chars written text : List Char} (first : WrittenChar char written)
      (others : WrittenString chars text) : WrittenString (char :: chars) (written ++ text)

/-- The texts of strings, after the opening quote, in which any digits may be escaped. -/
inductive LooseString : List Char → Prop where
  | close : LooseString ['"']
  | plain {char : Char} {text : List Char} (plain : isPlain char) (others : LooseString text) :
      LooseString (char :: text)
  | short {letter char : Char} {text : List Char} (escape : ShortEscape letter char)
      (others : LooseString text) : LooseString ('\\' :: letter :: text)
  | unit {unit : Nat} {digits text : List Char} (spelled : FourDigits unit digits)
      (others : LooseString text) : LooseString ('\\' :: 'u' :: (digits ++ text))

theorem writtenString_of_isPlain {chars : List Char} (plain : ∀ char ∈ chars, isPlain char) :
    WrittenString chars (chars ++ ['"']) := by
  induction chars with
  | nil => exact .close
  | cons char chars ih =>
      obtain ⟨first, others⟩ := List.forall_mem_cons.mp plain
      change WrittenString _ ([char] ++ (chars ++ ['"']))
      exact .cons (.plain first) (ih others)

section Escapes

variable {unicode : Reader Char} {char letter meant : Char} {digits rest after : List Char}
  {number : Nat}

private theorem FourDigits.run_hexUnit (spelled : FourDigits number digits) (rest : List Char) :
    hexUnit.run (digits ++ rest) = .ok (number, rest) := by
  obtain ⟨high, low, rfl, written⟩ := spelled
  obtain ⟨first, second, _, rfl, firstSpelled, secondSpelled, behind⟩ := written.cons_inv
  obtain ⟨third, fourth, _, rfl, thirdSpelled, fourthSpelled, ends⟩ := behind.cons_inv
  cases ends
  have highBound := high.toNat_lt
  have lowBound := low.toNat_lt
  have firstValue := (firstSpelled.spells (by omega)).1
  have secondValue := (secondSpelled.spells (Nat.mod_lt _ (by decide))).1
  have thirdValue := (thirdSpelled.spells (by omega)).1
  have fourthValue := (fourthSpelled.spells (Nat.mod_lt _ (by decide))).1
  have value : unitValue? [first, second, third, fourth] =
      some (256 * high.toNat + low.toNat) := by
    simp only [unitValue?, List.foldlM_cons, List.foldlM_nil, firstValue, secondValue,
      thirdValue, fourthValue, Option.map_some, Option.bind_eq_bind, Option.bind_some,
      Option.pure_def, Option.some.injEq]
    omega
  simp only [hexUnit, List.cons_append, List.nil_append, value]

private theorem ShortEscape.run_escape (short : ShortEscape letter meant) (rest : List Char) :
    (escape unicode).run (letter :: rest) = .ok (meant, rest) := by
  cases short <;> rfl

private theorem run_escape_unicode (rest : List Char) :
    (escape unicode).run ('u' :: rest) = unicode.run rest :=
  rfl

private theorem run_strictUnicode_unit (small : char.toNat < 0x10000)
    (unit : FourDigits char.toNat digits) (rest : List Char) :
    strictUnicode.run (digits ++ rest) = .ok (char, rest) := by
  have valid : char.toNat < 0xd800 ∨ 0xdfff < char.toNat ∧ char.toNat < 0x110000 := char.valid
  have noLow : isLowHalf char.toNat = false := by
    simp only [isLowHalf, Bool.and_eq_false_iff, decide_eq_false_iff_not]
    omega
  have noHigh : isHighHalf char.toNat = false := by
    simp only [isHighHalf, Bool.and_eq_false_iff, decide_eq_false_iff_not]
    omega
  rw [strictUnicode, Reader.run_bind_ok (unit.run_hexUnit rest), noLow, noHigh]
  simp only [Bool.false_eq_true, if_false, Reader.run_pure, Char.ofNat_toNat]

private theorem run_strictUnicode_halves {high low : Nat} {first second : List Char}
    (isHigh : isHighHalf high) (isLow : isLowHalf low) (highSpelled : FourDigits high first)
    (lowSpelled : FourDigits low second) (rest : List Char) :
    strictUnicode.run (first ++ '\\' :: 'u' :: (second ++ rest)) =
      .ok (Char.ofNat (0x10000 + (high - 0xd800) * 0x400 + (low - 0xdc00)), rest) := by
  have noLow : ¬isLowHalf high := by
    simp only [isHighHalf, isLowHalf, Bool.and_eq_true, decide_eq_true_eq] at isHigh ⊢
    omega
  rw [strictUnicode, Reader.run_bind_ok (highSpelled.run_hexUnit _), if_neg noLow, if_pos isHigh,
    Reader.run_bind_ok (Reader.run_expect '\\' _), Reader.run_bind_ok (Reader.run_expect 'u' _),
    Reader.run_bind_ok (lowSpelled.run_hexUnit rest), if_pos isLow, Reader.run_pure]

private theorem run_strictUnicode_pair {first second : List Char} (large : 0x10000 ≤ char.toNat)
    (highSpelled : FourDigits (0xd800 + (char.toNat - 0x10000) / 0x400) first)
    (lowSpelled : FourDigits (0xdc00 + (char.toNat - 0x10000) % 0x400) second)
    (rest : List Char) :
    strictUnicode.run (first ++ '\\' :: 'u' :: (second ++ rest)) = .ok (char, rest) := by
  have valid : char.toNat < 0xd800 ∨ 0xdfff < char.toNat ∧ char.toNat < 0x110000 := char.valid
  generalize high : 0xd800 + (char.toNat - 0x10000) / 0x400 = highUnit at highSpelled
  generalize low : 0xdc00 + (char.toNat - 0x10000) % 0x400 = lowUnit at lowSpelled
  have isHigh : isHighHalf highUnit := by
    simp only [isHighHalf, Bool.and_eq_true, decide_eq_true_eq]
    omega
  have isLow : isLowHalf lowUnit := by
    simp only [isLowHalf, Bool.and_eq_true, decide_eq_true_eq]
    omega
  have value : 0x10000 + (highUnit - 0xd800) * 0x400 + (lowUnit - 0xdc00) = char.toNat := by
    omega
  rw [run_strictUnicode_halves isHigh isLow highSpelled lowSpelled, value, Char.ofNat_toNat]

private theorem FourDigits.run_looseUnicode (spelled : FourDigits number digits)
    (rest : List Char) : looseUnicode.run (digits ++ rest) = .ok ('\ufffd', rest) := by
  rw [looseUnicode, Reader.run_bind_ok (spelled.run_hexUnit rest), Reader.run_pure]

private theorem stringTail_escape (read : (escape unicode).run rest = .ok (meant, after))
    (before : List Char) :
    stringTail unicode before ('\\' :: rest) = stringTail unicode (meant :: before) after := by
  rw [stringTail, if_neg (by decide), if_pos rfl]
  split
  next found =>
    obtain ⟨rfl, rfl⟩ := Prod.mk.inj (Except.ok.inj (read.symm.trans found))
    rfl
  next found => cases read.symm.trans found

private theorem stringTail_close (before rest : List Char) :
    stringTail unicode before ('"' :: rest) = .ok (before.reverse, rest) := by
  rw [stringTail, if_pos rfl]

end Escapes

/-- However it is written, the strict reading takes the character. -/
theorem WrittenChar.stringTail_eq {char : Char} {written : List Char}
    (spelled : WrittenChar char written) (before rest : List Char) :
    stringTail strictUnicode before (written ++ rest) =
      stringTail strictUnicode (char :: before) rest := by
  cases spelled with
  | plain plain => exact stringTail_plain plain before rest
  | short short => exact stringTail_escape (short.run_escape rest) before
  | @unit _ digits small unit =>
      have read : (escape strictUnicode).run ('u' :: (digits ++ rest)) = .ok (char, rest) := by
        rw [run_escape_unicode, run_strictUnicode_unit small unit]
      exact stringTail_escape read before
  | @pair _ first second large high low =>
      have read : (escape strictUnicode).run ('u' :: (first ++ '\\' :: 'u' :: (second ++ rest))) =
          .ok (char, rest) := by
        rw [run_escape_unicode, run_strictUnicode_pair large high low]
      have tail := stringTail_escape read before
      simpa using tail

theorem WrittenString.run {chars text : List Char} (spelled : WrittenString chars text)
    (rest : List Char) : strictString.run (text ++ rest) = .ok (chars, rest) := by
  have known : ∀ before, stringTail strictUnicode before (text ++ rest) =
      .ok (before.reverse ++ chars, rest) := by
    induction spelled with
    | close =>
        intro before
        rw [List.singleton_append, stringTail_close, List.append_nil]
    | @cons char chars written text first others ih =>
        intro before
        rw [List.append_assoc, first.stringTail_eq, ih, List.reverse_cons, List.append_assoc,
          List.singleton_append]
  exact known []

theorem LooseString.run {text : List Char} (spelled : LooseString text) (rest : List Char) :
    ∃ chars, looseString.run (text ++ rest) = .ok (chars, rest) := by
  have known : ∀ before, ∃ chars,
      stringTail looseUnicode before (text ++ rest) = .ok (chars, rest) := by
    induction spelled with
    | close =>
        intro before
        exact ⟨before.reverse, stringTail_close before rest⟩
    | @plain char text plain others ih =>
        intro before
        rw [List.cons_append, stringTail_plain plain]
        exact ih (char :: before)
    | @short letter char text short others ih =>
        intro before
        rw [List.cons_append, List.cons_append, stringTail_escape (short.run_escape _)]
        exact ih (char :: before)
    | @unit unit digits text spelled others ih =>
        intro before
        have read : (escape looseUnicode).run ('u' :: (digits ++ (text ++ rest))) =
            .ok ('\ufffd', text ++ rest) := by
          rw [run_escape_unicode, spelled.run_looseUnicode]
        rw [List.cons_append, List.cons_append, List.append_assoc, stringTail_escape read]
        exact ih ('\ufffd' :: before)
  exact known []

end MemoryHard.Json
