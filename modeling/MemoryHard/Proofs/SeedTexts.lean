import MemoryHard.Proofs.BoardSteps
import MemoryHard.Proofs.HexSpellings

/-!
# Seeds in hexadecimal

A text with marks `0x` before it is judged by the bytes behind the last mark.  They are
accepted exactly if they are an even number of hexadecimal digits, and advancing to the
text is then advancing to the seed that they spell.  Otherwise the fault of the text is
reported before the number is looked at, and nothing changes.
-/

namespace MemoryHard

namespace Hex

section Utf8

private theorem toList_loop (bytes : ByteArray) (position : Nat) (before : List UInt8) :
    ByteArray.toList.loop bytes position before =
      before.reverse ++ bytes.data.toList.drop position := by
  induction position, before using ByteArray.toList.loop.induct bytes with
  | case1 position before inside ih =>
      have bound : position < bytes.data.toList.length := by simpa using inside
      have byte : bytes.get! position = bytes.data.toList[position] :=
        getElem!_pos bytes.data position (by simpa using inside)
      rw [ByteArray.toList.loop, if_pos inside, ih, List.drop_eq_getElem_cons bound, byte,
        List.reverse_cons, List.append_assoc, List.singleton_append]
  | case2 position before behind =>
      have bound : bytes.data.toList.length ≤ position := by simpa using behind
      rw [ByteArray.toList.loop, if_neg behind, List.drop_eq_nil_of_le bound, List.append_nil]

private theorem utf8_eq (text : String) :
    text.toUTF8.toList = text.toList.flatMap String.utf8EncodeChar := by
  rw [String.toUTF8_eq_toByteArray, ← String.utf8Encode_toList, List.utf8Encode, ByteArray.toList,
    toList_loop, List.toList_data_toByteArray, List.reverse_nil, List.nil_append, List.drop_zero]

private theorem byteChars_eq (text : String) :
    byteChars text = (text.toList.flatMap String.utf8EncodeChar).map charOfByte := by
  rw [byteChars, utf8_eq]
  rfl

private theorem utf8EncodeChar_ascii {char : Char} (small : char.toNat < 128) :
    (String.utf8EncodeChar char).map charOfByte = [char] := by
  have bound : char.val.toNat ≤ 127 := Nat.le_of_lt_succ small
  have value : (UInt8.ofNat char.val.toNat).toNat = char.toNat := Nat.mod_eq_of_lt (by omega)
  rw [String.utf8EncodeChar, if_pos bound, List.map_singleton, charOfByte, value,
    Char.ofNat_toNat]

/-- Only a character below 128 is encoded with a byte below 128. -/
private theorem toNat_lt_of_utf8EncodeChar {char : Char} {byte : UInt8} {bytes : List UInt8}
    (encoded : String.utf8EncodeChar char = byte :: bytes) (small : byte.toNat < 128) :
    char.toNat < 128 := by
  apply Nat.lt_of_not_le
  intro large
  have above : ¬char.val.toNat ≤ 127 := Nat.not_le_of_gt large
  have first : 192 ≤ byte.toNat := by
    rw [String.utf8EncodeChar, if_neg above] at encoded
    split at encoded
    · rw [← (List.cons.inj encoded).1, UInt8.toNat_ofNat']
      omega
    · split at encoded
      · rw [← (List.cons.inj encoded).1, UInt8.toNat_ofNat']
        omega
      · rw [← (List.cons.inj encoded).1, UInt8.toNat_ofNat']
        omega
  omega

private theorem byteChars_of_ascii {text : String}
    (ascii : ∀ char ∈ text.toList, char.toNat < 128) : byteChars text = text.toList := by
  have known : ∀ chars : List Char, (∀ char ∈ chars, char.toNat < 128) →
      (chars.flatMap String.utf8EncodeChar).map charOfByte = chars := by
    intro chars small
    induction chars with
    | nil => rfl
    | cons char chars ih =>
        obtain ⟨first, others⟩ := List.forall_mem_cons.mp small
        rw [List.flatMap_cons, List.map_append, utf8EncodeChar_ascii first, ih others,
          List.singleton_append]
  rw [byteChars_eq, known _ ascii]

/-- Characters whose bytes start with an ASCII character start with it themselves. -/
private theorem eq_cons_of_utf8 {chars : List Char} {char : Char} {rest : List Char}
    (small : char.toNat < 128)
    (bytes : (chars.flatMap String.utf8EncodeChar).map charOfByte = char :: rest) :
    ∃ others, chars = char :: others ∧
      (others.flatMap String.utf8EncodeChar).map charOfByte = rest := by
  cases chars with
  | nil => cases bytes
  | cons first others =>
      rw [List.flatMap_cons, List.map_append] at bytes
      have firstSmall : first.toNat < 128 := by
        cases encoded : String.utf8EncodeChar first with
        | nil => exact absurd encoded String.utf8EncodeChar_ne_nil
        | cons byte more =>
            rw [encoded] at bytes
            have value : charOfByte byte = char := (List.cons.inj bytes).1
            apply toNat_lt_of_utf8EncodeChar encoded
            rw [← toNat_charOfByte, value]
            exact small
      rw [utf8EncodeChar_ascii firstSmall, List.singleton_append] at bytes
      obtain ⟨rfl, behind⟩ := List.cons.inj bytes
      exact ⟨others, rfl, behind⟩

/-- ASCII characters in bytes are these characters. -/
private theorem eq_of_utf8 {chars text : List Char} (ascii : ∀ char ∈ text, char.toNat < 128)
    (bytes : (chars.flatMap String.utf8EncodeChar).map charOfByte = text) : chars = text := by
  induction text generalizing chars with
  | nil =>
      cases chars with
      | nil => rfl
      | cons char chars =>
          rw [List.map_eq_nil_iff, List.flatMap_cons, List.append_eq_nil_iff] at bytes
          exact absurd bytes.1 String.utf8EncodeChar_ne_nil
  | cons char text ih =>
      obtain ⟨small, others⟩ := List.forall_mem_cons.mp ascii
      obtain ⟨rest, rfl, behind⟩ := eq_cons_of_utf8 small bytes
      rw [ih others behind]

end Utf8

section Marks

/-- The mark `0x`, some times over. -/
def marks : Nat → String
  | 0 => ""
  | count + 1 => "0x" ++ marks count

/-- The text is the rest with marks before it, and the rest has none itself. -/
def Unmarked (text rest : String) : Prop :=
  (∃ count, text = marks count ++ rest) ∧ ∀ more, rest ≠ "0x" ++ more

private theorem byteChars_append (first second : String) :
    byteChars (first ++ second) = byteChars first ++ byteChars second := by
  simp only [byteChars_eq, String.toList_append, List.flatMap_append, List.map_append]

private theorem byteChars_mark (text : String) :
    byteChars ("0x" ++ text) = '0' :: 'x' :: byteChars text := by
  have mark : "0x".toList = ['0', 'x'] := rfl
  have ascii : ∀ char ∈ "0x".toList, char.toNat < 128 := by
    rw [mark]
    simp only [List.forall_mem_cons, List.not_mem_nil, false_imp_iff, implies_true, and_true]
    decide
  rw [byteChars_append, byteChars_of_ascii ascii, mark, List.cons_append, List.singleton_append]

private theorem dropMarks_marks (count : Nat) (rest : String) :
    dropMarks (byteChars (marks count ++ rest)) = dropMarks (byteChars rest) := by
  induction count with
  | zero => rw [marks, String.empty_append]
  | succ count ih => rw [marks, String.append_assoc, byteChars_mark, dropMarks, ih]

private theorem dropMarks_of_bare {rest : String} (bare : ∀ more, rest ≠ "0x" ++ more) :
    dropMarks (byteChars rest) = byteChars rest := by
  unfold dropMarks
  split
  next behind bytes =>
    rw [byteChars_eq] at bytes
    obtain ⟨others, zero, later⟩ := eq_cons_of_utf8 (by decide) bytes
    obtain ⟨more, cross, _⟩ := eq_cons_of_utf8 (by decide) later
    have text : rest = "0x" ++ String.ofList more := by
      apply String.toList_inj.mp
      simp [zero, cross]
    exact absurd text (bare _)
  next => rfl

private theorem Unmarked.dropMarks_eq {text rest : String} (unmarked : Unmarked text rest) :
    dropMarks (byteChars text) = byteChars rest := by
  obtain ⟨⟨count, rfl⟩, bare⟩ := unmarked
  rw [dropMarks_marks, dropMarks_of_bare bare]

/-- Every text has marks before it, if only none. -/
theorem exists_unmarked (text : String) : ∃ rest, Unmarked text rest := by
  by_cases bare : ∀ more, text ≠ "0x" ++ more
  · exact ⟨text, ⟨0, by rw [marks, String.empty_append]⟩, bare⟩
  · simp only [ne_eq, Classical.not_forall, Classical.not_not] at bare
    obtain ⟨more, marked⟩ := bare
    obtain ⟨rest, ⟨count, split⟩, bare⟩ := exists_unmarked more
    exact ⟨rest, ⟨count + 1, by rw [marked, split, marks, String.append_assoc]⟩, bare⟩
termination_by text.length
decreasing_by
  have mark : "0x".length = 2 := by decide
  rw [marked, String.length_append]
  omega

private theorem EitherCase.byteChars_eq {seed : Bytes} {text : String}
    (spelled : EitherCase (encode seed) text.toList) : byteChars text = text.toList :=
  byteChars_of_ascii fun char member => (spelled.ascii char member).1

private theorem EitherCase.bare {seed : Bytes} {text : String}
    (spelled : EitherCase (encode seed) text.toList) : ∀ more, text ≠ "0x" ++ more := by
  rintro more rfl
  have member : 'x' ∈ ("0x" ++ more).toList := by simp
  exact (spelled.ascii 'x' member).2 rfl

private theorem unmarked_marks {seed : Bytes} {text : String} (count : Nat)
    (spelled : EitherCase (encode seed) text.toList) : Unmarked (marks count ++ text) text :=
  ⟨⟨count, rfl⟩, spelled.bare⟩

end Marks

end Hex

namespace Board

open Hex (Unmarked IsDigit EitherCase charOfByte)

variable {board : Board} {number : UInt64} {text rest : String}

private theorem attempt_of_spelled {seed : Bytes} (unmarked : Unmarked text rest)
    (spelled : EitherCase (Hex.encode seed) rest.toList) (board : Board) (number : UInt64) :
    board.attempt (.advanceHex number text) = board.attempt (.advance number seed) := by
  apply attempt_advanceHex_of_ok
  rw [unmarked.dropMarks_eq, spelled.byteChars_eq, Hex.decode_encode spelled]

/-- What comes of an attempt to advance to a text, by the bytes of the rest behind its
marks. -/
structure JudgedBy (board : Board) (number : UInt64) (text rest : String) : Prop where
  /-- Digits in pairs stand for the seed that they spell. -/
  digits : (∀ byte ∈ rest.toUTF8.toList, IsDigit byte) → rest.toUTF8.toList.length % 2 = 0 →
    ∃ seed, EitherCase (Hex.encode seed) rest.toList ∧
      board.attempt (.advanceHex number text) = board.attempt (.advance number seed)
  odd : rest.toUTF8.toList.length % 2 = 1 →
    board.attempt (.advanceHex number text) = (.error (.seedHex .oddLength), board)
  /-- The first byte that is no digit is reported with its place. -/
  bad : ¬(∀ byte ∈ rest.toUTF8.toList, IsDigit byte) → rest.toUTF8.toList.length % 2 = 0 →
    ∃ before byte after, rest.toUTF8.toList = before ++ byte :: after ∧
      (∀ digit ∈ before, IsDigit digit) ∧ ¬IsDigit byte ∧
      board.attempt (.advanceHex number text) =
        (.error (.seedHex (.badDigit (charOfByte byte) before.length)), board)

private theorem judgedBy_of_unmarked (unmarked : Unmarked text rest) (board : Board)
    (number : UInt64) : board.JudgedBy number text rest := by
  have bytes : Hex.dropMarks (Hex.byteChars text) = rest.toUTF8.toList.map charOfByte :=
    unmarked.dropMarks_eq
  refine ⟨?_, ?_, ?_⟩
  · intro digits even
    obtain ⟨seed, spelled⟩ := Hex.exists_spelled _ digits even
    have same : rest.toList = rest.toUTF8.toList.map charOfByte := by
      apply Hex.eq_of_utf8 (fun char member => (spelled.ascii char member).1)
      rw [Hex.utf8_eq]
    rw [← same] at spelled
    exact ⟨seed, spelled, attempt_of_spelled unmarked spelled board number⟩
  · intro odd
    apply attempt_advanceHex_of_error
    rw [bytes, Hex.decode_of_odd (by rw [List.length_map, odd])]
  · intro mixed even
    obtain ⟨before, byte, after, split, digits, other⟩ := Hex.exists_first_other mixed
    refine ⟨before, byte, after, split, digits, other, ?_⟩
    apply attempt_advanceHex_of_error
    rw [bytes, split]
    rw [split] at even
    exact Hex.decode_of_bad digits other even

/-- Every text is the rest behind its marks, and that alone decides whether it is refused.  In
particular all spellings of a seed, marked any number of times, act as the seed. -/
theorem advanceHex_judged (board : Board) (number : UInt64) :
    (∀ text, ∃ rest, Unmarked text rest) ∧
      (∀ text rest, Unmarked text rest → board.JudgedBy number text rest) ∧
      ∀ seed count spelled, EitherCase (Hex.encode seed) spelled.toList →
        board.attempt (.advanceHex number (Hex.marks count ++ spelled)) =
          board.attempt (.advance number seed) := by
  refine ⟨Hex.exists_unmarked, fun text rest unmarked => ?_, fun seed count text spelled => ?_⟩
  · exact judgedBy_of_unmarked unmarked board number
  · exact attempt_of_spelled (Hex.unmarked_marks count spelled) spelled board number

theorem advanceHex_two_marks :
    let board : Board := { settings := {}, made := 0, current? := none }
    board.attempt (.advanceHex 7 "0x0xfF") = board.attempt (.advance 7 [255]) ∧
      board.attempt (.advanceHex 7 "0xé") =
        (.error (.seedHex (.badDigit 'Ã' 0)), board) := by
  intro board
  constructor
  · have spelled : EitherCase (Hex.encode [255]) "fF".toList :=
      .cons (.inl rfl) (.cons (.inr rfl) .nil)
    exact (advanceHex_judged board 7).2.2 [255] 2 "fF" spelled
  · have bytes : "é".toUTF8.toList = [195, 169] := by
      rw [Hex.utf8_eq]
      rfl
    have unmarked : Unmarked "0xé" "é" := by
      refine ⟨⟨1, rfl⟩, fun more same => ?_⟩
      have first := congrArg String.toList same
      simp at first
    have other : ¬∀ byte ∈ "é".toUTF8.toList, IsDigit byte := by
      rw [bytes]
      intro digits
      exact absurd (digits 195 List.mem_cons_self) (by decide)
    obtain ⟨before, byte, after, split, digits, _, failed⟩ :=
      ((advanceHex_judged board 7).2.1 "0xé" "é" unmarked).bad other (by rw [bytes]; rfl)
    cases before with
    | nil =>
        rw [bytes] at split
        obtain ⟨rfl, rfl⟩ := List.cons.inj split
        exact failed
    | cons digit before =>
        rw [bytes] at split
        obtain ⟨rfl, _⟩ := List.cons.inj split
        exact absurd (digits 195 List.mem_cons_self) (by decide)

end Board

end MemoryHard
