import MemoryHard.Proofs.Outcome
import MemoryHard.Proofs.SpelledValues

/-!
# Spellings of bytes in hexadecimal

Bytes have one spelling in hexadecimal digits up to the case of the letters, and are read
back from it.  Every even number of digits is such a spelling.  Any other text is refused,
for its odd length before anything else, or for the first character that is no digit.
-/

namespace MemoryHard

namespace Hex

/-- The character is the letter or its capital. -/
def EitherLetter (letter char : Char) : Prop :=
  char = letter ∨ char = letter.toUpper

/-- The letters as they are or as capitals, each on its own. -/
inductive EitherCase : List Char → List Char → Prop where
  | nil : EitherCase [] []
  | cons {letter char : Char} {letters written : List Char} (first : EitherLetter letter char)
      (others : EitherCase letters written) : EitherCase (letter :: letters) (char :: written)

theorem EitherCase.refl (letters : List Char) : EitherCase letters letters := by
  induction letters with
  | nil => exact .nil
  | cons letter letters ih => exact .cons (.inl rfl) ih

theorem EitherLetter.spells {value : Nat} {char : Char}
    (spelled : EitherLetter (Nat.digitChar value) char) (small : value < 16) :
    digitValue? char = some value ∧ Json.isPlain char := by
  have known : ∀ value < 16,
      (digitValue? (Nat.digitChar value) = some value ∧ Json.isPlain (Nat.digitChar value)) ∧
        digitValue? (Nat.digitChar value).toUpper = some value ∧
          Json.isPlain (Nat.digitChar value).toUpper := by decide
  rcases spelled with rfl | rfl
  · exact (known value small).1
  · exact (known value small).2

theorem EitherCase.cons_inv {byte : UInt8} {bytes : Bytes} {text : List Char}
    (spelled : EitherCase (encode (byte :: bytes)) text) :
    ∃ high low rest, text = high :: low :: rest ∧
      EitherLetter (Nat.digitChar (byte.toNat / 16)) high ∧
      EitherLetter (Nat.digitChar (byte.toNat % 16)) low ∧ EitherCase (encode bytes) rest := by
  cases spelled with
  | @cons _ high _ _ highSpelled behind =>
      cases behind with
      | @cons _ low _ rest lowSpelled restSpelled =>
          exact ⟨high, low, rest, rfl, highSpelled, lowSpelled, restSpelled⟩

private theorem EitherCase.forall_mem {bytes : Bytes} {text : List Char} {property : Char → Prop}
    (spelled : EitherCase (encode bytes) text)
    (digits : ∀ value < 16, ∀ char, EitherLetter (Nat.digitChar value) char → property char) :
    ∀ char ∈ text, property char := by
  induction bytes generalizing text with
  | nil =>
      cases spelled
      simp
  | cons byte bytes ih =>
      obtain ⟨high, low, rest, rfl, highSpelled, lowSpelled, restSpelled⟩ := spelled.cons_inv
      have bound := byte.toNat_lt
      have first := digits (byte.toNat / 16) (by omega) high highSpelled
      have second := digits (byte.toNat % 16) (Nat.mod_lt _ (by decide)) low lowSpelled
      exact List.forall_mem_cons.mpr ⟨first, List.forall_mem_cons.mpr ⟨second, ih restSpelled⟩⟩

theorem EitherCase.isPlain {bytes : Bytes} {text : List Char}
    (spelled : EitherCase (encode bytes) text) : ∀ char ∈ text, Json.isPlain char := by
  exact spelled.forall_mem fun value small char digit => (digit.spells small).2

theorem EitherCase.ascii {bytes : Bytes} {text : List Char}
    (spelled : EitherCase (encode bytes) text) : ∀ char ∈ text, char.toNat < 128 ∧ char ≠ 'x' := by
  have known : ∀ value < 16,
      ((Nat.digitChar value).toNat < 128 ∧ Nat.digitChar value ≠ 'x') ∧
        (Nat.digitChar value).toUpper.toNat < 128 ∧ (Nat.digitChar value).toUpper ≠ 'x' := by
    decide
  refine spelled.forall_mem fun value small char digit => ?_
  rcases digit with rfl | rfl
  · exact (known value small).1
  · exact (known value small).2

private theorem EitherCase.length_eq {bytes : Bytes} {text : List Char}
    (spelled : EitherCase (encode bytes) text) : text.length = 2 * bytes.length := by
  induction bytes generalizing text with
  | nil =>
      cases spelled
      rfl
  | cons byte bytes ih =>
      obtain ⟨high, low, rest, rfl, -, -, restSpelled⟩ := spelled.cons_inv
      simp only [List.length_cons, ih restSpelled]
      omega

private theorem decodePairs_encode {bytes : Bytes} {text : List Char}
    (spelled : EitherCase (encode bytes) text) (position : Nat) :
    decodePairs position text = .ok bytes := by
  induction bytes generalizing text position with
  | nil =>
      cases spelled
      rfl
  | cons byte bytes ih =>
      obtain ⟨high, low, rest, rfl, highSpelled, lowSpelled, restSpelled⟩ := spelled.cons_inv
      have bound := byte.toNat_lt
      have highValue := (highSpelled.spells (by omega)).1
      have lowValue := (lowSpelled.spells (Nat.mod_lt _ (by decide))).1
      rw [decodePairs, digitAt, highValue, digitAt, lowValue, ih restSpelled]
      simp only [pure_eq_ok, ok_bind, Nat.div_add_mod, UInt8.ofNat_toNat]

/-- Bytes are read from their digits in either case. -/
theorem decode_encode {bytes : Bytes} {text : List Char}
    (spelled : EitherCase (encode bytes) text) : decode text = .ok bytes := by
  rw [decode, spelled.length_eq, if_neg (by omega), decodePairs_encode spelled]

section Refused

/-- The byte is one of the digits in ASCII, in either case. -/
def IsDigit (byte : UInt8) : Prop :=
  0x30 ≤ byte ∧ byte ≤ 0x39 ∨ 0x41 ≤ byte ∧ byte ≤ 0x46 ∨ 0x61 ≤ byte ∧ byte ≤ 0x66

instance (byte : UInt8) : Decidable (IsDigit byte) :=
  inferInstanceAs (Decidable (_ ∧ _ ∨ _ ∧ _ ∨ _ ∧ _))

def charOfByte (byte : UInt8) : Char :=
  Char.ofNat byte.toNat

theorem toNat_charOfByte (byte : UInt8) : (charOfByte byte).toNat = byte.toNat := by
  have known : ∀ number < 256, (Char.ofNat number).toNat = number := by decide +kernel
  exact known byte.toNat byte.toNat_lt

instance (letter char : Char) : Decidable (EitherLetter letter char) :=
  inferInstanceAs (Decidable (_ ∨ _))

private theorem IsDigit.exists_letter {byte : UInt8} (digit : IsDigit byte) :
    ∃ value < 16, EitherLetter (Nat.digitChar value) (charOfByte byte) := by
  have known : ∀ number < 256, IsDigit (UInt8.ofNat number) →
      ∃ value < 16, EitherLetter (Nat.digitChar value) (charOfByte (UInt8.ofNat number)) := by
    decide +kernel
  have bound := byte.toNat_lt
  simpa using known byte.toNat bound (by simpa using digit)

private theorem digitValue?_of_not_isDigit {byte : UInt8} (other : ¬IsDigit byte) :
    digitValue? (charOfByte byte) = none := by
  have known : ∀ number < 256, ¬IsDigit (UInt8.ofNat number) →
      digitValue? (charOfByte (UInt8.ofNat number)) = none := by
    decide +kernel
  have bound := byte.toNat_lt
  simpa using known byte.toNat bound (by simpa using other)

private theorem encode_cons_of_digits {high low : Nat} (highSmall : high < 16) (lowSmall : low < 16)
    (bytes : Bytes) :
    encode (UInt8.ofNat (16 * high + low) :: bytes) =
      Nat.digitChar high :: Nat.digitChar low :: encode bytes := by
  have value : (UInt8.ofNat (16 * high + low)).toNat = 16 * high + low :=
    Nat.mod_eq_of_lt (by omega)
  have first : (16 * high + low) / 16 = high := by omega
  have second : (16 * high + low) % 16 = low := by omega
  rw [encode, List.flatMap_cons, value, first, second]
  rfl

/-- An even number of digits spells bytes. -/
theorem exists_spelled : (digits : List UInt8) → (∀ byte ∈ digits, IsDigit byte) →
    digits.length % 2 = 0 → ∃ bytes, EitherCase (encode bytes) (digits.map charOfByte)
  | [], _, _ => ⟨[], .nil⟩
  | [_], _, even => absurd even (by simp)
  | high :: low :: rest, all, even => by
      obtain ⟨highDigit, others⟩ := List.forall_mem_cons.mp all
      obtain ⟨lowDigit, restDigits⟩ := List.forall_mem_cons.mp others
      obtain ⟨highValue, highSmall, highSpelled⟩ := highDigit.exists_letter
      obtain ⟨lowValue, lowSmall, lowSpelled⟩ := lowDigit.exists_letter
      have shorter : rest.length % 2 = 0 := by
        simp only [List.length_cons] at even
        omega
      obtain ⟨bytes, spelled⟩ := exists_spelled rest restDigits shorter
      refine ⟨UInt8.ofNat (16 * highValue + lowValue) :: bytes, ?_⟩
      rw [encode_cons_of_digits highSmall lowSmall]
      exact .cons highSpelled (.cons lowSpelled spelled)

private theorem digitAt_of_isDigit {byte : UInt8} (digit : IsDigit byte) (position : Nat) :
    ∃ value, digitAt (charOfByte byte) position = .ok value := by
  obtain ⟨value, small, spelled⟩ := digit.exists_letter
  exact ⟨value, by rw [digitAt, (spelled.spells small).1]⟩

private theorem digitAt_of_not_isDigit {byte : UInt8} (other : ¬IsDigit byte) (position : Nat) :
    digitAt (charOfByte byte) position = .error (.badDigit (charOfByte byte) position) := by
  rw [digitAt, digitValue?_of_not_isDigit other]

/-- Pairs are read up to the one with the first byte that is no digit. -/
private theorem decodePairs_of_bad {bad : UInt8} {after : List UInt8} (other : ¬IsDigit bad) :
    (before : List UInt8) → (∀ byte ∈ before, IsDigit byte) →
      (before ++ bad :: after).length % 2 = 0 → (position : Nat) →
        decodePairs position ((before ++ bad :: after).map charOfByte) =
          .error (.badDigit (charOfByte bad) (position + before.length))
  | [], _, even, position => by
      cases after with
      | nil => simp at even
      | cons low rest =>
          simp only [List.nil_append, List.map_cons, decodePairs,
            digitAt_of_not_isDigit other position, error_bind]
          rfl
  | [high], all, _, position => by
      obtain ⟨value, read⟩ := digitAt_of_isDigit (all high List.mem_cons_self) position
      simp only [List.cons_append, List.nil_append, List.map_cons, decodePairs, read, ok_bind,
        digitAt_of_not_isDigit other (position + 1), error_bind]
      rfl
  | high :: low :: before, all, even, position => by
      obtain ⟨highDigit, others⟩ := List.forall_mem_cons.mp all
      obtain ⟨lowDigit, digits⟩ := List.forall_mem_cons.mp others
      obtain ⟨highValue, highRead⟩ := digitAt_of_isDigit highDigit position
      obtain ⟨lowValue, lowRead⟩ := digitAt_of_isDigit lowDigit (position + 1)
      have shorter : (before ++ bad :: after).length % 2 = 0 := by
        simp only [List.cons_append, List.length_cons] at even
        omega
      have later := decodePairs_of_bad other before digits shorter (position + 2)
      have place : position + 2 + before.length = position + (high :: low :: before).length := by
        simp only [List.length_cons]
        omega
      rw [place] at later
      simp only [List.cons_append, List.map_cons, decodePairs, highRead, lowRead, later, ok_bind,
        error_bind]

/-- The length is looked at before any character. -/
theorem decode_of_odd {text : List Char} (odd : text.length % 2 = 1) :
    decode text = .error .oddLength := by
  rw [decode, if_pos (by omega)]

theorem decode_of_bad {before after : List UInt8} {bad : UInt8}
    (digits : ∀ byte ∈ before, IsDigit byte) (other : ¬IsDigit bad)
    (even : (before ++ bad :: after).length % 2 = 0) :
    decode ((before ++ bad :: after).map charOfByte) =
      .error (.badDigit (charOfByte bad) before.length) := by
  have length : ¬((before ++ bad :: after).map charOfByte).length % 2 ≠ 0 := by
    rw [List.length_map, even]
    decide
  rw [decode, if_neg length, decodePairs_of_bad other before digits even, Nat.zero_add]

theorem exists_first_other {bytes : List UInt8} (mixed : ¬∀ byte ∈ bytes, IsDigit byte) :
    ∃ before byte after, bytes = before ++ byte :: after ∧ (∀ digit ∈ before, IsDigit digit) ∧
      ¬IsDigit byte := by
  cases found : bytes.find? fun byte => !decide (IsDigit byte) with
  | none =>
      rw [List.find?_eq_none] at found
      exact absurd (fun byte member => by simpa using found byte member) mixed
  | some byte =>
      obtain ⟨other, before, after, split, digits⟩ := List.find?_eq_some_iff_append.mp found
      exact ⟨before, byte, after, split, by simpa using digits, by simpa using other⟩

end Refused

end Hex

end MemoryHard
