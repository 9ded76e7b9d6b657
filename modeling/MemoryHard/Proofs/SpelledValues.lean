import MemoryHard.Json.Value
import MemoryHard.Proofs.Spellings

/-!
# Strings and numbers

A string of plain characters is closed by its quote.  The plain numeral of a number
below `2 ^ 64` is read as this number, whatever its size, and a part of it as the
number of its digits.
-/

namespace MemoryHard.Json

section Strings

/-- The character stands for itself in a string. -/
def isPlain (char : Char) : Bool :=
  char ≠ '"' && char ≠ '\\' && 0x20 ≤ char.toNat

theorem stringTail_plain {unicode : Reader Char} {char : Char} (plain : isPlain char)
    (before rest : List Char) :
    stringTail unicode before (char :: rest) = stringTail unicode (char :: before) rest := by
  simp only [isPlain, ne_eq, Bool.and_eq_true, decide_eq_true_eq, decide_not, Bool.not_eq_true',
    decide_eq_false_iff_not] at plain
  obtain ⟨⟨quote, backslash⟩, visible⟩ := plain
  rw [stringTail, if_neg quote, if_neg backslash, if_neg (by omega)]

private theorem stringTail_append {unicode : Reader Char} {plain : List Char}
    (allPlain : ∀ char ∈ plain, isPlain char) (before rest : List Char) :
    stringTail unicode before (plain ++ rest) =
      stringTail unicode (plain.reverse ++ before) rest := by
  induction plain generalizing before with
  | nil => rfl
  | cons char plain ih =>
      obtain ⟨first, others⟩ := List.forall_mem_cons.mp allPlain
      rw [List.cons_append, stringTail_plain first, ih others, List.reverse_cons,
        List.append_assoc, List.singleton_append]

/-- Plain characters up to the closing quote. -/
theorem closed_strictString {plain : List Char} (allPlain : ∀ char ∈ plain, isPlain char) :
    strictString.Closed (plain ++ ['"']) plain where
  whole rest := by
    change stringTail strictUnicode [] (plain ++ ['"'] ++ rest) = _
    rw [List.append_assoc, stringTail_append allPlain, List.append_nil, List.singleton_append,
      stringTail, if_pos rfl, List.reverse_reverse]
  cut part rest joined proper := by
    change stringTail strictUnicode [] part = _
    have known : ∀ char ∈ part, isPlain char := by
      rcases cut_append joined with ⟨missing, _, within⟩ | ⟨more, rfl, behind⟩
      · intro char member
        exact allPlain char (within ▸ List.mem_append_left _ member)
      · obtain rfl : more = [] := by
          cases more with
          | nil => rfl
          | cons first more => simp_all
        simpa using allPlain
    rw [← List.append_nil part, stringTail_append known, stringTail]

theorem closed_string {plain : List Char} (allPlain : ∀ char ∈ plain, isPlain char) :
    string.Closed ('"' :: (plain ++ ['"'])) plain := by
  apply Reader.Closed.at_position _ rfl
  exact (Reader.closed_next '"').bind (closed_strictString allPlain)

/-- A name is spelled as a string, which is not its only spelling. -/
theorem closed_variant {α : Type} {ofName? : List Char → Option α} {name : List Char} {value : α}
    (named : ofName? name = some value) (allPlain : ∀ char ∈ name, isPlain char) :
    (variant ofName?).Closed ('"' :: (name ++ ['"'])) value := by
  have tail : (nameTail ofName?).Closed (name ++ ['"']) value := by
    apply (closed_strictString allPlain).then_pure
    rw [named]
  apply Reader.Closed.at_position _ rfl
  exact (Reader.closed_expect '"').bind tail

end Strings

theorem closed_boolean (value : Bool) :
    boolean.Closed (if value then "true".toList else "false".toList) value := by
  cases value with
  | true =>
      apply Reader.Closed.at_position _ rfl
      exact (Reader.closed_literal _).then_pure rfl
  | false =>
      apply Reader.Closed.at_position _ rfl
      exact (Reader.closed_literal _).then_pure rfl

namespace Numeral

/-- A run of digits, as it follows the point or the mark of the exponent. -/
structure Digits (digits : List Char) : Prop where
  nonempty : digits ≠ []
  digit : ∀ char ∈ digits, isDigit char

theorem Digits.exists_cons {digits : List Char} (run : Digits digits) :
    ∃ char others, digits = char :: others ∧ isDigit char := by
  cases digits with
  | nil => exact absurd rfl run.nonempty
  | cons char others => exact ⟨char, others, rfl, run.digit char List.mem_cons_self⟩

/-- A run of digits that is a whole part. -/
structure Whole (digits : List Char) : Prop extends Digits digits where
  /-- A zero in front stands alone. -/
  leading : digits.head? = some '0' → digits = ['0']

/-- A run of digits that reads as a number below `2 ^ 64`. -/
structure Readable (digits : List Char) : Prop extends Whole digits where
  small : Nat.ofDigitChars 10 digits 0 < UInt64.size

private theorem isDigit_eq (char : Char) : isDigit char = char.isDigit :=
  rfl

private theorem valueOf_map (digits : List Char) :
    valueOf (digits.map digitValue) = Nat.ofDigitChars 10 digits 0 := by
  rw [valueOf, List.foldl_map]
  rfl

private theorem head_toDigits {number : Nat} (zero : (Nat.toDigits 10 number).head? = some '0') :
    number = 0 := by
  induction number using Nat.strongRecOn with
  | ind number ih =>
      by_cases short : number < 10
      · rw [Nat.toDigits_of_lt_base short] at zero
        exact Nat.digitChar_eq_zero.mp (Option.some.inj zero)
      · have some := List.head?_eq_some_head (Nat.toDigits_ne_nil (n := number / 10) (b := 10))
        rw [Nat.toDigits_of_base_le (by decide) (by omega), List.head?_append, some,
          Option.some_or, ← some] at zero
        have := ih (number / 10) (by omega) zero
        omega

theorem readable_decimal (number : UInt64) : Readable (decimal number) where
  nonempty := Nat.toDigits_ne_nil
  digit char member := by
    rw [isDigit_eq]
    exact Nat.isDigit_of_mem_toDigits (by decide) (by decide) member
  leading zero := by rw [decimal, head_toDigits zero, Nat.toDigits_zero]
  small := by
    rw [decimal, Nat.ofDigitChars_ten_toDigits]
    exact number.toNat_lt

private theorem Readable.part {part rest : List Char} (readable : Readable (part ++ rest))
    (nonempty : part ≠ []) : Readable part where
  nonempty := nonempty
  digit char member := readable.digit char (List.mem_append_left _ member)
  leading zero := by
    have whole := readable.leading (by rw [List.head?_append, zero, Option.some_or])
    cases part with
    | nil => exact absurd rfl nonempty
    | cons first part => simp_all
  small := by
    have small := readable.small
    rw [Nat.ofDigitChars_append, Nat.ofDigitChars_eq_ofDigitChars_zero] at small
    have grown := Nat.le_mul_of_pos_left (Nat.ofDigitChars 10 part 0)
      (Nat.pow_pos (by decide : 0 < 10) (n := rest.length))
    omega

private theorem eq_zero_of_digitValue {char : Char} (digit : isDigit char)
    (zero : digitValue char = 0) : char = '0' := by
  simp only [isDigit, Bool.and_eq_true, decide_eq_true_eq] at digit
  have least : '0'.toNat ≤ char.toNat := digit.1
  apply Char.toNat_inj.mp
  rw [digitValue] at zero
  omega

private theorem Whole.map_ne {digits : List Char} (whole : Whole digits) (second : Nat)
    (others : List Nat) : digits.map digitValue ≠ 0 :: second :: others := by
  intro mapped
  cases digits with
  | nil => cases mapped
  | cons char digits =>
      obtain ⟨zero, more⟩ := List.cons.inj mapped
      obtain rfl := eq_zero_of_digitValue (whole.digit char List.mem_cons_self) zero
      obtain ⟨_, rfl⟩ := List.cons.inj (whole.leading rfl)
      cases more

section Reading

variable {digits rest : List Char}

/-- No run of digits is carried on by the text. -/
def EndsDigits (rest : List Char) : Prop :=
  ∀ char ∈ rest.head?, isDigit char = false

theorem endsDigits_of_ends (ends : Reader.Ends rest) : EndsDigits rest := by
  intro char first
  have carried := ends char first
  simp only [carries, Bool.or_eq_false_iff] at carried
  exact carried.1.1.1

private theorem takeWhile_of_endsDigits (ends : EndsDigits rest) :
    rest.takeWhile isDigit = [] ∧ rest.dropWhile isDigit = rest := by
  cases rest with
  | nil => exact ⟨rfl, rfl⟩
  | cons char rest => simp [ends char rfl]

theorem run_someDigits (run : Digits digits) (ends : EndsDigits rest) :
    someDigits.run (digits ++ rest) = .ok (digits.map digitValue, rest) := by
  obtain ⟨none, all⟩ := takeWhile_of_endsDigits ends
  have taken : (Reader.span isDigit).run (digits ++ rest) = .ok (digits, rest) := by
    rw [Reader.run_span, List.takeWhile_append_of_pos run.digit,
      List.dropWhile_append_of_pos run.digit, none, all, List.append_nil]
  rw [someDigits, Reader.run_bind_ok taken, if_neg (by simpa using run.nonempty)]
  rfl

theorem run_wholePart (whole : Whole digits) (ends : EndsDigits rest) :
    wholePart.run (digits ++ rest) = .ok (digits.map digitValue, rest) := by
  rw [wholePart, Reader.run_bind_ok (run_someDigits whole.toDigits ends)]
  split
  next second others found => exact absurd found (whole.map_ne second others)
  next => rfl

theorem run_accept_none {test : Char → Bool} (refused : ∀ char ∈ rest.head?, test char = false) :
    (Reader.accept test).run rest = .ok (none, rest) := by
  cases rest with
  | nil => rfl
  | cons char rest => rw [Reader.run_accept_cons, if_neg (by simp [refused char rfl])]

theorem run_sign_of_digit {char : Char} (digit : isDigit char) (rest : List Char) :
    (Reader.accept (· = '-')).run (char :: rest) = .ok (none, char :: rest) := by
  apply run_accept_none
  rintro char ⟨⟩
  apply decide_eq_false
  rintro rfl
  exact absurd digit (by decide)

theorem run_fractionPart_none (ends : ∀ char ∈ rest.head?, char ≠ '.') :
    fractionPart.run rest = .ok (none, rest) := by
  have refused : (Reader.accept (· = '.')).run rest = .ok (none, rest) :=
    run_accept_none fun char first => decide_eq_false (ends char first)
  rw [fractionPart, Reader.run_bind_ok refused, Reader.run_pure]

theorem ne_point_of_ends (ends : Reader.Ends rest) : ∀ char ∈ rest.head?, char ≠ '.' := by
  intro char first
  have carried := ends char first
  simp only [carries, Bool.or_eq_false_iff, decide_eq_false_iff_not] at carried
  exact carried.1.1.2

theorem run_exponentPart_none (ends : Reader.Ends rest) :
    exponentPart.run rest = .ok (none, rest) := by
  have refused : (Reader.accept fun char => char = 'e' || char = 'E').run rest =
      .ok (none, rest) := by
    apply run_accept_none
    intro char first
    have carried := ends char first
    simp only [carries, Bool.or_eq_false_iff] at carried
    exact Bool.or_eq_false_iff.mpr ⟨carried.1.2, carried.2⟩
  rw [exponentPart, Reader.run_bind_ok refused, Reader.run_pure]

/-- A whole part alone is taken up to its end. -/
theorem run_read (whole : Whole digits) (ends : Reader.Ends rest) :
    read.run (digits ++ rest) =
      .ok (⟨false, digits.map digitValue, none, none⟩, rest) := by
  have signRead : (Reader.accept (· = '-')).run (digits ++ rest) =
      .ok (none, digits ++ rest) := by
    obtain ⟨char, others, rfl, digit⟩ := whole.exists_cons
    exact run_sign_of_digit digit _
  rw [read, Reader.run_bind_ok signRead,
    Reader.run_bind_ok (run_wholePart whole (endsDigits_of_ends ends)),
    Reader.run_bind_ok (run_fractionPart_none (ne_point_of_ends ends)),
    Reader.run_bind_ok (run_exponentPart_none ends), Reader.run_pure]
  rfl

end Reading

section Magnitude

private theorem le_foldl (digits : List Nat) (value : Nat) :
    value ≤ digits.foldl (fun value digit => 10 * value + digit) value := by
  induction digits generalizing value with
  | nil => exact Nat.le_refl value
  | cons digit digits ih =>
      have later := ih (10 * value + digit)
      rw [List.foldl_cons]
      omega

private theorem absorb_of_small {digits : List Nat} {significand : Nat}
    (small : digits.foldl (fun value digit => 10 * value + digit) significand < UInt64.size) :
    absorb significand digits =
      (digits.foldl (fun value digit => 10 * value + digit) significand, []) := by
  induction digits generalizing significand with
  | nil => rfl
  | cons digit digits ih =>
      rw [List.foldl_cons] at small ⊢
      have fits := Nat.lt_of_le_of_lt (le_foldl digits (10 * significand + digit)) small
      rw [absorb, if_pos fits, ih small]

private theorem scientific_of_small {digits : List Nat} (small : valueOf digits < UInt64.size) :
    scientific ⟨false, digits, none, none⟩ = (valueOf digits, 0) := by
  rw [scientific, absorb_of_small small]
  rfl

/-- Rounding adds at most the last place that is kept. -/
private theorem round53_le (number : Nat) :
    round53 number ≤ number + Nat.pow 2 (number.log2 + 1 - 53) := by
  have below := Nat.div_mul_le_self number (Nat.pow 2 (number.log2 + 1 - 53))
  rw [round53]
  split
  · rw [Nat.add_one_mul]
    exact Nat.add_le_add_right below _
  · exact Nat.le_add_right_of_le below

private theorem round53_of_small {number : Nat} (small : number < UInt64.size) :
    round53 number < UInt64.size + Nat.pow 2 11 := by
  have places : number.log2 ≤ 63 := by
    by_cases zero : number = 0
    · rw [zero]
      decide
    · exact Nat.le_of_lt_succ ((Nat.log2_lt zero).mpr small)
  have unit : Nat.pow 2 (number.log2 + 1 - 53) ≤ Nat.pow 2 11 :=
    Nat.pow_le_pow_right (by decide) (by omega)
  have bound := round53_le number
  omega

/-- Numbers below `2 ^ 64` are far from the largest binary double. -/
theorem not_tooLarge {digits : List Nat} (small : valueOf digits < UInt64.size) :
    tooLarge ⟨false, digits, none, none⟩ = false := by
  have one : round53 (Nat.pow 10 0) = 1 := by decide
  have far : UInt64.size + Nat.pow 2 11 ≤ Nat.pow 2 1024 - Nat.pow 2 970 := by decide +kernel
  have rounded : round53 (valueOf digits) * round53 (Nat.pow 10 0) <
      Nat.pow 2 1024 - Nat.pow 2 970 := by
    rw [one, Nat.mul_one]
    exact Nat.lt_of_lt_of_le (round53_of_small small) far
  rw [tooLarge, scientific_of_small small]
  simp only [Bool.and_eq_false_iff, Bool.or_eq_false_iff, decide_eq_false_iff_not, Nat.not_le]
  exact .inr ⟨by decide, rounded⟩

end Magnitude

private theorem run_readBounded {digits rest : List Char} (readable : Readable digits)
    (ends : Reader.Ends rest) :
    readBounded.run (digits ++ rest) =
      .ok (⟨false, digits.map digitValue, none, none⟩, rest) := by
  have small : valueOf (digits.map digitValue) < UInt64.size := by
    rw [valueOf_map]
    exact readable.small
  rw [readBounded, Reader.run_bind_ok (run_read readable.toWhole ends), not_tooLarge small]
  rfl

end Numeral

private theorem Numeral.natural?_plain (digits : List Nat) :
    natural? ⟨false, digits, none, none⟩ = some (valueOf digits) :=
  rfl

theorem Numeral.not_isBlank {char : Char} (digit : isDigit char) :
    Reader.isBlank char = false := by
  apply Bool.eq_false_iff.mpr
  intro blank
  simp only [Reader.isBlank, Bool.or_eq_true, decide_eq_true_eq] at blank
  obtain ((rfl | rfl) | rfl) | rfl := blank <;> exact absurd digit (by decide)

private theorem run_natural64 {digits rest : List Char} (readable : Numeral.Readable digits)
    (ends : Reader.Ends rest) :
    natural64.run (digits ++ rest) =
      .ok (UInt64.ofNat (Nat.ofDigitChars 10 digits 0), rest) := by
  have bounded := Numeral.run_readBounded readable ends
  obtain ⟨char, others, rfl, digit⟩ := readable.exists_cons
  rw [List.cons_append] at bounded ⊢
  rw [natural64, Reader.run_position_bind (Numeral.not_isBlank digit), if_pos (by simp [digit]),
    Reader.run_bind_ok bounded, Numeral.natural?_plain, Numeral.valueOf_map]
  dsimp only
  rw [if_pos readable.small, Reader.run_pure]

/-- A number may go on, so a part of its numeral is read as a smaller number. -/
theorem open_natural64 (number : UInt64) : natural64.Open (decimal number) number where
  whole rest ends := by
    rw [run_natural64 (Numeral.readable_decimal number) ends, decimal,
      Nat.ofDigitChars_ten_toDigits, UInt64.ofNat_toNat]
  cut part rest joined proper := by
    by_cases empty : part = []
    · exact .inl (empty ▸ rfl)
    · have readable := Numeral.readable_decimal number
      rw [← joined] at readable
      have read := run_natural64 (readable.part empty) Reader.ends_nil
      rw [List.append_nil] at read
      exact .inr ⟨_, read⟩

end MemoryHard.Json
