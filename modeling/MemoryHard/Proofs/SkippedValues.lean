import MemoryHard.Json.Skip
import MemoryHard.Proofs.Outcome
import MemoryHard.Proofs.WrittenStrings

/-!
# Values that are passed over

A member of an unknown name may hold any JSON value: a literal, a numeral of any size, a
string, or brackets around other values to any depth, with blanks wherever they may
stand.  Such a value is passed over to its end and no further.
-/

namespace MemoryHard.Json

namespace Numeral

/-- A point and digits, or nothing. -/
inductive FractionText : List Char → Prop where
  | absent : FractionText []
  | present {digits : List Char} (run : Digits digits) : FractionText ('.' :: digits)

inductive SignText : List Char → Prop where
  | absent : SignText []
  | plus : SignText ['+']
  | minus : SignText ['-']

/-- A mark, a sign and digits, or nothing. -/
inductive ExponentText : List Char → Prop where
  | absent : ExponentText []
  | present {mark : Char} {sign digits : List Char} (marked : mark = 'e' ∨ mark = 'E')
      (signed : SignText sign) (run : Digits digits) : ExponentText (mark :: (sign ++ digits))

/-- The texts of numerals without a sign. -/
inductive UnsignedText : List Char → Prop where
  | parts {whole fraction exponent : List Char} (digits : Whole whole)
      (point : FractionText fraction) (power : ExponentText exponent) :
      UnsignedText (whole ++ (fraction ++ exponent))

/-- The texts of numerals. -/
inductive NumeralText : List Char → Prop where
  | positive {text : List Char} (unsigned : UnsignedText text) : NumeralText text
  | negative {text : List Char} (unsigned : UnsignedText text) : NumeralText ('-' :: text)

variable {digits fraction exponent rest text : List Char}

private theorem FractionText.endsDigits (point : FractionText fraction) (ends : EndsDigits rest) :
    EndsDigits (fraction ++ rest) := by
  cases point with
  | absent => exact ends
  | present run =>
      rintro char ⟨⟩
      decide

private theorem ExponentText.ends (power : ExponentText exponent) (ends : Reader.Ends rest) :
    ∀ char ∈ (exponent ++ rest).head?, isDigit char = false ∧ char ≠ '.' := by
  cases power with
  | absent =>
      intro char first
      exact ⟨endsDigits_of_ends ends char first, ne_point_of_ends ends char first⟩
  | present marked =>
      rintro char ⟨⟩
      rcases marked with rfl | rfl <;> decide

private theorem FractionText.run (point : FractionText fraction) (ends : EndsDigits rest)
    (noPoint : ∀ char ∈ rest.head?, char ≠ '.') :
    ∃ part, fractionPart.run (fraction ++ rest) = .ok (part, rest) := by
  cases point with
  | absent => exact ⟨none, run_fractionPart_none noPoint⟩
  | @present digits run =>
      have accepted : (Reader.accept (· = '.')).run ('.' :: (digits ++ rest)) =
          .ok (some '.', digits ++ rest) := rfl
      refine ⟨some (digits.map digitValue), ?_⟩
      rw [List.cons_append, fractionPart, Reader.run_bind_ok accepted]
      dsimp only
      rw [Reader.run_bind_ok (run_someDigits run ends), Reader.run_pure]

private theorem SignText.run {sign : List Char} (signed : SignText sign) (run : Digits digits)
    (rest : List Char) :
    ∃ found, (Reader.accept fun char => char = '+' || char = '-').run (sign ++ (digits ++ rest)) =
      .ok (found, digits ++ rest) := by
  cases signed with
  | absent =>
      obtain ⟨first, others, rfl, digit⟩ := run.exists_cons
      refine ⟨none, run_accept_none ?_⟩
      rintro char ⟨⟩
      apply Bool.eq_false_iff.mpr
      intro sign
      simp only [Bool.or_eq_true, decide_eq_true_eq] at sign
      rcases sign with rfl | rfl <;> exact absurd digit (by decide)
  | plus => exact ⟨some '+', rfl⟩
  | minus => exact ⟨some '-', rfl⟩

private theorem ExponentText.run (power : ExponentText exponent) (ends : Reader.Ends rest) :
    ∃ part, exponentPart.run (exponent ++ rest) = .ok (part, rest) := by
  cases power with
  | absent => exact ⟨none, run_exponentPart_none ends⟩
  | @present mark sign digits marked signed run =>
      have markRead : (Reader.accept fun char => char = 'e' || char = 'E').run
          (mark :: (sign ++ (digits ++ rest))) = .ok (some mark, sign ++ (digits ++ rest)) := by
        rcases marked with rfl | rfl <;> rfl
      obtain ⟨found, signRead⟩ := signed.run run rest
      have size := run_someDigits run (endsDigits_of_ends ends)
      rw [List.cons_append, List.append_assoc, exponentPart, Reader.run_bind_ok markRead]
      dsimp only
      rw [Reader.run_bind_ok signRead, Reader.run_bind_ok size]
      exact ⟨_, rfl⟩

private theorem UnsignedText.exists_cons (unsigned : UnsignedText text) :
    ∃ char others, text = char :: others ∧ isDigit char := by
  obtain ⟨digits, point, power⟩ := unsigned
  obtain ⟨char, others, rfl, digit⟩ := digits.exists_cons
  exact ⟨char, _, rfl, digit⟩

private theorem NumeralText.exists_cons (numeral : NumeralText text) :
    ∃ char others, text = char :: others ∧ (char = '-' ∨ isDigit char) := by
  cases numeral with
  | positive unsigned =>
      obtain ⟨char, others, same, digit⟩ := unsigned.exists_cons
      exact ⟨char, others, same, .inr digit⟩
  | negative => exact ⟨'-', _, rfl, .inl rfl⟩

private theorem UnsignedText.run_read (unsigned : UnsignedText text) (ends : Reader.Ends rest)
    {signed : List Char} {sign : Option Char}
    (signRead : (Reader.accept (· = '-')).run signed = .ok (sign, text ++ rest)) :
    ∃ numeral, read.run signed = .ok (numeral, rest) := by
  obtain @⟨whole, fraction, exponent, digits, point, power⟩ := unsigned
  have behind := power.ends ends
  have exponentEnds : EndsDigits (exponent ++ rest) := fun char first => (behind char first).1
  have wholeRead := run_wholePart digits (point.endsDigits exponentEnds)
  obtain ⟨fractionValue, fractionRead⟩ :=
    point.run exponentEnds fun char first => (behind char first).2
  obtain ⟨exponentValue, exponentRead⟩ := power.run ends
  rw [List.append_assoc, List.append_assoc] at signRead
  refine ⟨⟨sign.isSome, whole.map digitValue, fractionValue, exponentValue⟩, ?_⟩
  rw [read, Reader.run_bind_ok signRead, Reader.run_bind_ok wholeRead,
    Reader.run_bind_ok fractionRead, Reader.run_bind_ok exponentRead, Reader.run_pure]

private theorem NumeralText.run_read (numeral : NumeralText text) (ends : Reader.Ends rest) :
    ∃ value, read.run (text ++ rest) = .ok (value, rest) := by
  cases numeral with
  | positive unsigned =>
      obtain ⟨char, others, rfl, digit⟩ := unsigned.exists_cons
      exact unsigned.run_read ends (run_sign_of_digit digit _)
  | negative unsigned => exact unsigned.run_read ends rfl

private theorem NumeralText.run_skip (numeral : NumeralText text) (ends : Reader.Ends rest) :
    skip.run (text ++ rest) = .ok ((), rest) := by
  obtain ⟨value, found⟩ := numeral.run_read ends
  simp only [skip, found]

end Numeral

def Bracket.opening : Bracket → Char
  | .list => '['
  | .object => '\x7b'

/-- What stands before the value of an element. -/
inductive KeyText : Bracket → List Char → Prop where
  | list : KeyText .list []
  | object {name before after : List Char} (string : LooseString name)
      (blankBefore : AllBlank before) (blankAfter : AllBlank after) :
      KeyText .object ('"' :: (name ++ (before ++ ':' :: after)))

/-- A value, or what follows an opening bracket. -/
inductive Phrase where
  | value
  /-- At least one element, and the rest through the closing bracket. -/
  | elements (bracket : Bracket)

/-- The texts of a phrase without blanks around it. -/
inductive PhraseText : Phrase → List Char → Prop where
  | nullLiteral : PhraseText .value ['n', 'u', 'l', 'l']
  | trueLiteral : PhraseText .value ['t', 'r', 'u', 'e']
  | falseLiteral : PhraseText .value ['f', 'a', 'l', 's', 'e']
  | numeral {text : List Char} (numeral : Numeral.NumeralText text) : PhraseText .value text
  | string {text : List Char} (string : LooseString text) : PhraseText .value ('"' :: text)
  | empty {bracket : Bracket} {before : List Char} (blank : AllBlank before) :
      PhraseText .value (bracket.opening :: (before ++ [bracket.closing]))
  | filled {bracket : Bracket} {before text : List Char} (blank : AllBlank before)
      (elements : PhraseText (.elements bracket) text) :
      PhraseText .value (bracket.opening :: (before ++ text))
  | last {bracket : Bracket} {key text after : List Char} (start : KeyText bracket key)
      (value : PhraseText .value text) (blankAfter : AllBlank after) :
      PhraseText (.elements bracket) (key ++ (text ++ (after ++ [bracket.closing])))
  | more {bracket : Bracket} {key text after before others : List Char}
      (start : KeyText bracket key) (value : PhraseText .value text)
      (blankAfter : AllBlank after) (blankBefore : AllBlank before)
      (elements : PhraseText (.elements bracket) others) :
      PhraseText (.elements bracket) (key ++ (text ++ (after ++ ',' :: (before ++ others))))

/-- The texts of JSON values. -/
def ValueText (text : List Char) : Prop :=
  PhraseText .value text

section Steps

variable {bracket : Bracket} {brackets : List Bracket} {blank text rest left : List Char}
  {char : Char}

private theorem Bracket.solid_opening (bracket : Bracket) :
    Reader.isBlank bracket.opening = false := by
  cases bracket <;> rfl

private theorem Bracket.solid_closing (bracket : Bracket) :
    Reader.isBlank bracket.closing = false := by
  cases bracket <;> rfl

private theorem skipFrom_value (allBlank : AllBlank blank) (solid : Reader.isBlank char = false) :
    skipFrom (.value brackets) (blank ++ char :: rest) =
      if char = '[' then skipFrom (.first .list brackets) rest
      else if char = '\x7b' then skipFrom (.first .object brackets) rest
      else (skipScalar char).run (char :: rest) >>= fun read =>
        skipFrom (.more brackets) read.2 := by
  have kept := dropWhile_blank allBlank solid rest
  conv =>
    lhs
    rw [skipFrom]
  split
  next found => cases kept.symm.trans found
  next found =>
    obtain ⟨rfl, rfl⟩ := List.cons.inj (kept.symm.trans found)
    congr 2
    split
    next read => rw [read, ok_bind]
    next read => rw [read, error_bind]

private theorem skipFrom_first (allBlank : AllBlank blank) (solid : Reader.isBlank char = false) :
    skipFrom (.first bracket brackets) (blank ++ char :: rest) =
      if char = bracket.closing then skipFrom (.more brackets) rest
      else bracket.elementStart.run (char :: rest) >>= fun read =>
        skipFrom (.value (bracket :: brackets)) read.2 := by
  have kept := dropWhile_blank allBlank solid rest
  conv =>
    lhs
    rw [skipFrom]
  split
  next found => cases kept.symm.trans found
  next found =>
    obtain ⟨rfl, rfl⟩ := List.cons.inj (kept.symm.trans found)
    congr 1
    split
    next read => rw [read, ok_bind]
    next read => rw [read, error_bind]

private theorem skipFrom_more (allBlank : AllBlank blank) (solid : Reader.isBlank char = false) :
    skipFrom (.more (bracket :: brackets)) (blank ++ char :: rest) =
      if char = bracket.closing then skipFrom (.more brackets) rest
      else if char = ',' then bracket.elementStart.run rest >>= fun read =>
        skipFrom (.value (bracket :: brackets)) read.2
      else .error .malformed := by
  have kept := dropWhile_blank allBlank solid rest
  conv =>
    lhs
    rw [skipFrom]
  split
  next found => cases kept.symm.trans found
  next found =>
    obtain ⟨rfl, rfl⟩ := List.cons.inj (kept.symm.trans found)
    congr 2
    split
    next read => rw [read, ok_bind]
    next read => rw [read, error_bind]

private theorem skipFrom_opening (allBlank : AllBlank blank) :
    skipFrom (.value brackets) (blank ++ bracket.opening :: rest) =
      skipFrom (.first bracket brackets) rest := by
  rw [skipFrom_value allBlank bracket.solid_opening]
  cases bracket with
  | list => rw [Bracket.opening, if_pos rfl]
  | object => rw [Bracket.opening, if_neg (by decide), if_pos rfl]

private theorem skipFrom_first_closing (allBlank : AllBlank blank) :
    skipFrom (.first bracket brackets) (blank ++ bracket.closing :: rest) =
      skipFrom (.more brackets) rest := by
  rw [skipFrom_first allBlank bracket.solid_closing, if_pos rfl]

private theorem skipFrom_more_closing (allBlank : AllBlank blank) :
    skipFrom (.more (bracket :: brackets)) (blank ++ bracket.closing :: rest) =
      skipFrom (.more brackets) rest := by
  rw [skipFrom_more allBlank bracket.solid_closing, if_pos rfl]

private theorem skipFrom_more_comma (allBlank : AllBlank blank) :
    skipFrom (.more (bracket :: brackets)) (blank ++ ',' :: rest) =
      bracket.elementStart.run rest >>= fun read =>
        skipFrom (.value (bracket :: brackets)) read.2 := by
  have inside : ',' ≠ bracket.closing := by cases bracket <;> decide
  rw [skipFrom_more allBlank rfl, if_neg inside, if_pos rfl]

private theorem Bracket.ends_closing (bracket : Bracket) :
    Numeral.carries bracket.closing = false := by
  cases bracket <;> decide

end Steps

section Elements

variable {bracket : Bracket} {blank text key rest : List Char}

private theorem KeyText.run_elementStart (start : KeyText bracket key) (allBlank : AllBlank blank)
    (rest : List Char) :
    ∃ behind, AllBlank behind ∧
      bracket.elementStart.run (blank ++ (key ++ rest)) = .ok ((), behind ++ rest) := by
  cases start with
  | list => exact ⟨blank, allBlank, rfl⟩
  | @object name before after string blankBefore blankAfter =>
      obtain ⟨chars, read⟩ := string.run (before ++ ':' :: (after ++ rest))
      refine ⟨after, blankAfter, ?_⟩
      rw [List.cons_append, List.append_assoc, List.append_assoc, List.cons_append,
        Bracket.elementStart, skipKey,
        Reader.run_bind_ok (Reader.run_blanks_append allBlank rfl _),
        Reader.run_bind_ok (Reader.run_expect '"' _), Reader.run_bind_ok read,
        Reader.run_bind_ok (Reader.run_blanks_append blankBefore rfl _), Reader.run_expect]

private theorem PhraseText.value_eq_cons (value : PhraseText .value text) :
    ∃ char others, text = char :: others ∧ Reader.isBlank char = false ∧ char ≠ ']' := by
  cases value with
  | nullLiteral | trueLiteral | falseLiteral | string => exact ⟨_, _, rfl, rfl, by decide⟩
  | numeral numeral =>
      obtain ⟨char, others, rfl, rfl | digit⟩ := numeral.exists_cons
      · exact ⟨'-', others, rfl, rfl, by decide⟩
      · refine ⟨char, others, rfl, Numeral.not_isBlank digit, ?_⟩
        rintro rfl
        exact absurd digit (by decide)
  | @empty bracket | @filled bracket =>
      refine ⟨bracket.opening, _, rfl, bracket.solid_opening, ?_⟩
      cases bracket <;> decide

private theorem KeyText.append_eq_cons (start : KeyText bracket key)
    (value : PhraseText .value text) (rest : List Char) :
    ∃ char others, key ++ (text ++ rest) = char :: others ∧ Reader.isBlank char = false ∧
      char ≠ bracket.closing := by
  cases start with
  | list =>
      obtain ⟨char, others, rfl, solid, inside⟩ := value.value_eq_cons
      exact ⟨char, _, rfl, solid, inside⟩
  | object => exact ⟨'"', _, rfl, rfl, by decide⟩

private theorem PhraseText.elements_eq_cons (elements : PhraseText (.elements bracket) text) :
    ∃ char others, text = char :: others ∧ Reader.isBlank char = false ∧
      char ≠ bracket.closing := by
  cases elements with
  | last start value => exact start.append_eq_cons value _
  | more start value => exact start.append_eq_cons value _

private theorem exists_skipScalar_numeral (numeral : Numeral.NumeralText text) :
    ∃ char others, text = char :: others ∧ Reader.isBlank char = false ∧ char ≠ '[' ∧
      char ≠ '\x7b' ∧ skipScalar char = Numeral.skip := by
  obtain ⟨char, others, same, start⟩ := numeral.exists_cons
  have known : ∀ other, (¬Numeral.isDigit other ∧ other ≠ '-') → char ≠ other := by
    rintro other ⟨noDigit, noSign⟩ rfl
    exact start.elim noSign noDigit
  have solid : Reader.isBlank char = false := by
    rcases start with rfl | digit
    · rfl
    · exact Numeral.not_isBlank digit
  have chosen : skipScalar char = Numeral.skip := by
    unfold skipScalar
    split
    · exact absurd rfl (known 'n' (by decide))
    · exact absurd rfl (known 't' (by decide))
    · exact absurd rfl (known 'f' (by decide))
    · exact absurd rfl (known '"' (by decide))
    · rw [if_pos (by simpa using start)]
  exact ⟨char, others, same, solid, known '[' (by decide), known '\x7b' (by decide), chosen⟩

private theorem run_skipScalar_string (string : LooseString text) (rest : List Char) :
    (skipScalar '"').run ('"' :: (text ++ rest)) = .ok ((), rest) := by
  obtain ⟨chars, read⟩ := string.run rest
  have quote := (Reader.closed_next '"').whole (text ++ rest)
  change (Reader.next >>= fun _ => looseString >>= fun _ => pure ()).run _ = _
  rw [← List.singleton_append, Reader.run_bind_ok quote, Reader.run_bind_ok read, Reader.run_pure]

/-- The phrase is passed over to its end, whatever brackets are open around it.  Elements bring
their own closing bracket, but a value has to be ended by what follows. -/
def Phrase.Passes : Phrase → List Char → Prop
  | .value, text => ∀ (blank rest : List Char) (brackets : List Bracket), AllBlank blank →
      Reader.Ends rest →
      skipFrom (.value brackets) (blank ++ (text ++ rest)) = skipFrom (.more brackets) rest
  | .elements bracket, text => ∀ (blank rest : List Char) (brackets : List Bracket),
      AllBlank blank →
      (bracket.elementStart.run (blank ++ (text ++ rest)) >>= fun read =>
        skipFrom (.value (bracket :: brackets)) read.2) = skipFrom (.more brackets) rest

private theorem passes_of_scalar {char : Char} {others : List Char}
    (solid : Reader.isBlank char = false) (noList : char ≠ '[') (noObject : char ≠ '\x7b')
    (read : ∀ rest, Reader.Ends rest →
      (skipScalar char).run (char :: others ++ rest) = .ok ((), rest)) :
    Phrase.value.Passes (char :: others) := by
  intro blank rest brackets allBlank ends
  have scalar := read rest ends
  rw [List.cons_append] at scalar ⊢
  rw [skipFrom_value allBlank solid, if_neg noList, if_neg noObject, scalar, ok_bind]

private theorem PhraseText.passes {phrase : Phrase} (spelled : PhraseText phrase text) :
    phrase.Passes text := by
  induction spelled with
  | nullLiteral =>
      apply passes_of_scalar rfl (by decide) (by decide)
      exact fun rest _ => (Reader.closed_literal ['n', 'u', 'l', 'l']).whole rest
  | trueLiteral =>
      apply passes_of_scalar rfl (by decide) (by decide)
      exact fun rest _ => (Reader.closed_literal ['t', 'r', 'u', 'e']).whole rest
  | falseLiteral =>
      apply passes_of_scalar rfl (by decide) (by decide)
      exact fun rest _ => (Reader.closed_literal ['f', 'a', 'l', 's', 'e']).whole rest
  | numeral numeral =>
      obtain ⟨char, others, rfl, solid, noList, noObject, chosen⟩ :=
        exists_skipScalar_numeral numeral
      apply passes_of_scalar solid noList noObject
      intro rest ends
      rw [chosen, numeral.run_skip ends]
  | string string =>
      apply passes_of_scalar rfl (by decide) (by decide)
      exact fun rest _ => run_skipScalar_string string rest
  | empty inside =>
      intro blank rest brackets allBlank _
      rw [List.cons_append, List.append_assoc, skipFrom_opening allBlank, List.singleton_append,
        skipFrom_first_closing inside]
  | filled inside elements ih =>
      intro blank rest brackets allBlank _
      obtain ⟨char, others, rfl, solid, within⟩ := elements.elements_eq_cons
      have tail := ih [] rest brackets allBlank_nil
      rw [List.nil_append, List.cons_append] at tail
      rw [List.cons_append, List.append_assoc, skipFrom_opening allBlank, List.cons_append,
        skipFrom_first inside solid, if_neg within, tail]
  | @last bracket key text after start _ blankAfter ih =>
      intro blank rest brackets allBlank
      obtain ⟨behind, blankBehind, read⟩ :=
        start.run_elementStart allBlank (text ++ (after ++ bracket.closing :: rest))
      have ends := Reader.ends_of_blank blankAfter bracket.ends_closing rest
      simp only [List.append_assoc, List.singleton_append]
      rw [read, ok_bind, ih behind _ _ blankBehind ends, skipFrom_more_closing blankAfter]
  | @more bracket key text after before others start _ blankAfter blankBefore _ ih othersIh =>
      intro blank rest brackets allBlank
      obtain ⟨behind, blankBehind, read⟩ :=
        start.run_elementStart allBlank (text ++ (after ++ ',' :: (before ++ (others ++ rest))))
      have ends : Reader.Ends (after ++ ',' :: (before ++ (others ++ rest))) :=
        Reader.ends_of_blank blankAfter (by decide) _
      simp only [List.append_assoc, List.cons_append]
      rw [read, ok_bind, ih behind _ _ blankBehind ends, skipFrom_more_comma blankAfter,
        othersIh before rest brackets blankBefore]

/-- A value is passed over as a whole, whatever it holds. -/
theorem ValueText.run_skipValue (value : ValueText text) (allBlank : AllBlank blank)
    (ends : Reader.Ends rest) :
    skipValue.run (blank ++ (text ++ rest)) = .ok ((), rest) := by
  have passed := value.passes blank rest [] allBlank ends
  have done : skipFrom (.more []) rest = .ok rest := by rw [skipFrom]
  simp only [skipValue, passed, done]

end Elements

end MemoryHard.Json
