import MemoryHard.Json.Numeral

/-!
# Texts that spell a value

A text spells a value if a reader takes exactly this text for it and asks for more as
long as a part is missing.  A string or an object ends in a character of its own, and
whatever follows is left alone.  A numeral does not: its parts are numerals as well,
and it ends where the next character does not carry it on.
-/

namespace MemoryHard.Json

/-- A text that is cut off stops either in the first of two parts or in the second. -/
theorem cut_append {text other part rest : List Char} (joined : part ++ rest = text ++ other) :
    (∃ missing, missing ≠ [] ∧ part ++ missing = text) ∨
      ∃ more, part = text ++ more ∧ more ++ rest = other := by
  rcases List.append_eq_append_iff.mp joined with ⟨missing, whole, later⟩ | ⟨more, whole, later⟩
  · cases missing with
    | nil => exact .inr ⟨[], by simpa using whole.symm, by simpa using later⟩
    | cons char missing => exact .inl ⟨char :: missing, List.cons_ne_nil _ _, whole.symm⟩
  · exact .inr ⟨more, whole, later.symm⟩

/-- Nothing but blanks. -/
def AllBlank (text : List Char) : Prop :=
  ∀ char ∈ text, Reader.isBlank char

theorem allBlank_nil : AllBlank [] := by
  simp [AllBlank]

theorem dropWhile_blank {blank : List Char} {char : Char} (allBlank : AllBlank blank)
    (solid : Reader.isBlank char = false) (rest : List Char) :
    (blank ++ char :: rest).dropWhile Reader.isBlank = char :: rest := by
  rw [List.dropWhile_append_of_pos allBlank, List.dropWhile_cons_of_neg (by simp [solid])]

namespace Numeral

/-- The character carries on a numeral that ends in a digit. -/
def carries (char : Char) : Bool :=
  isDigit char || char = '.' || char = 'e' || char = 'E'

private theorem carries_of_isBlank {char : Char} (blank : Reader.isBlank char) :
    carries char = false := by
  simp only [Reader.isBlank, Bool.or_eq_true, decide_eq_true_eq] at blank
  obtain ((rfl | rfl) | rfl) | rfl := blank <;> decide

end Numeral

namespace Reader

variable {α β : Type} {reader : Reader α} {text : List Char} {value : α}

/-- No numeral is carried on by the text. -/
def Ends (rest : List Char) : Prop :=
  ∀ char ∈ rest.head?, Numeral.carries char = false

theorem ends_nil : Ends [] := by
  simp [Ends]

private theorem Ends.append {first : List Char} (ends : Ends first) (some : first ≠ [])
    (rest : List Char) : Ends (first ++ rest) := by
  cases first with
  | nil => exact absurd rfl some
  | cons char first => exact ends

private theorem Ends.part {first rest : List Char} (ends : Ends (first ++ rest)) : Ends first := by
  cases first with
  | nil => exact ends_nil
  | cons char first => exact ends

theorem ends_of_blank {blank : List Char} {char : Char} (allBlank : AllBlank blank)
    (ends : Numeral.carries char = false) (rest : List Char) : Ends (blank ++ char :: rest) := by
  cases blank with
  | nil =>
      rintro first ⟨⟩
      exact ends
  | cons other blank =>
      rintro first ⟨⟩
      exact Numeral.carries_of_isBlank (allBlank other List.mem_cons_self)

/-- Nothing is left for others to read. -/
def Exhausts (reader : Reader α) (text : List Char) : Prop :=
  reader.run text = .error .truncated ∨ ∃ value, reader.run text = .ok (value, [])

/-- The text spells a value and ends in a character that closes it. -/
structure Closed (reader : Reader α) (text : List Char) (value : α) : Prop where
  whole : ∀ rest, reader.run (text ++ rest) = .ok (value, rest)
  cut : ∀ part rest, part ++ rest = text → rest ≠ [] → reader.run part = .error .truncated

/-- The text spells a value and may need something after it to end it. -/
structure Open (reader : Reader α) (text : List Char) (value : α) : Prop where
  whole : ∀ rest, Ends rest → reader.run (text ++ rest) = .ok (value, rest)
  cut : ∀ part rest, part ++ rest = text → rest ≠ [] → reader.Exhausts part

theorem Closed.toOpen (spelled : reader.Closed text value) : reader.Open text value where
  whole rest _ := spelled.whole rest
  cut part rest joined proper := .inl (spelled.cut part rest joined proper)

theorem closed_pure (value : α) : (pure value : Reader α).Closed [] value where
  whole _ := rfl
  cut _ _ joined proper := absurd (List.append_eq_nil_iff.mp joined).2 proper

section Sequences

variable {second : α → Reader β} {other : List Char} {result : β}

/-- A cut after a closed text is a cut in what the second reader gets. -/
private theorem Closed.run_bind_cut (spelled : reader.Closed text value) (second : α → Reader β)
    {part rest : List Char} (joined : part ++ rest = text ++ other) :
    (reader >>= second).run part = .error .truncated ∨
      ∃ more, more ++ rest = other ∧ (reader >>= second).run part = (second value).run more := by
  rcases cut_append joined with ⟨missing, some, within⟩ | ⟨more, rfl, behind⟩
  · exact .inl (run_bind_error (spelled.cut part missing within some) second)
  · exact .inr ⟨more, behind, run_bind_ok (spelled.whole more) second⟩

theorem Closed.bind (spelled : reader.Closed text value)
    (later : (second value).Closed other result) :
    (reader >>= second).Closed (text ++ other) result where
  whole rest := by
    rw [List.append_assoc, run_bind_ok (spelled.whole _), later.whole]
  cut part rest joined proper := by
    rcases spelled.run_bind_cut second joined with short | ⟨more, behind, same⟩
    · exact short
    · rw [same]
      exact later.cut more rest behind proper

theorem Closed.bind_open (spelled : reader.Closed text value)
    (later : (second value).Open other result) :
    (reader >>= second).Open (text ++ other) result where
  whole rest ends := by
    rw [List.append_assoc, run_bind_ok (spelled.whole _), later.whole rest ends]
  cut part rest joined proper := by
    rcases spelled.run_bind_cut second joined with short | ⟨more, behind, same⟩
    · exact .inl short
    · rw [Exhausts, same]
      exact later.cut more rest behind proper

/-- A part of an open text may be taken for a value, but then nothing is left for the
second reader. -/
theorem Open.bind_closed (spelled : reader.Open text value)
    (later : (second value).Closed other result) (some : other ≠ []) (ends : Ends other)
    (empty : ∀ value, (second value).run [] = .error .truncated) :
    (reader >>= second).Closed (text ++ other) result where
  whole rest := by
    rw [List.append_assoc, run_bind_ok (spelled.whole _ (ends.append some rest)), later.whole]
  cut part rest joined proper := by
    rcases cut_append joined with ⟨missing, some, within⟩ | ⟨more, rfl, behind⟩
    · rcases spelled.cut part missing within some with short | ⟨less, taken⟩
      · exact run_bind_error short second
      · rw [run_bind_ok taken, empty]
    · subst behind
      rw [run_bind_ok (spelled.whole more ends.part)]
      exact later.cut more rest rfl proper

theorem Closed.then_pure (spelled : reader.Closed text value)
    (last : second value = pure result) : (reader >>= second).Closed text result := by
  have later : (second value).Closed [] result := last ▸ closed_pure result
  simpa using spelled.bind later

theorem Open.map (spelled : reader.Open text value) (f : α → β) :
    (reader >>= fun value => pure (f value)).Open text (f value) where
  whole rest ends := by rw [run_bind_ok (spelled.whole rest ends), run_pure]
  cut part rest joined proper := by
    rcases spelled.cut part rest joined proper with short | ⟨less, taken⟩
    · exact .inl (run_bind_error short _)
    · exact .inr ⟨f less, by rw [run_bind_ok taken, run_pure]⟩

end Sequences

section Steps

variable {char : Char}

/-- Only the first character has to be looked at to change the reader. -/
private theorem Closed.of_run {changed : Reader α} (spelled : reader.Closed (char :: text) value)
    (same : ∀ tail, changed.run (char :: tail) = reader.run (char :: tail))
    (empty : changed.run [] = .error .truncated) : changed.Closed (char :: text) value where
  whole rest := by rw [List.cons_append, same, ← List.cons_append, spelled.whole]
  cut part rest joined proper := by
    cases part with
    | nil => exact empty
    | cons first part =>
        obtain ⟨rfl, _⟩ := List.cons.inj joined
        rw [same]
        exact spelled.cut _ rest joined proper

/-- A reader that is decided by the first character and reads on after it. -/
theorem Closed.cons {whole : Reader α} (spelled : reader.Closed text value)
    (same : ∀ tail, whole.run (char :: tail) = reader.run tail)
    (empty : whole.run [] = .error .truncated) : whole.Closed (char :: text) value where
  whole rest := by rw [List.cons_append, same, spelled.whole]
  cut part rest joined proper := by
    cases part with
    | nil => exact empty
    | cons first part =>
        obtain ⟨rfl, behind⟩ := List.cons.inj joined
        rw [same]
        exact spelled.cut part rest behind proper

theorem closed_next (char : Char) : next.Closed [char] char where
  whole _ := rfl
  cut part rest joined proper := by
    cases part with
    | nil => rfl
    | cons first part => simp_all

theorem closed_expect (char : Char) : (expect char).Closed [char] () :=
  (closed_next char).then_pure (if_pos rfl)

theorem run_expect (char : Char) (tail : List Char) :
    (expect char).run (char :: tail) = .ok ((), tail) :=
  (closed_expect char).whole tail

theorem closed_literal (text : List Char) : (literal text).Closed text () := by
  induction text with
  | nil => exact closed_pure ()
  | cons char text ih => exact (closed_expect char).bind ih

theorem run_blanks_append {blank : List Char} (allBlank : AllBlank blank)
    (solid : isBlank char = false) (tail : List Char) :
    blanks.run (blank ++ char :: tail) = .ok ((), char :: tail) := by
  rw [blanks, run_bind, run_span, dropWhile_blank allBlank solid]
  rfl

private theorem run_blanks (solid : isBlank char = false) (tail : List Char) :
    blanks.run (char :: tail) = .ok ((), char :: tail) :=
  run_blanks_append allBlank_nil solid tail

theorem Closed.after_blanks (spelled : reader.Closed (char :: text) value)
    (solid : isBlank char = false) : (blanks >>= fun _ => reader).Closed (char :: text) value := by
  apply spelled.of_run
  · intro tail
    rw [run_bind_ok (run_blanks solid tail)]
  · exact spelled.cut [] _ rfl (List.cons_ne_nil _ _)

variable {next : Char → Reader α}

/-- A reader that looks at the first character after blanks and then reads on from it. -/
theorem run_position_append {blank : List Char} (allBlank : AllBlank blank)
    (solid : isBlank char = false) (next : Char → Reader α) (tail : List Char) :
    (position >>= next).run (blank ++ char :: tail) = (next char).run (char :: tail) := by
  have found : position.run (blank ++ char :: tail) = .ok (char, char :: tail) := by
    rw [position, run_bind_ok (run_blanks_append allBlank solid tail)]
    rfl
  rw [run_bind_ok found]

theorem run_position_bind (solid : isBlank char = false) (next : Char → Reader α)
    (tail : List Char) :
    (position >>= next).run (char :: tail) = (next char).run (char :: tail) :=
  run_position_append allBlank_nil solid next tail

theorem Closed.at_position (spelled : (next char).Closed (char :: text) value)
    (solid : isBlank char = false) : (position >>= next).Closed (char :: text) value :=
  spelled.of_run (run_position_bind solid next) rfl

end Steps

/-- What follows a closed text is accepted if and only if it is blank. -/
theorem Closed.readAll_append (spelled : reader.Closed text value) (rest : List Char) :
    reader.readAll (text ++ rest) =
      if rest.all isBlank then .ok value else .error .malformed := by
  rw [readAll, spelled.whole]

private theorem Closed.readAll_cut (spelled : reader.Closed text value) {part rest : List Char}
    (joined : part ++ rest = text) (proper : rest ≠ []) :
    reader.readAll part = .error .truncated := by
  rw [readAll, spelled.cut part rest joined proper]

theorem Closed.readAll_cut_string (spelled : reader.Closed text value) {part rest : String}
    (joined : (part ++ rest).toList = text) (proper : rest ≠ "") :
    reader.readAll part.toList = .error .truncated := by
  rw [String.toList_append] at joined
  apply spelled.readAll_cut joined
  intro empty
  exact proper (String.toList_eq_nil_iff.mp empty)

end Reader

end MemoryHard.Json
