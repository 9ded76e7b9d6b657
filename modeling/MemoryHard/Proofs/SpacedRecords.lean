import MemoryHard.Proofs.SkippedValues
import MemoryHard.Proofs.SpelledRecords

/-!
# Objects with blanks and unknown members

The members of an object stand in any order and with blanks between all their parts.  What
becomes of a draft depends on their keys, once unescaped, and on their values alone: a
member of an unknown name is passed over, and a field that is set already is refused.
A key that does not start as a string is malformed and never read.
-/

namespace MemoryHard.Json

/-- What a member consists of: its unescaped key and the text of its value. -/
structure Entry where
  key : List Char
  value : List Char

/-- The texts of a member, after the opening quote of its key. -/
inductive EntryText : Entry → List Char → Prop where
  | parts {entry : Entry} {key before after : List Char} (string : WrittenString entry.key key)
      (blankBefore : AllBlank before) (blankAfter : AllBlank after) :
      EntryText entry (key ++ (before ++ ':' :: (after ++ entry.value)))

/-- The texts of members, after the opening quote of the first one and through the closing
bracket. -/
inductive EntriesText : List Entry → List Char → Prop where
  | last {entry : Entry} {text after : List Char} (member : EntryText entry text)
      (blankAfter : AllBlank after) : EntriesText [entry] (text ++ (after ++ ['\x7d']))
  | more {entry : Entry} {entries : List Entry} {text after before others : List Char}
      (member : EntryText entry text) (blankAfter : AllBlank after)
      (blankBefore : AllBlank before) (members : EntriesText entries others) :
      EntriesText (entry :: entries) (text ++ (after ++ ',' :: (before ++ '"' :: others)))

/-- The texts of an object without blanks around it. -/
inductive ObjectText : List Entry → List Char → Prop where
  | empty {before : List Char} (blankBefore : AllBlank before) :
      ObjectText [] ('\x7b' :: (before ++ ['\x7d']))
  | filled {entries : List Entry} {before text : List Char} (blankBefore : AllBlank before)
      (members : EntriesText entries text) :
      ObjectText entries ('\x7b' :: (before ++ '"' :: text))

/-- The reader takes the text for the value, with blanks before it, if no numeral is carried
on behind it. -/
def Reader.Takes {α : Type} (reader : Reader α) (text : List Char) (value : α) : Prop :=
  ∀ blank rest, AllBlank blank → Ends rest →
    reader.run (blank ++ (text ++ rest)) = .ok (value, rest)

variable {δ : Type} {fields : List (Field δ)}

/-- What becomes of a draft by members in their order. -/
inductive Outcome (fields : List (Field δ)) : δ → List Entry → Except Fault δ → Prop where
  | done {draft : δ} : Outcome fields draft [] (.ok draft)
  | other {draft : δ} {entry : Entry} {entries : List Entry} {outcome : Except Fault δ}
      (unknown : fields.find? (·.name = entry.key) = none) (value : ValueText entry.value)
      (others : Outcome fields draft entries outcome) :
      Outcome fields draft (entry :: entries) outcome
  | field {draft next : δ} {entry : Entry} {entries : List Entry} {outcome : Except Fault δ}
      {field : Field δ} (found : fields.find? (·.name = entry.key) = some field)
      (missing : field.isSet draft = false) (value : (field.read draft).Takes entry.value next)
      (others : Outcome fields next entries outcome) :
      Outcome fields draft (entry :: entries) outcome
  | again {draft : δ} {entry : Entry} {entries : List Entry} {field : Field δ}
      (found : fields.find? (·.name = entry.key) = some field) (present : field.isSet draft) :
      Outcome fields draft (entry :: entries) (.error .mismatched)

section Member

variable {draft next : δ} {entry : Entry} {entries : List Entry} {field : Field δ}
  {outcome : Except Fault δ} {blank text rest : List Char}

/-- What is read behind the key of a member. -/
private theorem EntryText.exists_colon (member : EntryText entry text) (rest : List Char) :
    ∃ colon after, AllBlank after ∧ strictString.run (text ++ rest) = .ok (entry.key, colon) ∧
      ∀ {α : Type} (next : Reader α),
        (Reader.blanks >>= fun _ => Reader.expect ':' >>= fun _ => next).run colon =
          next.run (after ++ (entry.value ++ rest)) := by
  obtain @⟨key, before, after, string, blankBefore, blankAfter⟩ := member
  refine ⟨before ++ ':' :: (after ++ (entry.value ++ rest)), after, blankAfter, ?_, ?_⟩
  · simp only [List.append_assoc, List.cons_append]
    exact string.run _
  · intro α next
    rw [Reader.run_bind_ok (Reader.run_blanks_append blankBefore rfl _),
      Reader.run_bind_ok (Reader.run_expect ':' _)]

private theorem run_member_other (spelled : EntryText entry text)
    (unknown : fields.find? (·.name = entry.key) = none) (value : ValueText entry.value)
    (ends : Reader.Ends rest) : (member fields draft).run (text ++ rest) = .ok (draft, rest) := by
  obtain ⟨colon, after, blankAfter, keyRead, behind⟩ := spelled.exists_colon rest
  rw [member, Reader.run_bind_ok keyRead, unknown]
  dsimp only
  rw [behind, Reader.run_bind_ok (value.run_skipValue blankAfter ends), Reader.run_pure]

private theorem run_member_field (spelled : EntryText entry text)
    (found : fields.find? (·.name = entry.key) = some field)
    (missing : field.isSet draft = false) (value : (field.read draft).Takes entry.value next)
    (ends : Reader.Ends rest) : (member fields draft).run (text ++ rest) = .ok (next, rest) := by
  obtain ⟨colon, after, blankAfter, keyRead, behind⟩ := spelled.exists_colon rest
  rw [member, Reader.run_bind_ok keyRead, found]
  dsimp only
  rw [if_neg (by simp [missing]), behind, value after rest blankAfter ends]

private theorem run_member_again (spelled : EntryText entry text)
    (found : fields.find? (·.name = entry.key) = some field) (present : field.isSet draft)
    (rest : List Char) : (member fields draft).run (text ++ rest) = .error .mismatched := by
  obtain ⟨colon, after, blankAfter, keyRead, behind⟩ := spelled.exists_colon rest
  rw [member, Reader.run_bind_ok keyRead, found]
  dsimp only
  rw [if_pos present, Reader.run_fail]

/-- One member either takes the draft to the next one or is refused. -/
theorem Outcome.run_member (taken : Outcome fields draft (entry :: entries) outcome)
    (spelled : EntryText entry text) :
    (∃ next, Outcome fields next entries outcome ∧ ∀ rest, Reader.Ends rest →
        (member fields draft).run (text ++ rest) = .ok (next, rest)) ∨
      outcome = .error .mismatched ∧ ∀ rest,
        (member fields draft).run (text ++ rest) = .error .mismatched := by
  cases taken with
  | other unknown value others =>
      exact .inl ⟨draft, others, fun rest => run_member_other spelled unknown value⟩
  | @field _ next _ _ _ _ found missing value others =>
      exact .inl ⟨next, others, fun rest => run_member_field spelled found missing value⟩
  | again found present => exact .inr ⟨rfl, run_member_again spelled found present⟩

end Member

section Members

variable {draft : δ} {entries : List Entry} {outcome : Except Fault δ}
  {blank before text : List Char}

private theorem run_membersLeft_first (allBlank : AllBlank blank) (text : List Char) :
    (membersLeft fields true draft).run (blank ++ '"' :: text) =
      (member fields draft >>= membersLeft fields false).run text := by
  rw [run_membersLeft_append allBlank rfl, if_neg (by decide)]
  rfl

private theorem run_membersLeft_comma (allBlank : AllBlank blank) (blankBefore : AllBlank before)
    (text : List Char) :
    (membersLeft fields false draft).run (blank ++ ',' :: (before ++ '"' :: text)) =
      (member fields draft >>= membersLeft fields false).run text := by
  have start : (memberStart false ',').run (before ++ '"' :: text) = .ok ((), text) := by
    change (Reader.blanks >>= fun _ => Reader.expect '"').run _ = _
    rw [Reader.run_bind_ok (Reader.run_blanks_append blankBefore rfl _), Reader.run_expect]
  rw [run_membersLeft_append allBlank rfl, if_neg (by decide), Reader.bind_assoc,
    Reader.run_bind_ok start]

private theorem run_membersLeft_close (allBlank : AllBlank blank) (first : Bool)
    (rest : List Char) :
    (membersLeft fields first draft).run (blank ++ '\x7d' :: rest) = .ok (draft, rest) := by
  rw [run_membersLeft_append allBlank rfl, if_pos rfl]

/-- The members that are left, from the key of the first one on. -/
theorem EntriesText.run (members : EntriesText entries text)
    (taken : Outcome fields draft entries outcome) (rest : List Char) :
    (member fields draft >>= membersLeft fields false).run (text ++ rest) =
      outcome.map fun final => (final, rest) := by
  induction members generalizing draft with
  | @last entry text after spelled blankAfter =>
      have ends : Reader.Ends (after ++ '\x7d' :: rest) :=
        Reader.ends_of_blank blankAfter (by decide) rest
      simp only [List.append_assoc, List.singleton_append]
      rcases taken.run_member spelled with ⟨next, done, read⟩ | ⟨rfl, refused⟩
      · cases done
        rw [Reader.run_bind_ok (read _ ends), run_membersLeft_close blankAfter]
        rfl
      · rw [Reader.run_bind_error (refused _)]
        rfl
  | @more entry entries text after before others spelled blankAfter blankBefore _ ih =>
      have ends : Reader.Ends (after ++ ',' :: (before ++ '"' :: (others ++ rest))) :=
        Reader.ends_of_blank blankAfter (by decide) _
      simp only [List.append_assoc, List.cons_append]
      rcases taken.run_member spelled with ⟨next, behind, read⟩ | ⟨rfl, refused⟩
      · rw [Reader.run_bind_ok (read _ ends), run_membersLeft_comma blankAfter blankBefore,
          ih behind]
      · rw [Reader.run_bind_error (refused _)]
        rfl

private theorem run_record_open (allBlank : AllBlank blank) (tail : List Char) :
    (record fields draft).run (blank ++ '\x7b' :: tail) =
      (membersLeft fields true draft).run tail := by
  rw [record, Reader.run_position_append allBlank rfl]
  change (Reader.expect '\x7b' >>= fun _ => members fields draft).run _ = _
  rw [Reader.run_bind_ok (Reader.run_expect _ _)]
  rfl

/-- An object is read as what its members make of the empty draft. -/
theorem ObjectText.run_record (object : ObjectText entries text)
    (taken : Outcome fields draft entries outcome) (allBlank : AllBlank blank)
    (rest : List Char) :
    (record fields draft).run (blank ++ (text ++ rest)) =
      outcome.map fun final => (final, rest) := by
  cases object with
  | empty blankBefore =>
      cases taken
      rw [List.cons_append, run_record_open allBlank, List.append_assoc, List.singleton_append,
        run_membersLeft_close blankBefore]
      rfl
  | filled blankBefore members =>
      rw [List.cons_append, run_record_open allBlank, List.append_assoc, List.cons_append,
        run_membersLeft_first blankBefore, members.run taken]

/-- Whatever value a key is the start of, it is malformed if that is not a string. -/
theorem record_of_other_key {char : Char} (allBlank : AllBlank blank)
    (solid : Reader.isBlank char = false) (key : char ≠ '"') (more : char ≠ '\x7d')
    (fields : List (Field δ)) (draft : δ) (rest : List Char) :
    (record fields draft).run ('\x7b' :: (blank ++ char :: rest)) = .error .malformed := by
  have refused : (memberStart true char).run rest = .error .malformed := by
    rw [memberStart, if_pos rfl, if_pos key, Reader.run_fail]
  rw [← List.nil_append ('\x7b' :: _), run_record_open allBlank_nil,
    run_membersLeft_append allBlank solid, if_neg more, Reader.bind_assoc,
    Reader.run_bind_error refused]

end Members

section Takes

variable {α : Type} {char : Char} {text : List Char} {value : α}

/-- Blanks before a value change nothing for a reader that starts by skipping them. -/
private theorem Reader.takes_of_position {next : Char → Reader α}
    (solid : Reader.isBlank char = false)
    (whole : ∀ rest, Ends rest →
      (position >>= next).run (char :: text ++ rest) = .ok (value, rest)) :
    (position >>= next).Takes (char :: text) value := by
  intro blank rest allBlank ends
  have read := whole rest ends
  rw [List.cons_append, run_position_bind solid] at read
  rw [List.cons_append, run_position_append allBlank solid, read]

theorem Reader.Takes.map {β : Type} {reader : Reader α} (taken : reader.Takes text value)
    (f : α → β) : (reader >>= fun value => pure (f value)).Takes text (f value) := by
  intro blank rest allBlank ends
  rw [run_bind_ok (taken blank rest allBlank ends), run_pure]

theorem takes_natural64 (number : UInt64) : natural64.Takes (decimal number) number := by
  have spelled := open_natural64 number
  obtain ⟨char, others, same, digit⟩ := (Numeral.readable_decimal number).exists_cons
  rw [same] at spelled ⊢
  exact Reader.takes_of_position (Numeral.not_isBlank digit) spelled.whole

theorem takes_boolean (value : Bool) :
    boolean.Takes (if value then "true".toList else "false".toList) value := by
  have spelled := (closed_boolean value).toOpen.whole
  cases value with
  | true =>
      change boolean.Takes ['t', 'r', 'u', 'e'] true
      exact Reader.takes_of_position rfl spelled
  | false =>
      change boolean.Takes ['f', 'a', 'l', 's', 'e'] false
      exact Reader.takes_of_position rfl spelled

theorem takes_variant {ofName? : List Char → Option α} {name : List Char}
    (named : ofName? name = some value) (string : WrittenString name text) :
    (variant ofName?).Takes ('"' :: text) value := by
  apply Reader.takes_of_position rfl
  intro rest _
  rw [List.cons_append, Reader.run_position_bind rfl]
  change (Reader.expect '"' >>= fun _ => nameTail ofName?).run _ = _
  rw [Reader.run_bind_ok (Reader.run_expect _ _), nameTail,
    Reader.run_bind_ok (string.run rest), named, Reader.run_pure]

/-- An object that spells a name is no exception. -/
theorem variant_of_other_key {blank : List Char} (allBlank : AllBlank blank)
    (solid : Reader.isBlank char = false) (other : char ≠ '"')
    (ofName? : List Char → Option α) (rest : List Char) :
    (variant ofName?).run ('\x7b' :: (blank ++ char :: rest)) = .error .malformed := by
  have found : Reader.next.run (char :: rest) = .ok (char, rest) := rfl
  have refused : (Reader.expect '"').run (char :: rest) = .error .malformed := by
    rw [Reader.expect, Reader.run_bind_ok found, if_neg other, Reader.run_fail]
  rw [variant, Reader.run_position_bind rfl]
  change (Reader.expect '\x7b' >>= fun _ => Reader.blanks >>= fun _ =>
    Reader.expect '"' >>= fun _ => _).run _ = _
  rw [Reader.run_bind_ok (Reader.run_expect _ _),
    Reader.run_bind_ok (Reader.run_blanks_append allBlank solid rest),
    Reader.run_bind_error refused]

end Takes

end MemoryHard.Json
