import MemoryHard.Json.Record
import MemoryHard.Proofs.SpelledValues

/-!
# Objects that spell a record

An object without blanks spells a record if every member names a field that is still
missing and spells its value.  The draft goes from member to member, so the members may
come in any order.
-/

namespace MemoryHard.Json

variable {δ : Type} {fields : List (Field δ)}

/-- What stands before a key, with its opening quote. -/
def keyStart (first : Bool) : List Char :=
  if first then ['"'] else [',', '"']

def memberText (first : Bool) (name value : List Char) : List Char :=
  keyStart first ++ (name ++ '"' :: ':' :: value)

/-- The text of the members that are left, with the closing bracket, takes one draft to
another. -/
inductive Members (fields : List (Field δ)) : Bool → δ → List Char → δ → Prop where
  | close {first : Bool} {draft : δ} : Members fields first draft ['}'] draft
  | field {first : Bool} {draft next final : δ} {field : Field δ} {text rest : List Char}
      (found : fields.find? (·.name = field.name) = some field)
      (plain : field.name.all isPlain)
      (missing : field.isSet draft = false)
      (value : (field.read draft).Open text next)
      (others : Members fields false next rest final) :
      Members fields first draft (memberText first field.name text ++ rest) final

namespace Members

private theorem ne_nil {first : Bool} {draft final : δ} {text : List Char}
    (spelled : Members fields first draft text final) : text ≠ [] := by
  cases spelled with
  | close => exact List.cons_ne_nil _ _
  | field => cases first <;> exact List.cons_ne_nil _ _

/-- The members after a value end it. -/
private theorem ends {draft final : δ} {text : List Char}
    (spelled : Members fields false draft text final) : Reader.Ends text := by
  cases spelled with
  | close => simp [Reader.Ends, Numeral.carries, Numeral.isDigit]
  | field => simp [Reader.Ends, memberText, keyStart, Numeral.carries, Numeral.isDigit]

/-- A member whose field is a part that the draft does not have yet. -/
theorem part {α : Type} {first : Bool} {draft final : δ} {name text rest : List Char}
    {part? : δ → Option α} {put : δ → α → δ} {reader : Reader α} {value : α}
    (found : fields.find? (·.name = name) = some (.ofPart name part? put reader))
    (plain : name.all isPlain) (missing : part? draft = none)
    (spelled : reader.Open text value)
    (others : Members fields false (put draft value) rest final) :
    Members fields first draft (memberText first name text ++ rest) final := by
  let field : Field δ := .ofPart name part? put reader
  have named : fields.find? (·.name = field.name) = some field := found
  have unset : field.isSet draft = false := by simp [field, Field.ofPart, missing]
  have read : (field.read draft).Open text (put draft value) := spelled.map (put draft)
  exact .field named plain unset read others

end Members

section Member

variable {draft next : δ} {field : Field δ} {text : List Char}

/-- A member after the opening quote of its key. -/
private theorem open_member (found : fields.find? (·.name = field.name) = some field)
    (plain : field.name.all isPlain) (missing : field.isSet draft = false)
    (value : (field.read draft).Open text next) :
    (member fields draft).Open (field.name ++ '"' :: ':' :: text) next := by
  have colon : (Reader.blanks >>= fun _ => Reader.expect ':').Closed [':'] () :=
    (Reader.closed_expect ':').after_blanks rfl
  have behind : ((Reader.blanks >>= fun _ => Reader.expect ':') >>= fun _ =>
      field.read draft).Open (':' :: text) next := colon.bind_open value
  rw [Reader.bind_assoc] at behind
  rw [List.append_cons]
  apply (closed_strictString (List.all_eq_true.mp plain)).bind_open
  rw [found]
  dsimp only
  rw [if_neg (by simp [missing])]
  exact behind

/-- A member from the character after the first one on. -/
private theorem open_started (first : Bool) (spelled : (member fields draft).Open text next) :
    ∃ char start, keyStart first = char :: start ∧ Reader.isBlank char = false ∧ char ≠ '}' ∧
      (memberStart first char >>= fun _ => member fields draft).Open (start ++ text) next := by
  cases first with
  | true =>
      refine ⟨'"', [], rfl, rfl, by decide, ?_⟩
      exact (Reader.closed_pure ()).bind_open spelled
  | false =>
      refine ⟨',', ['"'], rfl, rfl, by decide, ?_⟩
      have quote : (memberStart false ',').Closed ['"'] () :=
        (Reader.closed_expect '"').after_blanks rfl
      exact quote.bind_open spelled

end Member

/-- The reader of the members that are left. -/
def membersLeft (fields : List (Field δ)) (first : Bool) (draft : δ) : Reader δ where
  run := membersFrom fields first draft
  length_le := membersFrom_length_le

private theorem run_membersLeft_nil (first : Bool) (draft : δ) :
    (membersLeft fields first draft).run [] = .error .truncated := by
  change membersFrom fields first draft [] = _
  rw [membersFrom]
  rfl

theorem run_membersLeft_append {first : Bool} {draft : δ} {blank : List Char} {char : Char}
    (allBlank : AllBlank blank) (solid : Reader.isBlank char = false) (tail : List Char) :
    (membersLeft fields first draft).run (blank ++ char :: tail) =
      if char = '}' then .ok (draft, tail)
      else ((memberStart first char >>= fun _ => member fields draft) >>=
        membersLeft fields false).run tail := by
  change membersFrom fields first draft (blank ++ char :: tail) = _
  have kept := dropWhile_blank allBlank solid tail
  rw [membersFrom]
  split
  next found => cases kept.symm.trans found
  next found =>
    obtain ⟨rfl, rfl⟩ := List.cons.inj (kept.symm.trans found)
    congr 1
    split
    next read => rw [Reader.run_bind_ok read, membersLeft]
    next read => rw [Reader.run_bind_error read]

private theorem run_membersLeft_cons {first : Bool} {draft : δ} {char : Char}
    (solid : Reader.isBlank char = false) (more : char ≠ '}') (tail : List Char) :
    (membersLeft fields first draft).run (char :: tail) =
      ((memberStart first char >>= fun _ => member fields draft) >>=
        membersLeft fields false).run tail := by
  have step : (membersLeft fields first draft).run ([] ++ char :: tail) = _ :=
    run_membersLeft_append allBlank_nil solid tail
  rwa [if_neg more] at step

/-- Members that take an empty draft to a full one are read as it, and only as a whole. -/
theorem Members.closed {first : Bool} {draft final : δ} {text : List Char}
    (spelled : Members fields first draft text final) :
    (membersLeft fields first draft).Closed text final := by
  induction spelled with
  | close =>
      apply (Reader.closed_pure _).cons
      · intro tail
        change membersFrom fields _ _ ('}' :: tail) = _
        rw [membersFrom]
        rfl
      · exact run_membersLeft_nil _ _
  | @field first draft next final field text rest found plain missing value others ih =>
      obtain ⟨char, start, split, solid, more, started⟩ :=
        open_started first (open_member found plain missing value)
      rw [memberText, split]
      have sequence := started.bind_closed ih others.ne_nil others.ends (run_membersLeft_nil false)
      rw [List.append_assoc] at sequence
      have := sequence.cons (run_membersLeft_cons solid more) (run_membersLeft_nil first draft)
      simpa using this

/-- An object of members in brackets. -/
theorem closed_record {empty final : δ} {text : List Char}
    (spelled : Members fields true empty text final) :
    (record fields empty).Closed ('{' :: text) final := by
  apply Reader.Closed.at_position _ rfl
  exact (Reader.closed_expect '{').bind spelled.closed

end MemoryHard.Json
