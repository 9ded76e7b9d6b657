import MemoryHard.Json.Skip
import MemoryHard.Json.Value

/-!
# Records

A record is read into a draft, field by field.  As an object it lists its fields in
any order, at most once each, among members of other names, which are passed
over.  As a list it gives the fields in their order and may stop early.  What a
missing field means is up to the owner of the draft.
-/

namespace MemoryHard.Json

/-- A field of a record with drafts of type `δ`. -/
structure Field (δ : Type) where
  name : List Char
  isSet : δ → Bool
  read : δ → Reader δ

/-- A field that is kept as an optional part of the draft. -/
def Field.ofPart {δ α : Type} (name : List Char) (part? : δ → Option α) (put : δ → α → δ)
    (reader : Reader α) : Field δ where
  name
  isSet draft := (part? draft).isSome
  read draft := do
    let value ← reader
    return put draft value

variable {δ : Type}

/-- A member after the opening quote of its key. -/
def member (fields : List (Field δ)) (draft : δ) : Reader δ := do
  let key ← strictString
  match fields.find? (·.name = key) with
  | some field =>
      if field.isSet draft then
        Reader.fail .mismatched
      else
        Reader.blanks
        Reader.expect ':'
        field.read draft
  | none =>
      Reader.blanks
      Reader.expect ':'
      skipValue
      return draft

/-- What stands before a key, from the given character through the opening quote. -/
def memberStart (first : Bool) (char : Char) : Reader Unit := do
  if first then
    if char ≠ '"' then
      Reader.fail .malformed
  else
    if char ≠ ',' then
      Reader.fail .malformed
    Reader.blanks
    Reader.expect '"'

/-- The members that are left, through the closing bracket. -/
def membersFrom (fields : List (Field δ)) (first : Bool) (draft : δ) (text : List Char) :
    Except Fault (δ × List Char) :=
  match _found : text.dropWhile Reader.isBlank with
  | [] => .error .truncated
  | char :: rest =>
      if char = '}' then
        .ok (draft, rest)
      else
        match _read : (memberStart first char >>= fun _ => member fields draft).run rest with
        | .ok (draft, rest) => membersFrom fields false draft rest
        | .error fault => .error fault
termination_by text.length
decreasing_by
  have shorter := Reader.length_lt_of_dropWhile _found
  have read := Reader.length_le _ _read
  omega

theorem membersFrom_length_le {fields : List (Field δ)} {first : Bool} {draft value : δ}
    {text rest : List Char} (found : membersFrom fields first draft text = .ok (value, rest)) :
    rest.length ≤ text.length := by
  fun_induction membersFrom fields first draft text with
  | case1 => cases found
  | case2 _ _ _ _ blank =>
      cases found
      exact Nat.le_of_lt (Reader.length_lt_of_dropWhile blank)
  | case3 _ _ _ _ _ blank _ _ _ read ih =>
      have shorter := Reader.length_lt_of_dropWhile blank
      have started := Reader.length_le _ read
      have tail := ih found
      omega
  | case4 => cases found

def members (fields : List (Field δ)) (draft : δ) : Reader δ where
  run := membersFrom fields true draft
  length_le := membersFrom_length_le

/-- The elements that are left, through the closing bracket. -/
def elements (first : Bool) (draft : δ) : (fields : List (Field δ)) → Reader δ
  | [] => do
      Reader.blanks
      Reader.expect ']'
      return draft
  | field :: fields => do
      let char ← Reader.position
      if char = ']' then
        Reader.expect ']'
        return draft
      else
        if !first then
          Reader.expect ','
          if (← Reader.position) = ']' then
            Reader.fail .malformed
        let draft ← field.read draft
        elements false draft fields

/-- The draft of the record that stands here. -/
def record (fields : List (Field δ)) (empty : δ) : Reader δ := do
  let char ← Reader.position
  match char with
  | '{' => do
      Reader.expect '{'
      members fields empty
  | '[' => do
      Reader.expect '['
      elements true empty fields
  | _ => otherKind

end MemoryHard.Json
