import MemoryHard.Json.Numeral
import MemoryHard.Json.Text

/-!
# Values in a known place

Readers for the kinds of value that a member can have.  A value of another kind is
read as far as its kind demands before it is refused: a scalar to its end, a list or
an object only to its bracket.
-/

namespace MemoryHard.Json

/-- As much of a value as is read before its kind is refused. -/
def refusedPart (char : Char) : Reader Unit :=
  match char with
  | 'n' => Reader.literal ['n', 'u', 'l', 'l']
  | 't' => Reader.literal ['t', 'r', 'u', 'e']
  | 'f' => Reader.literal ['f', 'a', 'l', 's', 'e']
  | '"' => do
      let _ ← Reader.next
      let _ ← strictString
  | '[' => return ()
  | '{' => return ()
  | _ => do
      if char = '-' || Numeral.isDigit char then
        let _ ← Numeral.readBounded
      else
        Reader.fail .malformed

/-- Refuse the value that stands here, because it is of another kind. -/
def otherKind {α : Type} : Reader α := do
  refusedPart (← Reader.position)
  Reader.fail .mismatched

/-- A plain number below `2 ^ 64`. -/
def natural64 : Reader UInt64 := do
  let char ← Reader.position
  if char = '-' || Numeral.isDigit char then
    let numeral ← Numeral.readBounded
    match numeral.natural? with
    | some number =>
        if number < UInt64.size then
          return UInt64.ofNat number
        else
          Reader.fail .mismatched
    | none => Reader.fail .mismatched
  else
    otherKind

def boolean : Reader Bool := do
  let char ← Reader.position
  match char with
  | 't' => do
      Reader.literal ['t', 'r', 'u', 'e']
      return true
  | 'f' => do
      Reader.literal ['f', 'a', 'l', 's', 'e']
      return false
  | _ => otherKind

def null : Reader Unit := do
  let char ← Reader.position
  if char = 'n' then
    Reader.literal ['n', 'u', 'l', 'l']
  else
    otherKind

def string : Reader (List Char) := do
  let char ← Reader.position
  if char = '"' then
    let _ ← Reader.next
    strictString
  else
    otherKind

/-- One of several names, after its opening quote. -/
def nameTail {α : Type} (ofName? : List Char → Option α) : Reader α := do
  match ofName? (← strictString) with
  | some value => return value
  | none => Reader.fail .mismatched

/-- One of several names, as a string or as the only key of an object with value null.
Only these two shapes are a choice between names, and any other start is malformed.  As in
every object, so is a key that does not start as a string: it is never read as a value of
another kind. -/
def variant {α : Type} (ofName? : List Char → Option α) : Reader α := do
  let char ← Reader.position
  match char with
  | '"' => do
      Reader.expect '"'
      nameTail ofName?
  | '{' => do
      Reader.expect '{'
      Reader.blanks
      Reader.expect '"'
      let value ← nameTail ofName?
      Reader.blanks
      Reader.expect ':'
      null
      Reader.blanks
      Reader.expect '}'
      return value
  | _ => Reader.fail .malformed

end MemoryHard.Json
