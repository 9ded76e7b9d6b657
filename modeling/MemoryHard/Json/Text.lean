import MemoryHard.Data.Hex
import MemoryHard.Json.Reader

/-!
# JSON strings

A string is read after its opening quote.  The strict reading pairs the halves of
a surrogate pair and refuses a lone half.  The loose reading, for text that is
passed over, only checks the shape of the escapes.
-/

namespace MemoryHard.Json

/-- The number that four hexadecimal digits stand for. -/
def unitValue? (digits : List Char) : Option Nat :=
  digits.foldlM (fun value char => (Hex.digitValue? char).map (16 * value + ·)) 0

/-- The four digits of an escape.  Text of fewer than four bytes is cut off here. -/
def hexUnit : Reader Nat where
  run text :=
    match text with
    | first :: second :: third :: fourth :: rest =>
        match unitValue? [first, second, third, fourth] with
        | some value => .ok (value, rest)
        | none => .error .malformed
    | short => .error (if short.foldl (· + ·.utf8Size) 0 < 4 then .truncated else .malformed)
  length_le := by
    intro text value rest equal
    split at equal
    · split at equal
      · cases equal
        simp only [List.length_cons]
        omega
      · cases equal
    · cases equal

def isHighHalf (unit : Nat) : Bool :=
  0xd800 ≤ unit && unit ≤ 0xdbff

def isLowHalf (unit : Nat) : Bool :=
  0xdc00 ≤ unit && unit ≤ 0xdfff

/-- The character of an escape by digits, which takes two escapes beyond U+FFFF. -/
def strictUnicode : Reader Char := do
  let unit ← hexUnit
  if isLowHalf unit then
    Reader.fail .malformed
  else if isHighHalf unit then
    Reader.expect '\\'
    Reader.expect 'u'
    let low ← hexUnit
    if isLowHalf low then
      return Char.ofNat (0x10000 + (unit - 0xd800) * 0x400 + (low - 0xdc00))
    else
      Reader.fail .malformed
  else
    return Char.ofNat unit

/-- Any four digits pass, and stand for the replacement character. -/
def looseUnicode : Reader Char := do
  let _ ← hexUnit
  return '\ufffd'

/-- The character that one letter after a backslash stands for. -/
def shortEscape? : Char → Option Char
  | '"' => some '"'
  | '\\' => some '\\'
  | '/' => some '/'
  | 'b' => some '\x08'
  | 'f' => some '\x0c'
  | 'n' => some '\n'
  | 'r' => some '\r'
  | 't' => some '\t'
  | _ => none

/-- The character of an escape, after its backslash. -/
def escape (unicode : Reader Char) : Reader Char := do
  let char ← Reader.next
  if char = 'u' then
    unicode
  else
    match shortEscape? char with
    | some meant => return meant
    | none => Reader.fail .malformed

/-- The characters up to the closing quote, after those already read. -/
def stringTail (unicode : Reader Char) (before : List Char) :
    List Char → Except Fault (List Char × List Char)
  | [] => .error .truncated
  | char :: rest =>
      if char = '"' then
        .ok (before.reverse, rest)
      else if char = '\\' then
        match _found : (escape unicode).run rest with
        | .ok (meant, rest) => stringTail unicode (meant :: before) rest
        | .error fault => .error fault
      else if char.toNat < 0x20 then
        .error .malformed
      else
        stringTail unicode (char :: before) rest
termination_by text => text.length
decreasing_by
  · have shorter := (escape unicode).length_le _found
    simp only [List.length_cons]
    omega
  · simp

theorem stringTail_length_le {unicode : Reader Char} {before text value rest : List Char}
    (found : stringTail unicode before text = .ok (value, rest)) :
    rest.length ≤ text.length := by
  fun_induction stringTail unicode before text with
  | case1 => cases found
  | case2 before rest' =>
      cases found
      exact Nat.le_succ _
  | case3 before text meant between escaped _ ih =>
      have shorter := (escape unicode).length_le escaped
      have tail := ih found
      simp only [List.length_cons]
      omega
  | case4 => cases found
  | case5 => cases found
  | case6 before char text _ _ _ ih =>
      have tail := ih found
      simp only [List.length_cons]
      omega

def stringWith (unicode : Reader Char) : Reader (List Char) where
  run := stringTail unicode []
  length_le := stringTail_length_le

/-- The rest of a string after its opening quote. -/
def strictString : Reader (List Char) :=
  stringWith strictUnicode

def looseString : Reader (List Char) :=
  stringWith looseUnicode

end MemoryHard.Json
