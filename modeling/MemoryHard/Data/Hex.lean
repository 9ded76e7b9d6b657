import MemoryHard.Data.LittleEndian

/-!
# Hexadecimal text

Bytes are written as two lower-case digits each and are read in either case.
Reading reports an odd number of digits before any bad digit, and a bad digit
with its position.
-/

namespace MemoryHard.Hex

inductive Fault where
  | oddLength
  | badDigit (char : Char) (position : Nat)
  deriving DecidableEq, Repr

/-- The value of a digit in either case. -/
def digitValue? (char : Char) : Option Nat :=
  if '0' ≤ char ∧ char ≤ '9' then
    some (char.toNat - '0'.toNat)
  else if 'a' ≤ char ∧ char ≤ 'f' then
    some (char.toNat - 'a'.toNat + 10)
  else if 'A' ≤ char ∧ char ≤ 'F' then
    some (char.toNat - 'A'.toNat + 10)
  else
    none

def encode (bytes : Bytes) : List Char :=
  bytes.flatMap fun byte =>
    [Nat.digitChar (byte.toNat / 16), Nat.digitChar (byte.toNat % 16)]

def digitAt (char : Char) (position : Nat) : Except Fault Nat :=
  match digitValue? char with
  | some value => .ok value
  | none => .error (.badDigit char position)

/-- The bytes of pairs of digits, of which the first digit stands at `position`. -/
def decodePairs (position : Nat) : List Char → Except Fault Bytes
  | high :: low :: rest => do
      let highValue ← digitAt high position
      let lowValue ← digitAt low (position + 1)
      let bytes ← decodePairs (position + 2) rest
      return UInt8.ofNat (16 * highValue + lowValue) :: bytes
  | _ => .ok []

def decode (text : List Char) : Except Fault Bytes :=
  if text.length % 2 ≠ 0 then
    .error .oddLength
  else
    decodePairs 0 text

/-- The text without the marks `0x` at its start. -/
def dropMarks : List Char → List Char
  | '0' :: 'x' :: rest => dropMarks rest
  | text => text

/-- Each byte of the text as the character with its number. -/
def byteChars (text : String) : List Char :=
  text.toUTF8.toList.map fun byte => Char.ofNat byte.toNat

/-- A character below U+0100 in single quotes, with an escape where it would not show. -/
def quoted (char : Char) : String :=
  let inside :=
    match char with
    | '\x00' => "\\0"
    | '\t' => "\\t"
    | '\n' => "\\n"
    | '\r' => "\\r"
    | '\'' => "\\'"
    | '\\' => "\\\\"
    | _ =>
        let code := char.toNat
        if code < 0x20 ∨ 0x7f ≤ code ∧ code ≤ 0xa0 ∨ code = 0xad then
          "\\u\x7b" ++ String.ofList (Nat.toDigits 16 code) ++ "\x7d"
        else
          char.toString
  "'" ++ inside ++ "'"

def Fault.message : Fault → String
  | .oddLength => "Odd number of digits"
  | .badDigit char position =>
      let shown := quoted char
      s!"Invalid character {shown} at position {position}"

end MemoryHard.Hex
