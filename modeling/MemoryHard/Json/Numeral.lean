import MemoryHard.Json.Reader

/-!
# JSON numerals

A numeral is kept as its digits.  It is exact when it is a plain run of digits.  A
numeral whose value would exceed the largest binary double counts as malformed,
where the value is the product of a 64-bit significand and a power of ten, both
rounded to 53 bits.
-/

namespace MemoryHard.Json

/-- The plain numeral of a number. -/
def decimal (number : UInt64) : List Char :=
  Nat.toDigits 10 number.toNat

structure Numeral where
  negative : Bool
  whole : List Nat
  fraction : Option (List Nat)
  exponent : Option Int

namespace Numeral

def isDigit (char : Char) : Bool :=
  '0' ≤ char && char ≤ '9'

def digitValue (char : Char) : Nat :=
  char.toNat - '0'.toNat

def valueOf (digits : List Nat) : Nat :=
  digits.foldl (fun value digit => 10 * value + digit) 0

/-- At least one digit. -/
def someDigits : Reader (List Nat) := do
  let digits ← Reader.span isDigit
  if digits.isEmpty then
    let _ ← Reader.peek
    Reader.fail .malformed
  else
    return digits.map digitValue

/-- A zero that starts the whole part is the whole part. -/
def wholePart : Reader (List Nat) := do
  let digits ← someDigits
  match digits with
  | 0 :: _ :: _ => Reader.fail .malformed
  | _ => return digits

def fractionPart : Reader (Option (List Nat)) := do
  match ← Reader.accept (· = '.') with
  | some _ => return some (← someDigits)
  | none => return none

def exponentPart : Reader (Option Int) := do
  match ← Reader.accept (fun char => char = 'e' || char = 'E') with
  | some _ =>
      let sign ← Reader.accept (fun char => char = '+' || char = '-')
      let size := valueOf (← someDigits)
      return some (if sign = some '-' then -(size : Int) else size)
  | none => return none

/-- A numeral of any size. -/
def read : Reader Numeral := do
  let sign ← Reader.accept (· = '-')
  let whole ← wholePart
  let fraction ← fractionPart
  let exponent ← exponentPart
  return { negative := sign.isSome, whole, fraction, exponent }

/-- The number that a plain run of digits stands for. -/
def natural? (numeral : Numeral) : Option Nat :=
  if numeral.negative || numeral.fraction.isSome || numeral.exponent.isSome then
    none
  else
    some (valueOf numeral.whole)

/-- Append digits to a significand while it stays below `2 ^ 64`, and return the digits
that no longer fit. -/
def absorb (significand : Nat) : List Nat → Nat × List Nat
  | [] => (significand, [])
  | digit :: digits =>
      if 10 * significand + digit < UInt64.size then
        absorb (10 * significand + digit) digits
      else
        (significand, digit :: digits)

/-- The significand and the power of ten.  Digits of the whole part that do not fit
count as zeros, and digits of the fraction that do not fit are dropped. -/
def scientific (numeral : Numeral) : Nat × Int :=
  let (wholeSignificand, dropped) := absorb 0 numeral.whole
  let fraction := numeral.fraction.getD []
  let (significand, rest) := absorb wholeSignificand fraction
  let places : Int := fraction.length - rest.length
  (significand, dropped.length - places + numeral.exponent.getD 0)

/-- The nearest number of 53 significant bits, the even one of two. -/
def round53 (number : Nat) : Nat :=
  let extra := number.log2 + 1 - 53
  let unit := Nat.pow 2 extra
  let quotient := number / unit
  let remainder := number % unit
  if 2 * remainder > unit ∨ 2 * remainder = unit ∧ quotient % 2 = 1 then
    (quotient + 1) * unit
  else
    quotient * unit

def tooLarge (numeral : Numeral) : Bool :=
  let (significand, exponent) := numeral.scientific
  significand != 0 && 0 ≤ exponent &&
    (308 < exponent ||
      Nat.pow 2 1024 - Nat.pow 2 970 ≤
        round53 significand * round53 (Nat.pow 10 exponent.toNat))

/-- A numeral within the range of binary doubles. -/
def readBounded : Reader Numeral := do
  let numeral ← read
  if numeral.tooLarge then
    Reader.fail .malformed
  else
    return numeral

/-- A numeral of any size that is passed over, where a cut counts as malformed. -/
def skip : Reader Unit where
  run text :=
    match read.run text with
    | .ok (_, rest) => .ok ((), rest)
    | .error _ => .error .malformed
  length_le := by
    intro text value rest equal
    split at equal
    next found =>
      cases equal
      exact read.length_le found
    next => cases equal

end Numeral

end MemoryHard.Json
