import MemoryHard.Json.Numeral
import MemoryHard.Json.Text

/-!
# Values that are passed over

A member that nobody asks for may hold any JSON value.  It is passed over without
recursion: the open brackets are kept in a list, so nesting is unbounded.
-/

namespace MemoryHard.Json

inductive Bracket where
  | list
  | object
  deriving DecidableEq

def Bracket.closing : Bracket → Char
  | .list => ']'
  | .object => '}'

/-- A key that is passed over, with its colon. -/
def skipKey : Reader Unit := do
  Reader.blanks
  Reader.expect '"'
  let _ ← looseString
  Reader.blanks
  Reader.expect ':'

/-- What an element starts with before its value. -/
def Bracket.elementStart : Bracket → Reader Unit
  | .list => return ()
  | .object => skipKey

/-- A value without elements, of which the first character is given. -/
def skipScalar (char : Char) : Reader Unit :=
  match char with
  | 'n' => Reader.literal ['n', 'u', 'l', 'l']
  | 't' => Reader.literal ['t', 'r', 'u', 'e']
  | 'f' => Reader.literal ['f', 'a', 'l', 's', 'e']
  | '"' => do
      let _ ← Reader.next
      let _ ← looseString
  | _ =>
      if char = '-' || Numeral.isDigit char then
        Numeral.skip
      else
        Reader.fail .malformed

/-- What comes next, inside the open brackets from the innermost on. -/
inductive Awaiting where
  | value (brackets : List Bracket)
  /-- The first element after an opening bracket, or the closing bracket. -/
  | first (bracket : Bracket) (brackets : List Bracket)
  /-- A comma or a closing bracket, unless every bracket is closed. -/
  | more (brackets : List Bracket)

def Awaiting.rank : Awaiting → Nat
  | .value _ => 1
  | .first _ _ => 2
  | .more _ => 0

/-- Pass over the rest of a value. -/
def skipFrom : (awaiting : Awaiting) → (text : List Char) → Except Fault (List Char)
  | .more [], text => .ok text
  | .value brackets, text =>
      match _found : text.dropWhile Reader.isBlank with
      | [] => .error .truncated
      | char :: rest =>
          if char = '[' then
            skipFrom (.first .list brackets) rest
          else if char = '{' then
            skipFrom (.first .object brackets) rest
          else
            match _skipped : (skipScalar char).run (char :: rest) with
            | .ok (_, rest) => skipFrom (.more brackets) rest
            | .error fault => .error fault
  | .first bracket brackets, text =>
      match _found : text.dropWhile Reader.isBlank with
      | [] => .error .truncated
      | char :: rest =>
          if char = bracket.closing then
            skipFrom (.more brackets) rest
          else
            match _skipped : bracket.elementStart.run (char :: rest) with
            | .ok (_, rest) => skipFrom (.value (bracket :: brackets)) rest
            | .error fault => .error fault
  | .more (bracket :: brackets), text =>
      match _found : text.dropWhile Reader.isBlank with
      | [] => .error .truncated
      | char :: rest =>
          if char = bracket.closing then
            skipFrom (.more brackets) rest
          else if char = ',' then
            match _skipped : bracket.elementStart.run rest with
            | .ok (_, rest) => skipFrom (.value (bracket :: brackets)) rest
            | .error fault => .error fault
          else
            .error .malformed
termination_by awaiting text => 3 * text.length + awaiting.rank
decreasing_by
  all_goals
    have shorter := Reader.length_lt_of_dropWhile _found
    simp only [Awaiting.rank]
  · omega
  · omega
  · have skipped := Reader.length_le _ _skipped
    simp only [List.length_cons] at skipped
    omega
  · omega
  · have skipped := Reader.length_le _ _skipped
    simp only [List.length_cons] at skipped
    omega
  · omega
  · have skipped := Reader.length_le _ _skipped
    omega

theorem skipFrom_length_le {awaiting : Awaiting} {text rest : List Char}
    (found : skipFrom awaiting text = .ok rest) : rest.length ≤ text.length := by
  fun_induction skipFrom awaiting text with
  | case1 =>
      cases found
      exact Nat.le_refl _
  | case3 _ _ _ blank ih | case4 _ _ _ blank _ ih | case8 _ _ _ _ blank ih
  | case12 _ _ _ _ blank ih =>
      have shorter := Reader.length_lt_of_dropWhile blank
      have tail := ih found
      omega
  | case5 _ _ _ _ blank _ _ _ _ start ih | case9 _ _ _ _ _ blank _ _ _ start ih =>
      have shorter := Reader.length_lt_of_dropWhile blank
      have started := Reader.length_le _ start
      have tail := ih found
      simp only [List.length_cons] at started
      omega
  | case13 _ _ _ _ _ _ start blank _ ih =>
      have shorter := Reader.length_lt_of_dropWhile blank
      have started := Reader.length_le _ start
      have tail := ih found
      omega
  | case2 | case6 | case7 | case10 | case11 | case14 | case15 => cases found

/-- One value of any kind. -/
def skipValue : Reader Unit where
  run text :=
    match skipFrom (.value []) text with
    | .ok rest => .ok ((), rest)
    | .error fault => .error fault
  length_le := by
    intro text value rest equal
    split at equal
    next found =>
      cases equal
      exact skipFrom_length_le found
    next => cases equal

end MemoryHard.Json
