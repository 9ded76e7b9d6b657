/-!
# Readers of JSON text

A reader takes a value from the front of a text or reports the first fault.  It
never leaves more text than it was given, which is what bounds every loop.
-/

namespace MemoryHard.Json

/-- What is wrong with a text at the first place where something is wrong. -/
inductive Fault where
  /-- The text is not JSON. -/
  | malformed
  /-- The value is not of the kind that belongs here. -/
  | mismatched
  /-- The text ends too early. -/
  | truncated
  deriving DecidableEq, Repr

def Fault.category : Fault → String
  | .malformed => "syntax"
  | .mismatched => "data"
  | .truncated => "eof"

@[ext] structure Reader (α : Type) where
  run : List Char → Except Fault (α × List Char)
  length_le : ∀ {text value rest},
    run text = .ok (value, rest) → rest.length ≤ text.length

namespace Reader

variable {α β : Type}

def result (value : α) : Reader α where
  run text := .ok (value, text)
  length_le := by
    intro text value rest equal
    cases equal
    exact Nat.le_refl _

def andThen (first : Reader α) (second : α → Reader β) : Reader β where
  run text :=
    match first.run text with
    | .ok (value, rest) => (second value).run rest
    | .error fault => .error fault
  length_le := by
    intro text value rest equal
    split at equal
    next middle between found =>
      exact Nat.le_trans ((second middle).length_le equal) (first.length_le found)
    next => cases equal

instance : Monad Reader where
  pure := result
  bind := andThen

def fail (fault : Fault) : Reader α where
  run _ := .error fault
  length_le := by
    intro text value rest equal
    cases equal

@[simp] theorem run_pure (value : α) (text : List Char) :
    (pure value : Reader α).run text = .ok (value, text) :=
  rfl

@[simp] theorem run_fail (fault : Fault) (text : List Char) :
    (fail fault : Reader α).run text = .error fault :=
  rfl

theorem run_bind (first : Reader α) (second : α → Reader β) (text : List Char) :
    (first >>= second).run text =
      match first.run text with
      | .ok (value, rest) => (second value).run rest
      | .error fault => .error fault :=
  rfl

theorem run_bind_ok {first : Reader α} {text rest : List Char} {value : α}
    (found : first.run text = .ok (value, rest)) (second : α → Reader β) :
    (first >>= second).run text = (second value).run rest := by
  rw [run_bind, found]

theorem run_bind_error {first : Reader α} {text : List Char} {fault : Fault}
    (found : first.run text = .error fault) (second : α → Reader β) :
    (first >>= second).run text = .error fault := by
  rw [run_bind, found]

theorem bind_assoc {γ : Type} (first : Reader α) (second : α → Reader β) (third : β → Reader γ) :
    (first >>= second) >>= third = first >>= fun value => second value >>= third := by
  have same : ((first >>= second) >>= third).run =
      (first >>= fun value => second value >>= third).run := by
    funext text
    rw [run_bind, run_bind, run_bind]
    cases first.run text <;> rfl
  exact Reader.ext same

/-- The next character. -/
def next : Reader Char where
  run
    | [] => .error .truncated
    | char :: rest => .ok (char, rest)
  length_le := by
    intro text value rest equal
    cases text with
    | nil => cases equal
    | cons char text =>
        cases equal
        exact Nat.le_succ _

/-- The next character, which is not consumed. -/
def peek : Reader Char where
  run
    | [] => .error .truncated
    | char :: rest => .ok (char, char :: rest)
  length_le := by
    intro text value rest equal
    cases text with
    | nil => cases equal
    | cons char text =>
        cases equal
        exact Nat.le_refl _

/-- The longest run of characters that pass a test. -/
def span (test : Char → Bool) : Reader (List Char) where
  run text := .ok (text.takeWhile test, text.dropWhile test)
  length_le := by
    intro text value rest equal
    cases equal
    exact (List.dropWhile_sublist test).length_le

/-- The next character if there is one that passes a test. -/
def accept (test : Char → Bool) : Reader (Option Char) where
  run
    | [] => .ok (none, [])
    | char :: rest => if test char then .ok (some char, rest) else .ok (none, char :: rest)
  length_le := by
    intro text value rest equal
    cases text with
    | nil =>
        cases equal
        exact Nat.le_refl _
    | cons char text =>
        dsimp only at equal
        split at equal
        · cases equal
          exact Nat.le_succ _
        · cases equal
          exact Nat.le_refl _

theorem run_span (test : Char → Bool) (text : List Char) :
    (span test).run text = .ok (text.takeWhile test, text.dropWhile test) :=
  rfl

theorem run_accept_cons (test : Char → Bool) (char : Char) (rest : List Char) :
    (accept test).run (char :: rest) =
      if test char then .ok (some char, rest) else .ok (none, char :: rest) :=
  rfl

/-- One given character. -/
def expect (expected : Char) : Reader Unit := do
  let char ← next
  if char = expected then
    return ()
  else
    fail .malformed

/-- Given characters, one after the other. -/
def literal : List Char → Reader Unit
  | [] => return ()
  | char :: rest => do
      expect char
      literal rest

def isBlank (char : Char) : Bool :=
  char = ' ' || char = '\t' || char = '\n' || char = '\r'

theorem length_lt_of_dropWhile {test : Char → Bool} {text rest : List Char} {char : Char}
    (found : text.dropWhile test = char :: rest) : rest.length < text.length := by
  have dropped := (List.dropWhile_sublist test (l := text)).length_le
  rw [found] at dropped
  exact dropped

def blanks : Reader Unit := do
  let _ ← span isBlank
  return ()

/-- The first character after blanks, which is not consumed. -/
def position : Reader Char := do
  blanks
  peek

/-- A value that fills the whole text but for blanks after it. -/
def readAll (reader : Reader α) (text : List Char) : Except Fault α :=
  match reader.run text with
  | .ok (value, rest) => if rest.all isBlank then .ok value else .error .malformed
  | .error fault => .error fault

end Reader

end MemoryHard.Json
