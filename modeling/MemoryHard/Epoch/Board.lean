import MemoryHard.Epoch.Basic

/-!
# The board of the published epoch

A board shows at most one epoch.  Publishing replaces it and is refused unless the
epoch number grows.  Every epoch that is built becomes an edition of its own, with
a serial number that tells it from all others, even from one of equal content.
-/

namespace MemoryHard

structure Edition where
  serial : Nat
  epoch : Epoch

structure Board where
  settings : Settings
  /-- How many editions have been made. -/
  made : Nat
  current? : Option Edition

namespace Board

def new (settings : Settings) : Except Epoch.Fault Board := do
  settings.check.mapError .settings
  return { settings, made := 0, current? := none }

def currentNumber? (board : Board) : Option UInt64 :=
  board.current?.map (·.epoch.number)

/-- A step that is answered or refused, and hands on a board in both cases. -/
abbrev Step (α : Type) := ExceptT Epoch.Fault (StateM Board) α

/-- Build an epoch without publishing it. -/
def build (settings : Settings) (number : UInt64) (seed : Bytes) : Step Edition := do
  let epoch ← Epoch.ofSeed settings number seed
  let board ← get
  set { board with made := board.made + 1 }
  return { serial := board.made, epoch }

/-- Refuse a number that is not greater than the published one. -/
def checkNumber (requested : UInt64) : Step Unit := do
  match (← get).currentNumber? with
  | some current =>
      if requested ≤ current then
        throw (.stale current requested)
  | none => return ()

def publish (edition : Edition) : Step Unit := do
  checkNumber edition.epoch.number
  modify ({ · with current? := some edition })

/-- Build the epoch of a seed with the settings of the board, and publish it. -/
def advance (number : UInt64) (seed : Bytes) : Step Edition := do
  checkNumber number
  let edition ← build (← get).settings number seed
  publish edition
  return edition

/-- Advance to a seed in hexadecimal, with any number of marks `0x` before it. -/
def advanceHex (number : UInt64) (seed : String) : Step Edition := do
  let seed ← (Hex.decode (Hex.dropMarks (Hex.byteChars seed))).mapError Epoch.Fault.seedHex
  advance number seed

/-- Whether the published epoch is this very edition. -/
def shows (board : Board) (edition : Edition) : Bool :=
  board.current?.any (·.serial == edition.serial)

/-- Evaluate with the published epoch. -/
def evaluate (board : Board) (header : Digest) (nonce : UInt64) :
    Except Epoch.Fault Evaluation :=
  match board.current? with
  | some edition => edition.epoch.evaluate header nonce
  | none => .error .notPublished

end Board

/-- What can be tried on a board. -/
inductive Attempt where
  | build (settings : Settings) (number : UInt64) (seed : Bytes)
  | publish (edition : Edition)
  | advance (number : UInt64) (seed : Bytes)
  | advanceHex (number : UInt64) (seed : String)

/-- What is tried, where publishing answers the edition that it is given. -/
def Attempt.step : Attempt → Board.Step Edition
  | .build settings number seed => Board.build settings number seed
  | .publish edition => do
      Board.publish edition
      return edition
  | .advance number seed => Board.advance number seed
  | .advanceHex number seed => Board.advanceHex number seed

namespace Board

/-- The edition that the attempt makes or publishes, and the board afterwards. -/
def attempt (board : Board) (attempt : Attempt) : Except Epoch.Fault Edition × Board :=
  attempt.step.run.run board

/-- The board after a run of attempts. -/
def run (board : Board) (attempts : List Attempt) : Board :=
  attempts.foldl (fun board attempt => (board.attempt attempt).2) board

end Board

end MemoryHard
