import MemoryHard.Data.Row
import MemoryHard.Hash.Sha2
import MemoryHard.Hash.Keccak

/-!
# The hash of the scheme

All hashing goes through one function from messages to blocks.  Two such
functions can be chosen by name.
-/

namespace MemoryHard

abbrev HashFunction := Bytes → Block

inductive HashName where
  | sha512
  | keccak512
  deriving DecidableEq, Repr

namespace HashName

def spelling : HashName → String
  | .sha512 => "sha512"
  | .keccak512 => "keccak512"

def ofSpelling? (spelling : String) : Option HashName :=
  [sha512, keccak512].find? (·.spelling = spelling)

def hash : HashName → HashFunction
  | .sha512 => Sha2.sha512
  | .keccak512 => Keccak.keccak512

end HashName

end MemoryHard
