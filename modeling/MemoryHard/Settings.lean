import MemoryHard.Hash.Name

/-!
# Settings

The sizes and the hash that every epoch is built with.  Settings are valid when the
cache consists of rows and the dataset of pages of two rows.
-/

namespace MemoryHard

structure Settings where
  cacheBytes : UInt64 := 16777216
  datasetBytes : UInt64 := 1073741824
  hash : HashName := .sha512
  /-- Whether every epoch computes its whole dataset in advance. -/
  fullDataset : Bool := false
  deriving DecidableEq

namespace Settings

inductive Size where
  | cache
  | dataset
  deriving DecidableEq, Repr

def Size.name : Size → String
  | .cache => "cache_bytes"
  | .dataset => "dataset_bytes"

/-- What a size has to be a positive multiple of. -/
def Size.unit : Size → Nat
  | .cache => rowBytes
  | .dataset => mixBytes

/-- A size that is not a positive multiple of its unit. -/
structure InvalidSize where
  size : Size
  value : UInt64
  deriving DecidableEq, Repr

def InvalidSize.message (invalid : InvalidSize) : String :=
  let name := invalid.size.name
  let value := invalid.value.toNat
  let unit := invalid.size.unit
  s!"Invalid parameter {name}: {value} is not a positive multiple of {unit}"

def checkSize (size : Size) (value : UInt64) : Except InvalidSize Unit :=
  if value = 0 ∨ value.toNat % size.unit ≠ 0 then
    .error { size, value }
  else
    .ok ()

/-- The first invalid size, if there is one. -/
def check (settings : Settings) : Except InvalidSize Unit := do
  checkSize .cache settings.cacheBytes
  checkSize .dataset settings.datasetBytes

end Settings

end MemoryHard
