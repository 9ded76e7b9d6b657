/-!
# Refusals

The reasons for which the scheme turns down a buffer, a size, a hash primitive or
a row number, with the text that reports each of them.
-/

namespace MemoryHard

inductive Refusal where
  /-- A cache buffer that does not consist of whole rows. -/
  | unalignedCache (words : Nat)
  | emptyCache
  /-- A dataset size that does not consist of whole rows. -/
  | unalignedDataset (bytes : Nat)
  | emptyDataset
  /-- A dataset without a single page of two rows. -/
  | datasetTooSmall (bytes : Nat)
  /-- A hash primitive whose digests are not as wide as a row. -/
  | hashWidth (actual : Nat)
  | rowOutOfRange (index available : Nat)
  deriving DecidableEq, Repr

def Refusal.message : Refusal → String
  | .unalignedCache words =>
      s!"cache buffer of {words} words is not a multiple of the 16-word row"
  | .emptyCache => "cache buffer holds no rows"
  | .unalignedDataset bytes =>
      s!"dataset size {bytes} is not a multiple of the 64-byte row"
  | .emptyDataset => "dataset holds no rows"
  | .datasetTooSmall bytes =>
      s!"dataset size {bytes} is smaller than one 128-byte mix page"
  | .hashWidth actual =>
      s!"hash primitive produces {actual}-byte digests, expected 64"
  | .rowOutOfRange index available =>
      s!"row {index} is outside the {available} available rows"

end MemoryHard
