import MemoryHard.Memory.Item

/-!
# Datasets

A dataset is the table of the first items of a cache, or any table of rows that
is taken for one.
-/

namespace MemoryHard

structure Dataset extends Table

namespace Dataset

/-- The number of rows in a dataset of `bytes` bytes. -/
def rowCount (bytes : Nat) :
    Except Refusal { count : Nat // 0 < count ∧ bytes = rowBytes * count } :=
  if unaligned : bytes % rowBytes ≠ 0 then
    .error (.unalignedDataset bytes)
  else if empty : bytes = 0 then
    .error .emptyDataset
  else
    .ok ⟨bytes / rowBytes, whole_units unaligned empty⟩

/-- The items of a cache as a dataset of `byteCount` bytes. -/
def ofCache (H : HashFunction) (cache : Cache) (byteCount : Nat) : Except Refusal Dataset := do
  let ⟨count, positive, _⟩ ← rowCount byteCount
  return {
    rows := Array.ofFn fun index : Fin count => Row.ofBlock (cache.item H index.val)
    nonempty := by simpa using positive }

/-- Adopt the words of a finished dataset. -/
def ofWords (words : List Word) : Except Refusal Dataset := do
  let ⟨_, _, size⟩ ← rowCount (wordBytes * words.length)
  return {
    rows := (rowsOfWords words).toArray
    nonempty := by simp at size; simp [rowsOfWords]; omega }

end Dataset

end MemoryHard
