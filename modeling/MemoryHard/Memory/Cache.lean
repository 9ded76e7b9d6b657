import MemoryHard.Refusal
import MemoryHard.Hash.Name
import MemoryHard.Memory.Table

/-!
# The cache of an epoch

The rows of a cache start as a hash chain from the seed and are then mixed in
three rounds.  A round rewrites the rows in order and in place, so a row is
mixed from rows of the same and of the previous round.
-/

namespace MemoryHard

structure Cache extends Table where
  epoch : UInt64

namespace Cache

/-- The number of rows in a buffer of `words` words. -/
def rowCount (words : Nat) :
    Except Refusal { count : Nat // 0 < count ∧ words = rowWords * count } :=
  if unaligned : words % rowWords ≠ 0 then
    .error (.unalignedCache words)
  else if empty : words = 0 then
    .error .emptyCache
  else
    .ok ⟨words / rowWords, whole_units unaligned empty⟩

variable {count : Nat}

/-- What row `index` of the chain is the hash of. -/
def chainMessage (seed : Bytes) (rows : Vector Row count) (index : Nat)
    (bound : index < count) : Bytes :=
  if index = 0 then
    seed
  else
    rows[index - 1].block.toList

/-- Overwrite the rows with the hash chain that starts from the seed. -/
def writeChain (H : HashFunction) (seed : Bytes) (rows : Vector Row count) :
    Vector Row count :=
  count.fold
    (fun index bound rows =>
      rows.set index (Row.ofBlock (H (chainMessage seed rows index bound))))
    rows

/-- What row `index` is replaced by the hash of: the row that its first word selects,
flipped by the row before it, where the last row stands before the first. -/
def mixMessage (rows : Vector Row count) (index : Nat) (bound : index < count) : Bytes :=
  have positive : 0 < count := Nat.zero_lt_of_lt bound
  have selected : rows[index][0].toNat % count < count := Nat.mod_lt _ positive
  have previous : (index + count - 1) % count < count := Nat.mod_lt _ positive
  (Row.xor rows[rows[index][0].toNat % count] rows[(index + count - 1) % count]).block.toList

/-- Rewrite every row once, in order. -/
def mixRound (H : HashFunction) (rows : Vector Row count) : Vector Row count :=
  count.fold
    (fun index bound rows =>
      rows.set index (Row.ofBlock (H (mixMessage rows index bound))))
    rows

def rounds : Nat := 3

def mixRows (H : HashFunction) (seed : Bytes) (rows : Vector Row count) : Vector Row count :=
  Nat.repeat (mixRound H) rounds (writeChain H seed rows)

/-- Overwrite a buffer of words with the rows of a cache.  A refused buffer keeps its
words. -/
def fill (H : HashFunction) (seed : Bytes) : ExceptT Refusal (StateM (List Word)) Unit := do
  let buffer ← get
  let ⟨count, _, size⟩ ← rowCount buffer.length
  let rows : Vector Row count :=
    ⟨(rowsOfWords buffer).toArray, by simp [rowsOfWords, size]⟩
  set (glue (mixRows H seed rows).toList)

/-- The cache of `byteCount` bytes that grows from a seed. -/
def ofSeed (H : HashFunction) (epoch : UInt64) (seed : Bytes) (byteCount : Nat) :
    Except Refusal Cache := do
  if byteCount % rowBytes ≠ 0 then
    throw (.unalignedCache (byteCount / wordBytes))
  let ⟨count, positive, _⟩ ← rowCount (byteCount / wordBytes)
  let rows := mixRows H seed (Vector.replicate count (Vector.replicate rowWords 0))
  return { epoch, rows := rows.toArray, nonempty := by simpa using positive }

/-- Adopt the words of a finished cache. -/
def ofWords (epoch : UInt64) (words : List Word) : Except Refusal Cache := do
  let ⟨count, positive, size⟩ ← rowCount words.length
  return {
    epoch
    rows := (rowsOfWords words).toArray
    nonempty := by simpa [rowsOfWords, size] using positive }

end Cache

end MemoryHard
