import MemoryHard.Data.LittleEndian

/-!
# Rows

A row is the unit of storage: sixteen words, which are the little-endian reading
of a block of 64 bytes.  The two views carry the same information.  A page is what
one access fetches: two rows, one after the other.
-/

namespace MemoryHard

@[simp] abbrev rowBytes : Nat := 64

@[simp] abbrev rowWords : Nat := 16

@[simp] abbrev mixBytes : Nat := 128

@[simp] abbrev mixWords : Nat := 32

/-- How many rows one access fetches. -/
@[simp] abbrev mixRows : Nat := 2

@[simp] abbrev digestBytes : Nat := 32

abbrev Row := Vector Word rowWords

/-- The bytes of a hash value or of a stored row. -/
abbrev Block := Vector UInt8 rowBytes

/-- The bytes of a published digest. -/
abbrev Digest := Vector UInt8 digestBytes

namespace Row

/-- Rows have a first word. -/
theorem first_lt : 0 < rowWords := by
  decide

def ofBlock (block : Block) : Row :=
  ⟨(wordsOfBytes block.toList).toArray, by simp⟩

def block (row : Row) : Block :=
  ⟨(bytesOfWords row.toList).toArray, by simp⟩

def xor (first second : Row) : Row :=
  first.zipWith (· ^^^ ·) second

/-- Combine word by word. -/
def combine (accumulated next : Row) : Row :=
  accumulated.zipWith Word.combine next

@[simp] theorem toList_block (row : Row) : (block row).toList = bytesOfWords row.toList := by
  simp [block]

@[simp] theorem toList_ofBlock (bytes : Block) :
    (ofBlock bytes).toList = wordsOfBytes bytes.toList := by
  simp [ofBlock]

@[simp] theorem ofBlock_block (row : Row) : ofBlock (block row) = row := by
  apply Vector.toList_inj.mp
  rw [toList_ofBlock, toList_block, wordsOfBytes_bytesOfWords]

@[simp] theorem block_ofBlock (bytes : Block) : block (ofBlock bytes) = bytes := by
  apply Vector.toList_inj.mp
  rw [toList_block, toList_ofBlock, bytesOfWords_wordsOfBytes (by simp)]

end Row

/-- Flip the bits of one block by those of another. -/
def Block.xor (first second : Block) : Block :=
  first.zipWith (· ^^^ ·) second

/-- The block without a single bit. -/
def Block.zero : Block :=
  Vector.replicate rowBytes 0

@[simp] theorem Block.xor_self (block : Block) : block.xor block = zero := by
  apply Vector.ext
  intro place inside
  simp [Block.xor, zero]

/-- It makes no difference whether words or bytes are flipped. -/
theorem Row.block_xor (first second : Row) :
    (first.xor second).block = first.block.xor second.block := by
  apply Vector.toList_inj.mp
  rw [toList_block, Row.xor, Vector.toList_zipWith, bytesOfWords_xor (by simp), Block.xor,
    Vector.toList_zipWith, toList_block, toList_block]

/-- The bytes of consecutive rows stand one after the other. -/
theorem bytesOfWords_glue (rows : List Row) :
    bytesOfWords (glue rows) = glue (rows.map Row.block) := by
  induction rows with
  | nil => rfl
  | cons row rows ih =>
      rw [glue_cons, bytesOfWords_append, ih, List.map_cons, glue_cons, Row.toList_block]

end MemoryHard
