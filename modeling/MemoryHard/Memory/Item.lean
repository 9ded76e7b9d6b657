import MemoryHard.Memory.Cache

/-!
# Items

Every number has an item: a block that is derived from a cache alone.  The row
that the number selects is hashed, 256 parent rows are mixed into it, and the
result is hashed again.  A masked item differs in its first hash only.
-/

namespace MemoryHard.Cache

/-- The selected row, with the low half of the number put into its first word. -/
def startRow (cache : Cache) (index : Nat) : Row :=
  have inside : 0 < rowWords := Row.first_lt
  let row := cache.cyclicRow index
  row.set 0 (row[0] ^^^ UInt32.ofNat index)

/-- The word that selects the parent of one step. -/
def parentWord (index step : Nat) (mix : Row) : Word :=
  have bound : step % rowWords < rowWords := Nat.mod_lt step (by decide)
  Word.combine (UInt32.ofNat index ^^^ UInt32.ofNat step) mix[step % rowWords]

def mixParent (cache : Cache) (index step : Nat) (mix : Row) : Row :=
  mix.combine (cache.cyclicRow (parentWord index step mix).toNat)

def parents : Nat := 256

def mixParents (cache : Cache) (index : Nat) (mix : Row) : Row :=
  parents.fold (fun step _ mix => mixParent cache index step mix) mix

/-- The item that grows from a start block. -/
def derive (H : HashFunction) (cache : Cache) (index : Nat) (start : Block) : Block :=
  H (mixParents cache index (Row.ofBlock (H start.toList))).block.toList

def item (H : HashFunction) (cache : Cache) (index : Nat) : Block :=
  derive H cache index (startRow cache index).block

/-- The item whose start block is flipped by a mask. -/
def maskedItem (H : HashFunction) (cache : Cache) (index : Nat) (mask : Block) : Block :=
  derive H cache index ((startRow cache index).block.xor mask)

end MemoryHard.Cache
