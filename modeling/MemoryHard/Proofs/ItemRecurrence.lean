import MemoryHard.Memory.Item
import MemoryHard.Proofs.WordNumbers

/-!
# Items as a recurrence over natural numbers

`Scheme.item` derives an item from the flat words of a cache.  The whole number goes
into every parent, and nothing is reduced before a remainder is taken.  The library cuts
the number down to a word first, which changes no parent: the word is only flipped and
multiplied before it is reduced anyway.
-/

namespace MemoryHard

namespace Scheme

variable (words : List Word) (count index : Nat)

/-- Word `place` of row `row`, counted through the words of all rows. -/
def rowNumber (row place : Nat) : Nat :=
  (words.getD (16 * row + place) 0).toNat

/-- The selected row, where the first word is flipped by the low half of the number. -/
def startNumber (place : Nat) : Nat :=
  if place = 0 then
    rowNumber words (index % count) place ^^^ index % 2 ^ 32
  else
    rowNumber words (index % count) place

/-- The parent row of one step, by the word of the mix that the step looks at. -/
def parentRow (step number : Nat) : Nat :=
  combine (index ^^^ step) number % count

/-- Word `place` of the mix after some steps from the first hash. -/
def itemMix (first : Block) : (steps place : Nat) → Nat
  | 0, place => first.number place
  | steps + 1, place =>
      let parent := parentRow count index steps (itemMix first steps (steps % 16))
      combine (itemMix first steps place) (rowNumber words parent place)

/-- The first hash: of the start row, flipped by a mask byte by byte. -/
def firstHash (H : HashFunction) (mask : Block) : Block :=
  H (List.zipWith (· ^^^ ·) (bytes 16 (startNumber words count index)) mask.toList)

/-- The item of a number under a mask. -/
def item (H : HashFunction) (mask : Block) : Block :=
  H (bytes 16 (itemMix words count index (firstHash words count index H mask) 256))

end Scheme

private theorem Table.numbered_cyclicRow (table : Table) (index : Nat) :
    Numbered (table.cyclicRow index) (Scheme.rowNumber table.words (index % table.count)) := by
  intro place inside
  have bound : index % table.rows.size < table.rows.toList.length := by
    simpa using Nat.mod_lt index table.nonempty
  rw [Scheme.rowNumber, words, count, List.getD_eq_getElem?_getD,
    getElem?_glue table.rows.toList bound inside]
  rfl

namespace Cache

variable {cache : Cache} {index : Nat} {mix : Row} {number : Nat → Nat}

private theorem numbered_startRow (cache : Cache) (index : Nat) :
    Numbered (startRow cache index) (Scheme.startNumber cache.words cache.count index) := by
  intro place inside
  have row := cache.numbered_cyclicRow index
  rw [startRow, Vector.getElem_set, Scheme.startNumber]
  split
  next first =>
    subst first
    rw [if_pos rfl, UInt32.toNat_xor, UInt32.toNat_ofNat', row 0 inside]
  next other => rw [if_neg (Ne.symm other), row place inside]

/-- Both cuts can be made after the flip, and there the multiplication reduces anyway. -/
private theorem toNat_parentWord (numbered : Numbered mix number) (index step : Nat) :
    (parentWord index step mix).toNat = Scheme.combine (index ^^^ step) (number (step % 16)) := by
  rw [parentWord, ← UInt32.ofNat_xor, Scheme.toNat_combine_ofNat, numbered]

/-- Words and numbers go through a step alike. -/
private theorem numbered_mixParent (numbered : Numbered mix number) (cache : Cache)
    (index step : Nat) :
    Numbered (mixParent cache index step mix) fun place =>
      Scheme.combine (number place)
        (Scheme.rowNumber cache.words
          (Scheme.parentRow cache.count index step (number (step % 16))) place) := by
  rw [Scheme.parentRow, ← toNat_parentWord numbered]
  exact numbered.combine (cache.numbered_cyclicRow (parentWord index step mix).toNat)

private theorem numbered_mixParents (cache : Cache) (index : Nat) (first : Block) :
    Numbered (mixParents cache index (Row.ofBlock first))
      (Scheme.itemMix cache.words cache.count index first 256) := by
  apply fold_invariant fun steps mix =>
    Numbered mix (Scheme.itemMix cache.words cache.count index first steps)
  · exact Row.numbered_ofBlock first
  · intro step _ mix numbered
    exact numbered_mixParent numbered cache index step

private theorem derive_eq (H : HashFunction) (cache : Cache) (index : Nat) (start : Block) :
    derive H cache index start =
      H (Scheme.bytes 16 (Scheme.itemMix cache.words cache.count index (H start.toList) 256)) := by
  rw [derive, Row.toList_block, (numbered_mixParents cache index _).bytes_eq]

private theorem toList_xor_startRow (cache : Cache) (index : Nat) (mask : Block) :
    ((startRow cache index).block.xor mask).toList =
      List.zipWith (· ^^^ ·) (Scheme.bytes 16 (Scheme.startNumber cache.words cache.count index))
        mask.toList := by
  rw [Block.xor, Vector.toList_zipWith, Row.toList_block, (numbered_startRow cache index).bytes_eq]

private theorem maskedItem_eq (H : HashFunction) (cache : Cache) (index : Nat) (mask : Block) :
    cache.maskedItem H index mask = Scheme.item cache.words cache.count index H mask := by
  rw [maskedItem, derive_eq, toList_xor_startRow]
  rfl

/-- An item is a masked item whose mask flips nothing. -/
theorem item_eq_maskedItem (H : HashFunction) (cache : Cache) (index : Nat) :
    cache.item H index = cache.maskedItem H index (Vector.replicate 64 0) := by
  have unflipped : (startRow cache index).block.xor (Vector.replicate 64 0) =
      (startRow cache index).block := by
    apply Vector.ext
    intro place inside
    rw [Block.xor, Vector.getElem_zipWith, Vector.getElem_replicate, UInt8.xor_zero]
  rw [item, maskedItem, unflipped]

/-- Items and masked items follow the recurrence over natural numbers, for every number
however large.  Every word of the cache that the recurrence reads is there. -/
theorem items_eq_recurrence (H : HashFunction) (cache : Cache) (index : Nat) (mask : Block) :
    cache.maskedItem H index mask = Scheme.item cache.words cache.count index H mask ∧
      cache.item H index =
        Scheme.item cache.words cache.count index H (Vector.replicate 64 0) ∧
      16 * (index % cache.count) + 15 < cache.words.length ∧
      ∀ step number,
        16 * Scheme.parentRow cache.count index step number + 15 < cache.words.length := by
  have positive : 0 < cache.count := cache.nonempty
  have length := cache.length_words
  refine ⟨maskedItem_eq H cache index mask, ?_, ?_, ?_⟩
  · rw [item_eq_maskedItem, maskedItem_eq]
  · have start := Nat.mod_lt index positive
    omega
  · intro step number
    have parent : Scheme.parentRow cache.count index step number < cache.count :=
      Nat.mod_lt _ positive
    omega

end Cache

end MemoryHard
