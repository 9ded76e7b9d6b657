import MemoryHard.Proofs.ItemRecurrence

/-!
# Items of congruent numbers

A number takes part in its item in two ways: by the cache row that it selects, and by its
low half.  The low half is put into the first word of the row, where it changes places
with any mask, so numbers with the same low half have the same item as soon as row and mask
together are the same block.  Items therefore repeat.
-/

namespace MemoryHard

namespace Block

private theorem xor_comm (first second : Block) : first.xor second = second.xor first := by
  apply Vector.ext
  intro place inside
  simp only [xor, Vector.getElem_zipWith, UInt8.xor_comm]

private theorem xor_right_comm (first second third : Block) :
    (first.xor second).xor third = (first.xor third).xor second := by
  apply Vector.ext
  intro place inside
  simp only [xor, Vector.getElem_zipWith, UInt8.xor_assoc, UInt8.xor_comm second[place]]

end Block

/-- The row of a single word in the first place. -/
def Row.ofFirst (word : Word) : Row :=
  (Vector.replicate 16 0).set 0 word first_lt

private theorem Table.cyclicRow_eq_of_mod_eq {table : Table} {index other : Nat}
    (same : index % table.count = other % table.count) :
    table.cyclicRow index = table.cyclicRow other := by
  have place : index % table.rows.size = other % table.rows.size := same
  simp only [cyclicRow, place]

namespace Cache

variable {cache : Cache} {index other : Nat}

/-- Putting the low half into the first word flips the row by a row of this word alone. -/
private theorem startRow_eq_xor (cache : Cache) (index : Nat) :
    startRow cache index = (cache.cyclicRow index).xor (Row.ofFirst (UInt32.ofNat index)) := by
  apply Vector.ext
  intro place inside
  rw [startRow, Row.xor, Row.ofFirst, Vector.getElem_zipWith, Vector.getElem_set,
    Vector.getElem_set]
  split
  next first =>
    subst first
    rfl
  next other => rw [Vector.getElem_replicate, UInt32.xor_zero]

/-- The low half and a mask are flipped into the row in any order. -/
private theorem block_startRow_xor (cache : Cache) (index : Nat) (mask : Block) :
    (startRow cache index).block.xor mask =
      ((cache.cyclicRow index).block.xor mask).xor (Row.ofFirst (UInt32.ofNat index)).block := by
  rw [startRow_eq_xor, Row.block_xor, Block.xor_right_comm]

private theorem mixParents_eq_of_low (low : UInt32.ofNat index = UInt32.ofNat other) :
    mixParents cache index = mixParents cache other := by
  funext mix
  simp only [mixParents, mixParent, parentWord, low]

/-- Behind the start block only the low half matters. -/
theorem derive_eq_of_low (H : HashFunction) (low : UInt32.ofNat index = UInt32.ofNat other)
    (start : Block) : derive H cache index start = derive H cache other start := by
  rw [derive, derive, mixParents_eq_of_low low]

private theorem maskedItem_eq_of_start (H : HashFunction) {mask maskToo : Block}
    (low : index % 2 ^ 32 = other % 2 ^ 32)
    (start : (cache.cyclicRow index).block.xor mask =
      (cache.cyclicRow other).block.xor maskToo) :
    cache.maskedItem H index mask = cache.maskedItem H other maskToo := by
  have words : UInt32.ofNat index = UInt32.ofNat other := by
    rw [← UInt32.ofNat_mod_size, low, UInt32.ofNat_mod_size]
  rw [maskedItem, maskedItem, block_startRow_xor, block_startRow_xor, start, words,
    derive_eq_of_low H words]

private theorem maskedItem_eq_of_row (H : HashFunction) (low : index % 2 ^ 32 = other % 2 ^ 32)
    (row : index % cache.count = other % cache.count) (mask : Block) :
    cache.maskedItem H index mask = cache.maskedItem H other mask := by
  apply maskedItem_eq_of_start H low
  rw [Table.cyclicRow_eq_of_mod_eq row]

private theorem maskedItem_add_period (H : HashFunction) (cache : Cache) (index turns : Nat)
    (mask : Block) :
    cache.maskedItem H (index + turns * Nat.lcm (2 ^ 32) cache.count) mask =
      cache.maskedItem H index mask := by
  have returns : ∀ modulus, modulus ∣ Nat.lcm (2 ^ 32) cache.count →
      (index + turns * Nat.lcm (2 ^ 32) cache.count) % modulus = index % modulus := by
    rintro modulus ⟨rest, whole⟩
    rw [whole, Nat.mul_left_comm, Nat.add_mul_mod_self_left]
  apply maskedItem_eq_of_row H
  · exact returns (2 ^ 32) (Nat.dvd_lcm_left _ _)
  · exact returns cache.count (Nat.dvd_lcm_right _ _)

private theorem maskedItem_low (H : HashFunction) (divides : cache.count ∣ 2 ^ 32) (index : Nat)
    (mask : Block) :
    cache.maskedItem H index mask = cache.maskedItem H (index % 2 ^ 32) mask := by
  apply maskedItem_eq_of_row H
  · exact (Nat.mod_mod _ _).symm
  · exact (Nat.mod_mod_of_dvd index divides).symm

/-- A masked item depends on its number by the low half, and on the mask by the block that it
makes of the selected row.  An item is a masked item whose mask flips nothing.  Both repeat
with the least common multiple of `2 ^ 32` and the number of rows, and where that is
`2 ^ 32` the low half alone decides. -/
theorem items_of_congruent_numbers (H : HashFunction) (cache : Cache) :
    (∀ (index other : Nat) (mask maskToo : Block), index % 2 ^ 32 = other % 2 ^ 32 →
        (cache.cyclicRow index).block.xor mask = (cache.cyclicRow other).block.xor maskToo →
          cache.maskedItem H index mask = cache.maskedItem H other maskToo) ∧
      (∀ index, cache.item H index = cache.maskedItem H index Block.zero) ∧
      (∀ index turns,
        cache.item H (index + turns * Nat.lcm (2 ^ 32) cache.count) = cache.item H index ∧
          ∀ mask, cache.maskedItem H (index + turns * Nat.lcm (2 ^ 32) cache.count) mask =
            cache.maskedItem H index mask) ∧
      (cache.count ∣ 2 ^ 32 → ∀ index,
        cache.item H index = cache.item H (index % 2 ^ 32) ∧
          ∀ mask, cache.maskedItem H index mask =
            cache.maskedItem H (index % 2 ^ 32) mask) := by
  have unmasked : ∀ index, cache.item H index = cache.maskedItem H index Block.zero :=
    item_eq_maskedItem H cache
  refine ⟨?_, unmasked, ?_, ?_⟩
  · intro index other mask maskToo low start
    exact maskedItem_eq_of_start H low start
  · intro index turns
    refine ⟨?_, maskedItem_add_period H cache index turns⟩
    rw [unmasked, unmasked, maskedItem_add_period]
  · intro divides index
    refine ⟨?_, maskedItem_low H divides index⟩
    rw [unmasked, unmasked, maskedItem_low H divides]

/-- A cache with a row for every word. -/
def ofFirsts (first : Word) (rest : List Word) : Cache where
  epoch := 0
  rows := ((first :: rest).map Row.ofFirst).toArray
  nonempty := by simp

/-- Of three rows the two numbers select different ones, and each is masked by the row of the
other.  Of two rows they select the same one. -/
theorem items_of_wide_number :
    (5 % 2 ^ 32 = (2 ^ 32 + 5) % 2 ^ 32 ∧
        ((ofFirsts 7 [8, 9]).cyclicRow 5).block.xor (Row.ofFirst 7).block =
          ((ofFirsts 7 [8, 9]).cyclicRow (2 ^ 32 + 5)).block.xor (Row.ofFirst 9).block ∧
        (ofFirsts 7 [8, 9]).maskedItem Sha2.sha512 5 (Row.ofFirst 7).block =
          (ofFirsts 7 [8, 9]).maskedItem Sha2.sha512 (2 ^ 32 + 5) (Row.ofFirst 9).block) ∧
      (ofFirsts 7 [8]).count ∣ 2 ^ 32 ∧
        (ofFirsts 7 [8]).item Sha2.sha512 (2 ^ 32 + 5) =
          (ofFirsts 7 [8]).item Sha2.sha512 ((2 ^ 32 + 5) % 2 ^ 32) := by
  have low : 5 % 2 ^ 32 = (2 ^ 32 + 5) % 2 ^ 32 := by decide
  have start : ((ofFirsts 7 [8, 9]).cyclicRow 5).block.xor (Row.ofFirst 7).block =
      ((ofFirsts 7 [8, 9]).cyclicRow (2 ^ 32 + 5)).block.xor (Row.ofFirst 9).block :=
    Block.xor_comm (Row.ofFirst 9).block (Row.ofFirst 7).block
  have divides : (ofFirsts 7 [8]).count ∣ 2 ^ 32 := by decide
  refine ⟨⟨low, start, ?_⟩, divides, ?_⟩
  · exact (items_of_congruent_numbers Sha2.sha512 (ofFirsts 7 [8, 9])).1 5 (2 ^ 32 + 5) _ _ low
      start
  · exact ((items_of_congruent_numbers Sha2.sha512 (ofFirsts 7 [8])).2.2.2 divides
      (2 ^ 32 + 5)).1

end Cache

end MemoryHard
