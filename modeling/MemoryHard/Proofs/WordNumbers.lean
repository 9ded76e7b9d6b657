import Mathlib.Algebra.Group.Nat.Defs
import MemoryHard.Memory.Table

/-!
# Words as natural numbers

The scheme is stated over natural numbers, where nothing wraps: multiply, flip, and
reduce once at the end.  `Scheme.combine` is that step.  A vector of words and a
function from places to numbers say the same when they are `Numbered`, and combining
words keeps it so.  Loops that rewrite a value step by step are followed with
`fold_invariant`.
-/

namespace MemoryHard

/-- What holds at the start and is carried by every step holds at the end. -/
theorem fold_invariant {α : Type} {count : Nat} {step : (index : Nat) → index < count → α → α}
    {start : α} (motive : Nat → α → Prop) (first : motive 0 start)
    (next : ∀ index (bound : index < count) value, motive index value →
      motive (index + 1) (step index bound value)) :
    motive count (count.fold step start) := by
  induction count with
  | zero => exact first
  | succ count ih =>
      rw [Nat.fold_succ]
      apply next
      exact ih fun index bound => next index (Nat.lt_succ_of_lt bound)

/-- Word `place` of a block: the number that its four bytes stand for. -/
def Block.number (block : Block) (place : Nat) : Nat :=
  ofLittleEndian ((block.toList.drop (4 * place)).take 4)

/-- The words are these numbers. -/
def Numbered {size : Nat} (words : Vector Word size) (number : Nat → Nat) : Prop :=
  ∀ place (inside : place < size), words[place].toNat = number place

namespace Scheme

/-- Multiply the first number, flip by the second, and only then reduce. -/
def combine (accumulated next : Nat) : Nat :=
  (accumulated * 0x01000193 ^^^ next) % 2 ^ 32

/-- The first `count` numbers, in four bytes each. -/
def bytes (count : Nat) (number : Nat → Nat) : Bytes :=
  (List.range count).flatMap fun place => littleEndian 4 (number place)

/-- It makes no difference to reduce the first number beforehand. -/
private theorem combine_mod (accumulated next : Nat) :
    combine (accumulated % 2 ^ 32) next = combine accumulated next := by
  simp only [combine, Nat.xor_mod_two_pow, Nat.mod_mul_mod]

theorem toNat_combine (accumulated next : Word) :
    (Word.combine accumulated next).toNat = combine accumulated.toNat next.toNat := by
  have reduced : next.toNat % 2 ^ 32 = next.toNat := Nat.mod_eq_of_lt next.toNat_lt
  rw [Word.combine, UInt32.toNat_xor, UInt32.toNat_mul, combine, Nat.xor_mod_two_pow, reduced]
  rfl

theorem toNat_combine_ofNat (number : Nat) (next : Word) :
    (Word.combine (UInt32.ofNat number) next).toNat = combine number next.toNat := by
  rw [toNat_combine, UInt32.toNat_ofNat', combine_mod]

end Scheme

namespace Numbered

variable {size : Nat} {words next : Vector Word size} {number nextNumber : Nat → Nat}

theorem combine (words_eq : Numbered words number) (next_eq : Numbered next nextNumber) :
    Numbered (words.zipWith Word.combine next)
      fun place => Scheme.combine (number place) (nextNumber place) := by
  intro place inside
  rw [Vector.getElem_zipWith, Scheme.toNat_combine, words_eq place inside, next_eq place inside]

theorem toList_eq (words_eq : Numbered words number) :
    words.toList = (List.range size).map fun place => UInt32.ofNat (number place) := by
  apply List.ext_getElem (by simp)
  intro place inside _
  have bound : place < size := by simpa using inside
  rw [Vector.getElem_toList, List.getElem_map, List.getElem_range, ← words_eq place bound,
    UInt32.ofNat_toNat]

/-- Words and numbers are stored in the same bytes. -/
theorem bytes_eq (words_eq : Numbered words number) :
    bytesOfWords words.toList = Scheme.bytes size number := by
  have numbers : words.toList.map UInt32.toNat = (List.range size).map number := by
    apply List.ext_getElem (by simp)
    intro place inside _
    have bound : place < size := by simpa using inside
    simpa using words_eq place bound
  calc bytesOfWords words.toList
      = (words.toList.map UInt32.toNat).flatMap (littleEndian 4) := by
        rw [List.flatMap_map]
        rfl
    _ = Scheme.bytes size number := by
        rw [numbers, List.flatMap_map]
        rfl

end Numbered

theorem Row.numbered_ofBlock (block : Block) : Numbered (Row.ofBlock block) block.number := by
  intro place inside
  have bytes : block.toList = bytesOfWords (Row.ofBlock block).toList := by
    rw [← Row.toList_block, Row.block_ofBlock]
  have known : place < (Row.ofBlock block).toList.length := by simpa using inside
  rw [Block.number, bytes, take_drop_bytesOfWords _ place known, Word.ofLittleEndian_bytes,
    Vector.getElem_toList]

end MemoryHard
