import MemoryHard.Data.Row

/-!
# Tables of rows

A table holds at least one row and never changes.  Caches and datasets are tables.
A row is looked up either by its number or by any number modulo the row count.
-/

namespace MemoryHard

structure Table where
  rows : Array Row
  nonempty : 0 < rows.size

namespace Table

def count (table : Table) : Nat :=
  table.rows.size

def byteCount (table : Table) : Nat :=
  rowBytes * table.count

def row? (table : Table) (index : Nat) : Option Row :=
  table.rows[index]?

/-- The row whose number is `index` modulo the row count. -/
def cyclicRow (table : Table) (index : Nat) : Row :=
  have bound : index % table.rows.size < table.rows.size := Nat.mod_lt index table.nonempty
  table.rows[index % table.rows.size]

theorem row?_of_lt {table : Table} {index : Nat} (inside : index < table.count) :
    table.row? index = some (table.cyclicRow index) := by
  have place : index % table.rows.size = index := Nat.mod_eq_of_lt inside
  simp only [row?, cyclicRow, place]
  exact Array.getElem?_eq_getElem inside

def words (table : Table) : List Word :=
  glue table.rows.toList

@[simp] theorem length_words (table : Table) : table.words.length = 16 * table.count := by
  rw [words, length_glue, Array.length_toList, count]

/-- The byte image of the whole table. -/
def bytes (table : Table) : Bytes :=
  bytesOfWords table.words

theorem length_bytes (table : Table) : table.bytes.length = table.byteCount := by
  rw [bytes, length_bytesOfWords, length_words, byteCount, ← Nat.mul_assoc]

end Table

/-- The rows that a buffer of words holds. -/
def rowsOfWords (words : List Word) : List Row :=
  chunks rowWords words

end MemoryHard
