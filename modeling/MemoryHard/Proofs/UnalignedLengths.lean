import MemoryHard.Proofs.CacheRecurrence

/-!
# Lengths that are reported as unaligned

Words that do not consist of rows are refused under their own number, and so is every
other buffer with that number of words.  A cache that is to grow from a seed is asked for
in bytes, and is refused under the number of whole words in its size.  With at least one
word behind the last row that number is misaligned.  With fewer bytes behind it, the refusal
names a number of words that does consist of rows.
-/

namespace MemoryHard.Cache

/-- A number of words that is refused as unaligned, whatever the words are and whether they
are to be written over or to be adopted. -/
structure Misaligned (count : Nat) : Prop where
  fill : ∀ (H : HashFunction) (seed : Bytes) (buffer : List Word), buffer.length = count →
    (Cache.fill H seed).run.run buffer = (.error (.unalignedCache count), buffer)
  ofWords : ∀ (epoch : UInt64) (words : List Word), words.length = count →
    Cache.ofWords epoch words = .error (.unalignedCache count)

variable {H : HashFunction} {epoch : UInt64} {seed : Bytes} {buffer words : List Word}
  {count named byteCount : Nat} {reason : Refusal}

private theorem rowCount_of_unaligned (unaligned : count % 16 ≠ 0) :
    rowCount count = .error (.unalignedCache count) := by
  rw [rowCount, dif_pos unaligned]

private theorem rowCount_eq_unaligned_iff :
    rowCount count = .error (.unalignedCache named) ↔ count = named ∧ named % 16 ≠ 0 := by
  constructor
  · intro refused
    unfold rowCount at refused
    split at refused
    next unaligned =>
      cases refused
      exact ⟨rfl, unaligned⟩
    next aligned =>
      split at refused
      · cases refused
      · cases refused
  · rintro ⟨rfl, unaligned⟩
    exact rowCount_of_unaligned unaligned

/-- Filling a buffer fails with its count of rows or not at all. -/
theorem fill_eq_error_iff :
    ((fill H seed).run.run buffer).1 = .error reason ↔
      rowCount buffer.length = .error reason := by
  rw [run_fill]
  cases rowCount buffer.length with
  | error other => simp
  | ok found => simp

/-- Adopting words fails with their count of rows or not at all. -/
theorem ofWords_eq_error_iff :
    ofWords epoch words = .error reason ↔ rowCount words.length = .error reason := by
  rw [ofWords]
  cases rowCount words.length with
  | error other => simp
  | ok found =>
      obtain ⟨count, positive, size⟩ := found
      exact iff_of_false nofun nofun

private theorem misaligned_iff : Misaligned count ↔ count % 16 ≠ 0 := by
  constructor
  · intro misaligned
    have refused := misaligned.ofWords 0 (List.replicate count 0) List.length_replicate
    exact (rowCount_eq_unaligned_iff.mp (ofWords_eq_error_iff.mp refused)).2
  · intro unaligned
    constructor
    · rintro H seed buffer rfl
      rw [run_fill, rowCount_of_unaligned unaligned]
    · rintro epoch words rfl
      exact ofWords_eq_error_iff.mpr (rowCount_of_unaligned unaligned)

private theorem ofSeed_of_empty : ofSeed H epoch seed 0 = .error .emptyCache :=
  rfl

/-- A size of whole rows is refused for no other reason than being zero. -/
theorem ofSeed_eq_unaligned_iff :
    ofSeed H epoch seed byteCount = .error (.unalignedCache named) ↔
      byteCount % 64 ≠ 0 ∧ byteCount / 4 = named := by
  constructor
  · intro refused
    by_cases unaligned : byteCount % 64 ≠ 0
    · rw [ofSeed_of_unaligned unaligned] at refused
      cases refused
      exact ⟨unaligned, rfl⟩
    · exfalso
      by_cases empty : byteCount = 0
      · subst empty
        rw [ofSeed_of_empty] at refused
        cases refused
      · have size : 0 < byteCount / 64 ∧ byteCount = 64 * (byteCount / 64) := by omega
        have grown := words_ofSeed size H epoch seed
        rw [refused] at grown
        cases grown
  · rintro ⟨unaligned, rfl⟩
    exact ofSeed_of_unaligned unaligned H epoch seed

/-- Rounding down to words cuts off everything behind the last row if that is less than a
word. -/
private theorem misaligned_div_iff : Misaligned (byteCount / 4) ↔ 4 ≤ byteCount % 64 := by
  rw [misaligned_iff]
  omega

/-- Words are refused as unaligned exactly under their own number, if that is misaligned.
A size in bytes is refused as unaligned under the number of its whole words, which is
misaligned exactly if at least one of them stands behind the last row. -/
theorem unaligned_names_length (named : Nat) :
    (∀ H seed buffer, ((fill H seed).run.run buffer).1 = .error (.unalignedCache named) ↔
      buffer.length = named ∧ Misaligned named) ∧
    (∀ epoch words, ofWords epoch words = .error (.unalignedCache named) ↔
      words.length = named ∧ Misaligned named) ∧
    (∀ H epoch seed byteCount,
      ofSeed H epoch seed byteCount = .error (.unalignedCache named) ↔
        byteCount % 64 ≠ 0 ∧ byteCount / 4 = named) ∧
    (∀ H epoch seed byteCount,
      ofSeed H epoch seed byteCount = .error (.unalignedCache named) →
        (Misaligned named ↔ 4 ≤ byteCount % 64)) ∧
    (Misaligned named ↔ named % 16 ≠ 0) := by
  refine ⟨?_, ?_, ?_, ?_, misaligned_iff⟩
  · intro H seed buffer
    rw [fill_eq_error_iff, rowCount_eq_unaligned_iff, misaligned_iff]
  · intro epoch words
    rw [ofWords_eq_error_iff, rowCount_eq_unaligned_iff, misaligned_iff]
  · intro H epoch seed byteCount
    exact ofSeed_eq_unaligned_iff
  · intro H epoch seed byteCount refused
    obtain ⟨-, rfl⟩ := ofSeed_eq_unaligned_iff.mp refused
    exact misaligned_div_iff

/-- Behind fifteen rows there are ten words. -/
theorem thousand_bytes_name_misaligned :
    ofSeed Sha2.sha512 0 [0x31, 0x32, 0x33] 1000 = .error (.unalignedCache 250) ∧
      4 ≤ 1000 % 64 ∧ Misaligned 250 := by
  obtain ⟨-, -, refused, rounded, -⟩ := unaligned_names_length 250
  have failed := (refused Sha2.sha512 0 [0x31, 0x32, 0x33] 1000).mpr (by decide)
  exact ⟨failed, by decide, (rounded _ _ _ _ failed).mpr (by decide)⟩

/-- Behind one row there is one byte, and the words of the row are reported. -/
theorem single_byte_names_whole_row :
    ofSeed Sha2.sha512 0 [] 65 = .error (.unalignedCache 16) ∧ 16 % 16 = 0 ∧
      ¬Misaligned 16 ∧
      (∃ cache, ofWords 0 (List.replicate 16 0) = .ok cache) ∧
      (Refusal.unalignedCache 16).message =
        "cache buffer of 16 words is not a multiple of the 16-word row" := by
  have refused : ofSeed Sha2.sha512 0 [] 65 = .error (.unalignedCache 16) :=
    ofSeed_of_unaligned (by decide) _ _ _
  have whole : ¬Misaligned 16 := by
    rw [misaligned_iff]
    decide
  have adopted : ∃ cache, ofWords 0 (List.replicate 16 0) = .ok cache := by
    cases taken : ofWords 0 (List.replicate 16 0) with
    | ok cache => exact ⟨cache, rfl⟩
    | error reason =>
        have counted : rowCount 16 = .ok ⟨1, by decide⟩ := rfl
        have failed := ofWords_eq_error_iff.mp taken
        rw [List.length_replicate, counted] at failed
        cases failed
  exact ⟨refused, rfl, whole, adopted, by decide⟩

end MemoryHard.Cache
