import MemoryHard.Proofs.Outcome
import MemoryHard.Work.Evaluation

/-!
# Admissible sizes

Caches, datasets, evaluations and settings each check sizes in a unit of their own:
words, bytes, rows or pages.  The lemmas give every check in bytes, so that the
checks can be compared.  Valid settings pass all of them.
-/

namespace MemoryHard

/-- The refusal of a dataset size that is not at least one page of whole rows. -/
inductive SizeRefused (bytes : Nat) : Refusal → Prop where
  | unaligned : bytes % 64 ≠ 0 → SizeRefused bytes (.unalignedDataset bytes)
  | empty : bytes = 0 → SizeRefused bytes .emptyDataset
  | tooSmall : bytes = 64 → SizeRefused bytes (.datasetTooSmall bytes)

theorem Cache.rowCount_of_rows {words count : Nat} (rows : 0 < count ∧ words = 16 * count) :
    Cache.rowCount words = .ok ⟨count, rows⟩ := by
  obtain ⟨positive, rfl⟩ := rows
  have aligned : ¬16 * count % 16 ≠ 0 := by omega
  have nonempty : ¬16 * count = 0 := by omega
  rw [Cache.rowCount, dif_neg aligned, dif_neg nonempty]
  simp

theorem Dataset.rowCount_of_rows {bytes count : Nat} (rows : 0 < count ∧ bytes = 64 * count) :
    Dataset.rowCount bytes = .ok ⟨count, rows⟩ := by
  obtain ⟨positive, rfl⟩ := rows
  have aligned : ¬64 * count % 64 ≠ 0 := by omega
  have nonempty : ¬64 * count = 0 := by omega
  rw [Dataset.rowCount, dif_neg aligned, dif_neg nonempty]
  simp

private theorem Dataset.rowCount_of_unaligned {bytes : Nat} (unaligned : bytes % 64 ≠ 0) :
    Dataset.rowCount bytes = .error (.unalignedDataset bytes) := by
  rw [Dataset.rowCount, dif_pos unaligned]

private theorem Dataset.rowCount_zero : Dataset.rowCount 0 = .error .emptyDataset :=
  rfl

/-- Every size either consists of rows or is refused. -/
theorem Dataset.exists_rowCount (bytes : Nat) :
    (∃ count, ∃ rows : 0 < count ∧ bytes = 64 * count,
      Dataset.rowCount bytes = .ok ⟨count, rows⟩) ∨
      ∃ reason, SizeRefused bytes reason ∧ Dataset.rowCount bytes = .error reason := by
  by_cases unaligned : bytes % 64 ≠ 0
  · exact .inr ⟨_, .unaligned unaligned, Dataset.rowCount_of_unaligned unaligned⟩
  · by_cases empty : bytes = 0
    · subst empty
      exact .inr ⟨_, .empty rfl, Dataset.rowCount_zero⟩
    · have rows : 0 < bytes / 64 ∧ bytes = 64 * (bytes / 64) := by omega
      exact .inl ⟨_, rows, Dataset.rowCount_of_rows rows⟩

namespace Evaluation

theorem pageCount_of_admissible {bytes : Nat} (aligned : bytes % 64 = 0) (large : 128 ≤ bytes) :
    pageCount bytes = .ok (bytes / 128) := by
  have rows : 0 < bytes / 64 ∧ bytes = 64 * (bytes / 64) := by omega
  have pages : bytes / 64 / 2 = bytes / 128 := by omega
  have some : ¬bytes / 128 = 0 := by omega
  rw [pageCount, Dataset.rowCount_of_rows rows]
  simp only [ok_bind, pages, if_neg some]
  rfl

theorem pageCount_of_refused {bytes : Nat} {reason : Refusal}
    (refused : SizeRefused bytes reason) : pageCount bytes = .error reason := by
  cases refused with
  | unaligned unaligned =>
      rw [pageCount, Dataset.rowCount_of_unaligned unaligned, error_bind]
  | empty empty =>
      subst empty
      rfl
  | tooSmall small =>
      subst small
      rfl

/-- Every size either is admissible or is refused. -/
theorem admissible_or_refused (bytes : Nat) :
    (bytes % 64 = 0 ∧ 128 ≤ bytes) ∨ ∃ reason, SizeRefused bytes reason := by
  by_cases unaligned : bytes % 64 ≠ 0
  · exact .inr ⟨_, .unaligned unaligned⟩
  · by_cases large : 128 ≤ bytes
    · exact .inl ⟨by omega, large⟩
    · have small : bytes = 0 ∨ bytes = 64 := by omega
      rcases small with empty | single
      · exact .inr ⟨_, .empty empty⟩
      · exact .inr ⟨_, .tooSmall single⟩

end Evaluation

end MemoryHard
