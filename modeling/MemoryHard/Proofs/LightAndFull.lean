import MemoryHard.Proofs.SteadySource

/-!
# Light and full evaluation

A dataset that is computed from a cache holds the items of that cache.  Evaluating
over the dataset therefore has the same outcome as evaluating over the cache with
the size of the dataset, and where the size is refused the reason is the same.
-/

namespace MemoryHard

variable {σ : Type} {H : HashFunction} {cache : Cache} {dataset : Dataset} {byteCount : Nat}

/-- The dataset has the given size and holds the items of the cache. -/
structure Dataset.HoldsItems (dataset : Dataset) (H : HashFunction) (cache : Cache)
    (byteCount : Nat) : Prop where
  byteCount_eq : dataset.byteCount = byteCount
  row?_eq : ∀ index < dataset.count,
    dataset.row? index = some (Row.ofBlock (cache.item H index))

theorem Dataset.ofCache_of_rows {count : Nat} (rows : 0 < count ∧ byteCount = 64 * count)
    (H : HashFunction) (cache : Cache) :
    ∃ dataset, Dataset.ofCache H cache byteCount = .ok dataset ∧
      dataset.HoldsItems H cache byteCount := by
  obtain ⟨positive, rfl⟩ := rows
  let items := Array.ofFn fun index : Fin count => Row.ofBlock (cache.item H index.val)
  have size : items.size = count := Array.size_ofFn
  refine ⟨{ rows := items, nonempty := by simpa [size] using positive }, ?_, ?_, ?_⟩
  · rw [Dataset.ofCache, Dataset.rowCount_of_rows ⟨positive, rfl⟩]
    rfl
  · rw [Table.byteCount, Table.count, size]
  · intro index inside
    have bound : index < count := by simpa [Table.count, size] using inside
    simp [Table.row?, items, bound]

private theorem Dataset.ofCache_of_refused {reason : Refusal}
    (refused : Dataset.rowCount byteCount = .error reason) (H : HashFunction) (cache : Cache) :
    Dataset.ofCache H cache byteCount = .error reason := by
  rw [Dataset.ofCache, refused, error_bind]

namespace RowSource

private theorem ofCache_steady (H : HashFunction) (cache : Cache) (limit : Nat) :
    (ofCache H cache : RowSource σ).Steady limit (cache.item H) := by
  intro index _ state
  exact ⟨state, rfl⟩

end RowSource

namespace Evaluation

theorem light_of_admissible (aligned : byteCount % 64 = 0) (large : 128 ≤ byteCount)
    (H : HashFunction) (cache : Cache) (header : Digest) (nonce : UInt64) :
    light H cache header nonce byteCount =
      .ok (ofRows H (seedBlock H header nonce) (byteCount / 128) (cache.item H)) := by
  exact outcome_ofNonce_of_steady aligned large (RowSource.ofCache_steady H cache _) H header nonce

private theorem light_of_refused {reason : Refusal} (refused : SizeRefused byteCount reason)
    (H : HashFunction) (cache : Cache) (header : Digest) (nonce : UInt64) :
    light H cache header nonce byteCount = .error reason := by
  rw [light, RowSource.outcome, ofNonce, ofSeed_of_refused refused]

private theorem full_of_admissible (holds : dataset.HoldsItems H cache byteCount)
    (aligned : byteCount % 64 = 0) (large : 128 ≤ byteCount)
    (header : Digest) (nonce : UInt64) :
    full H dataset header nonce =
      .ok (ofRows H (seedBlock H header nonce) (byteCount / 128) (cache.item H)) := by
  have rows : 64 * dataset.count = byteCount := holds.byteCount_eq
  have enough : 2 ≤ dataset.count := by omega
  have pages : dataset.count / 2 = byteCount / 128 := by omega
  have found : ∀ index < 2 * (dataset.count / 2),
      dataset.row? index = some (Row.ofBlock (cache.item H index)) := by
    intro index below
    exact holds.row?_eq index (by omega)
  rw [full_of_rows enough found, pages]
  simp only [Row.block_ofBlock]

private theorem full_of_refused (holds : dataset.HoldsItems H cache byteCount) {reason : Refusal}
    (refused : SizeRefused byteCount reason) (header : Digest) (nonce : UInt64) :
    full H dataset header nonce = .error reason := by
  rw [full, RowSource.outcome, ofNonce, holds.byteCount_eq, ofSeed_of_refused refused]

/-- Over the items of a cache it makes no difference where the rows are read. -/
theorem full_eq_light (holds : dataset.HoldsItems H cache byteCount)
    (header : Digest) (nonce : UInt64) :
    full H dataset header nonce = light H cache header nonce byteCount := by
  rcases admissible_or_refused byteCount with ⟨aligned, large⟩ | ⟨reason, refused⟩
  · rw [full_of_admissible holds aligned large, light_of_admissible aligned large]
  · rw [full_of_refused holds refused, light_of_refused refused]

theorem light_eq_ok_iff (H : HashFunction) (cache : Cache) (header : Digest) (nonce : UInt64)
    (byteCount : Nat) :
    (∃ evaluation, light H cache header nonce byteCount = .ok evaluation) ↔
      byteCount % 64 = 0 ∧ 128 ≤ byteCount := by
  constructor
  · rintro ⟨evaluation, evaluated⟩
    rcases admissible_or_refused byteCount with admissible | ⟨reason, refused⟩
    · exact admissible
    · rw [light_of_refused refused] at evaluated
      cases evaluated
  · rintro ⟨aligned, large⟩
    exact ⟨_, light_of_admissible aligned large H cache header nonce⟩

private theorem light_eq_error_iff (H : HashFunction) (cache : Cache) (header : Digest)
    (nonce : UInt64) (byteCount : Nat) (reason : Refusal) :
    light H cache header nonce byteCount = .error reason ↔ SizeRefused byteCount reason := by
  constructor
  · intro failed
    rcases admissible_or_refused byteCount with ⟨aligned, large⟩ | ⟨other, refused⟩
    · rw [light_of_admissible aligned large] at failed
      cases failed
    · rw [light_of_refused refused] at failed
      cases failed
      exact refused
  · intro refused
    exact light_of_refused refused H cache header nonce

/-- Computing a dataset from a cache and evaluating over it is evaluating over the
cache, refusals included, and only a size that is refused leads to a refusal. -/
theorem full_after_ofCache (H : HashFunction) (cache : Cache) (header : Digest) (nonce : UInt64)
    (byteCount : Nat) :
    (do
        let dataset ← Dataset.ofCache H cache byteCount
        full H dataset header nonce) = light H cache header nonce byteCount ∧
      ((∃ evaluation, light H cache header nonce byteCount = .ok evaluation) ↔
        byteCount % 64 = 0 ∧ 128 ≤ byteCount) ∧
      ∀ reason, light H cache header nonce byteCount = .error reason ↔
        SizeRefused byteCount reason := by
  refine ⟨?_, light_eq_ok_iff H cache header nonce byteCount,
    light_eq_error_iff H cache header nonce byteCount⟩
  rcases Dataset.exists_rowCount byteCount with ⟨count, rows, _⟩ | ⟨reason, refused, failed⟩
  · obtain ⟨dataset, made, holds⟩ := Dataset.ofCache_of_rows rows H cache
    rw [made, ok_bind, full_eq_light holds]
  · rw [Dataset.ofCache_of_refused failed, error_bind, light_of_refused refused]

end Evaluation

end MemoryHard
