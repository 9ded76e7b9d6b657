import MemoryHard.Proofs.EvaluationInquiry

/-!
# Evaluations over steady rows

A source is steady below a limit when it answers every smaller number with a row of
its own, whatever its state.  Evaluating over such a source cannot be refused for a
row, and what it asks and its outcome depend on the rows alone.
-/

namespace MemoryHard

variable {σ τ : Type}

/-- Every number below the limit is answered with its row, in every state. -/
def RowSource.Steady (source : RowSource σ) (limit : Nat) (row : Nat → Block) : Prop :=
  ∀ index < limit, ∀ state, ∃ state', (source index).run.run state = (.ok (row index), state')

namespace RowSource

theorem Steady.mono {source : RowSource σ} {limit lower : Nat} {row : Nat → Block}
    (steady : source.Steady limit row) (below : lower ≤ limit) : source.Steady lower row := by
  intro index inside state
  exact steady index (Nat.lt_of_lt_of_le inside below) state

theorem ofRows_steady {available limit : Nat} {row? : Nat → Option Block} {row : Nat → Block}
    (found : ∀ index < limit, row? index = some (row index)) :
    (ofRows available row? : RowSource σ).Steady limit row := by
  intro index below state
  refine ⟨state, ?_⟩
  rw [ofRows, found index below]
  rfl

private theorem ofDataset_steady_of_rows {dataset : Dataset} {limit : Nat} {row : Nat → Row}
    (found : ∀ index < limit, dataset.row? index = some (row index)) :
    (ofDataset dataset : RowSource σ).Steady limit fun index => (row index).block := by
  apply ofRows_steady
  intro index below
  rw [found index below, Option.map_some]

end RowSource

/-- Steady sources with the same rows are asked alike, from any of their states. -/
theorem Inquiry.AsksPages.trace_eq_of_steady {α : Type} {limit count : Nat}
    {inquiry : Inquiry α} (pages : inquiry.AsksPages limit count) {source : RowSource σ}
    {other : RowSource τ} {row : Nat → Block} (steady : source.Steady (2 * limit) row)
    (steadyToo : other.Steady (2 * limit) row) (state : σ) (state' : τ) :
    inquiry.trace source state = inquiry.trace other state' := by
  induction pages generalizing state state' with
  | done value => rfl
  | @page page count next inside later ih =>
      obtain ⟨middle, first⟩ := steady (2 * page) (by omega) state
      obtain ⟨final, second⟩ := steady (2 * page + 1) (by omega) middle
      obtain ⟨middle', first'⟩ := steadyToo (2 * page) (by omega) state'
      obtain ⟨final', second'⟩ := steadyToo (2 * page + 1) (by omega) middle'
      rw [trace_ask_of_ok first, trace_ask_of_ok second, trace_ask_of_ok first',
        trace_ask_of_ok second', ih _ _ final final']

namespace Evaluation

variable {source : RowSource σ} {row : Nat → Block} {pages : Nat}

def rowPage (row : Nat → Block) (page : Nat) : Mix :=
  Row.ofBlock (row (2 * page)) ++ Row.ofBlock (row (2 * page + 1))

/-- One access with all rows at hand. -/
def accessRows (row : Nat → Block) (seedWord : Word) (pages : Nat) (mix : Mix) (number : Nat) :
    Mix :=
  mix.combine (rowPage row (pageNumber seedWord pages number mix))

def mixRows (row : Nat → Block) (seed : Block) (pages : Nat) : Mix :=
  (List.range accesses).foldl (accessRows row ((Row.ofBlock seed).get ⟨0, Row.first_lt⟩) pages)
    (Mix.ofSeed seed)

/-- The evaluation with all rows at hand. -/
def ofRows (H : HashFunction) (seed : Block) (pages : Nat) (row : Nat → Block) : Evaluation :=
  ofMix H seed (mixRows row seed pages)

private theorem run_inquiry_of_steady (steady : source.Steady (2 * pages) row)
    (positive : 0 < pages)
    (H : HashFunction) (seed : Block) (numbers : List Nat) (mix : Mix) (state : σ) :
    ∃ state', ((inquiry H seed pages numbers mix).run source).run.run state =
      (.ok (ofMix H seed (numbers.foldl (accessRows row (seedWord seed) pages) mix)), state') := by
  induction numbers generalizing mix state with
  | nil => exact ⟨state, rfl⟩
  | cons number numbers ih =>
      have inside := pageNumber_lt positive (seedWord seed) number mix
      obtain ⟨middle, first⟩ := steady (2 * pageNumber (seedWord seed) pages number mix)
        (by omega) state
      obtain ⟨later, second⟩ := steady (2 * pageNumber (seedWord seed) pages number mix + 1)
        (by omega) middle
      obtain ⟨final, rest⟩ := ih (accessRows row (seedWord seed) pages mix number) later
      refine ⟨final, ?_⟩
      rw [inquiry, Inquiry.run_ask_of_ok first, Inquiry.run_ask_of_ok second]
      exact rest

theorem ofSeed_of_steady {bytes : Nat} (aligned : bytes % 64 = 0) (large : 128 ≤ bytes)
    (steady : source.Steady (2 * (bytes / 128)) row) (H : HashFunction) (seed : Block)
    (state : σ) :
    ∃ state', (ofSeed H seed bytes source).run.run state =
      (.ok (ofRows H seed (bytes / 128) row), state') := by
  have positive : 0 < bytes / 128 := by omega
  rw [ofSeed_eq_run aligned large]
  exact run_inquiry_of_steady steady positive H seed (List.range accesses) (Mix.ofSeed seed) state

theorem outcome_ofNonce_of_steady {bytes : Nat} {source : RowSource Unit}
    (aligned : bytes % 64 = 0) (large : 128 ≤ bytes)
    (steady : source.Steady (2 * (bytes / 128)) row) (H : HashFunction) (header : Digest)
    (nonce : UInt64) :
    RowSource.outcome (ofNonce H header nonce bytes source) =
      .ok (ofRows H (seedBlock H header nonce) (bytes / 128) row) := by
  obtain ⟨_, evaluated⟩ := ofSeed_of_steady aligned large steady H (seedBlock H header nonce) ()
  rw [RowSource.outcome, ofNonce, evaluated]

/-- A dataset with a page is evaluated over the rows of its whole pages. -/
theorem full_of_rows {dataset : Dataset} {row : Nat → Row} (large : 2 ≤ dataset.count)
    (found : ∀ index < 2 * (dataset.count / 2), dataset.row? index = some (row index))
    (H : HashFunction) (header : Digest) (nonce : UInt64) :
    full H dataset header nonce =
      .ok (ofRows H (seedBlock H header nonce) (dataset.count / 2)
        fun index => (row index).block) := by
  have size : dataset.byteCount = 64 * dataset.count := rfl
  have pages : dataset.byteCount / 128 = dataset.count / 2 := by omega
  have aligned : dataset.byteCount % 64 = 0 := by omega
  have page : 128 ≤ dataset.byteCount := by omega
  have steady := RowSource.ofDataset_steady_of_rows (σ := Unit) found
  rw [← pages] at steady
  rw [full, outcome_ofNonce_of_steady aligned page steady, pages]

theorem full_of_single {dataset : Dataset} (single : dataset.count = 1) (H : HashFunction)
    (header : Digest) (nonce : UInt64) :
    full H dataset header nonce = .error (.datasetTooSmall 64) := by
  have size : dataset.byteCount = 64 := congrArg (64 * ·) single
  rw [full, RowSource.outcome, ofNonce, ofSeed_of_refused (.tooSmall size), size]

end Evaluation

end MemoryHard
