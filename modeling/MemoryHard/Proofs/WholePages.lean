import MemoryHard.Proofs.SteadySource

/-!
# Only whole pages matter

The last of an odd number of rows belongs to no page.  Evaluating with it and without it
asks for the same rows and comes to the same outcome, whatever the row holds and even if
it cannot be had.
-/

namespace MemoryHard

variable {σ τ : Type}

/-- The dataset of the rows before the last one. -/
def Dataset.withoutLast (dataset : Dataset) (more : 2 ≤ dataset.count) : Dataset where
  rows := dataset.rows.pop
  nonempty := by
    have several : 2 ≤ dataset.rows.size := more
    rw [Array.size_pop]
    omega

namespace Dataset

variable {dataset : Dataset}

private theorem count_withoutLast (more : 2 ≤ dataset.count) :
    (dataset.withoutLast more).count = dataset.count - 1 :=
  Array.size_pop

private theorem row?_withoutLast (more : 2 ≤ dataset.count) {index : Nat}
    (below : index < dataset.count - 1) :
    (dataset.withoutLast more).row? index = dataset.row? index := by
  have inside : index < dataset.rows.size - 1 := below
  simp only [withoutLast, Table.row?, Array.getElem?_pop, if_pos inside]

end Dataset

namespace Evaluation

variable {source : RowSource σ} {other : RowSource τ} {row : Nat → Block} {pages bytes : Nat}

private theorem session_outcome_of_steady (aligned : bytes % 64 = 0) (large : 128 ≤ bytes)
    (steady : source.Steady (2 * (bytes / 128)) row) (H : HashFunction) (seed : Block)
    (state : σ) :
    (session (ofSeed H seed bytes) source state).outcome =
      .ok (ofRows H seed (bytes / 128) row) := by
  obtain ⟨state', evaluated⟩ := ofSeed_of_steady aligned large steady H seed state
  have observed := (run_eq_session H seed bytes source state).1
  exact congrArg Prod.fst (observed.symm.trans evaluated)

/-- Sizes with the same pages lead to the same session over steady sources. -/
theorem session_eq_of_steady {larger : Nat} (aligned : bytes % 64 = 0) (large : 128 ≤ bytes)
    (alignedToo : larger % 64 = 0) (samePages : larger / 128 = bytes / 128)
    (steady : source.Steady (2 * (bytes / 128)) row)
    (steadyToo : other.Steady (2 * (bytes / 128)) row) (H : HashFunction) (seed : Block)
    (state : σ) (state' : τ) :
    (session (ofSeed H seed bytes) source state).asked =
        (session (ofSeed H seed larger) other state').asked ∧
      ∃ evaluation, (session (ofSeed H seed bytes) source state).outcome = .ok evaluation ∧
        (session (ofSeed H seed larger) other state').outcome = .ok evaluation := by
  have largeToo : 128 ≤ larger := by omega
  have fewer : 2 * min (bytes / 128) (2 ^ 32) ≤ 2 * (bytes / 128) := by omega
  have trace := (asksPages_wholeInquiry large H seed).trace_eq_of_steady
    (steady.mono fewer) (steadyToo.mono fewer) state state'
  constructor
  · rw [session_of_admissible aligned large, session_of_admissible alignedToo largeToo, samePages]
    exact congrArg (List.map Exchange.index) trace
  · refine ⟨ofRows H seed (bytes / 128) row, ?_, ?_⟩
    · exact session_outcome_of_steady aligned large steady H seed state
    · rw [← samePages] at steadyToo ⊢
      exact session_outcome_of_steady alignedToo largeToo steadyToo H seed state'

private theorem full_withoutLast {dataset : Dataset} (more : 3 ≤ dataset.count)
    (odd : dataset.count % 2 = 1) (H : HashFunction) (header : Digest) (nonce : UInt64) :
    ∃ evaluation, full H dataset header nonce = .ok evaluation ∧
      full H (dataset.withoutLast (by omega)) header nonce = .ok evaluation := by
  have several : 2 ≤ dataset.count := by omega
  have count := Dataset.count_withoutLast several
  have pages : (dataset.withoutLast several).count / 2 = dataset.count / 2 := by omega
  have found : ∀ index < 2 * (dataset.count / 2),
      dataset.row? index = some (dataset.cyclicRow index) := by
    intro index below
    exact Table.row?_of_lt (by omega)
  have foundToo : ∀ index < 2 * ((dataset.withoutLast several).count / 2),
      (dataset.withoutLast several).row? index = some (dataset.cyclicRow index) := by
    intro index below
    rw [Dataset.row?_withoutLast several (by omega)]
    exact found index (by omega)
  have enough : 2 ≤ (dataset.withoutLast several).count := by omega
  refine ⟨_, full_of_rows several found H header nonce, ?_⟩
  rw [full_of_rows enough foundToo H header nonce, pages]

/-- Over sources that answer the first `2 * pages` numbers alike, a dataset of these rows and
a dataset with one row more are evaluated alike: the same numbers are asked, and the outcome
is the same evaluation.  A last row that makes the number of rows odd can be left out. -/
theorem half_page_ignored (positive : 1 ≤ pages) (steady : source.Steady (2 * pages) row)
    (steadyToo : other.Steady (2 * pages) row) (H : HashFunction) (header : Digest)
    (nonce : UInt64) (state : σ) (state' : τ) :
    ((session (ofNonce H header nonce (128 * pages)) source state).asked =
        (session (ofNonce H header nonce (128 * pages + 64)) other state').asked ∧
      ∃ evaluation,
        (session (ofNonce H header nonce (128 * pages)) source state).outcome =
            .ok evaluation ∧
          (session (ofNonce H header nonce (128 * pages + 64)) other state').outcome =
            .ok evaluation) ∧
      ∀ (dataset : Dataset) (more : 3 ≤ dataset.count), dataset.count % 2 = 1 →
        ∃ evaluation, full H dataset header nonce = .ok evaluation ∧
          full H (dataset.withoutLast (Nat.le_of_succ_le more)) header nonce =
            .ok evaluation := by
  have whole : 128 * pages / 128 = pages := by omega
  constructor
  · rw [← whole] at steady steadyToo
    exact session_eq_of_steady (by omega) (by omega) (by omega) (by omega) steady steadyToo H
      (seedBlock H header nonce) state state'
  · intro dataset more odd
    exact full_withoutLast more odd H header nonce

/-- Rows that are all bytes of their number. -/
def numberedRow (index : Nat) : Block :=
  Vector.replicate 64 (UInt8.ofNat index)

/-- The first two rows and no others. -/
def onePage : RowSource σ :=
  RowSource.ofRows 2 fun index => if index < 2 then some (numberedRow index) else none

/-- The first two rows, and the same row for every other number. -/
def onePageAndMore : RowSource σ :=
  fun index => pure (if index < 2 then numberedRow index else Block.zero)

/-- Here one source refuses the half page and the other one answers it. -/
theorem half_page_refused_or_answered :
    1 ≤ 1 ∧ (onePage : RowSource Unit).Steady (2 * 1) numberedRow ∧
      (onePageAndMore : RowSource Unit).Steady (2 * 1) numberedRow ∧
      (session (ofNonce Sha2.sha512 (Vector.replicate 32 0x11) 7 (128 * 1)) onePage ()).asked =
        (session (ofNonce Sha2.sha512 (Vector.replicate 32 0x11) 7 (128 * 1 + 64))
          onePageAndMore ()).asked ∧
      ∃ evaluation,
        (session (ofNonce Sha2.sha512 (Vector.replicate 32 0x11) 7 (128 * 1)) onePage
            ()).outcome = .ok evaluation ∧
          (session (ofNonce Sha2.sha512 (Vector.replicate 32 0x11) 7 (128 * 1 + 64))
            onePageAndMore ()).outcome = .ok evaluation := by
  have steady : (onePage : RowSource Unit).Steady (2 * 1) numberedRow := by
    apply RowSource.ofRows_steady
    intro index below
    exact if_pos below
  have steadyToo : (onePageAndMore : RowSource Unit).Steady (2 * 1) numberedRow := by
    intro index below state
    have held : index < 2 := below
    refine ⟨state, ?_⟩
    rw [onePageAndMore, if_pos held]
    rfl
  exact ⟨Nat.le_refl 1, steady, steadyToo,
    (half_page_ignored (Nat.le_refl 1) steady steadyToo Sha2.sha512 (Vector.replicate 32 0x11) 7
      () ()).1⟩

end Evaluation

end MemoryHard
