import MemoryHard.Proofs.SteadySource

/-!
# Rows inside the dataset

Whatever its source answers, an evaluation asks only for rows of whole pages of the
dataset.  Their numbers stay far below `2 ^ 64`, so 64-bit words carry the selection of
pages without a wrap.  Datasets with a page and byte images of all pages therefore
answer every row that is asked of them.
-/

namespace MemoryHard

variable {σ : Type}

/-- The numbers asked over a dataset of `bytes` bytes: both rows of one page after the
other, inside the dataset and below `2 ^ 33`, and all 128 of them unless one is refused. -/
structure Session.StaysInside (session : Session σ) (bytes : Nat) : Prop where
  pageRows : PageRows (bytes / 128) session.asked
  index_lt : ∀ index ∈ session.asked, index < bytes / 64 ∧ index < 2 ^ 33
  length_le : session.asked.length ≤ 128
  length_eq : (∀ answer ∈ session.answers, ∃ row, answer = .ok row) →
    session.asked.length = 128

namespace Evaluation

private theorem session_staysInside {bytes : Nat} (aligned : bytes % 64 = 0) (large : 128 ≤ bytes)
    (H : HashFunction) (seed : Block) (source : RowSource σ) (state : σ) :
    (session (ofSeed H seed bytes) source state).StaysInside bytes := by
  have pages := asksPages_wholeInquiry large H seed
  have rows := pages.pageRows source state
  rw [session_of_admissible aligned large]
  refine ⟨rows.mono (Nat.min_le_left _ _), ?_, ?_, ?_⟩
  · intro index member
    have below := rows.lt_of_mem member
    omega
  · rw [Session.asked, List.length_map]
    exact pages.length_le source state
  · intro answered
    rw [Session.asked, List.length_map]
    apply pages.length_eq source state
    intro exchange member
    exact answered exchange.answer (List.mem_map_of_mem member)

section Words

/-- The page that one access selects, computed in 64-bit words. -/
def pageNumber64 (seedWord : Word) (pages : UInt64) (access : Nat) (mix : Mix) : UInt64 :=
  let word := mix.get (Fin.ofNat 32 access)
  (Word.combine (UInt32.ofNat access ^^^ seedWord) word).toUInt64 % pages

/-- The rows of a page, with their numbers computed in 64-bit words. -/
def fetchPage64 (source : RowSource σ) (page : UInt64) : ExceptT Refusal (StateM σ) Mix := do
  let first ← source (page * 2).toNat
  let second ← source (page * 2 + 1).toNat
  return Row.ofBlock first ++ Row.ofBlock second

/-- The loop over all pages in 64-bit words, which wrap. -/
def mixPages64 (source : RowSource σ) (seed : Block) (pages : UInt64) :
    ExceptT Refusal (StateM σ) Mix :=
  (List.range accesses).foldlM
    (fun mix number => do
      let page ← fetchPage64 source (pageNumber64 (seedWord seed) pages number mix)
      return mix.combine page)
    (Mix.ofSeed seed)

private theorem toNat_pageNumber64 (seedWord : Word) (pages : UInt64) (access : Nat) (mix : Mix) :
    (pageNumber64 seedWord pages access mix).toNat =
      pageNumber seedWord pages.toNat access mix := by
  rw [pageNumber64, UInt64.toNat_mod, UInt32.toNat_toUInt64]
  rfl

private theorem pageNumber64_lt (seedWord : Word) (pages : UInt64) (access : Nat) (mix : Mix) :
    (pageNumber64 seedWord pages access mix).toNat < 2 ^ 32 := by
  rw [toNat_pageNumber64]
  exact Nat.lt_of_le_of_lt (Nat.mod_le _ _) (UInt32.toNat_lt _)

private theorem fetchPage64_eq (source : RowSource σ) {page : UInt64}
    (small : page.toNat < 2 ^ 32) : fetchPage64 source page = fetchPage source page.toNat := by
  have double : (page * 2).toNat = 2 * page.toNat := by
    rw [UInt64.toNat_mul]
    change page.toNat * 2 % 2 ^ 64 = 2 * page.toNat
    omega
  have next : (page * 2 + 1).toNat = 2 * page.toNat + 1 := by
    rw [UInt64.toNat_add, double]
    change (2 * page.toNat + 1) % 2 ^ 64 = 2 * page.toNat + 1
    omega
  rw [fetchPage64, fetchPage, double, next]

/-- Nothing wraps, so the loop in words is the loop in numbers. -/
theorem mixPages64_eq (source : RowSource σ) (seed : Block) (pages : UInt64) :
    mixPages64 source seed pages = mixPages source seed pages.toNat := by
  rw [mixPages64, mixPages]
  congr 1
  funext mix number
  rw [fetchPage64_eq source (pageNumber64_lt _ _ _ _), toNat_pageNumber64]
  rfl

end Words

private theorem full_of_large {dataset : Dataset} (large : 2 ≤ dataset.count) (H : HashFunction)
    (header : Digest) (nonce : UInt64) :
    ∃ evaluation, full H dataset header nonce = .ok evaluation := by
  have found : ∀ index < 2 * (dataset.count / 2),
      dataset.row? index = some (dataset.cyclicRow index) := by
    intro index below
    exact Table.row?_of_lt (by omega)
  exact ⟨_, full_of_rows large found H header nonce⟩

private theorem full_of_small {dataset : Dataset} (small : ¬2 ≤ dataset.count) (H : HashFunction)
    (header : Digest) (nonce : UInt64) :
    full H dataset header nonce = .error (.datasetTooSmall 64) := by
  have nonempty : 0 < dataset.count := dataset.nonempty
  exact full_of_single (by omega) H header nonce

/-- An image of all pages answers every row of them, whatever stands behind the last page. -/
theorem ofImage_steady {image : Bytes} {pages : Nat} (held : 128 * pages ≤ image.length) :
    ∃ row, (RowSource.ofImage image : RowSource σ).Steady (2 * pages) row := by
  refine ⟨fun index => (chunks 64 image).toArray[index]?.getD Block.zero, ?_⟩
  apply RowSource.ofRows_steady
  intro index below
  have inside : index < (chunks 64 image).toArray.size := by
    rw [List.size_toArray, length_chunks]
    omega
  rw [Array.getElem?_eq_getElem inside, Option.getD_some]

private theorem ofNonce_over_image {bytes : Nat} (aligned : bytes % 64 = 0) (large : 128 ≤ bytes)
    {image : Bytes} (held : 128 * (bytes / 128) ≤ image.length) (H : HashFunction)
    (header : Digest) (nonce : UInt64) :
    ∃ evaluation, RowSource.outcome (ofNonce H header nonce bytes (RowSource.ofImage image)) =
      .ok evaluation := by
  obtain ⟨row, steady⟩ := ofImage_steady (σ := Unit) held
  exact ⟨_, outcome_ofNonce_of_steady aligned large steady H header nonce⟩

/-- Over every admissible size of 64 bits an evaluation asks for rows of whole pages only,
and computing their numbers in 64-bit words wraps nowhere.  So a byte image of the pages is
never asked for a row that it lacks, and a dataset is refused exactly when it has no page. -/
theorem asked_rows_inside {bytes : UInt64} (aligned : bytes.toNat % 64 = 0)
    (large : 128 ≤ bytes.toNat) (H : HashFunction) :
    (∀ {σ : Type} (seed : Block) (source : RowSource σ) (state : σ),
        (session (ofSeed H seed bytes.toNat) source state).StaysInside bytes.toNat) ∧
      (∀ seedWord access mix,
        (pageNumber64 seedWord (bytes / 64 / 2) access mix).toNat * 2 + 1 < UInt64.size) ∧
      (∀ {σ : Type} (seed : Block) (source : RowSource σ),
        mixPages64 source seed (bytes / 64 / 2) = mixPages source seed (bytes.toNat / 128)) ∧
      (∀ image : Bytes, 128 * (bytes.toNat / 128) ≤ image.length → ∀ header nonce,
        ∃ evaluation,
          RowSource.outcome (ofNonce H header nonce bytes.toNat (RowSource.ofImage image)) =
            .ok evaluation) ∧
      ∀ (dataset : Dataset) (header : Digest) (nonce : UInt64),
        (2 ≤ dataset.count → ∃ evaluation, full H dataset header nonce = .ok evaluation) ∧
          (¬2 ≤ dataset.count → full H dataset header nonce = .error (.datasetTooSmall 64)) := by
  refine ⟨?_, ?_, ?_, ?_, ?_⟩
  · intro σ seed source state
    exact session_staysInside aligned large H seed source state
  · intro seedWord access mix
    have small := pageNumber64_lt seedWord (bytes / 64 / 2) access mix
    have size : UInt64.size = 2 ^ 64 := rfl
    omega
  · intro σ seed source
    have pages : (bytes / 64 / 2).toNat = bytes.toNat / 128 := by
      rw [UInt64.toNat_div, UInt64.toNat_div]
      exact Nat.div_div_eq_div_mul bytes.toNat 64 2
    rw [mixPages64_eq, pages]
  · intro image held header nonce
    exact ofNonce_over_image aligned large held H header nonce
  · intro dataset header nonce
    exact ⟨fun enough => full_of_large enough H header nonce,
      fun few => full_of_small few H header nonce⟩

/-- The largest size has an odd number of rows, and more pages than words can select. -/
theorem largest_size_stays_inside :
    (18446744073709551552 : UInt64).toNat % 64 = 0 ∧
      128 ≤ (18446744073709551552 : UInt64).toNat ∧
      (session (ofSeed Sha2.sha512 Block.zero (18446744073709551552 : UInt64).toNat)
        (RowSource.ofImage []) ()).StaysInside (18446744073709551552 : UInt64).toNat := by
  refine ⟨by decide, by decide, ?_⟩
  exact (asked_rows_inside (by decide) (by decide) Sha2.sha512).1 Block.zero
    (RowSource.ofImage []) ()

end Evaluation

end MemoryHard
