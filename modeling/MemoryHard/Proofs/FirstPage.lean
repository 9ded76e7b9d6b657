import MemoryHard.Proofs.EvaluationInquiry

/-!
# The first page has an even number

The first access looks at the first word of the mix, which still is the first word of the
seed, and selects a page by this word combined with itself.  The multiplier is odd, so
multiplying keeps the lowest bit and flipping clears it.  Among an even number of pages the
first access therefore never selects an odd one.
-/

namespace MemoryHard

variable {σ : Type}

/-- The multiplier keeps the lowest bit of a word. -/
private theorem Word.toNat_mul_multiplier_mod_two (word : Word) :
    (word * multiplier).toNat % 2 = word.toNat % 2 := by
  have product : (word * multiplier).toNat = word.toNat * 16777619 % 2 ^ 32 :=
    UInt32.toNat_mul word multiplier
  omega

private theorem Word.toNat_combine_self_mod_two (word : Word) :
    (combine word word).toNat % 2 = 0 := by
  have lowest : (combine word word).toNat % 2 ^ 1 =
      ((word * multiplier).toNat % 2) ^^^ (word.toNat % 2) := by
    rw [combine, UInt32.toNat_xor, Nat.xor_mod_two_pow]
  rw [toNat_mul_multiplier_mod_two, Nat.xor_self] at lowest
  exact lowest

namespace Evaluation

private theorem getElem_ofSeed_zero (seed : Block) : (Mix.ofSeed seed)[0] = seedWord seed :=
  Vector.getElem_append_left Row.first_lt

private theorem pageNumber_first (seed : Block) (pages : Nat) :
    pageNumber (seedWord seed) pages 0 (Mix.ofSeed seed) =
      (Word.combine (seedWord seed) (seedWord seed)).toNat % pages := by
  have word : UInt32.ofNat 0 ^^^ seedWord seed = seedWord seed := UInt32.zero_xor
  simp only [pageNumber, Nat.zero_mod, word, getElem_ofSeed_zero]

private theorem pageNumber_first_even {pages : Nat} (even : pages % 2 = 0) (seed : Block) :
    pageNumber (seedWord seed) pages 0 (Mix.ofSeed seed) % 2 = 0 := by
  rw [pageNumber_first, Nat.mod_mod_of_dvd _ (Nat.dvd_of_mod_eq_zero even),
    Word.toNat_combine_self_mod_two]

/-- The first access asks for the first row of its page and, unless that is refused, for the
second one. -/
theorem asked_first {bytes : Nat} (aligned : bytes % 64 = 0) (large : 128 ≤ bytes)
    (H : HashFunction) (seed : Block) (source : RowSource σ) (state : σ) {page : Nat}
    (selected : page = pageNumber (seedWord seed) (bytes / 128) 0 (Mix.ofSeed seed)) :
    (session (ofSeed H seed bytes) source state).asked.head? = some (2 * page) ∧
      ∀ index ∈ (session (ofSeed H seed bytes) source state).asked.take 2,
        index = 2 * page ∨ index = 2 * page + 1 := by
  have accesses : List.range accesses = 0 :: List.range' 1 63 := rfl
  subst selected
  rw [session_of_admissible aligned large, wholeInquiry, accesses, inquiry, Session.asked]
  rcases Inquiry.trace_page _ _ source state rfl with
    ⟨reason, same⟩ | ⟨first, reason, same⟩ | ⟨first, second, state', same⟩
  · rw [same]
    exact ⟨rfl, by simp⟩
  · rw [same]
    exact ⟨rfl, by simp⟩
  · rw [same]
    exact ⟨rfl, by simp⟩

/-- Over an even number of pages the first access selects an even page, whatever the seed and
whatever the source answers: the first row asked has a number that four divides, and no row
asked by this access belongs to an odd page. -/
theorem first_page_even {bytes : Nat} (aligned : bytes % 64 = 0) (positive : 0 < bytes / 128)
    (even : bytes / 128 % 2 = 0) (H : HashFunction) (seed : Block) (source : RowSource σ)
    (state : σ) :
    ∃ page, page = pageNumber (seedWord seed) (bytes / 128) 0 (Mix.ofSeed seed) ∧
      page < bytes / 128 ∧ page % 2 = 0 ∧
      (session (ofSeed H seed bytes) source state).asked.head? = some (2 * page) ∧
      2 * page % 4 = 0 ∧
      ∀ index ∈ (session (ofSeed H seed bytes) source state).asked.take 2, index / 2 = page := by
  have large : 128 ≤ bytes := by omega
  have evenPage := pageNumber_first_even even seed
  obtain ⟨first, rows⟩ := asked_first aligned large H seed source state rfl
  refine ⟨_, rfl, pageNumber_lt positive _ _ _, evenPage, first, by omega, ?_⟩
  intro index member
  rcases rows index member with here | behind
  · omega
  · omega

/-- Four pages and half a page that does not count, over a source that refuses every row. -/
theorem first_page_even_of_four :
    576 % 64 = 0 ∧ 0 < 576 / 128 ∧ 576 / 128 % 2 = 0 ∧
      ∃ page, page = pageNumber (seedWord (Vector.replicate 64 0x11)) (576 / 128) 0
            (Mix.ofSeed (Vector.replicate 64 0x11)) ∧
        page < 576 / 128 ∧ page % 2 = 0 ∧
        (session (ofSeed Sha2.sha512 (Vector.replicate 64 0x11) 576) (RowSource.ofImage [])
          ()).asked.head? = some (2 * page) ∧
        2 * page % 4 = 0 ∧
        ∀ index ∈ (session (ofSeed Sha2.sha512 (Vector.replicate 64 0x11) 576)
          (RowSource.ofImage []) ()).asked.take 2, index / 2 = page :=
  ⟨by decide, by decide, by decide,
    first_page_even (by decide) (by decide) (by decide) Sha2.sha512 (Vector.replicate 64 0x11)
      (RowSource.ofImage []) ()⟩

end Evaluation

end MemoryHard
