import MemoryHard.Proofs.SteadySource
import MemoryHard.Proofs.WordNumbers

/-!
# Evaluations as a recurrence over natural numbers

`Scheme.mix` gives every word of the mix after every access, from the bytes of the seed
and of the rows, with one remainder at the end of each step.  Evaluating over a source
that answers with these rows ends with the digests of this recurrence.
-/

namespace MemoryHard

namespace Scheme

variable (seed : Block) (pages : Nat) (row : Nat → Block)

/-- The page of one access, by the word of the mix that the access looks at. -/
def pageNumber (access number : Nat) : Nat :=
  combine (access ^^^ seed.number 0) number % pages

/-- Word `place` of the mix after some accesses. -/
def mix : (accesses place : Nat) → Nat
  | 0, place => seed.number (place % 16)
  | accesses + 1, place =>
      let page := pageNumber seed pages accesses (mix accesses (accesses % 32))
      combine (mix accesses place) ((row (2 * page + place / 16)).number (place % 16))

/-- Four words of the mix combined from the left. -/
def groupNumber (number : Nat → Nat) (group : Nat) : Nat :=
  [number (4 * group + 1), number (4 * group + 2), number (4 * group + 3)].foldl combine
    (number (4 * group))

/-- The bytes of the compressed mix after the last access. -/
def mixDigest : Bytes :=
  bytes 8 (groupNumber (mix seed pages row 64))

end Scheme

/-- The evaluation ends with the digests of the recurrence. -/
structure Evaluation.Follows (evaluation : Evaluation) (H : HashFunction) (seed : Block)
    (pages : Nat) (row : Nat → Block) : Prop where
  mixDigest_eq : evaluation.mixDigest.toList = Scheme.mixDigest seed pages row
  digest_eq : evaluation.digest.toList =
    (H (seed.toList ++ Scheme.mixDigest seed pages row)).toList.take 32

namespace Mix

variable {mix : Mix} {number : Nat → Nat}

/-- The words of two blocks one after the other. -/
private theorem toNat_getElem_append (first second : Block) (place : Nat) (inside : place < 32) :
    (Row.ofBlock first ++ Row.ofBlock second : Mix)[place].toNat =
      (if place / 16 = 0 then first else second).number (place % 16) := by
  rw [Vector.getElem_append]
  split
  next low =>
    have page : place / 16 = 0 := Nat.div_eq_of_lt low
    rw [if_pos page, Nat.mod_eq_of_lt low, Row.numbered_ofBlock]
  next high =>
    have beyond : 16 ≤ place := Nat.le_of_not_lt high
    have page : ¬place / 16 = 0 := by omega
    have rest : place - 16 = place % 16 := by omega
    rw [if_neg page, Row.numbered_ofBlock, rest]

private theorem numbered_ofSeed (seed : Block) :
    Numbered (ofSeed seed) fun place => seed.number (place % 16) := by
  intro place inside
  have word := toNat_getElem_append seed seed place inside
  rwa [ite_self] at word

private theorem numbered_rowPage (row : Nat → Block) (page : Nat) :
    Numbered (Evaluation.rowPage row page) fun place =>
      (row (2 * page + place / 16)).number (place % 16) := by
  intro place (inside : place < 32)
  have word := toNat_getElem_append (row (2 * page)) (row (2 * page + 1)) place inside
  rw [Evaluation.rowPage, word]
  have half : place / 16 = 0 ∨ place / 16 = 1 := by omega
  rcases half with low | high
  · simp only [low, if_true, Nat.add_zero]
  · simp only [high, Nat.one_ne_zero, if_false]

private theorem toNat_groupWord (numbered : Numbered mix number) (group : Fin 8) :
    (mix.groupWord group).toNat = Scheme.groupNumber number group := by
  have inside : 4 * group.val + 3 < mixWords := by simp; omega
  have first := numbered (4 * group.val) (by omega)
  have second := numbered (4 * group.val + 1) (by omega)
  have third := numbered (4 * group.val + 2) (by omega)
  have fourth := numbered (4 * group.val + 3) (by omega)
  rw [groupWord, Scheme.toNat_combine, Scheme.toNat_combine, Scheme.toNat_combine, first, second,
    third, fourth, Scheme.groupNumber, List.foldl_cons, List.foldl_cons, List.foldl_cons,
    List.foldl_nil]

private theorem toList_compress (numbered : Numbered mix number) :
    mix.compress.toList = Scheme.bytes 8 (Scheme.groupNumber number) := by
  have groups : Numbered (Vector.ofFn mix.groupWord) (Scheme.groupNumber number) := by
    intro group inside
    rw [Vector.getElem_ofFn, toNat_groupWord numbered]
  rw [compress, Vector.toList_mk, groups.bytes_eq]

end Mix

namespace Evaluation

variable {mix : Mix} {number : Nat → Nat}

private theorem toNat_seedWord (seed : Block) :
    ((Row.ofBlock seed).get ⟨0, Row.first_lt⟩).toNat = seed.number 0 :=
  Row.numbered_ofBlock seed 0 Row.first_lt

private theorem pageNumber_eq (numbered : Numbered mix number) (seed : Block) (pages access : Nat) :
    pageNumber ((Row.ofBlock seed).get ⟨0, Row.first_lt⟩) pages access mix =
      Scheme.pageNumber seed pages access (number (access % 32)) := by
  rw [pageNumber, Scheme.pageNumber, ← toNat_seedWord, ← numbered, ← Scheme.toNat_combine_ofNat,
    UInt32.ofNat_xor, UInt32.ofNat_toNat]

/-- Words and numbers go through an access alike. -/
theorem numbered_accessRows (numbered : Numbered mix number) (row : Nat → Block) (seed : Block)
    (pages access : Nat) :
    Numbered (accessRows row ((Row.ofBlock seed).get ⟨0, Row.first_lt⟩) pages mix access)
      fun place =>
        Scheme.combine (number place)
          ((row (2 * Scheme.pageNumber seed pages access (number (access % 32))
            + place / 16)).number (place % 16)) := by
  rw [accessRows, pageNumber_eq numbered]
  exact numbered.combine (Mix.numbered_rowPage row _)

private theorem numbered_mixRows (row : Nat → Block) (seed : Block) (pages : Nat) :
    Numbered (mixRows row seed pages) (Scheme.mix seed pages row 64) := by
  have numbered : ∀ count, Numbered
      ((List.range count).foldl
        (accessRows row ((Row.ofBlock seed).get ⟨0, Row.first_lt⟩) pages) (Mix.ofSeed seed))
      (Scheme.mix seed pages row count) := by
    intro count
    induction count with
    | zero => exact Mix.numbered_ofSeed seed
    | succ count ih =>
        rw [List.range_succ, List.foldl_append]
        exact numbered_accessRows ih row seed pages count
  exact numbered accesses

private theorem follows_ofRows (H : HashFunction) (seed : Block) (pages : Nat) (row : Nat → Block) :
    (ofRows H seed pages row).Follows H seed pages row := by
  have compressed := Mix.toList_compress (numbered_mixRows row seed pages)
  refine ⟨compressed, ?_⟩
  rw [ofRows, ofMix, closingDigest, Vector.toList_take, compressed]
  rfl

/-- Over a source that answers with fixed rows, evaluating a nonce succeeds and ends with
the digests of the recurrence from the hash of header and nonce; evaluating a seed
succeeds and ends with those from the seed. -/
theorem ofNonce_follows_recurrence {σ : Type} {source : RowSource σ} {bytes : Nat}
    {row : Nat → Block} (aligned : bytes % 64 = 0) (large : 128 ≤ bytes)
    (steady : source.Steady (2 * (bytes / 128)) row) (H : HashFunction) (header : Digest)
    (nonce : UInt64) (state : σ) :
    (∃ evaluation state', (ofNonce H header nonce bytes source).run.run state =
        (.ok evaluation, state') ∧
      evaluation.Follows H (H (header.toList ++ littleEndian 8 nonce.toNat)) (bytes / 128) row) ∧
      ∀ seed, ∃ evaluation state', (ofSeed H seed bytes source).run.run state =
          (.ok evaluation, state') ∧
        evaluation.Follows H seed (bytes / 128) row := by
  have seeded : ∀ seed, ∃ evaluation state', (ofSeed H seed bytes source).run.run state =
      (.ok evaluation, state') ∧ evaluation.Follows H seed (bytes / 128) row := by
    intro seed
    obtain ⟨state', evaluated⟩ := ofSeed_of_steady aligned large steady H seed state
    exact ⟨_, state', evaluated, follows_ofRows H seed (bytes / 128) row⟩
  exact ⟨seeded (seedBlock H header nonce), seeded⟩

/-- A source of two rows, which counts how often it is asked. -/
def twoRows : RowSource Nat := fun index => do
  modify (· + 1)
  if index < 2 then
    return Vector.replicate 64 (UInt8.ofNat index)
  else
    throw (.rowOutOfRange index 2)

/-- Of three rows the last one belongs to no page and may be refused. -/
theorem follows_recurrence_over_twoRows :
    192 % 64 = 0 ∧ 128 ≤ 192 ∧
      twoRows.Steady (2 * (192 / 128)) (fun index => Vector.replicate 64 (UInt8.ofNat index)) ∧
      ∃ evaluation state',
        (ofNonce Sha2.sha512 (Vector.replicate 32 0x11) 7 192 twoRows).run.run 0 =
          (.ok evaluation, state') ∧
        evaluation.Follows Sha2.sha512
          (Sha2.sha512 ((Vector.replicate 32 0x11).toList ++ littleEndian 8 (7 : UInt64).toNat))
          (192 / 128) (fun index => Vector.replicate 64 (UInt8.ofNat index)) := by
  have steady : twoRows.Steady (2 * (192 / 128))
      (fun index => Vector.replicate 64 (UInt8.ofNat index)) := by
    intro index inside state
    have held : index < 2 := inside
    refine ⟨state + 1, ?_⟩
    simp only [twoRows, if_pos held]
    rfl
  exact ⟨rfl, by decide, steady,
    (ofNonce_follows_recurrence rfl (by decide) steady Sha2.sha512 (Vector.replicate 32 0x11) 7
      0).1⟩

end Evaluation

end MemoryHard
