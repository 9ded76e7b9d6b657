import MemoryHard.Proofs.Sizes
import MemoryHard.Proofs.WordNumbers

/-!
# The cache as a recurrence in rounds and rows

`Scheme.cacheRow` gives every row of every round from the rows that it is hashed of,
without a buffer.  Building the cache in place computes this recurrence: while a round
is under way, the rows that it has passed are those of the new round and the others
are still those of the round before (`Cache.Mixed`).
-/

namespace MemoryHard

namespace Scheme

/-- The row before, where the last row stands before the first. -/
def rowBefore (count index : Nat) : Nat :=
  if index = 0 then count - 1 else index - 1

/-- Row `index` of `count` rows after some rounds. -/
def cacheRow (H : HashFunction) (seed : Bytes) (count : Nat) : (round index : Nat) → Block
  | 0, 0 => H seed
  | 0, index + 1 => H (cacheRow H seed count 0 index).toList
  | round + 1, index =>
      let latest (row : Nat) : Block :=
        if row < index then
          cacheRow H seed count (round + 1) row
        else
          cacheRow H seed count round row
      let selected := (cacheRow H seed count round index).number 0 % count
      H ((latest selected).xor (latest (rowBefore count index))).toList
termination_by round index => (round, index)

/-- The words of all rows after the last round. -/
def cacheWords (H : HashFunction) (seed : Bytes) (count : Nat) : List Word :=
  (List.range count).flatMap fun index =>
    (List.range 16).map fun place => UInt32.ofNat ((cacheRow H seed count 3 index).number place)

/-- A row as a round finds it when it has passed the rows below `done`. -/
def latestRow (H : HashFunction) (seed : Bytes) (count round done row : Nat) : Block :=
  if row < done then cacheRow H seed count (round + 1) row else cacheRow H seed count round row

/-- The row that the first word of row `index` selects. -/
def selectedRow (H : HashFunction) (seed : Bytes) (count round index : Nat) : Nat :=
  (cacheRow H seed count round index).number 0 % count

/-- What row `index` is the hash of after some rounds. -/
def cacheMessage (H : HashFunction) (seed : Bytes) (count : Nat) : (round index : Nat) → Bytes
  | 0, 0 => seed
  | 0, index + 1 => (cacheRow H seed count 0 index).toList
  | round + 1, index =>
      ((latestRow H seed count round index (selectedRow H seed count round index)).xor
        (latestRow H seed count round index (rowBefore count index))).toList

theorem cacheRow_eq_hash (H : HashFunction) (seed : Bytes) (count round index : Nat) :
    cacheRow H seed count round index = H (cacheMessage H seed count round index) := by
  cases round with
  | zero => cases index <;> rw [cacheRow, cacheMessage]
  | succ round =>
      rw [cacheRow]
      rfl

private theorem selectedRow_lt (H : HashFunction) (seed : Bytes) {count : Nat} (round : Nat)
    {index : Nat} (inside : index < count) : selectedRow H seed count round index < count :=
  Nat.mod_lt _ (Nat.zero_lt_of_lt inside)

private theorem rowBefore_eq {count index : Nat} (inside : index < count) :
    rowBefore count index = (index + count - 1) % count := by
  unfold rowBefore
  split
  next first => rw [first, Nat.zero_add, Nat.mod_eq_of_lt (by omega)]
  next later =>
    have wrapped : index + count - 1 = index - 1 + count := by omega
    rw [wrapped, Nat.add_mod_right, Nat.mod_eq_of_lt (by omega)]

private theorem rowBefore_lt {count index : Nat} (inside : index < count) :
    rowBefore count index < count := by
  rw [rowBefore_eq inside]
  exact Nat.mod_lt _ (Nat.zero_lt_of_lt inside)

end Scheme

namespace Cache

variable {count : Nat} {H : HashFunction} {seed : Bytes} {rows : Vector Row count} {round : Nat}

/-- The chain has been written as far as row `done`. -/
def Chained (H : HashFunction) (seed : Bytes) (done : Nat) (rows : Vector Row count) : Prop :=
  ∀ row (inside : row < count), row < done →
    rows[row] = Row.ofBlock (Scheme.cacheRow H seed count 0 row)

/-- A round has passed the rows below `done`. -/
def Mixed (H : HashFunction) (seed : Bytes) (round done : Nat) (rows : Vector Row count) : Prop :=
  ∀ row (inside : row < count),
    rows[row] = Row.ofBlock (Scheme.latestRow H seed count round done row)

theorem chainMessage_eq {index : Nat} (chained : Chained H seed index rows)
    (bound : index < count) :
    chainMessage seed rows index bound = Scheme.cacheMessage H seed count 0 index := by
  cases index with
  | zero => rw [chainMessage, if_pos rfl, Scheme.cacheMessage]
  | succ index =>
      have before : rows[index] = Row.ofBlock (Scheme.cacheRow H seed count 0 index) :=
        chained index (by omega) (Nat.lt_succ_self index)
      rw [chainMessage, if_neg (Nat.succ_ne_zero index), Scheme.cacheMessage]
      simp [before]

theorem Chained.set {index : Nat} (chained : Chained H seed index rows) (bound : index < count) :
    Chained H seed (index + 1)
      (rows.set index (Row.ofBlock (H (chainMessage seed rows index bound)))) := by
  intro row inside known
  rw [Vector.getElem_set]
  split
  next same => rw [← same, chainMessage_eq chained bound, Scheme.cacheRow_eq_hash]
  next other => exact chained row inside (by omega)

theorem chained_zero (H : HashFunction) (seed : Bytes) (rows : Vector Row count) :
    Chained H seed 0 rows :=
  fun row _ nothing => absurd nothing (Nat.not_lt_zero row)

theorem chained_writeChain (H : HashFunction) (seed : Bytes) (rows : Vector Row count) :
    Chained H seed count (writeChain H seed rows) :=
  fold_invariant (fun done rows => Chained H seed done rows) (chained_zero H seed rows)
    fun _ bound _ chained => chained.set bound

/-- A row that has not been passed selects as it did in the round before. -/
theorem mixMessage_eq {index : Nat} (mixed : Mixed H seed round index rows)
    (bound : index < count) :
    mixMessage rows index bound = Scheme.cacheMessage H seed count (round + 1) index := by
  have own : rows[index] = Row.ofBlock (Scheme.cacheRow H seed count round index) := by
    rw [mixed index bound, Scheme.latestRow, if_neg (Nat.lt_irrefl index)]
  have selected : rows[index][0].toNat % count = Scheme.selectedRow H seed count round index := by
    rw [own, Row.numbered_ofBlock _ 0 Row.first_lt, Scheme.selectedRow]
  have before : (index + count - 1) % count = Scheme.rowBefore count index :=
    (Scheme.rowBefore_eq bound).symm
  have positive : 0 < count := Nat.zero_lt_of_lt bound
  have first := mixed (rows[index][0].toNat % count) (Nat.mod_lt _ positive)
  have second := mixed ((index + count - 1) % count) (Nat.mod_lt _ positive)
  rw [mixMessage, first, second, Row.block_xor, Row.block_ofBlock, Row.block_ofBlock, selected,
    before, Scheme.cacheMessage]

theorem Mixed.set {index : Nat} (mixed : Mixed H seed round index rows) (bound : index < count) :
    Mixed H seed round (index + 1)
      (rows.set index (Row.ofBlock (H (mixMessage rows index bound)))) := by
  intro row inside
  rw [Vector.getElem_set, Scheme.latestRow]
  split
  next same =>
    rw [← same, mixMessage_eq mixed bound, if_pos (Nat.lt_succ_self index),
      Scheme.cacheRow_eq_hash]
  next other =>
    have unchanged : row < index + 1 ↔ row < index := by omega
    rw [mixed row inside, Scheme.latestRow]
    simp only [unchanged]

/-- When the chain has been written, the first round can start. -/
theorem Chained.mixed (chained : Chained H seed count rows) : Mixed H seed 0 0 rows := by
  intro row inside
  rw [chained row inside inside, Scheme.latestRow, if_neg (Nat.not_lt_zero row)]

/-- When a round has passed every row, the next one can start. -/
private theorem Mixed.next (mixed : Mixed H seed round count rows) :
    Mixed H seed (round + 1) 0 rows := by
  intro row inside
  rw [mixed row inside, Scheme.latestRow, Scheme.latestRow, if_pos inside,
    if_neg (Nat.not_lt_zero row)]

private theorem Mixed.mixRound (mixed : Mixed H seed round 0 rows) :
    Mixed H seed (round + 1) 0 (mixRound H rows) := by
  apply Mixed.next
  exact fold_invariant (fun done rows => Mixed H seed round done rows) mixed
    fun _ bound _ mixed => mixed.set bound

theorem mixed_repeat (mixed : Mixed H seed 0 0 rows) (rounds : Nat) :
    Mixed H seed rounds 0 (Nat.repeat (Cache.mixRound H) rounds rows) := by
  induction rounds with
  | zero => exact mixed
  | succ rounds ih => exact ih.mixRound

theorem getElem_mixRows (H : HashFunction) (seed : Bytes) (rows : Vector Row count) (index : Nat)
    (inside : index < count) :
    (mixRows H seed rows)[index] = Row.ofBlock (Scheme.cacheRow H seed count 3 index) := by
  have mixed := mixed_repeat (chained_writeChain H seed rows).mixed rounds
  rw [mixRows, mixed index inside, Scheme.latestRow, if_neg (Nat.not_lt_zero index), rounds]

/-- Whatever the rows held before, they hold the recurrence afterwards. -/
theorem glue_mixRows (H : HashFunction) (seed : Bytes) (rows : Vector Row count) :
    glue (mixRows H seed rows).toList = Scheme.cacheWords H seed count := by
  have mixed : (mixRows H seed rows).toList =
      (List.range count).map fun index => Row.ofBlock (Scheme.cacheRow H seed count 3 index) := by
    apply List.ext_getElem (by simp)
    intro index inside _
    have bound : index < count := by simpa using inside
    simpa using getElem_mixRows H seed rows index bound
  rw [mixed, glue, List.flatMap_map, Scheme.cacheWords]
  congr 1
  funext index
  exact (Row.numbered_ofBlock _).toList_eq

/-- Filling a buffer is decided by its length, and refusing it changes nothing. -/
theorem run_fill (H : HashFunction) (seed : Bytes) (buffer : List Word) :
    (fill H seed).run.run buffer =
      match rowCount buffer.length with
      | .error reason => (.error reason, buffer)
      | .ok ⟨count, _⟩ => (.ok (), Scheme.cacheWords H seed count) := by
  change ((liftM (rowCount buffer.length) : ExceptT Refusal (StateM (List Word)) _) >>= _).run.run
    buffer = _
  cases rowCount buffer.length with
  | error reason => rfl
  | ok found =>
      obtain ⟨count, positive, length_eq⟩ := found
      let rows : Vector Row count :=
        ⟨(rowsOfWords buffer).toArray, by simp [rowsOfWords, length_eq]⟩
      exact congrArg (Prod.mk (Except.ok ())) (glue_mixRows H seed rows)

theorem ofSeed_of_unaligned {byteCount : Nat} (unaligned : byteCount % 64 ≠ 0)
    (H : HashFunction) (epoch : UInt64) (seed : Bytes) :
    ofSeed H epoch seed byteCount = .error (.unalignedCache (byteCount / 4)) := by
  rw [ofSeed, if_pos unaligned]
  rfl

theorem words_ofSeed {byteCount : Nat} (size : 0 < count ∧ byteCount = 64 * count)
    (H : HashFunction) (epoch : UInt64) (seed : Bytes) :
    (ofSeed H epoch seed byteCount).map (fun cache => cache.words) =
      .ok (Scheme.cacheWords H seed count) := by
  have aligned : ¬byteCount % 64 ≠ 0 := by omega
  have words : byteCount / 4 = 16 * count := by omega
  rw [ofSeed, if_neg aligned, rowCount_of_rows ⟨size.1, words⟩,
    ← glue_mixRows H seed (Vector.replicate count (Vector.replicate 16 0))]
  rfl

/-- Building a cache in place leaves the words of the recurrence, whatever the buffer
held before.  A buffer that does not consist of rows is refused and keeps its words.
Growing a cache for an epoch leads to the same, under every epoch number.  The rows that
are read on the way lie in the buffer. -/
theorem fill_eq_recurrence (H : HashFunction) (seed : Bytes) (buffer : List Word) :
    (fill H seed).run.run buffer =
        (if buffer.length % 16 ≠ 0 then
          (.error (.unalignedCache buffer.length), buffer)
        else if buffer.length = 0 then
          (.error .emptyCache, buffer)
        else
          (.ok (), Scheme.cacheWords H seed (buffer.length / 16))) ∧
      (∀ epoch, (ofSeed H epoch seed (4 * buffer.length)).map (fun cache => cache.words) =
        ((fill H seed).run.run buffer).1.map fun _ => ((fill H seed).run.run buffer).2) ∧
      ∀ round index, index < buffer.length / 16 →
        16 * Scheme.selectedRow H seed (buffer.length / 16) round index + 15 < buffer.length ∧
          16 * Scheme.rowBefore (buffer.length / 16) index + 15 < buffer.length := by
  have inside : ∀ round index, index < buffer.length / 16 →
      16 * Scheme.selectedRow H seed (buffer.length / 16) round index + 15 < buffer.length ∧
        16 * Scheme.rowBefore (buffer.length / 16) index + 15 < buffer.length := by
    intro round index bound
    have selected := Scheme.selectedRow_lt H seed round bound
    have before := Scheme.rowBefore_lt bound
    omega
  by_cases unaligned : buffer.length % 16 ≠ 0
  · have refused : rowCount buffer.length = .error (.unalignedCache buffer.length) := by
      rw [rowCount, dif_pos unaligned]
    have bytes : 4 * buffer.length % 64 ≠ 0 := by omega
    have same : 4 * buffer.length / 4 = buffer.length := by omega
    rw [run_fill, refused, if_pos unaligned]
    refine ⟨rfl, fun epoch => ?_, inside⟩
    rw [ofSeed_of_unaligned bytes, same]
    rfl
  · rw [if_neg unaligned]
    by_cases empty : buffer.length = 0
    · have refused : rowCount buffer.length = .error .emptyCache := by
        rw [empty]
        rfl
      rw [run_fill, refused, if_pos empty]
      have bytes : 4 * buffer.length = 0 := by omega
      refine ⟨rfl, fun epoch => ?_, inside⟩
      rw [bytes]
      rfl
    · have size : 0 < buffer.length / 16 ∧ buffer.length = 16 * (buffer.length / 16) := by omega
      have bytes : 0 < buffer.length / 16 ∧ 4 * buffer.length = 64 * (buffer.length / 16) := by
        omega
      rw [run_fill, rowCount_of_rows size, if_neg empty]
      exact ⟨rfl, fun epoch => words_ofSeed bytes H epoch seed, inside⟩

end Cache

end MemoryHard
