import MemoryHard.Proofs.EvaluationInquiry

/-!
# Byte images of datasets

A dataset and a byte image of its words answer every row number alike, whatever is left
behind the last row of the image.  Where their bounds are computed in 64-bit words, those
of the image wrap at smaller numbers than those of the dataset, but only for rows that are
held by neither.  An evaluation over one is the evaluation over the other, and it fails for
a row exactly if it asks for one that is not held.
-/

namespace MemoryHard

variable {α σ : Type}

section Words

/-- The product of two 64-bit words, unless it wraps. -/
def mul64? (first second : UInt64) : Option UInt64 :=
  if first.toNat * second.toNat < UInt64.size then some (first * second) else none

/-- The sum of two 64-bit words, unless it wraps. -/
def add64? (first second : UInt64) : Option UInt64 :=
  if first.toNat + second.toNat < UInt64.size then some (first + second) else none

/-- The items between two bounds, if there are as many. -/
def slice? (items : List α) (start stop : UInt64) : Option (List α) :=
  if start ≤ stop ∧ stop.toNat ≤ items.length then
    some ((items.drop start.toNat).take (stop.toNat - start.toNat))
  else
    none

/-- Piece `index` of `size` items, with its bounds computed in 64-bit words. -/
def piece64? (size : Nat) (items : List α) (index : UInt64) : Option (List α) := do
  let start ← mul64? index (UInt64.ofNat size)
  let stop ← add64? start (UInt64.ofNat size)
  slice? items start stop

variable {first second : UInt64}

private theorem mul64?_of_lt (fits : first.toNat * second.toNat < UInt64.size) :
    ∃ product, mul64? first second = some product ∧
      product.toNat = first.toNat * second.toNat := by
  refine ⟨first * second, if_pos fits, ?_⟩
  rw [UInt64.toNat_mul]
  exact Nat.mod_eq_of_lt fits

private theorem add64?_of_lt (fits : first.toNat + second.toNat < UInt64.size) :
    ∃ sum, add64? first second = some sum ∧ sum.toNat = first.toNat + second.toNat := by
  refine ⟨first + second, if_pos fits, ?_⟩
  rw [UInt64.toNat_add]
  exact Nat.mod_eq_of_lt fits

private theorem slice?_of_le (ordered : first.toNat ≤ second.toNat) (items : List α) :
    slice? items first second =
      if second.toNat ≤ items.length then
        some ((items.drop first.toNat).take (second.toNat - first.toNat))
      else
        none := by
  have before : first ≤ second := UInt64.le_iff_toNat_le.mpr ordered
  simp only [slice?, before, true_and]

/-- Bounds that wrap would lie behind the end of the items, so nothing is lost. -/
theorem piece64?_eq {size : Nat} (positive : 0 < size) (word : size < UInt64.size)
    {items : List α} (small : items.length < UInt64.size) (index : UInt64) :
    piece64? size items index = (chunks size items)[index.toNat]?.map Vector.toList := by
  have size_eq : (UInt64.ofNat size).toNat = size := Nat.mod_eq_of_lt word
  rw [getElem?_chunks positive, Nat.mul_comm size, piece64?]
  by_cases starts : index.toNat * (UInt64.ofNat size).toNat < UInt64.size
  · obtain ⟨start, started, startValue⟩ := mul64?_of_lt starts
    rw [started, Option.bind_eq_bind, Option.bind_some]
    by_cases stops : start.toNat + (UInt64.ofNat size).toNat < UInt64.size
    · obtain ⟨stop, stopped, stopValue⟩ := add64?_of_lt stops
      rw [size_eq] at startValue stopValue
      have ordered : start.toNat ≤ stop.toNat := by omega
      have length : stop.toNat - start.toNat = size := by omega
      rw [stopped, Option.bind_some, slice?_of_le ordered, length, stopValue, startValue]
    · rw [size_eq] at startValue stops
      have behind : ¬index.toNat * size + size ≤ items.length := by omega
      rw [add64?, size_eq, if_neg stops, if_neg behind]
      rfl
  · rw [size_eq] at starts
    have behind : ¬index.toNat * size + size ≤ items.length := by omega
    rw [mul64?, size_eq, if_neg starts, if_neg behind]
    rfl

/-- The bytes of a row of `size` items, or the refusal of a number that is not held, with
the bounds of the row computed in 64-bit words. -/
def answer64 (size : Nat) (bytes : List α → Bytes) (items : List α) (index : UInt64) :
    Except Refusal Bytes :=
  match piece64? size items index with
  | some piece => .ok (bytes piece)
  | none => .error (.rowOutOfRange index.toNat (items.length / size))

end Words

namespace Table

/-- The bytes of a row, or the refusal of a number that is not held. -/
def answer (table : Table) (index : Nat) : Except Refusal Block :=
  match table.row? index with
  | some row => .ok row.block
  | none => .error (.rowOutOfRange index table.count)

variable {table : Table} {index : Nat}

private theorem answer_of_lt (held : index < table.count) :
    table.answer index = .ok (table.cyclicRow index).block := by
  rw [answer, row?_of_lt held]

private theorem answer_of_le (missing : table.count ≤ index) :
    table.answer index = .error (.rowOutOfRange index table.count) := by
  have none : table.row? index = none := Array.getElem?_eq_none missing
  rw [answer, none]

private theorem answer_eq_ok_iff : (∃ row, table.answer index = .ok row) ↔ index < table.count := by
  constructor
  · rintro ⟨row, answered⟩
    apply Nat.lt_of_not_le
    intro missing
    rw [answer_of_le missing] at answered
    cases answered
  · intro held
    exact ⟨_, answer_of_lt held⟩

theorem rowsOfWords_words (table : Table) : rowsOfWords table.words = table.rows.toList :=
  chunks_glue (by decide) _

/-- The rows of a table are in its words. -/
theorem eq_of_words {first second : Table} (same : first.words = second.words) :
    first = second := by
  have rows : first.rows = second.rows := by
    apply Array.toList_inj.mp
    rw [← rowsOfWords_words, ← rowsOfWords_words, same]
  cases first
  cases second
  cases rows
  rfl

end Table

private theorem Dataset.exists_ofWords {words : List Word} (nonempty : words ≠ [])
    (aligned : words.length % 16 = 0) :
    ∃ dataset, Dataset.ofWords words = .ok dataset ∧ dataset.words = words := by
  have some : 0 < words.length := List.length_pos_iff.mpr nonempty
  have rows : 0 < words.length / 16 := by omega
  have size : 4 * words.length = 64 * (words.length / 16) := by omega
  have held : 0 < (rowsOfWords words).toArray.size := by simpa [rowsOfWords] using rows
  refine ⟨{ rows := (rowsOfWords words).toArray, nonempty := held }, ?_, ?_⟩
  · rw [ofWords, rowCount_of_rows ⟨rows, size⟩, ok_bind]
    rfl
  · exact glue_chunks (by decide) aligned

namespace RowSource

variable {dataset : Dataset} {tail : Bytes}

private theorem chunks_image (table : Table) (short : tail.length < 64) :
    chunks 64 (table.bytes ++ tail) = table.rows.toList.map Row.block := by
  rw [Table.bytes, Table.words, bytesOfWords_glue]
  exact chunks_glue_append _ short

/-- What is left behind the last row makes no difference. -/
theorem ofImage_eq_ofDataset (dataset : Dataset) (short : tail.length < 64) :
    (ofImage (dataset.bytes ++ tail) : RowSource σ) = ofDataset dataset := by
  have count : (chunks 64 (dataset.bytes ++ tail)).toArray.size = dataset.count := by
    rw [chunks_image dataset.toTable short, List.size_toArray, List.length_map,
      Array.length_toList, Table.count]
  have rows : (fun index : Nat => (chunks 64 (dataset.bytes ++ tail)).toArray[index]?) =
      fun index => (dataset.row? index).map Row.block := by
    funext index
    rw [chunks_image dataset.toTable short, List.getElem?_toArray, List.getElem?_map,
      Array.getElem?_toList, Table.row?]
  rw [ofImage, ofDataset]
  simp only [count, rows]

private theorem run_ofDataset (dataset : Dataset) (index : Nat) (state : σ) :
    (ofDataset dataset index).run.run state = (dataset.answer index, state) := by
  rw [ofDataset, ofRows, Table.answer]
  cases dataset.row? index with
  | some row => rfl
  | none => rfl

end RowSource

/-- Computing the bounds of a row in 64-bit words makes no difference, be it in bytes or in
words. -/
private theorem answer64_eq (table : Table) {tail : Bytes} (short : tail.length < 64)
    (small : (table.bytes ++ tail).length < UInt64.size) (index : UInt64) :
    answer64 64 id (table.bytes ++ tail) index =
        (table.answer index.toNat).map Vector.toList ∧
      answer64 16 bytesOfWords table.words index =
        (table.answer index.toNat).map Vector.toList := by
  have words : table.words.length = 16 * table.count := table.length_words
  have bytes : (table.bytes ++ tail).length = 64 * table.count + tail.length := by
    rw [List.length_append, Table.length_bytes, Table.byteCount]
  have fewer : table.words.length < UInt64.size := by omega
  have imageCount : (table.bytes ++ tail).length / 64 = table.count := by omega
  have wordsCount : table.words.length / 16 = table.count := by omega
  have wordRows : chunks 16 table.words = table.rows.toList := table.rowsOfWords_words
  rw [answer64, answer64, piece64?_eq (by decide) (by decide) small,
    piece64?_eq (by decide) (by decide) fewer, RowSource.chunks_image table short, wordRows,
    imageCount, wordsCount, List.getElem?_map, Array.getElem?_toList, Table.answer, Table.row?]
  cases table.rows[index.toNat]? with
  | some row => exact ⟨rfl, congrArg Except.ok (Row.toList_block row).symm⟩
  | none => exact ⟨rfl, rfl⟩

/-- Answers that do not depend on the state are found in every trace. -/
private theorem Inquiry.answer_of_mem_trace {source : RowSource σ}
    {answer : Nat → Except Refusal Block}
    (known : ∀ index state, (source index).run.run state = (answer index, state))
    (inquiry : Inquiry α) {state : σ} {exchange : Exchange}
    (member : exchange ∈ inquiry.trace source state) : exchange.answer = answer exchange.index := by
  induction inquiry generalizing state with
  | done value => cases member
  | ask index next ih =>
      have asked := known index state
      cases found : answer index with
      | ok row =>
          rw [found] at asked
          rw [trace_ask_of_ok asked] at member
          rcases List.mem_cons.mp member with rfl | later
          · exact found.symm
          · exact ih row later
      | error reason =>
          rw [found] at asked
          rw [trace_ask_of_error asked] at member
          rw [List.mem_singleton.mp member]
          exact found.symm

/-- A session over `count` rows fails for a row exactly if one that is not held is asked,
which is then the last one. -/
structure Session.EndsAtMissing (session : Session σ) (count : Nat) : Prop where
  isOk_iff : (∃ evaluation, session.outcome = .ok evaluation) ↔
    ∀ index ∈ session.asked, index < count
  refused : ∀ reason, session.outcome = .error reason →
    ∃ index, session.asked.getLast? = some index ∧ count ≤ index ∧
      reason = .rowOutOfRange index count

private theorem Inquiry.endsAtMissing (inquiry : Inquiry Evaluation) (dataset : Dataset)
    (state : σ) : Session.EndsAtMissing
      { outcome := ((inquiry.run (RowSource.ofDataset dataset)).run.run state).1
        state := ((inquiry.run (RowSource.ofDataset dataset)).run.run state).2
        trace := inquiry.trace (RowSource.ofDataset dataset) state }
      dataset.count := by
  have leads := inquiry.leads (RowSource.ofDataset dataset) state
  have answers : ∀ exchange ∈ inquiry.trace (RowSource.ofDataset dataset) state,
      exchange.answer = dataset.answer exchange.index := by
    intro exchange member
    exact answer_of_mem_trace (RowSource.run_ofDataset dataset) inquiry member
  refine ⟨?_, ?_⟩
  · rw [Session.asked, List.forall_mem_map]
    constructor
    · intro succeeded exchange member
      obtain ⟨row, answered⟩ := leads.isOk_iff.mp succeeded exchange member
      rw [answers exchange member] at answered
      exact Table.answer_eq_ok_iff.mp ⟨row, answered⟩
    · intro held
      apply leads.isOk_iff.mpr
      intro exchange member
      rw [answers exchange member]
      exact Table.answer_eq_ok_iff.mpr (held exchange member)
  · intro reason failed
    obtain ⟨place, index, refused⟩ := leads.exists_refusal failed
    obtain ⟨length, -⟩ := leads.of_refusal refused
    have answered := answers _ (List.mem_of_getElem? refused)
    have missing : dataset.count ≤ index := by
      apply Nat.le_of_not_lt
      intro held
      rw [Table.answer_of_lt held] at answered
      cases answered
    rw [Table.answer_of_le missing] at answered
    refine ⟨index, ?_, missing, Except.error.inj answered⟩
    rw [Session.asked, List.getLast?_map, List.getLast?_eq_getElem?, length, Nat.add_sub_cancel,
      refused, Option.map_some]

namespace Evaluation

private theorem session_endsAtMissing {bytes : Nat} (aligned : bytes % 64 = 0) (large : 128 ≤ bytes)
    (H : HashFunction) (seed : Block) (dataset : Dataset) (state : σ) :
    (session (ofSeed H seed bytes) (RowSource.ofDataset dataset) state).EndsAtMissing
      dataset.count := by
  rw [session_of_admissible aligned large]
  exact Inquiry.endsAtMissing _ dataset state

end Evaluation

namespace RowSource

variable {tail : Bytes}

/-- The image holds the bytes of every row where the row belongs. -/
theorem block_in_image (table : Table) (short : tail.length < 64) {index : Nat}
    (held : index < table.count) :
    (table.cyclicRow index).block.toList = ((table.bytes ++ tail).drop (64 * index)).take 64 := by
  apply toList_of_getElem?_chunks (by decide)
  rw [chunks_image table short, List.getElem?_map, Array.getElem?_toList]
  exact congrArg (Option.map Row.block) (Table.row?_of_lt held)

private theorem held_in_image (dataset : Dataset) (short : tail.length < 64) {index : Nat}
    (held : index < dataset.count) :
    ∃ row, dataset.answer index = .ok row ∧
      row.toList = ((dataset.bytes ++ tail).drop (64 * index)).take 64 :=
  ⟨_, Table.answer_of_lt held, block_in_image dataset.toTable short held⟩

/-- The byte image and the dataset can be exchanged as sources of rows. -/
structure Interchangeable (image : Bytes) (dataset : Dataset) : Prop where
  answer_eq : ∀ {σ : Type} (index : Nat) (state : σ),
    (ofImage image index).run.run state = (dataset.answer index, state) ∧
      (ofDataset dataset index).run.run state = (dataset.answer index, state)
  held : ∀ index < dataset.count, ∃ row, dataset.answer index = .ok row ∧
    row.toList = (image.drop (64 * index)).take 64
  missing : ∀ index, dataset.count ≤ index →
    dataset.answer index = .error (.rowOutOfRange index dataset.count)
  /-- It does not matter that the bounds of a row wrap in 64-bit words. -/
  bounds64 : image.length < UInt64.size → ∀ index : UInt64,
    answer64 64 id image index = (dataset.answer index.toNat).map Vector.toList ∧
      answer64 16 bytesOfWords dataset.words index =
        (dataset.answer index.toNat).map Vector.toList
  session_eq : ∀ {σ : Type} (H : HashFunction) (header : Digest) (nonce : UInt64) (bytes : Nat)
      (state : σ),
    Evaluation.session (Evaluation.ofNonce H header nonce bytes) (ofImage image) state =
      Evaluation.session (Evaluation.ofNonce H header nonce bytes) (ofDataset dataset) state
  endsAtMissing : ∀ {σ : Type} (H : HashFunction) (header : Digest) (nonce : UInt64) (bytes : Nat)
      (state : σ), bytes % 64 = 0 → 128 ≤ bytes →
    (Evaluation.session (Evaluation.ofNonce H header nonce bytes) (ofImage image)
      state).EndsAtMissing dataset.count

/-- The bytes of whole rows, with less than a row left behind them, stand for the dataset of
the rows, and so for a cache of the same words.  Every number is answered alike, held or not,
and so an evaluation asks the same numbers of both and comes to the same outcome, whatever the
size for which it is asked. -/
theorem image_stands_for_dataset {words : List Word} {tail : Bytes} (nonempty : words ≠ [])
    (aligned : words.length % 16 = 0) (short : tail.length < 64) :
    ∃ dataset, Dataset.ofWords words = .ok dataset ∧ dataset.count = words.length / 16 ∧
      Interchangeable (bytesOfWords words ++ tail) dataset ∧
      ∀ cache : Cache, cache.words = words → ∀ index,
        cache.answer index = dataset.answer index := by
  obtain ⟨dataset, adopted, held⟩ := Dataset.exists_ofWords nonempty aligned
  have length : dataset.words.length = 16 * dataset.count := dataset.length_words
  rw [held] at length
  refine ⟨dataset, adopted, by omega, ?_, ?_⟩
  · have image : bytesOfWords words = dataset.bytes := by rw [Table.bytes, held]
    rw [image]
    have same : ∀ {σ : Type},
        (ofImage (dataset.bytes ++ tail) : RowSource σ) = ofDataset dataset :=
      ofImage_eq_ofDataset dataset short
    refine ⟨?_, ?_, ?_, ?_, ?_, ?_⟩
    · intro σ index state
      rw [same]
      exact ⟨run_ofDataset dataset index state, run_ofDataset dataset index state⟩
    · intro index inside
      exact held_in_image dataset short inside
    · intro index missing
      exact Table.answer_of_le missing
    · intro small index
      exact answer64_eq dataset.toTable short small index
    · intro σ H header nonce bytes state
      rw [same]
    · intro σ H header nonce bytes state sizeAligned large
      rw [same]
      exact Evaluation.session_endsAtMissing sizeAligned large H _ dataset state
  · intro cache sameWords index
    have tables : cache.toTable = dataset.toTable := Table.eq_of_words (sameWords.trans held.symm)
    rw [tables]

/-- Two rows with three bytes behind them.  The bounds of row `2 ^ 58` wrap in bytes, but not
in words. -/
theorem two_rows_stand_for_dataset :
    List.replicate 32 (7 : Word) ≠ [] ∧ (List.replicate 32 (7 : Word)).length % 16 = 0 ∧
      [(1 : UInt8), 2, 3].length < 64 ∧
      mul64? 288230376151711744 64 = none ∧
      mul64? 288230376151711744 16 = some 4611686018427387904 ∧
      ∃ dataset, Dataset.ofWords (List.replicate 32 7) = .ok dataset ∧
        answer64 64 id (bytesOfWords (List.replicate 32 7) ++ [1, 2, 3]) 288230376151711744 =
          .error (.rowOutOfRange 288230376151711744 2) ∧
        answer64 16 bytesOfWords dataset.words 288230376151711744 =
          .error (.rowOutOfRange 288230376151711744 2) := by
  have nonempty : List.replicate 32 (7 : Word) ≠ [] := by decide
  have aligned : (List.replicate 32 (7 : Word)).length % 16 = 0 := by decide
  have short : [(1 : UInt8), 2, 3].length < 64 := by decide
  obtain ⟨dataset, adopted, count, interchangeable, -⟩ :=
    image_stands_for_dataset nonempty aligned short
  have two : dataset.count = 2 := count.trans (by decide)
  have small : (bytesOfWords (List.replicate 32 (7 : Word)) ++ [1, 2, 3]).length <
      UInt64.size := by
    rw [List.length_append, length_bytesOfWords, List.length_replicate]
    decide
  obtain ⟨image, rows⟩ := interchangeable.bounds64 small 288230376151711744
  have number : (288230376151711744 : UInt64).toNat = 288230376151711744 := rfl
  have missing := interchangeable.missing 288230376151711744 (by omega)
  rw [number, missing, two] at image rows
  exact ⟨nonempty, aligned, short, by decide, by decide, dataset, adopted, image, rows⟩

end RowSource

end MemoryHard
