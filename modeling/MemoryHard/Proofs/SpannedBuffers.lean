import MemoryHard.Proofs.ByteImages

/-!
# Words and bytes that describe one span

Bytes are decoded into a buffer of words, and words are encoded into a buffer of bytes, one
word after the other until either side ends.  What the buffer holds behind that place stays.
Where both sides describe the same span nothing stays, so decoding and encoding undo each
other.  The bytes of a cache are therefore those of its rows in order, and the cache can be
adopted again from its bytes.
-/

namespace MemoryHard

section Writing

variable {α : Type}

/-- Write the items over a buffer, one by one, until either ends. -/
def overwrite : (buffer items : List α) → List α
  | _ :: buffer, item :: items => item :: overwrite buffer items
  | buffer, _ => buffer

/-- The buffer keeps its length, and what is not reached keeps its place. -/
private theorem overwrite_eq (buffer items : List α) :
    overwrite buffer items = items.take buffer.length ++ buffer.drop items.length := by
  induction buffer generalizing items with
  | nil => simp [overwrite]
  | cons old buffer ih =>
      cases items with
      | nil => simp [overwrite]
      | cons item items => simp [overwrite, ih]

private theorem overwrite_of_length_eq {buffer items : List α}
    (same : items.length = buffer.length) : overwrite buffer items = items := by
  rw [overwrite_eq, ← same, List.take_length, same, List.drop_length, List.append_nil]

end Writing

namespace Word

/-- The four bytes of a word. -/
def block (word : Word) : Vector UInt8 4 :=
  ⟨(bytes word).toArray, by simp⟩

private theorem glue_map_block (words : List Word) :
    glue (words.map block) = bytesOfWords words := by
  rw [glue, List.flatMap_map]
  rfl

end Word

/-- Decode the bytes into a buffer of words. -/
def readWords (bytes : Bytes) (buffer : List Word) : List Word :=
  overwrite buffer (wordsOfBytes bytes)

/-- Encode the words into a buffer of bytes.  Less than four bytes at its end are no place for
a word. -/
def writeWords (words : List Word) (buffer : Bytes) : Bytes :=
  glue (overwrite (chunks 4 buffer) (words.map Word.block)) ++
    buffer.drop (4 * (buffer.length / 4))

/-- The bytes and the words describe the same span. -/
def Span (bytes : Bytes) (words : List Word) : Prop :=
  bytes.length = 4 * words.length

namespace Span

variable {bytes target : Bytes} {words buffer : List Word}

private theorem readWords_eq (span : Span bytes buffer) :
    readWords bytes buffer = wordsOfBytes bytes := by
  apply overwrite_of_length_eq
  rw [length_wordsOfBytes, span]
  omega

private theorem writeWords_eq (span : Span target words) :
    writeWords words target = bytesOfWords words := by
  have length : target.length = 4 * words.length := span
  have pieces : target.length / 4 = words.length := by omega
  have whole : target.drop (4 * (target.length / 4)) = [] := List.drop_of_length_le (by omega)
  rw [writeWords, whole, List.append_nil, overwrite_of_length_eq, Word.glue_map_block]
  rw [List.length_map, length_chunks, pieces]

/-- What has been encoded is decoded again. -/
theorem readWords_writeWords (span : Span target words) (same : buffer.length = words.length) :
    readWords (writeWords words target) buffer = words := by
  have spanned : Span (bytesOfWords words) buffer := by
    rw [Span, length_bytesOfWords, same]
  rw [span.writeWords_eq, spanned.readWords_eq, wordsOfBytes_bytesOfWords]

/-- What has been decoded is encoded again. -/
theorem writeWords_readWords (span : Span bytes buffer) (same : target.length = bytes.length) :
    writeWords (readWords bytes buffer) target = bytes := by
  have length : bytes.length = 4 * buffer.length := span
  have spanned : Span target (wordsOfBytes bytes) := by
    rw [Span, length_wordsOfBytes]
    omega
  rw [span.readWords_eq, spanned.writeWords_eq, bytesOfWords_wordsOfBytes (by omega)]

end Span

namespace Table

variable {table : Table} {index : Nat}

private theorem span_bytes (table : Table) : Span table.bytes table.words :=
  length_bytesOfWords table.words

private theorem toList_rows (table : Table) :
    table.rows.toList = (List.range table.count).map table.cyclicRow := by
  apply List.ext_getElem?
  intro index
  rw [Array.getElem?_toList, List.getElem?_map]
  by_cases inside : index < table.count
  · rw [List.getElem?_range inside]
    exact row?_of_lt inside
  · have outside : table.count ≤ index := Nat.le_of_not_lt inside
    rw [Array.getElem?_eq_none outside, List.getElem?_eq_none (by simpa using outside)]
    rfl

/-- A row stands in the words where its number says. -/
theorem toList_cyclicRow (inside : index < table.count) :
    (table.cyclicRow index).toList = (table.words.drop (16 * index)).take 16 := by
  apply toList_of_getElem?_chunks (by decide)
  rw [← rowsOfWords, rowsOfWords_words, Array.getElem?_toList]
  exact row?_of_lt inside

/-- The bytes of row `index`, if the table holds it. -/
def rowBytes? (table : Table) (index : Nat) : Option Bytes :=
  (table.row? index).map fun row => row.block.toList

private theorem rowBytes?_of_lt (inside : index < table.count) :
    table.rowBytes? index = some (table.cyclicRow index).block.toList := by
  rw [rowBytes?, row?_of_lt inside]
  rfl

/-- A row stands in the bytes where its number says. -/
theorem rowBytes?_eq_slice (inside : index < table.count) :
    table.rowBytes? index = some ((table.bytes.drop (64 * index)).take 64) := by
  have short : ([] : Bytes).length < 64 := by decide
  have stands := RowSource.block_in_image table short inside
  rw [List.append_nil] at stands
  rw [rowBytes?_of_lt inside, stands]

/-- The bytes of the table are those of its rows in order. -/
theorem bytes_eq_flatMap (table : Table) :
    table.bytes = (List.range table.count).flatMap fun index =>
      (table.rowBytes? index).getD [] := by
  have rows : ∀ index ∈ List.range table.count,
      (table.cyclicRow index).block.toList = (table.rowBytes? index).getD [] := by
    intro index member
    rw [rowBytes?_of_lt (List.mem_range.mp member)]
    rfl
  calc table.bytes
      = glue ((List.range table.count).map fun index => (table.cyclicRow index).block) := by
        rw [bytes, words, bytesOfWords_glue, toList_rows, List.map_map]
        rfl
    _ = (List.range table.count).flatMap fun index => (table.cyclicRow index).block.toList := by
        rw [glue, List.flatMap_map]
    _ = (List.range table.count).flatMap fun index => (table.rowBytes? index).getD [] := by
        rw [List.flatMap_def, List.flatMap_def, List.map_congr_left rows]

/-- The rows, the words and the bytes of a table agree, also where the bytes are written over
a buffer that held something else. -/
structure Agrees (table : Table) : Prop where
  length_bytes : table.bytes.length = table.byteCount
  written : ∀ target : Bytes, target.length = table.byteCount →
    writeWords table.words target = table.bytes
  row : ∀ index < table.count, ∃ row, table.row? index = some row ∧
    row.toList = (table.words.drop (16 * index)).take 16
  rowWritten : ∀ index < table.count, ∀ target : Bytes, target.length = 64 →
    table.rowBytes? index =
      some (writeWords ((table.words.drop (16 * index)).take 16) target)
  rowBytes : ∀ index < table.count,
    table.rowBytes? index = some ((table.bytes.drop (64 * index)).take 64)
  bytes_eq : table.bytes = (List.range table.count).flatMap fun index =>
    (table.rowBytes? index).getD []

private theorem agrees (table : Table) : table.Agrees := by
  refine ⟨table.length_bytes, ?_, ?_, ?_, ?_, table.bytes_eq_flatMap⟩
  · intro target size
    have span : Span target table.words := by
      rw [Span, size, ← length_bytes]
      exact table.span_bytes
    exact span.writeWords_eq
  · intro index inside
    exact ⟨table.cyclicRow index, row?_of_lt inside, toList_cyclicRow inside⟩
  · intro index inside target size
    have span : Span target (table.cyclicRow index).toList := by
      rw [Span, size, Vector.length_toList]
      rfl
    rw [rowBytes?_of_lt inside, ← toList_cyclicRow inside, span.writeWords_eq, Row.toList_block]
  · intro index inside
    exact rowBytes?_eq_slice inside

end Table

namespace Cache

variable {words : List Word}

private theorem exists_ofWords (epoch : UInt64) (nonempty : words ≠ [])
    (aligned : words.length % 16 = 0) :
    ∃ cache, ofWords epoch words = .ok cache ∧ cache.epoch = epoch ∧ cache.words = words := by
  have some : 0 < words.length := List.length_pos_iff.mpr nonempty
  have rows : 0 < words.length / 16 := by omega
  have size : words.length = 16 * (words.length / 16) := by omega
  have held : 0 < (rowsOfWords words).toArray.size := by simpa [rowsOfWords] using rows
  refine ⟨{ rows := (rowsOfWords words).toArray, nonempty := held, epoch }, ?_, rfl, ?_⟩
  · rw [ofWords, rowCount_of_rows ⟨rows, size⟩, ok_bind]
    rfl
  · exact glue_chunks (by decide) aligned

/-- Nothing of a cache is lost in its words and its epoch. -/
theorem ofWords_words (cache : Cache) : ofWords cache.epoch cache.words = .ok cache := by
  have length : cache.words.length = 16 * cache.count := cache.length_words
  have some : 0 < cache.count := cache.nonempty
  have nonempty : cache.words ≠ [] := List.ne_nil_of_length_pos (by omega)
  obtain ⟨adopted, taken, epoch, words⟩ := exists_ofWords cache.epoch nonempty (by omega)
  have table : adopted.toTable = cache.toTable := Table.eq_of_words words
  rw [taken]
  cases adopted
  cases cache
  cases table
  cases epoch
  rfl

private theorem ofWords_readWords (cache : Cache) {buffer : List Word}
    (span : Span cache.bytes buffer) :
    ofWords cache.epoch (readWords cache.bytes buffer) = .ok cache := by
  rw [span.readWords_eq, Table.bytes, wordsOfBytes_bytesOfWords, cache.ofWords_words]

/-- Bytes of whole rows are those of a cache. -/
theorem exists_ofBytes (epoch : UInt64) {bytes : Bytes} {buffer : List Word}
    (nonempty : bytes ≠ []) (aligned : bytes.length % 64 = 0) (span : Span bytes buffer) :
    ∃ cache, ofWords epoch (readWords bytes buffer) = .ok cache ∧ cache.epoch = epoch ∧
      cache.bytes = bytes := by
  have some : 0 < bytes.length := List.length_pos_iff.mpr nonempty
  have count : (wordsOfBytes bytes).length = bytes.length / 4 := length_wordsOfBytes bytes
  have held : wordsOfBytes bytes ≠ [] := List.ne_nil_of_length_pos (by omega)
  obtain ⟨cache, taken, named, words⟩ := exists_ofWords epoch held (by omega)
  refine ⟨cache, ?_, named, ?_⟩
  · rw [span.readWords_eq, taken]
  · rw [Table.bytes, words, bytesOfWords_wordsOfBytes (by omega)]

end Cache

/-- Decoding and encoding in place leave the words that the bytes stand for and the bytes that
the words are stored in.  Encoding words and decoding what was written gives the words back,
and decoding bytes of whole words and encoding what was read gives the bytes back, whatever
the buffers held before.  The bytes of a cache are as many as its size says and are those of
its rows in order.  The cache that is adopted from them is the same cache, and bytes of whole
rows are the bytes of the cache that is adopted from them. -/
theorem encodings_inverse :
    (∀ (bytes : Bytes) (words : List Word), bytes.length = 4 * words.length →
      readWords bytes words = wordsOfBytes bytes ∧ writeWords words bytes = bytesOfWords words) ∧
    (∀ (words : List Word) (target : Bytes) (buffer : List Word),
      target.length = 4 * words.length → buffer.length = words.length →
        readWords (writeWords words target) buffer = words) ∧
    (∀ (bytes : Bytes) (buffer : List Word) (target : Bytes), bytes.length % 4 = 0 →
      buffer.length = bytes.length / 4 → target.length = bytes.length →
        writeWords (readWords bytes buffer) target = bytes) ∧
    (∀ cache : Cache, cache.Agrees ∧
      ∀ buffer : List Word, buffer.length = cache.byteCount / 4 →
        Cache.ofWords cache.epoch (readWords cache.bytes buffer) = .ok cache) ∧
    ∀ (epoch : UInt64) (bytes : Bytes) (buffer : List Word), bytes ≠ [] →
      bytes.length % 64 = 0 → buffer.length = bytes.length / 4 →
        ∃ cache, Cache.ofWords epoch (readWords bytes buffer) = .ok cache ∧
          cache.epoch = epoch ∧ cache.bytes = bytes := by
  refine ⟨?_, ?_, ?_, ?_, ?_⟩
  · intro bytes words span
    exact ⟨Span.readWords_eq span, Span.writeWords_eq span⟩
  · intro words target buffer span same
    exact Span.readWords_writeWords span same
  · intro bytes buffer target aligned pieces same
    have span : bytes.length = 4 * buffer.length := by omega
    exact Span.writeWords_readWords span same
  · intro cache
    refine ⟨cache.agrees, ?_⟩
    intro buffer pieces
    have size : cache.bytes.length = 64 * cache.count := cache.length_bytes
    have byteCount : cache.byteCount = 64 * cache.count := rfl
    have span : cache.bytes.length = 4 * buffer.length := by omega
    exact cache.ofWords_readWords span
  · intro epoch bytes buffer nonempty aligned pieces
    have span : bytes.length = 4 * buffer.length := by omega
    exact Cache.exists_ofBytes epoch nonempty aligned span

/-- Two words that are told apart by the order of their bytes, and two rows that are told apart
by their place.  None of the buffers is blank. -/
theorem two_rows_come_back :
    writeWords [0x12345678, 0x80000001] (List.replicate 8 9) =
        [0x78, 0x56, 0x34, 0x12, 0x01, 0x00, 0x00, 0x80] ∧
      readWords (writeWords [0x12345678, 0x80000001] (List.replicate 8 9)) [7, 7] =
        [0x12345678, 0x80000001] ∧
      writeWords (readWords [1, 2, 3, 4] [7]) [9, 9, 9, 9] = [1, 2, 3, 4] ∧
      ∃ cache, Cache.ofWords 3 (readWords (List.replicate 64 5 ++ List.replicate 64 6)
          (List.replicate 32 7)) = .ok cache ∧
        cache.rowBytes? 0 = some (List.replicate 64 5) ∧
        cache.rowBytes? 1 = some (List.replicate 64 6) ∧
        Cache.ofWords 3 (readWords cache.bytes (List.replicate 32 8)) = .ok cache := by
  obtain ⟨plain, wordsBack, bytesBack, views, adopted⟩ := encodings_inverse
  obtain ⟨-, stored⟩ := plain (List.replicate 8 9) [0x12345678, 0x80000001] rfl
  have nonempty : List.replicate 64 (5 : UInt8) ++ List.replicate 64 6 ≠ [] := by decide
  obtain ⟨cache, taken, named, bytes⟩ :=
    adopted 3 (List.replicate 64 5 ++ List.replicate 64 6) (List.replicate 32 7) nonempty
      (by simp) (by simp)
  obtain ⟨agrees, again⟩ := views cache
  have size : cache.byteCount = 128 := by
    rw [← agrees.length_bytes, bytes]
    rfl
  have two : cache.count = 2 := by
    have rows : cache.byteCount = 64 * cache.count := rfl
    omega
  refine ⟨?_, wordsBack _ _ _ rfl rfl, bytesBack _ _ _ rfl rfl rfl, cache, taken, ?_, ?_, ?_⟩
  · rw [stored]
    decide
  · rw [agrees.rowBytes 0 (by omega), bytes]
    rfl
  · rw [agrees.rowBytes 1 (by omega), bytes]
    rfl
  · have buffer : (List.replicate 32 (8 : Word)).length = cache.byteCount / 4 := by
      rw [size]
      decide
    rw [← named, again _ buffer]

end MemoryHard
