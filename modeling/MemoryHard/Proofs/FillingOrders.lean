import MemoryHard.Proofs.ByteImages
import MemoryHard.Proofs.FreshDigesters
import MemoryHard.Proofs.LightAndFull

/-!
# Datasets are filled in any order

A buffer of words is filled row by row by workers that hash with digesters of their own, all
of them copies of one digester.  Which worker fills which row, in what order, and what it
has hashed before makes no difference: when every row has been filled, the buffer holds the
words of the dataset.  The rows of a smaller dataset stand at the start of a larger one.
-/

namespace MemoryHard

namespace Digester

variable {digester : Digester} {hash : HashFunction}

/-- The digester after it has hashed some messages, each given in pieces. -/
def after (digester : Digester) (messages : List (List Bytes)) : Option Digester :=
  messages.foldlM (fun digester pieces => (digester.digestPieces pieces).map Prod.snd) digester

/-- The digester was made in some way and has hashed some messages since. -/
def Obtained (digester : Digester) : Prop :=
  ∃ origin made messages, ofOrigin origin = .ok made ∧ made.after messages = some digester

private theorem Fresh.after (fresh : digester.Fresh hash) (messages : List (List Bytes)) :
    ∃ next, digester.after messages = some next ∧ next.Fresh hash := by
  induction messages generalizing digester with
  | nil => exact ⟨digester, rfl, fresh⟩
  | cons pieces messages ih =>
      obtain ⟨next, digested, again⟩ := fresh.digestPieces pieces
      obtain ⟨last, rest, fresh⟩ := ih again
      refine ⟨last, ?_, fresh⟩
      rw [Digester.after, List.foldlM_cons, digested]
      exact rest

private theorem Obtained.fresh (obtained : digester.Obtained) :
    digester.Fresh digester.function := by
  obtain ⟨origin, made, messages, made_eq, used⟩ := obtained
  obtain ⟨hash, -, first⟩ := fresh_of_ofOrigin made_eq
  obtain ⟨last, last_eq, fresh⟩ := first.after messages
  obtain rfl := Option.some.inj (last_eq.symm.trans used)
  rwa [fresh.function_eq]

end Digester

/-- The item of a number, with both of its hashes asked of a digester. -/
def Cache.itemBy (cache : Cache) (index : Nat) (digester : Digester) :
    Option (Block × Digester) := do
  let (first, digester) ← digester.digest (startRow cache index).block.toList
  digester.digest (mixParents cache index (Row.ofBlock first)).block.toList

private theorem Digester.Fresh.itemBy {digester : Digester} {hash : HashFunction}
    (fresh : digester.Fresh hash) (cache : Cache) (index : Nat) :
    ∃ next, cache.itemBy index digester = some (cache.item hash index, next) ∧
      next.Fresh hash := by
  obtain ⟨between, started, again⟩ := fresh.digest (Cache.startRow cache index).block.toList
  obtain ⟨next, finished, fresh⟩ := again.digest
    (Cache.mixParents cache index
      (Row.ofBlock (hash (Cache.startRow cache index).block.toList))).block.toList
  refine ⟨next, ?_, fresh⟩
  rw [Cache.itemBy, started]
  exact finished

/-- The row of a dataset that holds the item of a number. -/
def itemRow (hash : HashFunction) (cache : Cache) (index : Nat) : Row :=
  Row.ofBlock (cache.item hash index)

def itemRows (hash : HashFunction) (cache : Cache) (count : Nat) : List Row :=
  (List.range count).map (itemRow hash cache)

private theorem getElem?_itemRows (hash : HashFunction) (cache : Cache) (count index : Nat) :
    (itemRows hash cache count)[index]? =
      if index < count then some (itemRow hash cache index) else none := by
  rw [itemRows, List.getElem?_map]
  by_cases inside : index < count
  · rw [List.getElem?_range inside, if_pos inside, Option.map_some]
  · rw [List.getElem?_eq_none (by simpa using Nat.le_of_not_lt inside), if_neg inside,
      Option.map_none]

private theorem itemRows_prefix (hash : HashFunction) (cache : Cache) {count larger : Nat}
    (below : count ≤ larger) : itemRows hash cache count <+: itemRows hash cache larger := by
  obtain ⟨more, rfl⟩ := Nat.exists_eq_add_of_le below
  rw [itemRows, itemRows, List.range_add, List.map_append]
  exact List.prefix_append _ _

private theorem Dataset.HoldsItems.toList_rows {dataset : Dataset} {hash : HashFunction}
    {cache : Cache} {byteCount : Nat} (holds : dataset.HoldsItems hash cache byteCount) :
    dataset.rows.toList = itemRows hash cache (byteCount / 64) := by
  have size : 64 * dataset.count = byteCount := holds.byteCount_eq
  have count : byteCount / 64 = dataset.count := by omega
  apply List.ext_getElem?
  intro index
  rw [count, getElem?_itemRows, Array.getElem?_toList]
  split
  next inside => exact holds.row?_eq index inside
  next outside => exact Array.getElem?_eq_none (Nat.le_of_not_lt outside)

section Writing

variable {α : Type}

/-- Every write to a place writes the same item, so the last one does not matter. -/
private theorem getElem?_foldl_set (item : Nat → α) (indices : List Nat) (items : List α)
    (index : Nat) :
    (indices.foldl (fun items index => items.set index (item index)) items)[index]? =
      items[index]?.map fun old => if index ∈ indices then item index else old := by
  induction indices generalizing items with
  | nil => simp
  | cons first indices ih =>
      rw [List.foldl_cons, ih, List.getElem?_set']
      by_cases here : first = index
      · subst here
        cases items[first]? <;> simp
      · have other : ¬index = first := fun same => here same.symm
        simp only [if_neg here, List.mem_cons, other, false_or]

/-- Once every place has been written, nothing is left of what was there before. -/
private theorem foldl_set_of_covered (item : Nat → α) {indices : List Nat} {items : List α}
    (covered : ∀ index < items.length, index ∈ indices) :
    indices.foldl (fun items index => items.set index (item index)) items =
      (List.range items.length).map item := by
  apply List.ext_getElem?
  intro index
  rw [getElem?_foldl_set, List.getElem?_map]
  by_cases inside : index < items.length
  · rw [List.getElem?_eq_getElem inside, List.getElem?_range inside, Option.map_some,
      Option.map_some, if_pos (covered index inside)]
  · have outside : items.length ≤ index := Nat.le_of_not_lt inside
    rw [List.getElem?_eq_none outside, List.getElem?_eq_none (by simpa using outside)]
    rfl

end Writing

/-- The buffer with one row written over, if it has that row. -/
def writeRow (buffer : List Word) (index : Nat) (row : Row) : Option (List Word) :=
  if 16 * index + 16 ≤ buffer.length then
    some (buffer.take (16 * index) ++ row.toList ++ buffer.drop (16 * index + 16))
  else
    none

/-- The other rows keep their places. -/
private theorem writeRow_glue {rows : List Row} {index : Nat} (inside : index < rows.length)
    (row : Row) :
    writeRow (glue rows) index row = some (glue (rows.set index row)) := by
  have length : (glue rows).length = 16 * rows.length := length_glue rows
  have held : 16 * index + 16 ≤ (glue rows).length := by omega
  obtain ⟨before, -⟩ := glue_split rows (Nat.le_of_lt inside)
  obtain ⟨-, behind⟩ := glue_split rows inside
  rw [writeRow, if_pos held, before, ← Nat.mul_succ, behind, List.set_eq_take_append_cons_drop,
    if_pos inside, glue_append, glue_cons, List.append_assoc]

/-- One row to be filled by one worker, which hashes other messages before. -/
structure RowTask where
  worker : Nat
  earlier : List (List Bytes)
  index : Nat

/-- The digesters of the workers, and the words that they fill. -/
structure Filling where
  workers : Nat → Digester
  words : List Word

namespace Filling

/-- Every worker starts with a copy of the digester. -/
def start (digester : Digester) (words : List Word) : Filling where
  workers _ := digester
  words

/-- One worker fills one row and keeps its digester for later. -/
def step (cache : Cache) (filling : Filling) (task : RowTask) : Option Filling := do
  let worker ← (filling.workers task.worker).after task.earlier
  let (item, worker) ← cache.itemBy task.index worker
  let words ← writeRow filling.words task.index (Row.ofBlock item)
  return {
    workers := fun number => if number = task.worker then worker else filling.workers number
    words }

def run (cache : Cache) (filling : Filling) (tasks : List RowTask) : Option Filling :=
  tasks.foldlM (step cache) filling

/-- All workers are fresh, and the words are those of the rows. -/
structure Holds (filling : Filling) (hash : HashFunction) (rows : List Row) : Prop where
  fresh : ∀ number, (filling.workers number).Fresh hash
  words_eq : filling.words = glue rows

variable {filling : Filling} {hash : HashFunction} {rows : List Row}

/-- A task writes the item of its row, whoever carries it out. -/
private theorem Holds.step (holds : filling.Holds hash rows) (cache : Cache) {task : RowTask}
    (inside : task.index < rows.length) :
    ∃ next, filling.step cache task = some next ∧
      next.Holds hash (rows.set task.index (itemRow hash cache task.index)) := by
  obtain ⟨worker, rested, fresh⟩ := (holds.fresh task.worker).after task.earlier
  obtain ⟨next, made, again⟩ := fresh.itemBy cache task.index
  have written := writeRow_glue inside (itemRow hash cache task.index)
  rw [← holds.words_eq] at written
  refine ⟨{
    workers := fun number => if number = task.worker then next else filling.workers number
    words := glue (rows.set task.index (itemRow hash cache task.index)) }, ?_, ?_, rfl⟩
  · rw [itemRow] at written
    simp only [Filling.step, rested, made, written, Option.bind_eq_bind, Option.bind_some,
      itemRow]
    rfl
  · intro number
    dsimp only
    split
    · exact again
    · exact holds.fresh number

private theorem Holds.run (holds : filling.Holds hash rows) (cache : Cache) {tasks : List RowTask}
    (inside : ∀ task ∈ tasks, task.index < rows.length) :
    ∃ next, filling.run cache tasks = some next ∧
      next.Holds hash ((tasks.map RowTask.index).foldl
        (fun rows index => rows.set index (itemRow hash cache index)) rows) := by
  induction tasks generalizing filling rows with
  | nil => exact ⟨filling, rfl, holds⟩
  | cons task tasks ih =>
      obtain ⟨between, done, held⟩ := holds.step cache (inside task List.mem_cons_self)
      have later : ∀ task' ∈ tasks,
          task'.index < (rows.set task.index (itemRow hash cache task.index)).length := by
        intro task' member
        rw [List.length_set]
        exact inside task' (List.mem_cons_of_mem task member)
      obtain ⟨next, rest, held⟩ := ih held later
      refine ⟨next, ?_, held⟩
      rw [Filling.run, List.foldlM_cons, done]
      exact rest

/-- Tasks for all rows of the buffer and for no others fill it with the items. -/
theorem run_of_covered {digester : Digester} {hash : HashFunction} (fresh : digester.Fresh hash)
    (cache : Cache) {buffer : List Word} {count : Nat} (length : buffer.length = 16 * count)
    {tasks : List RowTask}
    (covered : ∀ index, index ∈ tasks.map RowTask.index ↔ index < count) :
    ∃ filling, (start digester buffer).run cache tasks = some filling ∧
      filling.words = glue (itemRows hash cache count) := by
  have rows : (chunks 16 buffer).length = count := by
    rw [length_chunks]
    omega
  have whole : glue (chunks 16 buffer) = buffer := glue_chunks (by decide) (by omega)
  have holds : (start digester buffer).Holds hash (chunks 16 buffer) :=
    ⟨fun _ => fresh, whole.symm⟩
  obtain ⟨filling, filled, held⟩ := holds.run cache fun task member => by
    rw [rows]
    exact (covered task.index).mp (List.mem_map_of_mem member)
  refine ⟨filling, filled, ?_⟩
  rw [held.words_eq, foldl_set_of_covered, rows]
  · rfl
  · intro index inside
    exact (covered index).mpr (rows ▸ inside)

end Filling

/-- A buffer of whole rows comes to hold the dataset of a cache, whatever it held before, when
every row of it and no other is filled at least once: in any order, by any workers with
copies of the digester, whatever these have hashed before.  The rows of the dataset are the
items in order and no others, also where their bounds are computed in 64-bit words, and they
stand at the start of every larger dataset. -/
theorem filled_in_any_order {digester : Digester} (obtained : digester.Obtained) (cache : Cache)
    {byteCount : Nat} (aligned : byteCount % 64 = 0) (positive : 0 < byteCount) :
    ∃ dataset, Dataset.ofCache digester.function cache byteCount = .ok dataset ∧
      (∀ (buffer : List Word) (tasks : List RowTask), buffer.length = byteCount / 4 →
        (∀ index, index ∈ tasks.map RowTask.index ↔ index < byteCount / 64) →
          ∃ filling, (Filling.start digester buffer).run cache tasks = some filling ∧
            filling.words = dataset.words) ∧
      (∀ index, dataset.row? index =
        if index < byteCount / 64 then
          some (Row.ofBlock (cache.item digester.function index))
        else
          none) ∧
      (byteCount < UInt64.size → ∀ index : UInt64,
        piece64? 16 dataset.words index = (dataset.row? index.toNat).map Vector.toList) ∧
      ∀ larger, larger % 64 = 0 → byteCount ≤ larger →
        ∃ extended, Dataset.ofCache digester.function cache larger = .ok extended ∧
          dataset.words <+: extended.words := by
  have rows : 0 < byteCount / 64 ∧ byteCount = 64 * (byteCount / 64) := by omega
  obtain ⟨dataset, made, holds⟩ := Dataset.ofCache_of_rows rows digester.function cache
  have words : dataset.words = glue (itemRows digester.function cache (byteCount / 64)) := by
    rw [Table.words, holds.toList_rows]
  refine ⟨dataset, made, ?_, ?_, ?_, ?_⟩
  · intro buffer tasks length covered
    rw [words]
    exact Filling.run_of_covered obtained.fresh cache (by omega) covered
  · intro index
    rw [Table.row?, ← Array.getElem?_toList, holds.toList_rows, getElem?_itemRows]
    rfl
  · intro small index
    have fewer : dataset.words.length < UInt64.size := by
      have size : 64 * dataset.count = byteCount := holds.byteCount_eq
      rw [Table.length_words]
      omega
    rw [piece64?_eq (by decide) (by decide) fewer, ← rowsOfWords, Table.rowsOfWords_words,
      Array.getElem?_toList]
    rfl
  · intro larger alignedToo above
    have rowsToo : 0 < larger / 64 ∧ larger = 64 * (larger / 64) := by omega
    have more : byteCount / 64 ≤ larger / 64 := Nat.div_le_div_right above
    obtain ⟨extended, madeToo, holdsToo⟩ :=
      Dataset.ofCache_of_rows rowsToo digester.function cache
    refine ⟨extended, madeToo, ?_⟩
    obtain ⟨behind, same⟩ := itemRows_prefix digester.function cache more
    rw [words, Table.words, holdsToo.toList_rows, ← same, glue_append]
    exact List.prefix_append _ _

/-- A digester whose width was found out when it was made. -/
def checkedDigester : Digester :=
  .checked ({ hash := Sha2.sha512 } : Primitive 64)

/-- A cache of one row. -/
def oneRow : Cache where
  epoch := 0
  rows := #[Vector.replicate 16 7]
  nonempty := by decide

/-- Three rows, the last one first, by two workers that hash other messages in between. -/
def threeTasks : List RowTask :=
  [⟨1, [], 2⟩, ⟨0, [[[5]]], 0⟩, ⟨1, [[[6], [7]], [[]]], 1⟩]

/-- The digester was fed before it was made and has hashed a message since. -/
theorem three_tasks_fill :
    checkedDigester.Obtained ∧ 192 % 64 = 0 ∧ 0 < 192 ∧
      (List.replicate 48 (0 : Word)).length = 192 / 4 ∧
      (∀ index, index ∈ threeTasks.map RowTask.index ↔ index < 192 / 64) ∧
      256 % 64 = 0 ∧ 192 ≤ 256 ∧
      ∃ dataset filling extended,
        Dataset.ofCache checkedDigester.function oneRow 192 = .ok dataset ∧
          (Filling.start checkedDigester (List.replicate 48 0)).run oneRow threeTasks =
            some filling ∧
          filling.words = dataset.words ∧
          Dataset.ofCache checkedDigester.function oneRow 256 = .ok extended ∧
          dataset.words <+: extended.words := by
  have obtained : checkedDigester.Obtained :=
    ⟨.checked ({ hash := Sha2.sha512, pending := [1, 2] } : Primitive 64), checkedDigester,
      [[[3], [4]]], rfl, rfl⟩
  have covered : ∀ index, index ∈ threeTasks.map RowTask.index ↔ index < 192 / 64 := by
    intro index
    have listed : threeTasks.map RowTask.index = [2, 0, 1] := rfl
    rw [listed]
    simp only [List.mem_cons, List.not_mem_nil, or_false]
    omega
  obtain ⟨dataset, made, fills, -, -, larger⟩ :=
    filled_in_any_order obtained oneRow (by decide : 192 % 64 = 0) (by decide)
  obtain ⟨filling, filled, words⟩ := fills (List.replicate 48 0) threeTasks (by simp) covered
  obtain ⟨extended, madeToo, starts⟩ := larger 256 (by decide) (by decide)
  exact ⟨obtained, by decide, by decide, by simp, covered, by decide, by decide, dataset, filling,
    extended, made, filled, words, madeToo, starts⟩

end MemoryHard
