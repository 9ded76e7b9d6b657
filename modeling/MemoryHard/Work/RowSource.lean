import MemoryHard.Memory.Dataset

/-!
# Sources of rows

A row source answers a row number with a block or refuses it.  It may keep a
state, which outlives a refusal.  Rows come from a cache as items, from a dataset,
or from a byte image of one.
-/

namespace MemoryHard

abbrev RowSource (σ : Type) := Nat → ExceptT Refusal (StateM σ) Block

namespace RowSource

variable {σ : Type}

/-- Rows derived from a cache when they are asked for. -/
def ofCache (H : HashFunction) (cache : Cache) : RowSource σ :=
  fun index => pure (cache.item H index)

/-- The first `available` rows are at hand. -/
def ofRows (available : Nat) (row? : Nat → Option Block) : RowSource σ :=
  fun index =>
    match row? index with
    | some row => pure row
    | none => throw (.rowOutOfRange index available)

def ofDataset (dataset : Dataset) : RowSource σ :=
  ofRows dataset.count fun index => (dataset.row? index).map Row.block

/-- Only whole rows of the image count. -/
def ofImage (image : Bytes) : RowSource σ :=
  let rows : Array Block := (chunks rowBytes image).toArray
  ofRows rows.size fun index => rows[index]?

/-- The same source, with the row numbers asked so far in order. -/
def recorded (source : RowSource σ) : RowSource (σ × List Nat) :=
  fun index => ExceptT.mk fun (state, asked) =>
    let (answer, state) := (source index).run.run state
    (answer, (state, asked ++ [index]))

/-- The outcome of an action that needs no state. -/
def outcome {α : Type} (action : ExceptT Refusal (StateM Unit) α) : Except Refusal α :=
  (action.run.run ()).1

end RowSource

end MemoryHard
