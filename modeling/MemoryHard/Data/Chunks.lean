/-!
# Cutting a list into pieces of one size

`chunks size items` lists the consecutive pieces of `size` items.  A shorter
remainder at the end belongs to no piece, and there are no pieces of size zero.
The lemmas say that cutting undoes gluing, and that gluing undoes cutting when
nothing remains.
-/

namespace MemoryHard

variable {α : Type}

/-- The consecutive whole pieces of `size` items, without the remainder. -/
def chunks (size : Nat) (items : List α) : List (Vector α size) :=
  if whole : 0 < size ∧ (items.take size).length = size then
    ⟨(items.take size).toArray, by simpa using whole.2⟩ :: chunks size (items.drop size)
  else
    []
termination_by items.length
decreasing_by
  simp only [List.length_take, List.length_drop] at *
  omega

/-- The pieces written one after the other. -/
def glue {size : Nat} (pieces : List (Vector α size)) : List α :=
  pieces.flatMap Vector.toList

@[simp] theorem glue_nil {size : Nat} : glue ([] : List (Vector α size)) = [] :=
  rfl

@[simp] theorem glue_cons {size : Nat}
    (piece : Vector α size) (pieces : List (Vector α size)) :
    glue (piece :: pieces) = piece.toList ++ glue pieces :=
  rfl

@[simp] theorem length_glue {size : Nat} (pieces : List (Vector α size)) :
    (glue pieces).length = size * pieces.length := by
  induction pieces with
  | nil => simp
  | cons piece pieces ih => simp [ih, Nat.mul_add]; omega

theorem glue_append {size : Nat} (first second : List (Vector α size)) :
    glue (first ++ second) = glue first ++ glue second :=
  List.flatMap_append

/-- Gluing the pieces before and behind a place splits the items at that place. -/
theorem glue_split {size : Nat} (pieces : List (Vector α size)) {count : Nat}
    (held : count ≤ pieces.length) :
    (glue pieces).take (size * count) = glue (pieces.take count) ∧
      (glue pieces).drop (size * count) = glue (pieces.drop count) := by
  have length : (glue (pieces.take count)).length = size * count := by
    rw [length_glue, List.length_take, Nat.min_eq_left held]
  have split : glue pieces = glue (pieces.take count) ++ glue (pieces.drop count) := by
    rw [← glue_append, List.take_append_drop]
  constructor
  · rw [split, List.take_left' length]
  · rw [split, List.drop_left' length]

/-- A size without a remainder is a number of units, and none of them is missing. -/
theorem whole_units {size unit : Nat} (aligned : ¬size % unit ≠ 0) (nonempty : ¬size = 0) :
    0 < size / unit ∧ size = unit * (size / unit) := by
  have whole : size = unit * (size / unit) :=
    (Nat.mul_div_cancel' (Nat.dvd_of_mod_eq_zero (Decidable.not_not.mp aligned))).symm
  refine ⟨Nat.pos_of_ne_zero ?_, whole⟩
  intro none
  rw [none, Nat.mul_zero] at whole
  exact nonempty whole

/-- Items are counted through all pieces. -/
theorem getElem?_glue {size : Nat} (pieces : List (Vector α size)) {piece place : Nat}
    (known : piece < pieces.length) (inside : place < size) :
    (glue pieces)[size * piece + place]? = some pieces[piece][place] := by
  induction pieces generalizing piece with
  | nil => simp at known
  | cons first pieces ih =>
      rw [glue_cons]
      cases piece with
      | zero => simp [List.getElem?_append_left, inside]
      | succ piece =>
          have position : size * (piece + 1) + place = size + (size * piece + place) := by
            rw [Nat.mul_succ]
            omega
          rw [position, List.getElem?_append_right (by simp)]
          simpa using ih (Nat.lt_of_succ_lt_succ known)

theorem chunks_of_length_lt {size : Nat} {items : List α}
    (short : items.length < size) : chunks size items = [] := by
  rw [chunks, dif_neg]
  simp only [List.length_take]
  omega

theorem chunks_append {size : Nat} (positive : 0 < size)
    (piece : Vector α size) (rest : List α) :
    chunks size (piece.toList ++ rest) = piece :: chunks size rest := by
  have taken : (piece.toList ++ rest).take size = piece.toList := by
    rw [List.take_append_of_le_length (by simp)]
    exact List.take_of_length_le (by simp)
  have dropped : (piece.toList ++ rest).drop size = rest := by
    rw [List.drop_append_of_le_length (by simp), List.drop_of_length_le (by simp)]
    rfl
  rw [chunks, dif_pos (by simp [taken, positive])]
  simp only [taken, dropped]
  congr 1

theorem chunks_glue_append {size : Nat}
    (pieces : List (Vector α size)) {tail : List α} (short : tail.length < size) :
    chunks size (glue pieces ++ tail) = pieces := by
  have positive : 0 < size := by omega
  induction pieces with
  | nil => exact chunks_of_length_lt short
  | cons piece pieces ih => simp [List.append_assoc, chunks_append positive, ih]

@[simp] theorem chunks_glue {size : Nat} (positive : 0 < size)
    (pieces : List (Vector α size)) : chunks size (glue pieces) = pieces := by
  have short : ([] : List α).length < size := positive
  simpa using chunks_glue_append pieces short

theorem exists_glue_append {size : Nat} (positive : 0 < size) (items : List α) :
    ∃ (pieces : List (Vector α size)) (tail : List α),
      tail.length < size ∧ items = glue pieces ++ tail := by
  by_cases short : items.length < size
  · exact ⟨[], items, short, rfl⟩
  · have whole : (items.take size).length = size := by
      simp only [List.length_take]
      omega
    obtain ⟨pieces, tail, tailShort, equal⟩ := exists_glue_append positive (items.drop size)
    refine ⟨⟨(items.take size).toArray, by simpa using whole⟩ :: pieces, tail,
      tailShort, ?_⟩
    rw [glue_cons, List.append_assoc, ← equal]
    simp
termination_by items.length
decreasing_by
  simp only [List.length_drop]
  omega

@[simp] theorem length_chunks (size : Nat) (items : List α) :
    (chunks size items).length = items.length / size := by
  by_cases positive : 0 < size
  · obtain ⟨pieces, tail, short, rfl⟩ := exists_glue_append positive items
    rw [chunks_glue_append pieces short, List.length_append, length_glue,
      Nat.mul_add_div positive, Nat.div_eq_of_lt short, Nat.add_zero]
  · have zero : size = 0 := by omega
    rw [chunks, dif_neg (fun whole => positive whole.1), zero, Nat.div_zero, List.length_nil]

/-- Piece `index` is what stands behind the pieces before it, if that much is left. -/
theorem getElem?_chunks {size : Nat} (positive : 0 < size) (items : List α) (index : Nat) :
    (chunks size items)[index]?.map Vector.toList =
      if size * index + size ≤ items.length then
        some ((items.drop (size * index)).take size)
      else
        none := by
  obtain ⟨pieces, tail, short, rfl⟩ := exists_glue_append positive items
  rw [chunks_glue_append pieces short, List.length_append, length_glue]
  induction pieces generalizing index with
  | nil =>
      rw [List.getElem?_nil, if_neg (by simp; omega)]
      rfl
  | cons piece pieces ih =>
      cases index with
      | zero =>
          rw [if_pos (by simp [Nat.mul_add]; omega)]
          simp
      | succ index =>
          have bound : size * (index + 1) + size ≤ size * (piece :: pieces).length + tail.length ↔
              size * index + size ≤ size * pieces.length + tail.length := by
            rw [List.length_cons, Nat.mul_succ, Nat.mul_succ]
            omega
          have later : (glue (piece :: pieces) ++ tail).drop (size * (index + 1)) =
              (glue pieces ++ tail).drop (size * index) := by
            rw [glue_cons, List.append_assoc, Nat.mul_succ, Nat.add_comm, ← List.drop_drop,
              List.drop_left' (by simp)]
          rw [List.getElem?_cons_succ, ih index, later]
          simp only [bound]

theorem toList_of_getElem?_chunks {size : Nat} (positive : 0 < size) {items : List α}
    {index : Nat} {piece : Vector α size} (known : (chunks size items)[index]? = some piece) :
    piece.toList = (items.drop (size * index)).take size := by
  have cut := getElem?_chunks positive items index
  rw [known, Option.map_some] at cut
  split at cut
  · exact Option.some.inj cut
  · cases cut

theorem glue_chunks {size : Nat} (positive : 0 < size) {items : List α}
    (aligned : items.length % size = 0) : glue (chunks size items) = items := by
  obtain ⟨pieces, tail, short, rfl⟩ := exists_glue_append positive items
  have empty : tail = [] := by
    rw [List.length_append, length_glue, Nat.mul_add_mod, Nat.mod_eq_of_lt short] at aligned
    exact List.length_eq_zero_iff.mp aligned
  subst empty
  rw [List.append_nil, chunks_glue positive]

end MemoryHard
