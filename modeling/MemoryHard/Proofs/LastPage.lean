import MemoryHard.Proofs.EvaluationInquiry

/-!
# What the last page leaves in the mix digest

An evaluation that succeeds has combined the pages that its source answered, one after the
other, and nothing else goes into its mix digest.  Combining words loses nothing of either
of the two, since the multiplier has an inverse.  Two evaluations that differ in their last
pages only, and there in no more than one word of every group of four, therefore differ in
just the words of the mix digest whose groups differ.
-/

namespace MemoryHard

variable {σ τ : Type}

namespace Word

/-- The inverse of the multiplier modulo `2 ^ 32`. -/
def multiplierInverse : Word := 0x359c449b

private theorem multiplier_mul_inverse : multiplier * multiplierInverse = 1 := by
  decide

private theorem mul_multiplier_inj {first second : Word} :
    first * multiplier = second * multiplier ↔ first = second := by
  have undone : ∀ word : Word, word * multiplier * multiplierInverse = word := by
    intro word
    rw [UInt32.mul_assoc, multiplier_mul_inverse, UInt32.mul_one]
  constructor
  · intro same
    rw [← undone first, same, undone]
  · rintro rfl
    rfl

@[simp] theorem combine_left_inj {first second next : Word} :
    combine first next = combine second next ↔ first = second := by
  rw [combine, combine, UInt32.xor_left_inj, mul_multiplier_inj]

@[simp] theorem combine_right_inj {accumulated first second : Word} :
    combine accumulated first = combine accumulated second ↔ first = second := by
  rw [combine, combine, UInt32.xor_right_inj]

private theorem bytes_inj {first second : Word} : bytes first = bytes second ↔ first = second := by
  constructor
  · intro same
    apply UInt32.toNat_inj.mp
    rw [← ofLittleEndian_bytes, same, ofLittleEndian_bytes]
  · rintro rfl
    rfl

end Word

/-- The bytes of word `group` of a digest. -/
def Digest.wordBytes (digest : Digest) (group : Fin 8) : Bytes :=
  (digest.toList.drop (4 * group)).take 4

namespace Mix

/-- The word at a place in a group of four. -/
def wordAt (mix : Mix) (group : Fin 8) (place : Fin 4) : Word :=
  have inside : 4 * group.val + place.val < mixWords := by simp; omega
  mix[4 * group.val + place.val]

/-- The pages agree in the words of a group but for one at most. -/
def DiffersAtMostOnce (first second : Mix) (group : Fin 8) : Prop :=
  ∃ place, ∀ other, other ≠ place → first.wordAt group other = second.wordAt group other

variable {first second : Mix} {group : Fin 8}

private theorem eq_of_wordAt
    (same : ∀ group place, first.wordAt group place = second.wordAt group place) :
    first = second := by
  apply Vector.ext
  intro index (inside : index < 32)
  have position : 4 * (index / 4) + index % 4 = index := Nat.div_add_mod index 4
  have word := same ⟨index / 4, by omega⟩ ⟨index % 4, by omega⟩
  simpa only [wordAt, position] using word

@[simp] theorem wordAt_combine (mix page : Mix) (group : Fin 8) (place : Fin 4) :
    (mix.combine page).wordAt group place =
      Word.combine (mix.wordAt group place) (page.wordAt group place) := by
  simp only [wordAt, combine, Vector.getElem_zipWith]

private theorem groupWord_eq (mix : Mix) (group : Fin 8) :
    mix.groupWord group =
      Word.combine
        (Word.combine (Word.combine (mix.wordAt group 0) (mix.wordAt group 1))
          (mix.wordAt group 2))
        (mix.wordAt group 3) :=
  rfl

/-- One word that differs shows through the words folded around it. -/
theorem groupWord_eq_iff (once : first.DiffersAtMostOnce second group) :
    first.groupWord group = second.groupWord group ↔
      ∀ place, first.wordAt group place = second.wordAt group place := by
  obtain ⟨place, others⟩ := once
  constructor
  · intro folded
    rw [groupWord_eq, groupWord_eq] at folded
    have here : first.wordAt group place = second.wordAt group place := by
      match place with
      | 0 =>
          rw [others 1 (by decide), others 2 (by decide), others 3 (by decide)] at folded
          simpa only [Word.combine_left_inj] using folded
      | 1 =>
          rw [others 0 (by decide), others 2 (by decide), others 3 (by decide)] at folded
          simpa only [Word.combine_left_inj, Word.combine_right_inj] using folded
      | 2 =>
          rw [others 0 (by decide), others 1 (by decide), others 3 (by decide)] at folded
          simpa only [Word.combine_left_inj, Word.combine_right_inj] using folded
      | 3 =>
          rw [others 0 (by decide), others 1 (by decide), others 2 (by decide)] at folded
          exact Word.combine_right_inj.mp folded
    intro other
    by_cases same : other = place
    · rw [same, here]
    · exact others other same
  · intro same
    rw [groupWord_eq, groupWord_eq, same, same, same, same]

private theorem wordBytes_compress (mix : Mix) (group : Fin 8) :
    mix.compress.wordBytes group = Word.bytes (mix.groupWord group) := by
  have inside : group.val < (Vector.ofFn mix.groupWord).toList.length := by simp
  rw [Digest.wordBytes, compress, Vector.toList_mk, take_drop_bytesOfWords _ _ inside]
  simp

/-- After the same mix, the pages decide which words of the compressed mix differ. -/
theorem wordBytes_compress_combine (mix : Mix) (once : first.DiffersAtMostOnce second group) :
    (mix.combine first).compress.wordBytes group = (mix.combine second).compress.wordBytes group ↔
      ∀ place, first.wordAt group place = second.wordAt group place := by
  have combined : (mix.combine first).DiffersAtMostOnce (mix.combine second) group := by
    obtain ⟨place, others⟩ := once
    refine ⟨place, fun other different => ?_⟩
    rw [wordAt_combine, wordAt_combine, others other different]
  rw [wordBytes_compress, wordBytes_compress, Word.bytes_inj, groupWord_eq_iff combined]
  simp only [wordAt_combine, Word.combine_right_inj]

end Mix

/-- The pages that answers make up, of two rows each. -/
def pagesOf : List (Except Refusal Block) → List Mix
  | .ok first :: .ok second :: answers =>
      (Row.ofBlock first ++ Row.ofBlock second) :: pagesOf answers
  | _ => []

private theorem pagesOf_take (answers : List (Except Refusal Block)) (count : Nat) :
    pagesOf (answers.take (2 * count)) = (pagesOf answers).take count := by
  fun_induction pagesOf answers generalizing count with
  | case1 first second answers ih =>
      cases count with
      | zero => rfl
      | succ count => exact congrArg (_ :: ·) (ih count)
  | case2 answers broken =>
      rw [List.take_nil]
      cases count with
      | zero => rfl
      | succ count =>
          match answers with
          | [] => rfl
          | [.ok _] => rfl
          | .error _ :: _ => rfl
          | .ok _ :: .error _ :: _ => rfl
          | .ok first :: .ok second :: rest => exact absurd rfl (broken first second rest)

/-- The pages that the source answered whole. -/
def Session.pages (session : Session σ) : List Mix :=
  pagesOf session.answers

/-- A page that does not end an inquiry is answered whole. -/
private theorem Inquiry.exists_page_of_ok {α : Type} {page : Nat} {next : Block → Block → Inquiry α}
    {source : RowSource σ} {state : σ} {value : α}
    (succeeded : (((ask (2 * page) fun first => ask (2 * page + 1) fun second =>
      next first second).run source).run.run state).1 = .ok value) :
    ∃ first second state',
      (ask (2 * page) fun first => ask (2 * page + 1) fun second =>
          next first second).trace source state =
        ⟨2 * page, .ok first⟩ :: ⟨2 * page + 1, .ok second⟩ ::
          (next first second).trace source state' ∧
      (((next first second).run source).run.run state').1 = .ok value := by
  rcases asked : (source (2 * page)).run.run state with ⟨answer, middle⟩
  cases answer with
  | error reason =>
      rw [run_ask_of_error asked] at succeeded
      cases succeeded
  | ok first =>
      rw [run_ask_of_ok asked] at succeeded
      rcases askedAgain : (source (2 * page + 1)).run.run middle with ⟨answer, final⟩
      cases answer with
      | error reason =>
          rw [run_ask_of_error askedAgain] at succeeded
          cases succeeded
      | ok second =>
          rw [run_ask_of_ok askedAgain] at succeeded
          refine ⟨first, second, final, ?_, succeeded⟩
          rw [trace_ask_of_ok asked, trace_ask_of_ok askedAgain]

namespace Evaluation

/-- What succeeds has combined the pages that were answered, one for each access. -/
theorem inquiry_eq_foldl {H : HashFunction} {seed : Block} {pages : Nat} {source : RowSource σ}
    {evaluation : Evaluation} {numbers : List Nat} {mix : Mix} {state : σ}
    (succeeded : (((inquiry H seed pages numbers mix).run source).run.run state).1 =
      .ok evaluation) :
    (pagesOf (((inquiry H seed pages numbers mix).trace source state).map
        Exchange.answer)).length = numbers.length ∧
      evaluation = ofMix H seed
        ((pagesOf (((inquiry H seed pages numbers mix).trace source state).map
          Exchange.answer)).foldl Mix.combine mix) := by
  induction numbers generalizing mix state with
  | nil =>
      cases succeeded
      exact ⟨rfl, rfl⟩
  | cons number numbers ih =>
      obtain ⟨first, second, state', trace, succeeded⟩ := Inquiry.exists_page_of_ok succeeded
      obtain ⟨length, folded⟩ := ih succeeded
      rw [inquiry, trace]
      exact ⟨congrArg Nat.succ length, folded⟩

variable {bytes : Nat} {H : HashFunction} {seed : Block}

/-- The last page is combined with what the pages before it leave. -/
private theorem foldl_combine_last {pages : List Mix} {count : Nat}
    (length : pages.length = count + 1) (mix : Mix) :
    ∃ page, pages[count]? = some page ∧
      pages.foldl Mix.combine mix = ((pages.take count).foldl Mix.combine mix).combine page := by
  have inside : count < pages.length := by omega
  have split : pages.take count ++ [pages[count]] = pages := by
    rw [List.take_append_getElem, List.take_of_length_le (Nat.le_of_eq length)]
  refine ⟨pages[count], List.getElem?_eq_getElem inside, ?_⟩
  calc pages.foldl Mix.combine mix
      = (pages.take count ++ [pages[count]]).foldl Mix.combine mix := by rw [split]
    _ = ((pages.take count).foldl Mix.combine mix).combine pages[count] := List.foldl_append

private theorem exists_last_page (aligned : bytes % 64 = 0) (large : 128 ≤ bytes)
    {source : RowSource σ} {state : σ} {evaluation : Evaluation}
    (succeeded : (session (ofSeed H seed bytes) source state).outcome = .ok evaluation) :
    ∃ page, (session (ofSeed H seed bytes) source state).pages[63]? = some page ∧
      evaluation = ofMix H seed
        ((((session (ofSeed H seed bytes) source state).pages.take 63).foldl Mix.combine
          (Mix.ofSeed seed)).combine page) := by
  rw [session_of_admissible aligned large] at succeeded ⊢
  obtain ⟨length, folded⟩ := inquiry_eq_foldl succeeded
  rw [List.length_range] at length
  obtain ⟨page, found, last⟩ := foldl_combine_last length (Mix.ofSeed seed)
  exact ⟨page, found, folded.trans (congrArg (ofMix H seed) last)⟩

/-- Two evaluations that are answered alike up to the last page differ in the words of the mix
digest whose groups in the last page differ, and in no others, if no group differs in more
than one word. -/
theorem last_page_shows (aligned : bytes % 64 = 0) (large : 128 ≤ bytes) (H : HashFunction)
    (seed : Block) {source : RowSource σ} {state : σ} {other : RowSource τ} {state' : τ}
    {evaluation evaluation' : Evaluation}
    (succeeded : (session (ofSeed H seed bytes) source state).outcome = .ok evaluation)
    (succeededToo : (session (ofSeed H seed bytes) other state').outcome = .ok evaluation')
    (alike : (session (ofSeed H seed bytes) source state).answers.take 126 =
      (session (ofSeed H seed bytes) other state').answers.take 126) :
    ∃ page page',
      (session (ofSeed H seed bytes) source state).pages[63]? = some page ∧
      (session (ofSeed H seed bytes) other state').pages[63]? = some page' ∧
      ((∀ group, page.DiffersAtMostOnce page' group) →
        (∀ group,
          evaluation.mixDigest.wordBytes group ≠ evaluation'.mixDigest.wordBytes group ↔
            ∃ place, page.wordAt group place ≠ page'.wordAt group place) ∧
        (page ≠ page' → evaluation.mixDigest ≠ evaluation'.mixDigest)) := by
  obtain ⟨page, found, rfl⟩ := exists_last_page aligned large succeeded
  obtain ⟨page', foundToo, rfl⟩ := exists_last_page aligned large succeededToo
  have same : (session (ofSeed H seed bytes) source state).pages.take 63 =
      (session (ofSeed H seed bytes) other state').pages.take 63 := by
    rw [Session.pages, Session.pages, ← pagesOf_take, ← pagesOf_take, alike]
  refine ⟨page, page', found, foundToo, fun once => ?_⟩
  rw [same]
  have words := fun group => Mix.wordBytes_compress_combine
    (((session (ofSeed H seed bytes) other state').pages.take 63).foldl Mix.combine
      (Mix.ofSeed seed)) (once group)
  constructor
  · intro group
    rw [← Classical.not_forall]
    exact not_congr (words group)
  · intro differ equal
    apply differ
    apply Mix.eq_of_wordAt
    intro group
    exact (words group).mp (congrArg (Digest.wordBytes · group) equal)

end Evaluation

/-- A source that answers by how often it was asked, whatever the number. -/
def RowSource.inTurn (rows : Nat → Block) : RowSource Nat := fun _ => do
  let turn ← get
  set (turn + 1)
  return rows turn

private theorem Inquiry.AsksPages.answers_inTurn {α : Type} {limit count : Nat}
    {inquiry : Inquiry α}
    (pages : inquiry.AsksPages limit count) (rows : Nat → Block) (turn : Nat) :
    (∃ value, ((inquiry.run (RowSource.inTurn rows)).run.run turn).1 = .ok value) ∧
      (inquiry.trace (RowSource.inTurn rows) turn).map Exchange.answer =
        (List.range' turn (2 * count)).map fun place => .ok (rows place) := by
  induction pages generalizing turn with
  | done value => exact ⟨⟨value, rfl⟩, rfl⟩
  | page inside later ih =>
      obtain ⟨succeeded, answers⟩ := ih (rows turn) (rows (turn + 1)) (turn + 2)
      exact ⟨succeeded, congrArg (Except.ok (rows turn) :: Except.ok (rows (turn + 1)) :: ·) answers⟩

private theorem pagesOf_rows (rows : Nat → Block) (turn : Nat) {count place : Nat}
    (inside : place < count) :
    (pagesOf ((List.range' turn (2 * count)).map fun turn => .ok (rows turn)))[place]? =
      some (Row.ofBlock (rows (turn + 2 * place)) ++ Row.ofBlock (rows (turn + 2 * place + 1))) := by
  induction count generalizing turn place with
  | zero => exact absurd inside (Nat.not_lt_zero place)
  | succ count ih =>
      cases place with
      | zero => rfl
      | succ place =>
          have later := ih (turn + 2) (Nat.lt_of_succ_lt_succ inside)
          have position : turn + 2 + 2 * place = turn + 2 * (place + 1) := by omega
          rwa [position] at later

namespace Evaluation

private theorem session_inTurn {bytes : Nat} (aligned : bytes % 64 = 0) (large : 128 ≤ bytes)
    (H : HashFunction) (seed : Block) (rows : Nat → Block) :
    (∃ evaluation, (session (ofSeed H seed bytes) (RowSource.inTurn rows) 0).outcome =
      .ok evaluation) ∧
      (session (ofSeed H seed bytes) (RowSource.inTurn rows) 0).answers =
        (List.range' 0 (2 * 64)).map fun turn => .ok (rows turn) := by
  simp only [session_of_admissible aligned large, Session.answers]
  exact (asksPages_wholeInquiry large H seed).answers_inTurn rows 0

/-- The row without a single bit. -/
def blankRow : Row :=
  Vector.replicate 16 0

/-- A row with two words of two groups. -/
def spoiledRow : Row :=
  (blankRow.set 1 5).set 4 6

/-- Blank rows, but for the given one in turn 126. -/
def rowsBut (row : Row) (turn : Nat) : Block :=
  Row.block (if turn = 126 then row else blankRow)

/-- An evaluation that is answered with these rows. -/
def sessionBut (row : Row) : Session Nat :=
  session (ofSeed Sha2.sha512 Block.zero 128) (RowSource.inTurn (rowsBut row)) 0

private theorem sessionBut_answers (row : Row) :
    (∃ evaluation, (sessionBut row).outcome = .ok evaluation) ∧
      (sessionBut row).answers =
        (List.range' 0 (2 * 64)).map fun turn => .ok (rowsBut row turn) := by
  have aligned : 128 % 64 = 0 := rfl
  exact session_inTurn aligned (Nat.le_refl 128) Sha2.sha512 Block.zero (rowsBut row)

private theorem sessionBut_alike (row other : Row) :
    (sessionBut row).answers.take 126 = (sessionBut other).answers.take 126 := by
  have before : ∀ row : Row, (sessionBut row).answers.take 126 =
      (List.range' 0 126).map fun _ => .ok (Row.block blankRow) := by
    intro row
    have split : List.range' 0 (2 * 64) = List.range' 0 126 ++ List.range' 126 2 :=
      List.range'_append_1.symm
    rw [(sessionBut_answers row).2, split, List.map_append, List.take_left' (by simp)]
    apply List.map_congr_left
    intro turn member
    have early := (List.mem_range'_1.mp member).2
    have other : ¬turn = 126 := by omega
    rw [rowsBut, if_neg other]
  rw [before, before]

private theorem sessionBut_page (row : Row) :
    (sessionBut row).pages[63]? = some (row ++ blankRow) := by
  have first : rowsBut row (0 + 2 * 63) = row.block := rfl
  have second : rowsBut row (0 + 2 * 63 + 1) = blankRow.block := rfl
  rw [Session.pages, (sessionBut_answers row).2, pagesOf_rows _ _ (by decide), first, second,
    Row.ofBlock_block, Row.ofBlock_block]

/-- Two words of the last page are spoiled, in the first group and in the second one. -/
theorem last_page_shows_two_words :
    128 % 64 = 0 ∧ 128 ≤ 128 ∧
      (sessionBut blankRow).answers.take 126 = (sessionBut spoiledRow).answers.take 126 ∧
      ∃ evaluation evaluation' : Evaluation,
        (sessionBut blankRow).outcome = .ok evaluation ∧
        (sessionBut spoiledRow).outcome = .ok evaluation' ∧
        (∀ group, Mix.DiffersAtMostOnce (blankRow ++ blankRow) (spoiledRow ++ blankRow) group) ∧
        blankRow ++ blankRow ≠ spoiledRow ++ blankRow ∧
        evaluation.mixDigest ≠ evaluation'.mixDigest ∧
        ∀ group : Fin 8,
          evaluation.mixDigest.wordBytes group ≠ evaluation'.mixDigest.wordBytes group ↔
            group = 0 ∨ group = 1 := by
  have aligned : 128 % 64 = 0 := rfl
  have alike := sessionBut_alike blankRow spoiledRow
  obtain ⟨evaluation, succeeded⟩ := (sessionBut_answers blankRow).1
  obtain ⟨evaluation', succeededToo⟩ := (sessionBut_answers spoiledRow).1
  obtain ⟨page, page', found, foundToo, shows⟩ :=
    last_page_shows aligned (Nat.le_refl 128) Sha2.sha512 Block.zero succeeded succeededToo alike
  obtain rfl := Option.some.inj ((sessionBut_page blankRow).symm.trans found)
  obtain rfl := Option.some.inj ((sessionBut_page spoiledRow).symm.trans foundToo)
  have once : ∀ group,
      Mix.DiffersAtMostOnce (blankRow ++ blankRow) (spoiledRow ++ blankRow) group := by
    unfold Mix.DiffersAtMostOnce
    decide
  have differ : blankRow ++ blankRow ≠ spoiledRow ++ blankRow := by
    decide
  have groups : ∀ group : Fin 8,
      (∃ place, Mix.wordAt (blankRow ++ blankRow) group place ≠
        Mix.wordAt (spoiledRow ++ blankRow) group place) ↔ group = 0 ∨ group = 1 := by
    decide
  obtain ⟨words, digests⟩ := shows once
  exact ⟨rfl, Nat.le_refl 128, alike, evaluation, evaluation', succeeded, succeededToo, once,
    differ, digests differ, fun group => (words group).trans (groups group)⟩

end Evaluation

end MemoryHard
