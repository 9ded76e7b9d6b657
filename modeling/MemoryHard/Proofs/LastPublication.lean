import MemoryHard.Proofs.BoardSteps

/-!
# The last publication decides every answer

After a run a board answers as the cache would that grows from the settings and the
seed of the last accepted publication.  Refused attempts, earlier publications, epoch
numbers and datasets computed in advance leave no trace in the answers.
-/

namespace MemoryHard

private theorem Cache.item_eq_of_table_eq {first second : Cache}
    (same : first.toTable = second.toTable) (H : HashFunction) : first.item H = second.item H := by
  funext index
  simp only [item, derive, mixParents, mixParent, startRow, same]

private theorem Evaluation.light_eq_of_table_eq {first second : Cache}
    (same : first.toTable = second.toTable) (H : HashFunction) (header : Digest) (nonce : UInt64)
    (byteCount : Nat) :
    light H first header nonce byteCount = light H second header nonce byteCount := by
  have rows : (RowSource.ofCache H first : RowSource Unit) = RowSource.ofCache H second := by
    unfold RowSource.ofCache
    rw [Cache.item_eq_of_table_eq same]
  rw [light, light, rows]

/-- Grow a cache from a seed and evaluate a nonce over it. -/
def Evaluation.lightOfSeed (H : HashFunction) (cacheBytes datasetBytes : Nat) (number : UInt64)
    (seed : Bytes) (header : Digest) (nonce : UInt64) : Except Refusal Evaluation := do
  let cache ← Cache.ofSeed H number seed cacheBytes
  light H cache header nonce datasetBytes

private theorem Epoch.exists_evaluation {settings : Settings} {number : UInt64} {seed : Bytes}
    {epoch : Epoch} (made : Epoch.ofSeed settings number seed = .ok epoch)
    (header : Digest) (nonce : UInt64) :
    ∃ evaluation, epoch.evaluate header nonce = .ok evaluation ∧
      ∀ other, Evaluation.lightOfSeed settings.hash.hash settings.cacheBytes.toNat
        settings.datasetBytes.toNat other seed header nonce = .ok evaluation := by
  obtain ⟨checked, grown⟩ := grown_of_ofSeed made
  have valid := Settings.check_eq_ok_iff.mp checked
  obtain ⟨evaluation, light⟩ :=
    valid.light_eq_ok settings.hash.hash epoch.cache header nonce
  obtain ⟨table, rows⟩ := Cache.exists_rows_ofSeed settings.hash.hash seed
    valid.cache_pos valid.cache_rows
  have cached := grown.cache_eq
  rw [rows number] at cached
  have same : table = epoch.cache.toTable := congrArg Cache.toTable (Except.ok.inj cached)
  refine ⟨evaluation, ?_, ?_⟩
  · rw [evaluate_eq_light grown, light, mapError_ok]
  · intro other
    rw [Evaluation.lightOfSeed, rows other, ok_bind, ← light]
    exact Evaluation.light_eq_of_table_eq same _ header nonce _

/-- The settings and the seed that the epoch of a publication grows from, on a board with
the given settings. -/
inductive Attempt.GrowsFrom (settings : Settings) : Attempt → Settings → Bytes → Prop where
  | offered {edition : Edition} {chosen : Settings} {number : UInt64} {seed : Bytes} :
      Epoch.ofSeed chosen number seed = .ok edition.epoch →
      GrowsFrom settings (.publish edition) chosen seed
  | advanced {attempt : Attempt} {number : UInt64} {seed : Bytes} :
      attempt.Advances number seed → GrowsFrom settings attempt settings seed

private theorem Attempt.Advances.seed_unique {attempt : Attempt} {number other : UInt64}
    {seed otherSeed : Bytes} (first : attempt.Advances number seed)
    (second : attempt.Advances other otherSeed) : seed = otherSeed := by
  cases first with
  | plain =>
      cases second
      rfl
  | hex _ decoded =>
      cases second with
      | hex _ decoded' =>
          rw [decoded] at decoded'
          exact Except.ok.inj decoded'

namespace Board

variable {board : Board} {attempt : Attempt} {attempts : List Attempt} {settings : Settings}

/-- The attempt publishes and is not refused. -/
def accepts (board : Board) (attempt : Attempt) : Bool :=
  attempt.requested?.isSome && (board.attempt attempt).1.isOk

/-- The accepted publications of a run, in their order. -/
def publications (board : Board) : List Attempt → List Attempt
  | [] => []
  | attempt :: rest =>
      if board.accepts attempt then
        attempt :: (board.attempt attempt).2.publications rest
      else
        (board.attempt attempt).2.publications rest

/-- The board shows an epoch that grows from whatever the publication grows from. -/
def ShowsEpochOf (board : Board) (publication : Attempt) : Prop :=
  ∃ edition, board.current? = some edition ∧
    ∀ chosen seed, publication.GrowsFrom board.settings chosen seed →
      ∃ number, Epoch.ofSeed chosen number seed = .ok edition.epoch

private theorem Effect.showsEpochOf_or_kept {result : Except Epoch.Fault Edition × Board}
    (effect : board.Effect attempt result) :
    ((attempt.requested?.isSome && result.1.isOk) = true ∧ result.2.ShowsEpochOf attempt) ∨
      ((attempt.requested?.isSome && result.1.isOk) = false ∧
        result.2.current? = board.current?) := by
  cases effect with
  | built made => exact .inr ⟨rfl, rfl⟩
  | notBuilt failed => exact .inr ⟨rfl, rfl⟩
  | @published edition newer =>
      refine .inl ⟨rfl, edition, rfl, ?_⟩
      intro chosen seed grows
      cases grows with
      | @offered _ _ number _ made => exact ⟨number, made⟩
      | advanced advances => cases advances
  | @advanced _ number seed epoch advances newer made =>
      refine .inl ⟨by simp [advances.requested?_eq, Except.isOk, Except.toBool], _, rfl, ?_⟩
      intro chosen otherSeed grows
      cases grows with
      | offered => cases advances
      | advanced other =>
          cases advances.seed_unique other
          exact ⟨number, made⟩
  | notAdvanced advances newer failed =>
      exact .inr ⟨by simp [Except.isOk, Except.toBool], rfl⟩
  | stale requested shown stale => exact .inr ⟨by simp [Except.isOk, Except.toBool], rfl⟩
  | notDecoded failed => exact .inr ⟨by simp [Except.isOk, Except.toBool], rfl⟩

private theorem showsEpochOf_or_kept (board : Board) (attempt : Attempt) :
    (board.accepts attempt = true ∧ (board.attempt attempt).2.ShowsEpochOf attempt) ∨
      (board.accepts attempt = false ∧ (board.attempt attempt).2.current? = board.current?) :=
  (effect_attempt board attempt).showsEpochOf_or_kept

private theorem mem_of_mem_publications (member : attempt ∈ board.publications attempts) :
    attempt ∈ attempts ∧ attempt.requested?.isSome = true := by
  induction attempts generalizing board with
  | nil => cases member
  | cons first rest ih =>
      rw [publications] at member
      split at member
      next accepted =>
        rcases List.mem_cons.mp member with rfl | later
        · exact ⟨List.mem_cons_self, (Bool.and_eq_true_iff.mp accepted).1⟩
        · exact ⟨List.mem_cons_of_mem first (ih later).1, (ih later).2⟩
      next => exact ⟨List.mem_cons_of_mem first (ih member).1, (ih member).2⟩

private theorem current?_run_of_unpublished
    (unpublished : board.publications attempts = []) :
    (board.run attempts).current? = board.current? := by
  induction attempts generalizing board with
  | nil => rfl
  | cons attempt rest ih =>
      rcases showsEpochOf_or_kept board attempt with ⟨accepted, _⟩ | ⟨refused, same⟩
      · simp [publications, accepted] at unpublished
      · simp only [publications, refused, Bool.false_eq_true, if_false] at unpublished
        rw [run_cons, ih unpublished, same]

/-- Later attempts that do not publish leave the last publication on the board. -/
theorem showsEpochOf_run {last : Attempt}
    (final : (board.publications attempts).getLast? = some last) :
    (board.run attempts).ShowsEpochOf last := by
  induction attempts generalizing board with
  | nil => cases final
  | cons attempt rest ih =>
      rw [run_cons]
      rcases showsEpochOf_or_kept board attempt with ⟨accepted, shows⟩ | ⟨refused, _⟩
      · rw [publications, if_pos accepted, List.getLast?_cons] at final
        cases later : ((board.attempt attempt).2.publications rest).getLast? with
        | none =>
            rw [later] at final
            cases final
            have unpublished := List.getLast?_eq_none_iff.mp later
            rw [ShowsEpochOf, current?_run_of_unpublished unpublished, settings_run]
            exact shows
        | some publication =>
            rw [later] at final
            cases final
            exact ih later
      · simp only [publications, refused, Bool.false_eq_true, if_false] at final
        exact ih final

private theorem exists_growsFrom (requested : attempt.requested?.isSome = true)
    (built : ∀ edition, attempt = .publish edition →
      ∃ chosen number seed, Epoch.ofSeed chosen number seed = .ok edition.epoch) :
    ∃ chosen seed, attempt.GrowsFrom settings chosen seed := by
  cases attempt with
  | build => cases requested
  | publish edition =>
      obtain ⟨chosen, number, seed, made⟩ := built edition rfl
      exact ⟨chosen, seed, .offered made⟩
  | advance number seed => exact ⟨settings, seed, .advanced (.plain number seed)⟩
  | advanceHex number text =>
      cases decoded : Hex.decode (Hex.dropMarks (Hex.byteChars text)) with
      | error fault => simp [Attempt.requested?, decoded] at requested
      | ok seed => exact ⟨settings, seed, .advanced (.hex number decoded)⟩

/-- The board answers every nonce as the cache that grows from the seed, whatever its
epoch number.  Whether datasets are computed in advance does not enter. -/
def AnswersFrom (board : Board) (chosen : Settings) (seed : Bytes) : Prop :=
  ∀ header nonce, ∃ evaluation, board.evaluate header nonce = .ok evaluation ∧
    ∀ number, Evaluation.lightOfSeed chosen.hash.hash chosen.cacheBytes.toNat
      chosen.datasetBytes.toNat number seed header nonce = .ok evaluation

private theorem ShowsEpochOf.answersFrom {publication : Attempt} {chosen : Settings} {seed : Bytes}
    (shows : board.ShowsEpochOf publication)
    (grows : publication.GrowsFrom board.settings chosen seed) :
    board.AnswersFrom chosen seed := by
  intro header nonce
  obtain ⟨edition, shown, epochs⟩ := shows
  obtain ⟨number, made⟩ := epochs chosen seed grows
  rw [evaluate, shown]
  exact Epoch.exists_evaluation made header nonce

/-- A board with valid settings, after any run whose offered epochs were built, answers
that nothing is published exactly if no publication was accepted.  Otherwise it answers
from the settings and the seed of the last accepted publication. -/
theorem evaluate_run_eq_light (valid : settings.check = .ok ())
    (built : ∀ edition, .publish edition ∈ attempts →
      ∃ chosen number seed, Epoch.ofSeed chosen number seed = .ok edition.epoch) :
    ∃ start, Board.new settings = .ok start ∧
      (∀ header nonce, (start.run attempts).evaluate header nonce = .error .notPublished ↔
        start.publications attempts = []) ∧
      ∀ last, (start.publications attempts).getLast? = some last →
        (∃ chosen seed, last.GrowsFrom settings chosen seed) ∧
          ∀ chosen seed, last.GrowsFrom settings chosen seed →
            (start.run attempts).AnswersFrom chosen seed := by
  let start : Board := { settings, made := 0, current? := none }
  have opened : Board.new settings = .ok start := new_eq_ok_iff.mpr ⟨valid, rfl⟩
  have kept : (start.run attempts).settings = settings := settings_run start attempts
  have grown : ∀ last, (start.publications attempts).getLast? = some last →
      ∃ chosen seed, last.GrowsFrom settings chosen seed := by
    intro last final
    obtain ⟨member, requested⟩ := mem_of_mem_publications (List.mem_of_getLast? final)
    apply exists_growsFrom requested
    intro edition same
    exact built edition (same ▸ member)
  have answered : ∀ last, (start.publications attempts).getLast? = some last →
      ∀ chosen seed, last.GrowsFrom settings chosen seed →
        (start.run attempts).AnswersFrom chosen seed := by
    intro last final chosen seed grows
    exact (showsEpochOf_run final).answersFrom (kept.symm ▸ grows)
  refine ⟨start, opened, ?_, ?_⟩
  · intro header nonce
    constructor
    · intro silent
      cases final : (start.publications attempts).getLast? with
      | none => exact List.getLast?_eq_none_iff.mp final
      | some last =>
          obtain ⟨chosen, seed, grows⟩ := grown last final
          obtain ⟨evaluation, found, _⟩ := answered last final chosen seed grows header nonce
          rw [found] at silent
          cases silent
    · intro unpublished
      rw [evaluate, current?_run_of_unpublished unpublished]
  · intro last final
    exact ⟨grown last final, answered last final⟩

theorem answersFrom_after_refusal :
    ∃ edition start,
      Epoch.ofSeed { cacheBytes := 64, datasetBytes := 128 } 5 [2] = .ok edition.epoch ∧
        Board.new { cacheBytes := 128, datasetBytes := 256, fullDataset := true } = .ok start ∧
        (start.run [.publish edition, .advance 3 [1]]).AnswersFrom
          { cacheBytes := 64, datasetBytes := 128 } [2] := by
  have small : Settings.check { cacheBytes := 64, datasetBytes := 128 } = .ok () := rfl
  have large : Settings.check
      { cacheBytes := 128, datasetBytes := 256, fullDataset := true } = .ok () := rfl
  obtain ⟨epoch, made, grown⟩ := Epoch.ofSeed_of_valid small 5 [2]
  let edition : Edition := { serial := 0, epoch }
  have built : ∀ offered, Attempt.publish offered ∈ [.publish edition, .advance 3 [1]] →
      ∃ chosen number seed, Epoch.ofSeed chosen number seed = .ok offered.epoch := by
    intro offered member
    have same : offered = edition := by simpa using member
    rw [same]
    exact ⟨_, _, _, made⟩
  obtain ⟨start, opened, _, answers⟩ := evaluate_run_eq_light large built
  have empty : start.current? = none := by
    rw [← Except.ok.inj opened]
  have newer : start.Outdone edition.epoch.number := by
    simp [Outdone, currentNumber?, empty]
  let shown : Board := { start with current? := some edition }
  have published : start.attempt (.publish edition) = (.ok edition, shown) :=
    attempt_publish_of_outdone newer
  have numbered : shown.currentNumber? = some 5 := congrArg some grown.number_eq
  have refused : shown.attempt (.advance 3 [1]) = (.error (.stale 5 3), shown) :=
    attempt_advance_of_stale numbered (by decide) [1]
  have last : start.publications [.publish edition, .advance 3 [1]] = [.publish edition] := by
    simp [publications, accepts, Attempt.requested?, published, refused, Except.isOk,
      Except.toBool]
  exact ⟨edition, start, made, opened,
    (answers (.publish edition) (congrArg List.getLast? last)).2 _ _ (.offered made)⟩

end Board

end MemoryHard
