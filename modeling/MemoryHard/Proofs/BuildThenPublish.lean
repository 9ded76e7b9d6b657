import MemoryHard.Proofs.SerialNumbers

/-!
# Advancing is building and publishing

A board that advances compares the number before it builds the epoch, and again when it
publishes the edition.  The settings of a board stay valid, so building never fails in
between and the early comparison decides nothing: with or without it the attempt has the
same answer, and the board shows the same edition afterwards.
-/

namespace MemoryHard.Board

variable {board : Board} {number : UInt64} {seed : Bytes}

/-- Build an edition with the settings of the board without looking at the number, and
publish it then. -/
def buildThenPublish (board : Board) (number : UInt64) (seed : Bytes) :
    Except Epoch.Fault Edition × Board :=
  match board.attempt (.build board.settings number seed) with
  | (.ok edition, built) => built.attempt (.publish edition)
  | (.error fault, same) => (.error fault, same)

/-- The next edition of the board, built from its settings. -/
structure IsNextEdition (board : Board) (number : UInt64) (seed : Bytes) (edition : Edition) :
    Prop where
  serial_eq : edition.serial = board.made
  grown : edition.epoch.Grown board.settings number seed

private theorem attempt_build_of_valid (valid : board.settings.check = .ok ()) (number : UInt64)
    (seed : Bytes) :
    ∃ edition, board.IsNextEdition number seed edition ∧
      Epoch.ofSeed board.settings number seed = .ok edition.epoch ∧
      board.attempt (.build board.settings number seed) =
        (.ok edition, { board with made := board.made + 1 }) := by
  obtain ⟨epoch, made, grown⟩ := Epoch.ofSeed_of_valid valid number seed
  refine ⟨{ serial := board.made, epoch }, ⟨rfl, grown⟩, made, ?_⟩
  rw [attempt_build_of_ok made]

/-- Under a greater number both ways end in the same answer and on the same board. -/
theorem advanced_of_outdone (valid : board.settings.check = .ok ())
    (newer : board.Outdone number) (seed : Bytes) :
    ∃ edition, board.IsNextEdition number seed edition ∧
      board.attempt (.advance number seed) =
        (.ok edition, { board with made := board.made + 1, current? := some edition }) ∧
      board.buildThenPublish number seed = board.attempt (.advance number seed) := by
  obtain ⟨edition, next, made, built⟩ := attempt_build_of_valid valid number seed
  have numbered : edition.epoch.number = number := next.grown.number_eq
  have still : Outdone { board with made := board.made + 1 } edition.epoch.number :=
    numbered.symm ▸ newer
  have same : edition = { serial := board.made, epoch := edition.epoch } := by
    rw [← next.serial_eq]
  have advanced : board.attempt (.advance number seed) =
      (.ok edition, { board with made := board.made + 1, current? := some edition }) := by
    rw [attempt_advance_of_outdone newer made, ← same]
  refine ⟨edition, next, advanced, ?_⟩
  rw [advanced, buildThenPublish, built]
  exact attempt_publish_of_outdone still

/-- Under any other number the edition may have been built, but it is not shown. -/
theorem refused_of_stale (valid : board.settings.check = .ok ()) {current : UInt64}
    (shown : board.currentNumber? = some current) (stale : number ≤ current) (seed : Bytes) :
    board.attempt (.advance number seed) = (.error (.stale current number), board) ∧
      board.buildThenPublish number seed =
        (.error (.stale current number), { board with made := board.made + 1 }) := by
  constructor
  · exact attempt_advance_of_stale shown stale seed
  · obtain ⟨edition, next, _, built⟩ := attempt_build_of_valid valid number seed
    have shown' : currentNumber? { board with made := board.made + 1 } = some current := shown
    have stale' : edition.epoch.number ≤ current := next.grown.number_eq.symm ▸ stale
    have refused := attempt_publish_of_stale shown' stale'
    rw [next.grown.number_eq] at refused
    rw [buildThenPublish, built]
    exact refused

private theorem outdone_iff :
    board.Outdone number ↔ board.current? = none ∨
      ∃ current, board.currentNumber? = some current ∧ current < number := by
  unfold Outdone currentNumber?
  cases board.current? with
  | none => simp
  | some edition => simp

/-- On every board that attempts can lead to, advancing answers what building and then
publishing answers, and the same edition is shown afterwards.  It is accepted exactly if
nothing is published under the number or a greater one.  Then the new edition grows from
the seed and is the one shown, which no earlier one is.  Otherwise the number is stale and
the board is left as it was. -/
theorem advance_eq_buildThenPublish {settings : Settings} {start : Board}
    (opened : Board.new settings = .ok start) (attempts : List Attempt) (number : UInt64)
    (seed : Bytes) :
    let board := start.run attempts
    let advanced := board.attempt (.advance number seed)
    let separate := board.buildThenPublish number seed
    (advanced.1 = separate.1 ∧ advanced.2.current? = separate.2.current?) ∧
      ((∃ edition, advanced.1 = .ok edition) ↔ board.current? = none ∨
        ∃ current, board.currentNumber? = some current ∧ current < number) ∧
      (∀ edition, advanced.1 = .ok edition →
        edition.epoch.Grown settings number seed ∧ advanced.2.current? = some edition ∧
          advanced.2.shows edition = true ∧
          (start.Genuine [] attempts →
            ∀ earlier ∈ start.editions attempts, advanced.2.shows earlier = false)) ∧
      ∀ fault, advanced.1 = .error fault →
        advanced.2 = board ∧ ∃ current, board.currentNumber? = some current ∧
          number ≤ current ∧ fault = .stale current number := by
  obtain ⟨checked, rfl⟩ := new_eq_ok_iff.mp opened
  intro board
  have valid : board.settings.check = .ok () := check_run checked attempts
  have kept : board.settings = settings := settings_run _ attempts
  rcases board.outdone_or_stale number with newer | ⟨current, shown, stale⟩
  · obtain ⟨edition, next, accepted, same⟩ := advanced_of_outdone valid newer seed
    rw [same, accepted]
    refine ⟨⟨rfl, rfl⟩, ?_, ?_, ?_⟩
    · exact ⟨fun _ => outdone_iff.mp newer, fun _ => ⟨edition, rfl⟩⟩
    · intro other answered
      cases answered
      refine ⟨kept ▸ next.grown, rfl, by simp [shows], ?_⟩
      intro genuine earlier member
      have empty : Consistent { settings, made := 0, current? := none } [] :=
        ⟨by simp, by simp, by simp⟩
      have older : earlier.serial < board.made :=
        (consistent_run empty genuine).made earlier member
      have different : edition.serial ≠ earlier.serial := by
        rw [next.serial_eq]
        exact Nat.ne_of_gt older
      simp [shows, different]
    · intro fault failed
      cases failed
  · obtain ⟨refused, refusedToo⟩ := refused_of_stale valid shown stale seed
    rw [refused, refusedToo]
    refine ⟨⟨rfl, rfl⟩, ?_, ?_, ?_⟩
    · constructor
      · rintro ⟨edition, accepted⟩
        cases accepted
      · intro newer
        exact absurd stale (UInt64.not_le.mpr (outdone_iff.mpr newer current shown))
    · intro edition accepted
      cases accepted
    · intro fault failed
      cases failed
      exact ⟨rfl, current, shown, stale, rfl⟩

/-- Number five is accepted on a new board, and number three is stale after it. -/
theorem three_stale_after_five :
    ∃ start, Board.new { cacheBytes := 64, datasetBytes := 128 } = .ok start ∧
      ((start.run [.advance 5 []]).attempt (.advance 3 [1])).1 = .error (.stale 5 3) ∧
      ((start.run [.advance 5 []]).buildThenPublish 3 [1]).1 = .error (.stale 5 3) := by
  obtain ⟨start, opened⟩ : ∃ start,
      Board.new { cacheBytes := 64, datasetBytes := 128 } = .ok start := ⟨_, rfl⟩
  obtain ⟨_, newIff, published, _⟩ := advance_eq_buildThenPublish opened [] 5 []
  have empty : start.current? = none := by rw [← Except.ok.inj opened]
  obtain ⟨edition, accepted⟩ := newIff.mpr (.inl empty)
  obtain ⟨grown, shown, _⟩ := published edition accepted
  have five : (start.run [.advance 5 []]).currentNumber? = some 5 := by
    have numbered := congrArg (Option.map (·.epoch.number)) shown
    rw [Option.map_some, show edition.epoch.number = 5 from grown.number_eq] at numbered
    exact numbered
  obtain ⟨⟨same, _⟩, newerIff, _, refused⟩ :=
    advance_eq_buildThenPublish opened [.advance 5 []] 3 [1]
  have stale : ((start.run [.advance 5 []]).attempt (.advance 3 [1])).1 =
      .error (.stale 5 3) := by
    cases answer : ((start.run [.advance 5 []]).attempt (.advance 3 [1])).1 with
    | error fault =>
        obtain ⟨_, current, shown, _, rfl⟩ := refused fault answer
        rw [five] at shown
        cases shown
        rfl
    | ok other =>
        rcases newerIff.mp ⟨other, answer⟩ with none | ⟨current, shown, below⟩
        · rw [currentNumber?, none] at five
          cases five
        · rw [five] at shown
          cases shown
          exact absurd below (by decide)
  exact ⟨start, opened, stale, same.symm.trans stale⟩

end MemoryHard.Board
