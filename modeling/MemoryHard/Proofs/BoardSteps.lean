import MemoryHard.Proofs.ValidSettings

/-!
# What an attempt does to a board

`Board.Effect` lists everything that an attempt can answer and leave behind.  Attempts
that publish differ in where the edition comes from only: it is offered, or it is made
from a seed that may stand in hexadecimal.
-/

namespace MemoryHard

/-- The attempt is to make the epoch of this seed under this number and to publish it. -/
inductive Attempt.Advances : Attempt → UInt64 → Bytes → Prop where
  | plain (number : UInt64) (seed : Bytes) : Advances (.advance number seed) number seed
  | hex (number : UInt64) {text : String} {seed : Bytes} :
      Hex.decode (Hex.dropMarks (Hex.byteChars text)) = .ok seed →
      Advances (.advanceHex number text) number seed

/-- The number under which an attempt asks to publish.  Building asks for none, and
neither does a text that is no hexadecimal seed. -/
def Attempt.requested? : Attempt → Option UInt64
  | .build .. => none
  | .publish edition => some edition.epoch.number
  | .advance number _ => some number
  | .advanceHex number text =>
      match Hex.decode (Hex.dropMarks (Hex.byteChars text)) with
      | .ok _ => some number
      | .error _ => none

theorem Attempt.Advances.requested?_eq {attempt : Attempt} {number : UInt64} {seed : Bytes}
    (advances : attempt.Advances number seed) : attempt.requested? = some number := by
  cases advances with
  | plain => rfl
  | hex _ decoded => simp [requested?, decoded]

namespace Board

variable {board : Board} {number : UInt64}

/-- Nothing is published under this number or a greater one. -/
def Outdone (board : Board) (number : UInt64) : Prop :=
  ∀ current, board.currentNumber? = some current → current < number

/-- Everything that an attempt can answer and leave behind. -/
inductive Effect (board : Board) : Attempt → Except Epoch.Fault Edition × Board → Prop where
  | built {settings : Settings} {number : UInt64} {seed : Bytes} {epoch : Epoch} :
      Epoch.ofSeed settings number seed = .ok epoch →
      Effect board (.build settings number seed)
        (.ok { serial := board.made, epoch }, { board with made := board.made + 1 })
  | notBuilt {settings : Settings} {number : UInt64} {seed : Bytes} {fault : Epoch.Fault} :
      Epoch.ofSeed settings number seed = .error fault →
      Effect board (.build settings number seed) (.error fault, board)
  | published {edition : Edition} :
      board.Outdone edition.epoch.number →
      Effect board (.publish edition) (.ok edition, { board with current? := some edition })
  | advanced {attempt : Attempt} {number : UInt64} {seed : Bytes} {epoch : Epoch} :
      attempt.Advances number seed →
      board.Outdone number →
      Epoch.ofSeed board.settings number seed = .ok epoch →
      Effect board attempt
        (.ok { serial := board.made, epoch },
          { board with
            made := board.made + 1
            current? := some { serial := board.made, epoch } })
  | notAdvanced {attempt : Attempt} {number : UInt64} {seed : Bytes} {fault : Epoch.Fault} :
      attempt.Advances number seed →
      board.Outdone number →
      Epoch.ofSeed board.settings number seed = .error fault →
      Effect board attempt (.error fault, board)
  | stale {attempt : Attempt} {number current : UInt64} :
      attempt.requested? = some number →
      board.currentNumber? = some current →
      number ≤ current →
      Effect board attempt (.error (.stale current number), board)
  | notDecoded {number : UInt64} {text : String} {fault : Hex.Fault} :
      Hex.decode (Hex.dropMarks (Hex.byteChars text)) = .error fault →
      Effect board (.advanceHex number text) (.error (.seedHex fault), board)

theorem outdone_or_stale (board : Board) (number : UInt64) :
    board.Outdone number ∨ ∃ current, board.currentNumber? = some current ∧ number ≤ current := by
  cases shown : board.currentNumber? with
  | none => exact .inl (by simp [Outdone, shown])
  | some current =>
      by_cases stale : number ≤ current
      · exact .inr ⟨current, rfl, stale⟩
      · apply Or.inl
        intro other found
        rw [shown] at found
        cases found
        exact UInt64.not_le.mp stale

private theorem run_checkNumber_of_outdone (newer : board.Outdone number) :
    (checkNumber number).run.run board = (.ok (), board) := by
  rw [checkNumber, run_bind_of_ok (run_get board)]
  split
  next current shown =>
    rw [if_neg (UInt64.not_le.mpr (newer current shown))]
    rfl
  next => rfl

private theorem run_checkNumber_of_stale {current : UInt64}
    (shown : board.currentNumber? = some current) (stale : number ≤ current) :
    (checkNumber number).run.run board = (.error (.stale current number), board) := by
  rw [checkNumber, run_bind_of_ok (run_get board), shown]
  dsimp only
  rw [if_pos stale]
  rfl

theorem attempt_build_of_ok {settings : Settings} {seed : Bytes} {epoch : Epoch}
    (made : Epoch.ofSeed settings number seed = .ok epoch) (board : Board) :
    board.attempt (.build settings number seed) =
      (.ok { serial := board.made, epoch }, { board with made := board.made + 1 }) := by
  rw [attempt, Attempt.step, build, made]
  rfl

private theorem attempt_build_of_error {settings : Settings} {seed : Bytes} {fault : Epoch.Fault}
    (failed : Epoch.ofSeed settings number seed = .error fault) (board : Board) :
    board.attempt (.build settings number seed) = (.error fault, board) := by
  rw [attempt, Attempt.step, build, failed]
  rfl

private theorem run_publish_of_outdone {edition : Edition}
    (newer : board.Outdone edition.epoch.number) :
    (publish edition).run.run board = (.ok (), { board with current? := some edition }) :=
  run_bind_of_ok (run_checkNumber_of_outdone newer) _

private theorem run_publish_of_stale {edition : Edition} {current : UInt64}
    (shown : board.currentNumber? = some current) (stale : edition.epoch.number ≤ current) :
    (publish edition).run.run board =
      (.error (.stale current edition.epoch.number), board) :=
  run_bind_of_error (run_checkNumber_of_stale shown stale) _

theorem attempt_publish_of_outdone {edition : Edition}
    (newer : board.Outdone edition.epoch.number) :
    board.attempt (.publish edition) = (.ok edition, { board with current? := some edition }) :=
  run_bind_of_ok (run_publish_of_outdone newer) _

theorem attempt_publish_of_stale {edition : Edition} {current : UInt64}
    (shown : board.currentNumber? = some current) (stale : edition.epoch.number ≤ current) :
    board.attempt (.publish edition) =
      (.error (.stale current edition.epoch.number), board) :=
  run_bind_of_error (run_publish_of_stale shown stale) _

/-- The number is compared once more after the epoch has been made, to the same effect. -/
theorem attempt_advance_of_outdone {seed : Bytes} {epoch : Epoch} (newer : board.Outdone number)
    (made : Epoch.ofSeed board.settings number seed = .ok epoch) :
    board.attempt (.advance number seed) =
      (.ok { serial := board.made, epoch },
        { board with
          made := board.made + 1
          current? := some { serial := board.made, epoch } }) := by
  have named : epoch.number = number := (Epoch.grown_of_ofSeed made).2.number_eq
  have still : Outdone { board with made := board.made + 1 } epoch.number := named ▸ newer
  have built : (build board.settings number seed).run.run board = _ :=
    attempt_build_of_ok made board
  rw [attempt, Attempt.step, advance, run_bind_of_ok (run_checkNumber_of_outdone newer),
    run_bind_of_ok (run_get board), run_bind_of_ok built,
    run_bind_of_ok (run_publish_of_outdone still)]
  rfl

theorem attempt_advance_of_stale {current : UInt64} (shown : board.currentNumber? = some current)
    (stale : number ≤ current) (seed : Bytes) :
    board.attempt (.advance number seed) = (.error (.stale current number), board) :=
  run_bind_of_error (run_checkNumber_of_stale shown stale) _

private theorem attempt_advance_of_error {seed : Bytes} {fault : Epoch.Fault}
    (newer : board.Outdone number)
    (failed : Epoch.ofSeed board.settings number seed = .error fault) :
    board.attempt (.advance number seed) = (.error fault, board) := by
  rw [attempt, Attempt.step, advance, run_bind_of_ok (run_checkNumber_of_outdone newer),
    run_bind_of_ok (run_get board)]
  exact run_bind_of_error (attempt_build_of_error failed board) _

theorem attempt_advanceHex_of_ok {text : String} {seed : Bytes}
    (decoded : Hex.decode (Hex.dropMarks (Hex.byteChars text)) = .ok seed) (board : Board)
    (number : UInt64) :
    board.attempt (.advanceHex number text) = board.attempt (.advance number seed) := by
  rw [attempt, Attempt.step, advanceHex, decoded, mapError_ok]
  exact run_bind_of_ok (run_lift (.ok seed) board) _

theorem attempt_advanceHex_of_error {text : String} {fault : Hex.Fault}
    (failed : Hex.decode (Hex.dropMarks (Hex.byteChars text)) = .error fault) (board : Board)
    (number : UInt64) :
    board.attempt (.advanceHex number text) = (.error (.seedHex fault), board) := by
  rw [attempt, Attempt.step, advanceHex, failed, mapError_error]
  exact run_bind_of_error (run_lift (.error (Epoch.Fault.seedHex fault)) board) _

private theorem effect_advance {attempt : Attempt} {seed : Bytes}
    (advances : attempt.Advances number seed)
    (same : board.attempt attempt = board.attempt (.advance number seed)) :
    board.Effect attempt (board.attempt attempt) := by
  rw [same]
  rcases board.outdone_or_stale number with newer | ⟨current, shown, stale⟩
  · cases made : Epoch.ofSeed board.settings number seed with
    | error fault =>
        rw [attempt_advance_of_error newer made]
        exact .notAdvanced advances newer made
    | ok epoch =>
        rw [attempt_advance_of_outdone newer made]
        exact .advanced advances newer made
  · rw [attempt_advance_of_stale shown stale]
    exact .stale advances.requested?_eq shown stale

theorem effect_attempt (board : Board) (attempt : Attempt) :
    board.Effect attempt (board.attempt attempt) := by
  cases attempt with
  | build settings number seed =>
      cases made : Epoch.ofSeed settings number seed with
      | error fault =>
          rw [attempt_build_of_error made]
          exact .notBuilt made
      | ok epoch =>
          rw [attempt_build_of_ok made]
          exact .built made
  | publish edition =>
      rcases board.outdone_or_stale edition.epoch.number with newer | ⟨current, shown, stale⟩
      · rw [attempt_publish_of_outdone newer]
        exact .published newer
      · rw [attempt_publish_of_stale shown stale]
        exact .stale rfl shown stale
  | advance number seed => exact effect_advance (.plain number seed) rfl
  | advanceHex number text =>
      cases decoded : Hex.decode (Hex.dropMarks (Hex.byteChars text)) with
      | error fault =>
          rw [attempt_advanceHex_of_error decoded]
          exact .notDecoded decoded
      | ok seed =>
          exact effect_advance (.hex number decoded)
            (attempt_advanceHex_of_ok decoded board number)

section Effect

variable {attempt : Attempt} {result : Except Epoch.Fault Edition × Board}

/-- No attempt changes the settings. -/
private theorem Effect.settings_eq (effect : board.Effect attempt result) :
    result.2.settings = board.settings := by
  cases effect <;> rfl

private theorem Effect.board_of_refused (effect : board.Effect attempt result) {fault : Epoch.Fault}
    (refused : result.1 = .error fault) : result.2 = board := by
  cases effect with
  | built made => cases refused
  | published newer => cases refused
  | advanced advances newer made => cases refused
  | notBuilt failed => rfl
  | notAdvanced advances newer failed => rfl
  | stale requested shown stale => rfl
  | notDecoded failed => rfl

/-- With valid settings, an attempt to publish is refused for its number only. -/
theorem Effect.of_requested (effect : board.Effect attempt result)
    (valid : board.settings.check = .ok ())
    (requested : attempt.requested? = some number) :
    (board.Outdone number ∧ ∃ edition, result.1 = .ok edition ∧
        result.2.current? = some edition ∧ edition.epoch.number = number ∧
        ∀ offered, attempt = .publish offered → edition = offered) ∨
      ∃ current, board.currentNumber? = some current ∧ number ≤ current ∧
        result = (.error (.stale current number), board) := by
  cases effect with
  | built made => cases requested
  | notBuilt failed => cases requested
  | @published edition newer =>
      cases requested
      refine .inl ⟨newer, edition, rfl, rfl, rfl, ?_⟩
      intro offered same
      cases same
      rfl
  | @advanced _ number' seed epoch advances newer made =>
      have same : number' = number := by
        rw [advances.requested?_eq] at requested
        exact Option.some.inj requested
      subst same
      refine .inl ⟨newer, _, rfl, rfl, (Epoch.grown_of_ofSeed made).2.number_eq, ?_⟩
      intro offered same
      subst same
      cases advances
  | @notAdvanced _ number' seed _ advances newer failed =>
      obtain ⟨epoch, made, _⟩ := Epoch.ofSeed_of_valid valid number' seed
      rw [made] at failed
      cases failed
  | @stale _ number' current requested' shown stale =>
      rw [requested'] at requested
      cases requested
      exact .inr ⟨current, shown, stale, rfl⟩
  | notDecoded failed => simp [Attempt.requested?, failed] at requested

theorem Effect.of_not_requested (effect : board.Effect attempt result)
    (requested : attempt.requested? = none) : result.2.current? = board.current? := by
  cases effect with
  | built made => rfl
  | notBuilt failed => rfl
  | published newer => cases requested
  | advanced advances newer made =>
      rw [advances.requested?_eq] at requested
      cases requested
  | notAdvanced advances newer failed => rfl
  | stale requested' shown stale => rfl
  | notDecoded failed => rfl

end Effect

theorem new_eq_ok_iff {settings : Settings} {start : Board} :
    Board.new settings = .ok start ↔
      settings.check = .ok () ∧ start = { settings, made := 0, current? := none } := by
  rw [Board.new, bind_eq_ok_iff]
  constructor
  · rintro ⟨⟨⟩, checked, same⟩
    cases same
    exact ⟨mapError_eq_ok_iff.mp checked, rfl⟩
  · rintro ⟨checked, rfl⟩
    exact ⟨(), mapError_eq_ok_iff.mpr checked, rfl⟩

theorem run_cons (board : Board) (attempt : Attempt) (rest : List Attempt) :
    board.run (attempt :: rest) = (board.attempt attempt).2.run rest :=
  rfl

theorem run_append (board : Board) (first second : List Attempt) :
    board.run (first ++ second) = (board.run first).run second :=
  List.foldl_append

/-- Whatever an attempt is refused for, it leaves the board as it is. -/
theorem board_of_refused {attempt : Attempt} {fault : Epoch.Fault}
    (refused : (board.attempt attempt).1 = .error fault) :
    (board.attempt attempt).2 = board :=
  (effect_attempt board attempt).board_of_refused refused

private theorem settings_attempt (board : Board) (attempt : Attempt) :
    (board.attempt attempt).2.settings = board.settings :=
  (effect_attempt board attempt).settings_eq

theorem check_attempt (valid : board.settings.check = .ok ()) (attempt : Attempt) :
    (board.attempt attempt).2.settings.check = .ok () := by
  rw [settings_attempt]
  exact valid

theorem settings_run (board : Board) (attempts : List Attempt) :
    (board.run attempts).settings = board.settings := by
  induction attempts generalizing board with
  | nil => rfl
  | cons attempt rest ih => rw [run_cons, ih, settings_attempt]

theorem check_run (valid : board.settings.check = .ok ()) (attempts : List Attempt) :
    (board.run attempts).settings.check = .ok () := by
  rw [settings_run]
  exact valid

end Board

end MemoryHard
