import MemoryHard.Proofs.SerialNumbers

/-!
# The published number is a running maximum

Every attempt to publish contends with the numbers that were published or asked for
before it.  After a run the board shows the greatest of them, whatever the order, and
of the attempts under that number the first one has prevailed.
-/

namespace MemoryHard

section Greatest

instance lawfulOrderMax : Std.LawfulOrderMax UInt64 :=
  .of_max_le_iff
    (by
      intro first second bound
      change (if first ≤ second then second else first) ≤ bound ↔ _
      split <;> grind)
    (by
      intro first second
      change (if first ≤ second then second else first) = first ∨
        (if first ≤ second then second else first) = second
      split <;> simp)

private theorem max?_ext {first second : List UInt64}
    (same : ∀ greatest, (greatest ∈ first ∧ ∀ other ∈ first, other ≤ greatest) ↔
      (greatest ∈ second ∧ ∀ other ∈ second, other ≤ greatest)) :
    first.max? = second.max? := by
  apply Option.ext
  intro greatest
  rw [List.max?_eq_some_iff, List.max?_eq_some_iff]
  exact same greatest

private theorem max?_eq_of_perm {first second : List UInt64} (permutation : first.Perm second) :
    first.max? = second.max? := by
  apply max?_ext
  intro greatest
  simp only [permutation.mem_iff]

/-- Of the numbers at the front only the greatest counts. -/
private theorem max?_toList_append (first second : List UInt64) :
    (first.max?.toList ++ second).max? = (first ++ second).max? := by
  cases found : first.max? with
  | none =>
      have empty : first = [] := List.max?_eq_none_iff.mp found
      simp [empty]
  | some most =>
      obtain ⟨member, bound⟩ := List.max?_eq_some_iff.mp found
      apply max?_ext
      intro greatest
      simp only [Option.toList_some, List.cons_append, List.nil_append, List.mem_cons,
        List.mem_append]
      constructor
      · rintro ⟨chosen, above⟩
        refine ⟨?_, ?_⟩
        · rcases chosen with rfl | later
          · exact .inl member
          · exact .inr later
        · intro other place
          rcases place with early | late
          · exact UInt64.le_trans (bound other early) (above most (.inl rfl))
          · exact above other (.inr late)
      · rintro ⟨chosen, above⟩
        refine ⟨?_, ?_⟩
        · rcases chosen with early | late
          · exact .inl (UInt64.le_antisymm (bound greatest early) (above most (.inl member)))
          · exact .inr late
        · intro other place
          rcases place with rfl | late
          · exact above other (.inl member)
          · exact above other (.inr late)

end Greatest

namespace Board

variable {board : Board} {attempt : Attempt} {attempts : List Attempt} {number : UInt64}

/-- The published number and the numbers that the attempts ask for. -/
def contenders (board : Board) (attempts : List Attempt) : List UInt64 :=
  board.currentNumber?.toList ++ attempts.filterMap Attempt.requested?

/-- How a board decides on an attempt under `number` after the numbers `earlier`. -/
structure Decided (board : Board) (attempt : Attempt) (number : UInt64) (earlier : List UInt64) :
    Prop where
  accepted_iff : (∃ edition, (board.attempt attempt).1 = .ok edition) ↔
    board.current? = none ∨ ∃ greatest, earlier.max? = some greatest ∧ greatest < number
  accepted : ∀ edition, (board.attempt attempt).1 = .ok edition →
    (board.attempt attempt).2.current? = some edition ∧ edition.epoch.number = number ∧
      ∀ offered, attempt = .publish offered → edition = offered
  refused : ∀ fault, (board.attempt attempt).1 = .error fault →
    (board.attempt attempt).2 = board ∧
      ∃ greatest, earlier.max? = some greatest ∧ fault = .stale greatest number

/-- What is shown after the attempts: the first edition under the greatest number, or
still the initial one. -/
inductive Prevails (board : Board) (attempts : List Attempt) : Option Edition → Prop where
  | initial :
      (∀ number ∈ attempts.filterMap Attempt.requested?,
        ∃ current, board.currentNumber? = some current ∧ number ≤ current) →
      Prevails board attempts board.current?
  | first {before after : List Attempt} {attempt : Attempt} {number : UInt64}
      {edition : Edition} :
      attempts = before ++ attempt :: after →
      attempt.requested? = some number →
      (∀ earlier ∈ board.contenders before, earlier < number) →
      (∀ later ∈ after.filterMap Attempt.requested?, later ≤ number) →
      ((board.run before).attempt attempt).1 = .ok edition →
      Prevails board attempts (some edition)

private theorem currentNumber?_of_shown {edition : Edition}
    (shown : board.current? = some edition) : board.currentNumber? = some edition.epoch.number := by
  rw [currentNumber?, shown, Option.map_some]

private theorem contenders_append (board : Board) (first second : List Attempt) :
    board.contenders (first ++ second) =
      board.contenders first ++ second.filterMap Attempt.requested? := by
  simp [contenders]

private theorem contenders_nil_max? (board : Board) :
    (board.contenders []).max? = board.currentNumber? := by
  cases shown : board.currentNumber? with
  | none => simp [contenders, shown]
  | some current => simp [contenders, shown]

private theorem contenders_of_requested (requested : attempt.requested? = some number) :
    board.contenders [attempt] = board.currentNumber?.toList ++ [number] := by
  simp [contenders, requested]

private theorem currentNumber?_attempt (valid : board.settings.check = .ok ()) (attempt : Attempt) :
    (board.attempt attempt).2.currentNumber? = (board.contenders [attempt]).max? := by
  have effect := effect_attempt board attempt
  cases requested : attempt.requested? with
  | none =>
      have same : board.contenders [attempt] = board.contenders [] := by
        simp [contenders, requested]
      rw [currentNumber?, effect.of_not_requested requested, ← currentNumber?, same,
        contenders_nil_max?]
  | some number =>
      rw [contenders_of_requested requested]
      rcases effect.of_requested valid requested with
        ⟨newer, edition, _, shown, numbered, _⟩ | ⟨current, shown, stale, refused⟩
      · rw [currentNumber?_of_shown shown, numbered]
        symm
        rw [List.max?_eq_some_iff]
        refine ⟨by simp, ?_⟩
        intro other member
        rcases List.mem_append.mp member with earlier | last
        · exact UInt64.le_of_lt (newer other (Option.mem_toList.mp earlier))
        · exact UInt64.le_of_eq (List.mem_singleton.mp last)
      · rw [refused, shown]
        symm
        rw [List.max?_eq_some_iff]
        refine ⟨by simp, ?_⟩
        intro other member
        rcases List.mem_append.mp member with earlier | last
        · exact UInt64.le_of_eq (by simpa using earlier)
        · exact (List.mem_singleton.mp last) ▸ stale

/-- After every attempt the published number stands for all contenders so far. -/
theorem currentNumber?_run (valid : board.settings.check = .ok ()) (attempts : List Attempt) :
    (board.run attempts).currentNumber? = (board.contenders attempts).max? := by
  induction attempts generalizing board with
  | nil => exact (contenders_nil_max? board).symm
  | cons attempt rest ih =>
      rw [run_cons, ih (check_attempt valid attempt), contenders,
        currentNumber?_attempt valid attempt, max?_toList_append, ← contenders_append]
      rfl

private theorem outdone_run_iff (valid : board.settings.check = .ok ()) (attempts : List Attempt)
    (number : UInt64) :
    (board.run attempts).Outdone number ↔ ∀ other ∈ board.contenders attempts, other < number := by
  rw [Outdone, currentNumber?_run valid]
  constructor
  · intro newer other member
    cases found : (board.contenders attempts).max? with
    | none =>
        rw [List.max?_eq_none_iff] at found
        rw [found] at member
        cases member
    | some greatest =>
        have bound := (List.max?_eq_some_iff.mp found).2 other member
        exact UInt64.lt_of_le_of_lt bound (newer greatest found)
  · intro newer greatest found
    exact newer greatest (List.max?_eq_some_iff.mp found).1

private theorem decided_of_running (valid : board.settings.check = .ok ())
    (requested : attempt.requested? = some number) {earlier : List UInt64}
    (running : board.currentNumber? = earlier.max?) : board.Decided attempt number earlier := by
  rcases (effect_attempt board attempt).of_requested valid requested with
    ⟨newer, edition, answered, shown⟩ | ⟨current, published, stale, refused⟩
  · refine ⟨⟨?_, ?_⟩, ?_, ?_⟩
    · intro _
      cases found : board.current? with
      | none => exact .inl rfl
      | some previous =>
          have numbered := currentNumber?_of_shown found
          exact .inr ⟨_, running ▸ numbered, newer _ numbered⟩
    · intro _
      exact ⟨edition, answered⟩
    · intro other found
      rw [answered] at found
      cases found
      exact shown
    · intro fault failed
      rw [answered] at failed
      cases failed
  · refine ⟨⟨?_, ?_⟩, ?_, ?_⟩
    · rintro ⟨edition, answered⟩
      rw [refused] at answered
      cases answered
    · rintro (empty | ⟨greatest, found, below⟩)
      · rw [currentNumber?, empty] at published
        cases published
      · rw [← running, published] at found
        cases found
        exact absurd stale (UInt64.not_le.mpr below)
    · intro edition answered
      rw [refused] at answered
      cases answered
    · intro fault failed
      rw [refused] at failed ⊢
      cases failed
      exact ⟨rfl, current, running ▸ published, rfl⟩

private theorem prevails_of_unbeaten (valid : board.settings.check = .ok ()) {rest : List Attempt}
    (within : ∀ number ∈ rest.filterMap Attempt.requested?,
      ∃ current, (board.attempt attempt).2.currentNumber? = some current ∧ number ≤ current) :
    board.Prevails (attempt :: rest) (board.attempt attempt).2.current? := by
  have effect := effect_attempt board attempt
  cases requested : attempt.requested? with
  | none =>
      have same := effect.of_not_requested requested
      rw [currentNumber?, same, ← currentNumber?] at within
      rw [same]
      apply Prevails.initial
      simpa [requested] using within
  | some number =>
      rcases effect.of_requested valid requested with
        ⟨newer, edition, answered, shown, numbered, _⟩ | ⟨current, published, stale, refused⟩
      · rw [currentNumber?_of_shown shown, numbered] at within
        rw [shown]
        have split : attempt :: rest = [] ++ attempt :: rest := rfl
        refine .first split requested ?_ ?_ answered
        · exact (outdone_run_iff valid [] number).mp newer
        · intro other member
          obtain ⟨current, found, bound⟩ := within other member
          cases found
          exact bound
      · rw [refused] at within ⊢
        apply Prevails.initial
        intro other member
        simp only [List.filterMap_cons, requested, List.mem_cons] at member
        rcases member with rfl | last
        · exact ⟨current, published, stale⟩
        · exact within other last

/-- What prevails after the first attempt prevails with it. -/
private theorem Prevails.cons (valid : board.settings.check = .ok ()) {rest : List Attempt}
    {shown? : Option Edition} (later : (board.attempt attempt).2.Prevails rest shown?) :
    board.Prevails (attempt :: rest) shown? := by
  cases later with
  | initial within => exact prevails_of_unbeaten valid within
  | @first before after winner number edition split requested newer bound answered =>
      have split' : attempt :: rest = (attempt :: before) ++ winner :: after := by
        rw [split]
        rfl
      refine .first split' requested ?_ bound answered
      rw [← outdone_run_iff (check_attempt valid attempt)] at newer
      exact (outdone_run_iff valid (attempt :: before) number).mp newer

private theorem prevails_run (valid : board.settings.check = .ok ()) (attempts : List Attempt) :
    board.Prevails attempts (board.run attempts).current? := by
  induction attempts generalizing board with
  | nil => exact .initial (by simp)
  | cons attempt rest ih =>
      exact .cons valid (ih (check_attempt valid attempt))

/-- From a new board on, in every run of genuine attempts, an attempt to publish is
accepted exactly under a number above all earlier ones and is otherwise refused with
the greatest of them.  The board ends up with the greatest number, in whatever order
the attempts come, and shows the edition that was first under it and no other one. -/
theorem run_publishes_maximum {settings : Settings} {start : Board}
    {history attempts : List Attempt} (opened : Board.new settings = .ok start)
    (genuine : start.Genuine [] (history ++ attempts)) :
    let board := start.run history
    let final := board.run attempts
    (∀ before attempt after number, attempts = before ++ attempt :: after →
        attempt.requested? = some number →
          (board.run before).Decided attempt number (board.contenders before)) ∧
      final.currentNumber? = (board.contenders attempts).max? ∧
      (∀ reordered, attempts.Perm reordered →
        (board.run reordered).currentNumber? = final.currentNumber?) ∧
      board.Prevails attempts final.current? ∧
      ∀ edition ∈ start.editions (history ++ attempts),
        final.shows edition = true ↔ final.current? = some edition := by
  obtain ⟨checked, rfl⟩ := new_eq_ok_iff.mp opened
  intro board final
  have valid : board.settings.check = .ok () := check_run checked history
  refine ⟨?_, currentNumber?_run valid attempts, ?_, prevails_run valid attempts, ?_⟩
  · intro before attempt after number _ requested
    exact decided_of_running (check_run valid before) requested (currentNumber?_run valid before)
  · intro reordered permutation
    rw [currentNumber?_run valid, currentNumber?_run valid]
    have asked := permutation.filterMap Attempt.requested?
    exact (max?_eq_of_perm (asked.append_left _)).symm
  · intro edition member
    have empty : Consistent { settings, made := 0, current? := none } [] :=
      ⟨by simp, by simp, by simp⟩
    have consistent := consistent_run empty genuine
    rw [run_append, List.nil_append] at consistent
    exact consistent.shows_iff member

theorem five_published_before_three :
    ∃ edition start,
      Board.new { cacheBytes := 64, datasetBytes := 128 } = .ok start ∧
        let built := start.run [.build { cacheBytes := 64, datasetBytes := 128 } 5 []]
        let final := built.run [.publish edition, .advance 3 [1], .publish edition]
        built.currentNumber? = none ∧ final.currentNumber? = some 5 ∧
          (final.shows edition = true ↔ final.current? = some edition) := by
  have valid : Settings.check { cacheBytes := 64, datasetBytes := 128 } = .ok () := rfl
  obtain ⟨epoch, made, grown⟩ := Epoch.ofSeed_of_valid valid 5 []
  let edition : Edition := { serial := 0, epoch }
  obtain ⟨start, opened⟩ : ∃ start,
      Board.new { cacheBytes := 64, datasetBytes := 128 } = .ok start := ⟨_, rfl⟩
  let first : Attempt := .build { cacheBytes := 64, datasetBytes := 128 } 5 []
  let later : List Attempt := [.publish edition, .advance 3 [1], .publish edition]
  have built : start.attempt first = (.ok edition, { start with made := 1 }) := by
    rw [← Except.ok.inj opened]
    exact attempt_build_of_ok made _
  have genuine : start.Genuine [] ([first] ++ later) := by
    simp [Genuine, built, later, Except.toOption]
  have answered : edition ∈ start.editions ([first] ++ later) := by
    simp [editions, built, Except.toOption]
  have unpublished : (start.run [first]).currentNumber? = none := by
    have empty : start.current? = none := by rw [← Except.ok.inj opened]
    simp [run, built, currentNumber?, empty]
  have numbered : edition.epoch.number = 5 := grown.number_eq
  obtain ⟨_, greatest, _, _, shows⟩ := run_publishes_maximum opened genuine
  refine ⟨edition, start, opened, unpublished, ?_, shows edition answered⟩
  have contending : (start.run [first]).contenders later = [5, 3, 5] := by
    simp [contenders, unpublished, later, Attempt.requested?, numbered]
  rw [greatest, contending]
  decide

end Board

end MemoryHard
