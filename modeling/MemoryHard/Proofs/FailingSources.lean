import MemoryHard.Proofs.EvaluationInquiry

/-!
# Sources that fail

A source may refuse any row, and may decide on it by what it was asked before.  The first
refusal ends an evaluation: nothing is asked after it, and it comes out unchanged.  What
was asked up to there depends on the rows before it alone, and a refusal that would come
after the last row is never seen.
-/

namespace MemoryHard

variable {σ τ : Type}

namespace RowSource

/-- The source as long as it has been asked fewer than `limit` numbers.  After that every
number is refused. -/
def failingFrom (source : RowSource σ) (limit : Nat) (reason : Refusal) : RowSource (σ × Nat) :=
  fun index => ExceptT.mk fun (state, count) =>
    if count < limit then
      let (answer, state) := (source index).run.run state
      (answer, (state, count + 1))
    else
      (.error reason, (state, count))

private theorem run_failingFrom {source : RowSource σ} {limit index count : Nat} {state state' : σ}
    {answer : Except Refusal Block} (early : count < limit)
    (found : (source index).run.run state = (answer, state')) (reason : Refusal) :
    ((source.failingFrom limit reason) index).run.run (state, count) =
      (answer, (state', count + 1)) := by
  obtain ⟨same, after⟩ := Prod.mk.inj found
  subst same after
  exact if_pos early

end RowSource

/-- A refusal behind the end of the trace makes no difference. -/
theorem Inquiry.trace_failingFrom {α : Type} {limit : Nat} (inquiry : Inquiry α)
    (source : RowSource σ) (reason : Refusal) (state : σ) (count : Nat)
    (late : count + (inquiry.trace source state).length ≤ limit) :
    inquiry.trace (source.failingFrom limit reason) (state, count) =
      inquiry.trace source state := by
  induction inquiry generalizing state count with
  | done value => rfl
  | ask index next ih =>
      rcases found : (source index).run.run state with ⟨answer, state'⟩
      cases answer with
      | ok row =>
          rw [trace_ask_of_ok found, List.length_cons] at late
          have early : count < limit := by omega
          have same := RowSource.run_failingFrom early found reason
          rw [trace_ask_of_ok found, trace_ask_of_ok same, ih row state' (count + 1) (by omega)]
      | error refusal =>
          rw [trace_ask_of_error found, List.length_singleton] at late
          have early : count < limit := by omega
          have same := RowSource.run_failingFrom early found reason
          rw [trace_ask_of_error found, trace_ask_of_error same]

namespace Session

/-- The first refusal of the source is the end. -/
structure StopsAtRefusal (session : Session σ) : Prop where
  /-- It succeeds exactly if 128 numbers are answered with rows. -/
  isOk_iff : (∃ evaluation, session.outcome = .ok evaluation) ↔
    session.answers.length = 128 ∧ ∀ answer ∈ session.answers, ∃ row, answer = .ok row
  /-- A refusal is the last answer, and it is the outcome. -/
  refused : ∀ place reason, session.answers[place]? = some (.error reason) →
    place < 128 ∧ session.asked.length = place + 1 ∧ session.outcome = .error reason
  /-- There is no other reason to fail. -/
  exists_refused : ∀ reason, session.outcome = .error reason →
    ∃ place : Nat, session.answers[place]? = some (.error reason)

/-- The sources are asked alike as long as they answer alike. -/
structure AskedAlike (session : Session σ) (other : Session τ) : Prop where
  asked_eq : ∀ count, session.answers.take count = other.answers.take count →
    session.asked.take (count + 1) = other.asked.take (count + 1)
  /-- What a refused session asked is the start of what the other asks, whatever the other
  source answers from there on. -/
  asked_of_refused : ∀ place reason, session.answers[place]? = some (.error reason) →
    session.answers.take place = other.answers.take place →
      session.asked = other.asked.take (place + 1)
  outcome_eq : session.answers.take 128 = other.answers.take 128 →
    session.asked = other.asked ∧ session.outcome = other.outcome

end Session

namespace Evaluation

/-- Over a dataset of `bytes` bytes the evaluation asks nothing if the size is refused and
otherwise fails as its source does, at once and for the same reason. -/
structure StopsAtFailure (evaluate : Evaluator) (bytes : Nat) : Prop where
  size : ¬(bytes % 64 = 0 ∧ 128 ≤ bytes) → ∀ {σ : Type} (source : RowSource σ) (state : σ),
    ∃ reason, SizeRefused bytes reason ∧
      session evaluate source state = { outcome := .error reason, state, trace := [] }
  stops : bytes % 64 = 0 ∧ 128 ≤ bytes → ∀ {σ : Type} (source : RowSource σ) (state : σ),
    (session evaluate source state).StopsAtRefusal
  alike : bytes % 64 = 0 ∧ 128 ≤ bytes → ∀ {σ τ : Type} (source : RowSource σ) (state : σ)
      (other : RowSource τ) (state' : τ),
    (session evaluate source state).AskedAlike (session evaluate other state')
  /-- A refusal after 128 numbers makes no difference. -/
  late : ∀ {σ : Type} (source : RowSource σ) (state : σ) (limit : Nat) (reason : Refusal),
    128 ≤ limit →
      (session evaluate (source.failingFrom limit reason) (state, 0)).outcome =
          (session evaluate source state).outcome ∧
        (session evaluate (source.failingFrom limit reason) (state, 0)).asked =
          (session evaluate source state).asked
  /-- The session is the evaluation as it is, and its numbers are those on record. -/
  observed : ∀ {σ : Type} (source : RowSource σ) (state : σ),
    (evaluate source).run.run state =
        ((session evaluate source state).outcome, (session evaluate source state).state) ∧
      (evaluate source.recorded).run.run (state, []) =
        ((session evaluate source state).outcome, ((session evaluate source state).state,
          (session evaluate source state).asked))

variable {bytes : Nat}

private theorem session_stopsAtRefusal (aligned : bytes % 64 = 0) (large : 128 ≤ bytes)
    (H : HashFunction) (seed : Block) (source : RowSource σ) (state : σ) :
    (session (ofSeed H seed bytes) source state).StopsAtRefusal := by
  have pages := asksPages_wholeInquiry large H seed
  have leads := (wholeInquiry H seed (bytes / 128)).leads source state
  have bound := pages.length_le source state
  rw [session_of_admissible aligned large]
  refine ⟨?_, ?_, ?_⟩
  · rw [Session.answers, List.forall_mem_map, List.length_map]
    constructor
    · intro succeeded
      have answered := leads.isOk_iff.mp succeeded
      exact ⟨pages.length_eq source state answered, answered⟩
    · rintro ⟨-, answered⟩
      exact leads.isOk_iff.mpr answered
  · intro place reason refused
    rw [Session.answers, List.getElem?_map, Option.map_eq_some_iff] at refused
    obtain ⟨⟨index, answer⟩, found, rfl⟩ := refused
    obtain ⟨length, failed⟩ := leads.of_refusal found
    rw [Session.asked, List.length_map]
    exact ⟨by omega, length, failed⟩
  · intro reason failed
    obtain ⟨place, index, found⟩ := leads.exists_refusal failed
    refine ⟨place, ?_⟩
    rw [Session.answers, List.getElem?_map, found]
    rfl

private theorem session_asked_eq (aligned : bytes % 64 = 0) (large : 128 ≤ bytes)
    (H : HashFunction) (seed : Block) {source : RowSource σ} {state : σ} {other : RowSource τ}
    {state' : τ} {count : Nat}
    (same : (session (ofSeed H seed bytes) source state).answers.take count =
      (session (ofSeed H seed bytes) other state').answers.take count) :
    (session (ofSeed H seed bytes) source state).asked.take (count + 1) =
      (session (ofSeed H seed bytes) other state').asked.take (count + 1) := by
  rw [session_of_admissible aligned large, session_of_admissible aligned large] at same ⊢
  exact Inquiry.asked_eq_of_answers _ count state state' same

private theorem session_askedAlike (aligned : bytes % 64 = 0) (large : 128 ≤ bytes)
    (H : HashFunction) (seed : Block) (source : RowSource σ) (state : σ) (other : RowSource τ)
    (state' : τ) :
    (session (ofSeed H seed bytes) source state).AskedAlike
      (session (ofSeed H seed bytes) other state') := by
  refine ⟨?_, ?_, ?_⟩
  · intro count same
    exact session_asked_eq aligned large H seed same
  · intro place reason refused same
    have stops := session_stopsAtRefusal aligned large H seed source state
    obtain ⟨-, length, -⟩ := stops.refused place reason refused
    have asked := session_asked_eq aligned large H seed same
    rwa [List.take_of_length_le (Nat.le_of_eq length)] at asked
  · intro same
    have pages := asksPages_wholeInquiry large H seed
    have bound := pages.length_le source state
    have boundToo := pages.length_le other state'
    rw [session_of_admissible aligned large, session_of_admissible aligned large] at same ⊢
    rw [Session.answers, Session.answers, List.take_of_length_le (by simpa using bound),
      List.take_of_length_le (by simpa using boundToo)] at same
    obtain ⟨trace, outcome⟩ := Inquiry.trace_eq_of_answers _ state state' same
    exact ⟨congrArg (List.map Exchange.index) trace, outcome⟩

private theorem session_failingFrom (H : HashFunction) (seed : Block) (source : RowSource σ)
    (state : σ) {limit : Nat} (late : 128 ≤ limit) (reason : Refusal) :
    (session (ofSeed H seed bytes) (source.failingFrom limit reason) (state, 0)).outcome =
        (session (ofSeed H seed bytes) source state).outcome ∧
      (session (ofSeed H seed bytes) (source.failingFrom limit reason) (state, 0)).asked =
        (session (ofSeed H seed bytes) source state).asked := by
  rcases admissible_or_refused bytes with ⟨aligned, large⟩ | ⟨cause, refused⟩
  · have bound := (asksPages_wholeInquiry large H seed).length_le source state
    have behind : 0 + ((wholeInquiry H seed (bytes / 128)).trace source state).length ≤ limit := by
      omega
    have same := Inquiry.trace_failingFrom _ source reason state 0 behind
    obtain ⟨trace, outcome⟩ := Inquiry.trace_eq_of_answers _ (state, 0) state
      (congrArg (List.map Exchange.answer) same)
    rw [session_of_admissible aligned large, session_of_admissible aligned large]
    exact ⟨outcome, congrArg (List.map Exchange.index) trace⟩
  · rw [session_of_refused refused, session_of_refused refused]
    exact ⟨rfl, rfl⟩

/-- An evaluation from a seed or from a nonce stops at the first refusal of its source, with
this refusal, and does not see any that would come after the last row. -/
theorem failing_source_stops (H : HashFunction) (bytes : Nat) :
    (∀ seed, StopsAtFailure (ofSeed H seed bytes) bytes) ∧
      ∀ header nonce, StopsAtFailure (ofNonce H header nonce bytes) bytes := by
  have seeded : ∀ seed, StopsAtFailure (ofSeed H seed bytes) bytes := by
    intro seed
    refine ⟨?_, ?_, ?_, ?_, ?_⟩
    · intro inadmissible σ source state
      rcases admissible_or_refused bytes with admissible | ⟨reason, refused⟩
      · exact absurd admissible inadmissible
      · exact ⟨reason, refused, session_of_refused refused H seed source state⟩
    · rintro ⟨aligned, large⟩ σ source state
      exact session_stopsAtRefusal aligned large H seed source state
    · rintro ⟨aligned, large⟩ σ τ source state other state'
      exact session_askedAlike aligned large H seed source state other state'
    · intro σ source state limit reason late
      exact session_failingFrom H seed source state late reason
    · intro σ source state
      exact run_eq_session H seed bytes source state
  exact ⟨seeded, fun header nonce => seeded (seedBlock H header nonce)⟩

end Evaluation

end MemoryHard
