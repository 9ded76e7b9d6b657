import MemoryHard.Proofs.Outcome
import MemoryHard.Work.RowSource

/-!
# Inquiries

An inquiry asks for rows one after the other, and every answer decides how it goes on.
Carried out over a source it ends at the first refusal.  Its trace lists what the source
was asked and how it answered.  The answers so far determine the next number, so sources
that answer alike are asked alike.
-/

namespace MemoryHard

variable {σ τ γ α : Type}

/-- A number asked of a source, with the answer. -/
structure Exchange where
  index : Nat
  answer : Except Refusal Block

/-- Items noted one after the other. -/
theorem foldl_append_singleton {β : Type} (note : α → β) (items : List α) :
    items.foldl (fun notes item => notes ++ [note item]) [] = items.map note := by
  rw [List.foldl_append_eq_append, List.nil_append, ← List.flatMap_def, ← List.map_eq_flatMap]

namespace RowSource

/-- The same source, with a note of every exchange. -/
def noting (source : RowSource σ) (note : γ → Exchange → γ) : RowSource (σ × γ) :=
  fun index => ExceptT.mk fun (state, notes) =>
    let (answer, state) := (source index).run.run state
    (answer, (state, note notes ⟨index, answer⟩))

/-- The same source, with the exchanges so far in order. -/
def traced (source : RowSource σ) : RowSource (σ × List Exchange) :=
  source.noting fun trace exchange => trace ++ [exchange]

theorem recorded_eq_noting (source : RowSource σ) :
    source.recorded = source.noting fun asked exchange => asked ++ [exchange.index] :=
  rfl

private theorem run_noting (source : RowSource σ) (note : γ → Exchange → γ) (index : Nat)
    (state : σ) (notes : γ) :
    ((source.noting note) index).run.run (state, notes) =
      (((source index).run.run state).1, (((source index).run.run state).2,
        note notes ⟨index, ((source index).run.run state).1⟩)) :=
  rfl

end RowSource

inductive Inquiry (α : Type) where
  | done (value : α)
  | ask (index : Nat) (next : Block → Inquiry α)

namespace Inquiry

def run (source : RowSource σ) : Inquiry α → ExceptT Refusal (StateM σ) α
  | .done value => pure value
  | .ask index next => do
      let row ← source index
      run source (next row)

def trace (source : RowSource σ) : Inquiry α → σ → List Exchange
  | .done _, _ => []
  | .ask index next, state =>
      let (answer, state) := (source index).run.run state
      ⟨index, answer⟩ ::
        match answer with
        | .ok row => trace source (next row) state
        | .error _ => []

section Steps

variable {source : RowSource σ} {index : Nat} {row : Block} {reason : Refusal} {state state' : σ}

theorem run_ask_of_ok (found : (source index).run.run state = (.ok row, state'))
    (next : Block → Inquiry α) :
    ((ask index next).run source).run.run state = ((next row).run source).run.run state' :=
  run_bind_of_ok found _

theorem run_ask_of_error (found : (source index).run.run state = (.error reason, state'))
    (next : Block → Inquiry α) :
    ((ask index next).run source).run.run state = (.error reason, state') :=
  run_bind_of_error found _

theorem trace_ask_of_ok (found : (source index).run.run state = (.ok row, state'))
    (next : Block → Inquiry α) :
    (ask index next).trace source state =
      ⟨index, .ok row⟩ :: (next row).trace source state' := by
  rw [trace, found]

theorem trace_ask_of_error (found : (source index).run.run state = (.error reason, state'))
    (next : Block → Inquiry α) :
    (ask index next).trace source state = [⟨index, .error reason⟩] := by
  rw [trace, found]

end Steps

/-- Notes are taken of the whole trace and make no difference. -/
theorem run_noting (source : RowSource σ) (note : γ → Exchange → γ) (inquiry : Inquiry α)
    (state : σ) (notes : γ) :
    (inquiry.run (source.noting note)).run.run (state, notes) =
      (((inquiry.run source).run.run state).1, (((inquiry.run source).run.run state).2,
        (inquiry.trace source state).foldl note notes)) := by
  induction inquiry generalizing state notes with
  | done value => rfl
  | ask index next ih =>
      have noted := source.run_noting note index state notes
      rcases found : (source index).run.run state with ⟨answer, state'⟩
      rw [found] at noted
      cases answer with
      | ok row =>
          rw [run_ask_of_ok noted, run_ask_of_ok found, trace_ask_of_ok found, ih]
          rfl
      | error reason =>
          rw [run_ask_of_error noted, run_ask_of_error found, trace_ask_of_error found]
          rfl

/-- The exchanges lead to the outcome: every answer is a row, or all but the last one are
and the last one is the refusal that comes out. -/
inductive Leads : List Exchange → Except Refusal α → Prop where
  | done (value : α) : Leads [] (.ok value)
  | refused (index : Nat) (reason : Refusal) : Leads [⟨index, .error reason⟩] (.error reason)
  | row {exchanges : List Exchange} {outcome : Except Refusal α} (index : Nat) (row : Block)
      (later : Leads exchanges outcome) : Leads (⟨index, .ok row⟩ :: exchanges) outcome

theorem leads (source : RowSource σ) (inquiry : Inquiry α) (state : σ) :
    Leads (inquiry.trace source state) ((inquiry.run source).run.run state).1 := by
  induction inquiry generalizing state with
  | done value => exact .done value
  | ask index next ih =>
      rcases found : (source index).run.run state with ⟨answer, state'⟩
      cases answer with
      | ok row =>
          rw [run_ask_of_ok found, trace_ask_of_ok found]
          exact .row index row (ih row state')
      | error reason =>
          rw [run_ask_of_error found, trace_ask_of_error found]
          exact .refused index reason

namespace Leads

variable {exchanges : List Exchange} {outcome : Except Refusal α}

theorem isOk_iff (leads : Leads exchanges outcome) :
    (∃ value, outcome = .ok value) ↔ ∀ exchange ∈ exchanges, ∃ row, exchange.answer = .ok row := by
  induction leads with
  | done value => simp
  | refused index reason => simp
  | row index row later ih => simp [ih]

/-- A refusal is the last answer and comes out unchanged. -/
theorem of_refusal (leads : Leads exchanges outcome) {place index : Nat} {reason : Refusal}
    (refused : exchanges[place]? = some ⟨index, .error reason⟩) :
    exchanges.length = place + 1 ∧ outcome = .error reason := by
  induction leads generalizing place with
  | done value => simp at refused
  | refused other cause =>
      cases place with
      | zero =>
          cases refused
          exact ⟨rfl, rfl⟩
      | succ place => simp at refused
  | row other row later ih =>
      cases place with
      | zero => simp at refused
      | succ place =>
          obtain ⟨length, same⟩ := ih refused
          exact ⟨congrArg Nat.succ length, same⟩

theorem exists_refusal (leads : Leads exchanges outcome) {reason : Refusal}
    (failed : outcome = .error reason) :
    ∃ (place index : Nat), exchanges[place]? = some ⟨index, .error reason⟩ := by
  induction leads with
  | done value => cases failed
  | refused index cause =>
      cases failed
      exact ⟨0, index, rfl⟩
  | row other row later ih =>
      obtain ⟨place, index, refused⟩ := ih failed
      exact ⟨place + 1, index, refused⟩

end Leads

section TwoSources

variable {source : RowSource σ} {other : RowSource τ}

/-- After the same answers the same number is asked. -/
theorem asked_eq_of_answers (inquiry : Inquiry α) (count : Nat) (state : σ) (state' : τ)
    (same : ((inquiry.trace source state).map Exchange.answer).take count =
      ((inquiry.trace other state').map Exchange.answer).take count) :
    ((inquiry.trace source state).map Exchange.index).take (count + 1) =
      ((inquiry.trace other state').map Exchange.index).take (count + 1) := by
  induction inquiry generalizing count state state' with
  | done value => rfl
  | ask index next ih =>
      rcases first : (source index).run.run state with ⟨answer, middle⟩
      rcases second : (other index).run.run state' with ⟨answer', middle'⟩
      simp only [trace, first, second, List.map_cons, List.take_succ_cons] at same ⊢
      cases count with
      | zero => rfl
      | succ count =>
          obtain ⟨rfl, later⟩ := List.cons.inj same
          cases answer with
          | ok row => exact congrArg (index :: ·) (ih row count middle middle' later)
          | error reason => rfl

/-- After the same answers nothing else differs. -/
theorem trace_eq_of_answers (inquiry : Inquiry α) (state : σ) (state' : τ)
    (same : (inquiry.trace source state).map Exchange.answer =
      (inquiry.trace other state').map Exchange.answer) :
    inquiry.trace source state = inquiry.trace other state' ∧
      ((inquiry.run source).run.run state).1 = ((inquiry.run other).run.run state').1 := by
  induction inquiry generalizing state state' with
  | done value => exact ⟨rfl, rfl⟩
  | ask index next ih =>
      rcases first : (source index).run.run state with ⟨answer, middle⟩
      rcases second : (other index).run.run state' with ⟨answer', middle'⟩
      simp only [trace, first, second, List.map_cons] at same
      obtain ⟨rfl, later⟩ := List.cons.inj same
      cases answer with
      | ok row =>
          obtain ⟨asked, outcome⟩ := ih row middle middle' later
          rw [run_ask_of_ok first, run_ask_of_ok second, trace_ask_of_ok first,
            trace_ask_of_ok second, asked]
          exact ⟨rfl, outcome⟩
      | error reason =>
          rw [run_ask_of_error first, run_ask_of_error second, trace_ask_of_error first,
            trace_ask_of_error second]
          exact ⟨rfl, rfl⟩

end TwoSources

end Inquiry

end MemoryHard
