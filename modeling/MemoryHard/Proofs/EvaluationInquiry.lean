import Mathlib.Algebra.Group.Nat.Defs
import MemoryHard.Proofs.Inquiries
import MemoryHard.Proofs.Sizes

/-!
# Evaluations as inquiries

Over a size that is admissible an evaluation is an inquiry for 64 pages, each for its two
rows in order.  Which pages these are depends on the answers, how many and how large they
are does not.  A session is an evaluation with the trace that it leaves at its source.
-/

namespace MemoryHard

variable {σ τ α : Type}

namespace Inquiry

/-- The inquiry asks for `count` pages below a limit, each for both of its rows in order. -/
inductive AsksPages (limit : Nat) : Nat → Inquiry α → Prop where
  | done (value : α) : AsksPages limit 0 (.done value)
  | page {page count : Nat} {next : Block → Block → Inquiry α} (inside : page < limit)
      (later : ∀ first second, AsksPages limit count (next first second)) :
      AsksPages limit (count + 1)
        (.ask (2 * page) fun first => .ask (2 * page + 1) fun second => next first second)

end Inquiry

/-- Both rows of one page after the other below a limit, where the last page may break
off after its first row. -/
inductive PageRows (limit : Nat) : List Nat → Prop where
  | nil : PageRows limit []
  | half {page : Nat} (inside : page < limit) : PageRows limit [2 * page]
  | page {page : Nat} {rest : List Nat} (inside : page < limit) (later : PageRows limit rest) :
      PageRows limit (2 * page :: (2 * page + 1) :: rest)

namespace PageRows

variable {limit : Nat} {asked : List Nat}

theorem lt_of_mem (rows : PageRows limit asked) {index : Nat} (member : index ∈ asked) :
    index < 2 * limit := by
  induction rows with
  | nil => cases member
  | half inside =>
      have : index = _ := List.mem_singleton.mp member
      omega
  | page inside later ih =>
      rcases List.mem_cons.mp member with first | behind
      · omega
      · rcases List.mem_cons.mp behind with second | behind
        · omega
        · exact ih behind

theorem mono (rows : PageRows limit asked) {larger : Nat} (below : limit ≤ larger) :
    PageRows larger asked := by
  induction rows with
  | nil => exact .nil
  | half inside => exact .half (by omega)
  | page inside later ih => exact .page (by omega) ih

end PageRows

namespace Inquiry

/-- Asking for a page breaks off at either row or goes on with both. -/
theorem trace_page (page : Nat) (next : Block → Block → Inquiry α) (source : RowSource σ)
    (state : σ) {exchanges : List Exchange}
    (left : (ask (2 * page) fun first => ask (2 * page + 1) fun second =>
      next first second).trace source state = exchanges) :
    (∃ reason, exchanges = [⟨2 * page, .error reason⟩]) ∨
      (∃ first reason, exchanges = [⟨2 * page, .ok first⟩, ⟨2 * page + 1, .error reason⟩]) ∨
      ∃ first second state', exchanges =
        ⟨2 * page, .ok first⟩ :: ⟨2 * page + 1, .ok second⟩ ::
          (next first second).trace source state' := by
  subst left
  rcases asked : (source (2 * page)).run.run state with ⟨answer, middle⟩
  cases answer with
  | error reason => exact .inl ⟨reason, trace_ask_of_error asked _⟩
  | ok first =>
      rw [trace_ask_of_ok asked]
      rcases askedAgain : (source (2 * page + 1)).run.run middle with ⟨answer, final⟩
      cases answer with
      | error reason =>
          rw [trace_ask_of_error askedAgain]
          exact .inr (.inl ⟨first, reason, rfl⟩)
      | ok second =>
          rw [trace_ask_of_ok askedAgain]
          exact .inr (.inr ⟨first, second, final, rfl⟩)

namespace AsksPages

variable {limit count : Nat} {inquiry : Inquiry α}

theorem pageRows (pages : inquiry.AsksPages limit count) (source : RowSource σ) (state : σ) :
    PageRows limit ((inquiry.trace source state).map Exchange.index) := by
  induction pages generalizing state with
  | done value => exact .nil
  | page inside later ih =>
      rcases trace_page _ _ source state rfl with
        ⟨reason, same⟩ | ⟨first, reason, same⟩ | ⟨first, second, state', same⟩
      · rw [same]
        exact .half inside
      · rw [same]
        exact .page inside .nil
      · rw [same]
        exact .page inside (ih first second state')

theorem length_le (pages : inquiry.AsksPages limit count) (source : RowSource σ) (state : σ) :
    (inquiry.trace source state).length ≤ 2 * count := by
  induction pages generalizing state with
  | done value => exact Nat.le_refl 0
  | page inside later ih =>
      rcases trace_page _ _ source state rfl with
        ⟨reason, same⟩ | ⟨first, reason, same⟩ | ⟨first, second, state', same⟩
      · rw [same, List.length_singleton]
        omega
      · rw [same, List.length_cons, List.length_singleton]
        omega
      · have bound := ih first second state'
        rw [same, List.length_cons, List.length_cons]
        omega

/-- Only a refusal ends the inquiry early. -/
theorem length_eq (pages : inquiry.AsksPages limit count) (source : RowSource σ) (state : σ)
    (answered : ∀ exchange ∈ inquiry.trace source state, ∃ row, exchange.answer = .ok row) :
    (inquiry.trace source state).length = 2 * count := by
  induction pages generalizing state with
  | done value => rfl
  | page inside later ih =>
      rcases trace_page _ _ source state rfl with
        ⟨reason, same⟩ | ⟨first, reason, same⟩ | ⟨first, second, state', same⟩
      · rw [same] at answered
        simp at answered
      · rw [same] at answered
        simp at answered
      · rw [same] at answered ⊢
        have behind := ih first second state' fun exchange member =>
          answered exchange (List.mem_cons_of_mem _ (List.mem_cons_of_mem _ member))
        rw [List.length_cons, List.length_cons, behind]
        omega

end AsksPages

end Inquiry

namespace Evaluation

/-- The evaluation that ends with the given mix. -/
def ofMix (H : HashFunction) (seed : Block) (mix : Mix) : Evaluation where
  digest := closingDigest H seed mix.compress
  mixDigest := mix.compress

/-- The word of the seed that takes part in the selection of every page. -/
def seedWord (seed : Block) : Word :=
  (Row.ofBlock seed).get ⟨0, Row.first_lt⟩

/-- What is left of an evaluation before the given accesses. -/
def inquiry (H : HashFunction) (seed : Block) (pages : Nat) :
    (numbers : List Nat) → (mix : Mix) → Inquiry Evaluation
  | [], mix => .done (ofMix H seed mix)
  | number :: numbers, mix =>
      let page := pageNumber (seedWord seed) pages number mix
      .ask (2 * page) fun first => .ask (2 * page + 1) fun second =>
        inquiry H seed pages numbers (mix.combine (Row.ofBlock first ++ Row.ofBlock second))

def wholeInquiry (H : HashFunction) (seed : Block) (pages : Nat) : Inquiry Evaluation :=
  inquiry H seed pages (List.range accesses) (Mix.ofSeed seed)

private theorem run_inquiry (source : RowSource σ) (H : HashFunction) (seed : Block) (pages : Nat)
    (numbers : List Nat) (mix : Mix) :
    (inquiry H seed pages numbers mix).run source =
      (do
        let mix ← numbers.foldlM (access source (seedWord seed) pages) mix
        return ofMix H seed mix) := by
  induction numbers generalizing mix with
  | nil => rw [List.foldlM_nil, pure_bind]; rfl
  | cons number numbers ih =>
      simp only [inquiry, Inquiry.run, ih, List.foldlM_cons, access, fetchPage, bind_assoc,
        pure_bind]

theorem ofSeed_eq_run {bytes : Nat} (aligned : bytes % 64 = 0) (large : 128 ≤ bytes)
    (H : HashFunction) (seed : Block) (source : RowSource σ) :
    ofSeed H seed bytes source = (wholeInquiry H seed (bytes / 128)).run source := by
  rw [wholeInquiry, run_inquiry, ofSeed, pageCount_of_admissible aligned large]
  rfl

theorem ofSeed_of_refused {bytes : Nat} {reason : Refusal} (refused : SizeRefused bytes reason)
    (H : HashFunction) (seed : Block) (source : RowSource σ) (state : σ) :
    (ofSeed H seed bytes source).run.run state = (.error reason, state) := by
  rw [ofSeed, pageCount_of_refused refused]
  rfl

theorem pageNumber_lt {pages : Nat} (positive : 0 < pages) (seedWord : Word) (number : Nat)
    (mix : Mix) : pageNumber seedWord pages number mix < pages :=
  Nat.mod_lt _ positive

/-- A page is selected by a word, so only the first `2 ^ 32` pages ever are. -/
private theorem pageNumber_lt_min {pages : Nat} (positive : 0 < pages) (seedWord : Word)
    (number : Nat) (mix : Mix) : pageNumber seedWord pages number mix < min pages (2 ^ 32) := by
  apply Nat.lt_min.mpr
  refine ⟨pageNumber_lt positive seedWord number mix, ?_⟩
  exact Nat.lt_of_le_of_lt (Nat.mod_le _ pages) (UInt32.toNat_lt _)

private theorem asksPages_inquiry {pages : Nat} (positive : 0 < pages) (H : HashFunction)
    (seed : Block) (numbers : List Nat) (mix : Mix) :
    (inquiry H seed pages numbers mix).AsksPages (min pages (2 ^ 32)) numbers.length := by
  induction numbers generalizing mix with
  | nil => exact .done _
  | cons number numbers ih =>
      apply Inquiry.AsksPages.page
      · exact pageNumber_lt_min positive (seedWord seed) number mix
      · intro first second
        exact ih _

theorem asksPages_wholeInquiry {bytes : Nat} (large : 128 ≤ bytes) (H : HashFunction)
    (seed : Block) :
    (wholeInquiry H seed (bytes / 128)).AsksPages (min (bytes / 128) (2 ^ 32)) 64 := by
  have positive : 0 < bytes / 128 := by omega
  exact asksPages_inquiry positive H seed (List.range accesses) (Mix.ofSeed seed)

end Evaluation

/-- An evaluation over any source. -/
abbrev Evaluator : Type 1 :=
  ∀ {σ : Type}, RowSource σ → ExceptT Refusal (StateM σ) Evaluation

/-- What an evaluation over a source leads to, with the trace that it leaves. -/
structure Session (σ : Type) where
  outcome : Except Refusal Evaluation
  state : σ
  trace : List Exchange

namespace Session

def asked (session : Session σ) : List Nat :=
  session.trace.map Exchange.index

def answers (session : Session σ) : List (Except Refusal Block) :=
  session.trace.map Exchange.answer

end Session

namespace Evaluation

def session (evaluate : Evaluator) (source : RowSource σ) (state : σ) : Session σ :=
  let (outcome, state, trace) := (evaluate source.traced).run.run (state, [])
  { outcome, state, trace }

/-- The inquiry that an evaluation over an admissible size is. -/
theorem session_of_admissible {bytes : Nat} (aligned : bytes % 64 = 0) (large : 128 ≤ bytes)
    (H : HashFunction) (seed : Block) (source : RowSource σ) (state : σ) :
    session (ofSeed H seed bytes) source state =
      { outcome := (((wholeInquiry H seed (bytes / 128)).run source).run.run state).1
        state := (((wholeInquiry H seed (bytes / 128)).run source).run.run state).2
        trace := (wholeInquiry H seed (bytes / 128)).trace source state } := by
  rw [session, ofSeed_eq_run aligned large, RowSource.traced, Inquiry.run_noting,
    foldl_append_singleton, List.map_id']

theorem session_of_refused {bytes : Nat} {reason : Refusal} (refused : SizeRefused bytes reason)
    (H : HashFunction) (seed : Block) (source : RowSource σ) (state : σ) :
    session (ofSeed H seed bytes) source state =
      { outcome := .error reason, state, trace := [] } := by
  rw [session, ofSeed_of_refused refused]

/-- The session is the evaluation as it is, and the numbers it asks are those on record. -/
theorem run_eq_session (H : HashFunction) (seed : Block) (bytes : Nat) (source : RowSource σ)
    (state : σ) :
    (ofSeed H seed bytes source).run.run state =
        ((session (ofSeed H seed bytes) source state).outcome,
          (session (ofSeed H seed bytes) source state).state) ∧
      (ofSeed H seed bytes source.recorded).run.run (state, []) =
        ((session (ofSeed H seed bytes) source state).outcome,
          ((session (ofSeed H seed bytes) source state).state,
            (session (ofSeed H seed bytes) source state).asked)) := by
  rcases admissible_or_refused bytes with ⟨aligned, large⟩ | ⟨reason, refused⟩
  · rw [session_of_admissible aligned large, ofSeed_eq_run aligned large,
      ofSeed_eq_run aligned large, RowSource.recorded_eq_noting, Inquiry.run_noting,
      foldl_append_singleton]
    exact ⟨rfl, rfl⟩
  · rw [session_of_refused refused, ofSeed_of_refused refused, ofSeed_of_refused refused]
    exact ⟨rfl, rfl⟩

end Evaluation

end MemoryHard
