import MemoryHard.Hash.Pool

/-!
# Digesters keep nothing between digests

`DigesterPool.oneShots` answers a script with nothing in its state but the hash
functions of the digesters made so far, and hashes every message at once.  A pool of
digesters, each with a primitive that collects and resets, gives the same answers.
What carries the proof is that every digester of a pool is fresh between two steps:
its primitive holds no message and is as wide as a block.
-/

namespace MemoryHard

namespace Primitive

variable {width : Nat}

private theorem foldl_feed (primitive : Primitive width) (pieces : List Bytes) :
    pieces.foldl feed primitive =
      { primitive with pending := primitive.pending ++ pieces.flatten } := by
  induction pieces generalizing primitive with
  | nil => simp
  | cons piece pieces ih => simp [feed, ih, List.append_assoc]

@[simp] theorem finishInto_width (primitive : Primitive width) :
    primitive.finishInto width = some primitive.finish :=
  dif_pos rfl

end Primitive

namespace Digester

/-- The hash function behind an origin, where its digests are as wide as a block. -/
def hashOfOrigin : Origin → Except Refusal HashFunction
  | .name name => .ok name.hash
  | .primitive primitive => .ok primitive.hash
  | @Origin.checked width primitive =>
      if wide : width = 64 then
        .ok fun message => (primitive.hash message).cast wide
      else
        .error (.hashWidth width)

/-- The digester computes this function and holds no part of a message. -/
inductive Fresh : Digester → HashFunction → Prop where
  | fixed {primitive : Primitive 64} :
      primitive.pending = [] → Fresh (.fixed primitive) primitive.hash
  | checked {primitive : Primitive 64} :
      primitive.pending = [] → Fresh (.checked primitive) primitive.hash

variable {digester : Digester} {hash : HashFunction}

private theorem ofPrimitive?_eq_error_iff {width : Nat} (primitive : Primitive width)
    (reason : Refusal) :
    ofPrimitive? primitive = .error reason ↔ width ≠ 64 ∧ reason = .hashWidth width := by
  unfold ofPrimitive?
  split
  next wide => simp [wide]
  next narrow => simp [narrow, eq_comm]

/-- A digester is fresh when it is made, whatever its primitive was fed before. -/
theorem fresh_of_ofOrigin {origin : Origin} (made : ofOrigin origin = .ok digester) :
    ∃ hash, hashOfOrigin origin = .ok hash ∧ digester.Fresh hash := by
  cases origin with
  | name name =>
      cases made
      exact ⟨_, rfl, .fixed rfl⟩
  | primitive primitive =>
      cases made
      exact ⟨_, rfl, .fixed rfl⟩
  | @checked width primitive =>
      by_cases wide : width = 64
      · subst wide
        cases made
        exact ⟨primitive.hash, by simp [hashOfOrigin], .checked rfl⟩
      · rw [ofOrigin, ofPrimitive?, if_neg wide] at made
        cases made

private theorem hash_of_refused {origin : Origin} {reason : Refusal}
    (refused : ofOrigin origin = .error reason) : hashOfOrigin origin = .error reason := by
  cases origin with
  | name name => cases refused
  | primitive primitive => cases refused
  | checked primitive =>
      obtain ⟨narrow, rfl⟩ := (ofPrimitive?_eq_error_iff primitive reason).mp refused
      exact dif_neg narrow

/-- A fresh digester gives the hash of the whole message and is fresh again. -/
theorem Fresh.digestPieces (fresh : digester.Fresh hash) (pieces : List Bytes) :
    ∃ next, digester.digestPieces pieces = some (hash pieces.flatten, next) ∧
      next.Fresh hash := by
  cases fresh with
  | @fixed primitive empty =>
      refine ⟨.fixed primitive.reset, ?_, .fixed rfl⟩
      simp [Digester.digestPieces, Primitive.foldl_feed, Primitive.finish, Primitive.reset, empty]
  | @checked primitive empty =>
      refine ⟨.checked primitive.reset, ?_, .checked rfl⟩
      simp [Digester.digestPieces, Primitive.foldl_feed, Primitive.finish, Primitive.reset, empty]

theorem Fresh.digest (fresh : digester.Fresh hash) (message : Bytes) :
    ∃ next, digester.digest message = some (hash message, next) ∧ next.Fresh hash := by
  simpa [Digester.digest] using fresh.digestPieces [message]

theorem Fresh.function_eq (fresh : digester.Fresh hash) : digester.function = hash := by
  funext message
  obtain ⟨next, digested, _⟩ := fresh.digest message
  rw [function, digested]
  rfl

end Digester

namespace DigesterPool

/-- The hash functions that a step adds: making and copying add one, digests none. -/
def added (functions : List HashFunction) : Step → List HashFunction
  | .make origin => (Digester.hashOfOrigin origin).toOption.toList
  | .copy number => functions[number]?.toList
  | .digest .. => []
  | .digestPieces .. => []

/-- The hash of the message by the function of the given number. -/
def hashOf (functions : List HashFunction) (number : Nat) (message : Bytes) : Answer :=
  match functions[number]? with
  | some hash => .block (hash message)
  | none => .unknownDigester number

/-- The answer to a step when digesters are nothing but hash functions. -/
def oneShot (functions : List HashFunction) : Step → Answer
  | .make origin =>
      match Digester.hashOfOrigin origin with
      | .ok _ => .added functions.length
      | .error reason => .refused reason
  | .copy number =>
      match functions[number]? with
      | some _ => .added functions.length
      | none => .unknownDigester number
  | .digest number message => hashOf functions number message
  | .digestPieces number pieces => hashOf functions number pieces.flatten

/-- The answers of a script when digesters are nothing but hash functions. -/
def oneShots (functions : List HashFunction) : List Step → List Answer
  | [] => []
  | first :: rest => oneShot functions first :: oneShots (functions ++ added functions first) rest

/-- Every digester of the pool is fresh and computes the function of the same number. -/
structure Fresh (pool : DigesterPool) (functions : List HashFunction) : Prop where
  size_eq : pool.size = functions.length
  fresh : ∀ (number : Nat) (known : number < pool.size),
    ∃ hash, functions[number]? = some hash ∧ pool[number].Fresh hash

variable {pool : DigesterPool} {functions : List HashFunction}

private theorem fresh_empty : Fresh #[] [] :=
  ⟨rfl, fun number known => absurd known (Nat.not_lt_zero number)⟩

private theorem Fresh.getElem?_eq_none (fresh : pool.Fresh functions) {number : Nat}
    (unknown : ¬number < pool.size) : functions[number]? = none := by
  have size := fresh.size_eq
  exact List.getElem?_eq_none (by omega)

private theorem Fresh.push (fresh : pool.Fresh functions) {digester : Digester}
    {hash : HashFunction}
    (last : digester.Fresh hash) : Fresh (pool.push digester) (functions ++ [hash]) := by
  have size := fresh.size_eq
  refine ⟨by simp [size], ?_⟩
  intro number known
  by_cases earlier : number < pool.size
  · obtain ⟨other, found, first⟩ := fresh.fresh number earlier
    have inside : number < functions.length := by omega
    refine ⟨other, ?_, ?_⟩
    · rw [List.getElem?_append_left inside, found]
    · rw [Array.getElem_push_lt earlier]
      exact first
  · have here : number = pool.size := by
      rw [Array.size_push] at known
      omega
    subst here
    refine ⟨hash, by simp [size], ?_⟩
    rw [Array.getElem_push_eq]
    exact last

private theorem Fresh.set (fresh : pool.Fresh functions) {number : Nat} (known : number < pool.size)
    {digester : Digester} {hash : HashFunction} (found : functions[number]? = some hash)
    (again : digester.Fresh hash) : Fresh (pool.set number digester) functions := by
  refine ⟨by rw [Array.size_set, fresh.size_eq], ?_⟩
  intro other otherKnown
  rw [Array.getElem_set]
  split
  next same => exact ⟨hash, same ▸ found, again⟩
  next different => exact fresh.fresh other (by simpa using otherKnown)

/-- Asking for a digest is answered with the hash and leaves a fresh pool. -/
private theorem Fresh.ask (fresh : pool.Fresh functions) (number : Nat) {message : Bytes}
    {act : Digester → Option (Block × Digester)}
    (hashes : ∀ {digester : Digester} {hash : HashFunction}, digester.Fresh hash →
      ∃ next, act digester = some (hash message, next) ∧ next.Fresh hash) :
    (pool.ask number act).1 = hashOf functions number message ∧
      (pool.ask number act).2.Fresh functions := by
  by_cases known : number < pool.size
  · obtain ⟨hash, found, first⟩ := fresh.fresh number known
    obtain ⟨next, acted, again⟩ := hashes first
    rw [DigesterPool.ask, dif_pos known, acted, hashOf, found]
    exact ⟨rfl, fresh.set known found again⟩
  · rw [DigesterPool.ask, dif_neg known, hashOf, fresh.getElem?_eq_none known]
    exact ⟨rfl, fresh⟩

/-- What a step does to a fresh pool: the answer is that of the hash functions, and the
pool stays fresh. -/
theorem Fresh.step (fresh : pool.Fresh functions) (step : Step) :
    (pool.step step).1 = oneShot functions step ∧
      (pool.step step).2.Fresh (functions ++ added functions step) := by
  have size := fresh.size_eq
  cases step with
  | make origin =>
      cases made : Digester.ofOrigin origin with
      | ok digester =>
          obtain ⟨hash, known, first⟩ := Digester.fresh_of_ofOrigin made
          simp only [DigesterPool.step, made, add, oneShot, added, known, size]
          exact ⟨trivial, fresh.push first⟩
      | error reason =>
          have unknown := Digester.hash_of_refused made
          simp only [DigesterPool.step, made, oneShot, added, unknown]
          exact ⟨trivial, by simpa [Except.toOption] using fresh⟩
  | copy number =>
      by_cases known : number < pool.size
      · obtain ⟨hash, found, first⟩ := fresh.fresh number known
        simp only [DigesterPool.step, Array.getElem?_eq_getElem known, add, oneShot, added, found,
          size]
        exact ⟨trivial, fresh.push first⟩
      · simp only [DigesterPool.step, Array.getElem?_eq_none (Nat.le_of_not_lt known), oneShot,
          added, fresh.getElem?_eq_none known]
        exact ⟨trivial, by simpa using fresh⟩
  | digest number message =>
      rw [added, List.append_nil]
      exact fresh.ask number fun first => first.digest message
  | digestPieces number pieces =>
      rw [added, List.append_nil]
      exact fresh.ask number fun first => first.digestPieces pieces

/-- Every step may add a digester, and its function is added with it. -/
theorem Fresh.run_eq (fresh : pool.Fresh functions) (script : List Step) :
    run pool script = oneShots functions script := by
  induction script generalizing pool functions with
  | nil => rfl
  | cons first rest ih =>
      obtain ⟨answered, next⟩ := fresh.step first
      rw [oneShots, ← answered, ← ih next]
      rfl

private theorem hashOf_ne_misfit (functions : List HashFunction) (number : Nat) (message : Bytes)
    (other : Nat) : hashOf functions number message ≠ .misfit other := by
  unfold hashOf
  split <;> simp

private theorem oneShot_ne_misfit (functions : List HashFunction) (step : Step) (number : Nat) :
    oneShot functions step ≠ .misfit number := by
  cases step with
  | make origin =>
      rw [oneShot]
      split <;> simp
  | copy other =>
      rw [oneShot]
      split <;> simp
  | digest other message => exact hashOf_ne_misfit functions other message number
  | digestPieces other pieces => exact hashOf_ne_misfit functions other pieces.flatten number

private theorem misfit_not_mem_oneShots (functions : List HashFunction) (script : List Step)
    (number : Nat) : Answer.misfit number ∉ oneShots functions script := by
  induction script generalizing functions with
  | nil => simp [oneShots]
  | cons first rest ih =>
      rw [oneShots, List.mem_cons, not_or]
      exact ⟨(oneShot_ne_misfit functions first number).symm, ih _⟩

/-- A script is answered as if digesters were hash functions: every digest is the hash
of the pieces of its own message, whatever was hashed before, by whichever digester,
made and copied in whichever way.  Just the primitives of another width than a block
are turned down, so that no digest of a script fails to fit. -/
theorem run_eq_oneShots (script : List Step) :
    run #[] script = oneShots [] script ∧
      (∀ number, Answer.misfit number ∉ run #[] script) ∧
      ∀ (width : Nat) (primitive : Primitive width) (reason : Refusal),
        Digester.ofPrimitive? primitive = .error reason ↔
          width ≠ 64 ∧ reason = .hashWidth width := by
  have answers := fresh_empty.run_eq script
  refine ⟨answers, ?_, fun _ => Digester.ofPrimitive?_eq_error_iff⟩
  intro number
  rw [answers]
  exact misfit_not_mem_oneShots [] script number

end DigesterPool

end MemoryHard
