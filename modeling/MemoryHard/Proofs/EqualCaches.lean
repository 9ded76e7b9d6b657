import MemoryHard.Proofs.CacheRecurrence

/-!
# Seeds that lead to the same cache

While a cache grows, every row of the chain and of every round is the hash of a message.
Unless two of these messages collide, the last row in which the builds from two seeds
differ enters the next message, so two seeds can only lead to the same cache where the
mixing cancels a difference.  A cache of one row cancels every difference.
-/

namespace MemoryHard

/-- Two different messages of the list have the same hash. -/
def CollidesOn (H : HashFunction) (messages : List Bytes) : Prop :=
  ∃ first ∈ messages, ∃ second ∈ messages, first ≠ second ∧ H first = H second

/-- What is noted on the way does not reach the first part of the state. -/
private theorem fold_fst {α β : Type} {count : Nat} (step : (index : Nat) → index < count → α → α)
    (noting : (index : Nat) → index < count → α × β → α × β)
    (first_eq : ∀ index bound state, (noting index bound state).1 = step index bound state.1)
    (start : α × β) : (count.fold noting start).1 = count.fold step start.1 := by
  induction count with
  | zero => rfl
  | succ count ih =>
      rw [Nat.fold_succ, Nat.fold_succ, first_eq]
      congr 1
      exact ih _ _ fun index bound => first_eq index (Nat.lt_succ_of_lt bound)

namespace Scheme

/-- The messages of all rows, in the order in which the rows are written. -/
def cacheMessages (H : HashFunction) (seed : Bytes) (count : Nat) (rounds : Nat) : List Bytes :=
  (List.range (rounds + 1)).flatMap fun round =>
    (List.range count).map (cacheMessage H seed count round)

end Scheme

namespace Cache

variable {count : Nat} {H : HashFunction} {seed : Bytes}

/-- Replace a row by the hash of its message, and note the message. -/
def noteRow (H : HashFunction)
    (message : Vector Row count → (index : Nat) → index < count → Bytes)
    (index : Nat) (bound : index < count) (state : Vector Row count × List Bytes) :
    Vector Row count × List Bytes :=
  (state.1.set index (Row.ofBlock (H (message state.1 index bound))),
    state.2 ++ [message state.1 index bound])

/-- Rewrite every row once, in order, and note the messages. -/
def rewriteNoting (H : HashFunction)
    (message : Vector Row count → (index : Nat) → index < count → Bytes)
    (start : Vector Row count × List Bytes) : Vector Row count × List Bytes :=
  count.fold (noteRow H message) start

/-- Build the rows and note every message that is hashed on the way. -/
def mixRowsNoting (H : HashFunction) (seed : Bytes) (rows : Vector Row count) :
    Vector Row count × List Bytes :=
  Nat.repeat (rewriteNoting H mixMessage) rounds
    (rewriteNoting H (chainMessage seed) (rows, []))

/-- The messages that are hashed while a cache of `count` rows grows from a seed. -/
def messages (H : HashFunction) (seed : Bytes) (count : Nat) : List Bytes :=
  (mixRowsNoting H seed (Vector.replicate count (Vector.replicate 16 0))).2

private theorem rewriteNoting_fst (H : HashFunction)
    (message : Vector Row count → (index : Nat) → index < count → Bytes)
    (start : Vector Row count × List Bytes) :
    (rewriteNoting H message start).1 =
      count.fold (fun index bound rows =>
        rows.set index (Row.ofBlock (H (message rows index bound)))) start.1 := by
  apply fold_fst
  intro index bound state
  rfl

private theorem rewriteNoting_chain (H : HashFunction) (seed : Bytes) (rows : Vector Row count) :
    rewriteNoting H (chainMessage seed) (rows, []) =
      (writeChain H seed rows, Scheme.cacheMessages H seed count 0) := by
  have noted : Chained H seed count (rewriteNoting H (chainMessage seed) (rows, [])).1 ∧
      (rewriteNoting H (chainMessage seed) (rows, [])).2 =
        (List.range count).map (Scheme.cacheMessage H seed count 0) := by
    apply fold_invariant (fun done (state : Vector Row count × List Bytes) =>
      Chained H seed done state.1 ∧
        state.2 = (List.range done).map (Scheme.cacheMessage H seed count 0))
    · exact ⟨chained_zero H seed rows, rfl⟩
    · intro index bound state ⟨chained, earlier⟩
      refine ⟨chained.set bound, ?_⟩
      rw [noteRow, earlier, chainMessage_eq chained bound, List.range_succ, List.map_append]
      rfl
  apply Prod.ext
  · exact rewriteNoting_fst H (chainMessage seed) (rows, [])
  · simpa [Scheme.cacheMessages] using noted.2

private theorem rewriteNoting_mix {round : Nat} {rows : Vector Row count}
    (mixed : Mixed H seed round 0 rows) :
    rewriteNoting H mixMessage (rows, Scheme.cacheMessages H seed count round) =
      (mixRound H rows, Scheme.cacheMessages H seed count (round + 1)) := by
  let start := (rows, Scheme.cacheMessages H seed count round)
  have noted : Mixed H seed round count (rewriteNoting H mixMessage start).1 ∧
      (rewriteNoting H mixMessage start).2 = start.2 ++
        (List.range count).map (Scheme.cacheMessage H seed count (round + 1)) := by
    apply fold_invariant (fun done (state : Vector Row count × List Bytes) =>
      Mixed H seed round done state.1 ∧
        state.2 = start.2 ++
          (List.range done).map (Scheme.cacheMessage H seed count (round + 1)))
    · exact ⟨mixed, (List.append_nil _).symm⟩
    · intro index bound state ⟨mixed, earlier⟩
      refine ⟨mixed.set bound, ?_⟩
      rw [noteRow, earlier, mixMessage_eq mixed bound, List.range_succ, List.map_append,
        List.append_assoc]
      rfl
  apply Prod.ext
  · exact rewriteNoting_fst H mixMessage start
  · rw [noted.2, Scheme.cacheMessages, List.range_succ, List.flatMap_append]
    simp [start, Scheme.cacheMessages]

private theorem repeat_rewriteNoting (H : HashFunction) (seed : Bytes) (rows : Vector Row count)
    (rounds : Nat) :
    Nat.repeat (rewriteNoting H mixMessage) rounds
        (writeChain H seed rows, Scheme.cacheMessages H seed count 0) =
      (Nat.repeat (mixRound H) rounds (writeChain H seed rows),
        Scheme.cacheMessages H seed count rounds) := by
  induction rounds with
  | zero => rfl
  | succ rounds ih =>
      have mixed := mixed_repeat (chained_writeChain H seed rows).mixed rounds
      rw [Nat.repeat, ih, rewriteNoting_mix mixed]
      rfl

/-- Noting the messages changes nothing about the rows. -/
private theorem mixRowsNoting_eq (H : HashFunction) (seed : Bytes) (rows : Vector Row count) :
    mixRowsNoting H seed rows =
      (mixRows H seed rows, Scheme.cacheMessages H seed count rounds) := by
  rw [mixRowsNoting, rewriteNoting_chain, repeat_rewriteNoting]
  rfl

private theorem messages_eq (H : HashFunction) (seed : Bytes) (count : Nat) :
    messages H seed count = Scheme.cacheMessages H seed count rounds := by
  rw [messages, mixRowsNoting_eq]

/-- The words of a cache tell its rows apart. -/
private theorem cacheRow_eq_of_words {first second : Bytes}
    (same : Scheme.cacheWords H first count = Scheme.cacheWords H second count) {index : Nat}
    (inside : index < count) :
    Scheme.cacheRow H first count rounds index = Scheme.cacheRow H second count rounds index := by
  let empty : Vector Row count := Vector.replicate count (Vector.replicate 16 0)
  have glued : glue (mixRows H first empty).toList = glue (mixRows H second empty).toList := by
    rw [glue_mixRows, glue_mixRows, same]
  have cut := congrArg (chunks 16) glued
  rw [chunks_glue (by decide), chunks_glue (by decide)] at cut
  have rows : (mixRows H first empty)[index] = (mixRows H second empty)[index] := by
    rw [Vector.toList_inj.mp cut]
  rw [getElem_mixRows, getElem_mixRows] at rows
  have blocks := congrArg Row.block rows
  rwa [Row.block_ofBlock, Row.block_ofBlock] at blocks

end Cache

namespace Scheme

variable {count : Nat} {H : HashFunction} {seed : Bytes}

/-- The row that is written at a place of a build: first the chain, then every round. -/
def placeRow (H : HashFunction) (seed : Bytes) (count place : Nat) : Block :=
  cacheRow H seed count (place / count) (place % count)

def placeMessage (H : HashFunction) (seed : Bytes) (count place : Nat) : Bytes :=
  cacheMessage H seed count (place / count) (place % count)

/-- The row that is selected at a place of a round, as the build finds it there. -/
def placeSelected (H : HashFunction) (seed : Bytes) (count place : Nat) : Block :=
  latestRow H seed count (place / count - 1) (place % count)
    (selectedRow H seed count (place / count - 1) (place % count))

private theorem placeRow_eq_hash (H : HashFunction) (seed : Bytes) (count place : Nat) :
    placeRow H seed count place = H (placeMessage H seed count place) :=
  cacheRow_eq_hash H seed count (place / count) (place % count)

variable (H seed) in
private theorem placeRow_mul_add (round : Nat) {index : Nat} (inside : index < count) :
    placeRow H seed count (count * round + index) = cacheRow H seed count round index := by
  rw [placeRow, Nat.mul_add_div (by omega), Nat.mul_add_mod, Nat.div_eq_of_lt inside,
    Nat.mod_eq_of_lt inside, Nat.add_zero]

variable (H seed) in
private theorem placeMessage_mul_add (round : Nat) {index : Nat} (inside : index < count) :
    placeMessage H seed count (count * round + index) = cacheMessage H seed count round index := by
  rw [placeMessage, Nat.mul_add_div (by omega), Nat.mul_add_mod, Nat.div_eq_of_lt inside,
    Nat.mod_eq_of_lt inside, Nat.add_zero]

variable (H seed) in
private theorem placeSelected_mul_add (round : Nat) {index : Nat} (inside : index < count) :
    placeSelected H seed count (count * (round + 1) + index) =
      latestRow H seed count round index (selectedRow H seed count round index) := by
  rw [placeSelected, Nat.mul_add_div (by omega), Nat.mul_add_mod, Nat.div_eq_of_lt inside,
    Nat.mod_eq_of_lt inside, Nat.add_zero, Nat.add_sub_cancel]

private theorem placeMessage_mem {place rounds : Nat} (inside : place < count * (rounds + 1)) :
    placeMessage H seed count place ∈ cacheMessages H seed count rounds := by
  have positive : 0 < count := Nat.pos_of_mul_pos_right (Nat.zero_lt_of_lt inside)
  apply List.mem_flatMap.mpr
  refine ⟨place / count, List.mem_range.mpr (Nat.div_lt_of_lt_mul inside), ?_⟩
  exact List.mem_map.mpr ⟨place % count, List.mem_range.mpr (Nat.mod_lt _ positive), rfl⟩

private theorem placeMessage_zero (H : HashFunction) (seed : Bytes) (count : Nat) :
    placeMessage H seed count 0 = seed := by
  rw [placeMessage, Nat.zero_div, Nat.zero_mod, cacheMessage]

private theorem placeMessage_chain {place : Nat} (inside : place + 1 < count) :
    placeMessage H seed count (place + 1) = (placeRow H seed count place).toList := by
  have message := placeMessage_mul_add H seed 0 inside
  have before := placeRow_mul_add H seed 0 (Nat.lt_of_succ_lt inside)
  rw [Nat.mul_zero, Nat.zero_add] at message before
  rw [message, before, cacheMessage]

/-- A round flips the selected row by the row that was written just before. -/
private theorem placeMessage_mix {place : Nat} (positive : 0 < count) (mixing : count ≤ place + 1) :
    placeMessage H seed count (place + 1) =
      ((placeSelected H seed count (place + 1)).xor (placeRow H seed count place)).toList := by
  have split : ∃ round index, index < count ∧ place + 1 = count * (round + 1) + index := by
    have whole := Nat.div_add_mod (place + 1) count
    have later : (place + 1) / count - 1 + 1 = (place + 1) / count := by
      have := Nat.div_pos mixing positive
      omega
    exact ⟨(place + 1) / count - 1, (place + 1) % count, Nat.mod_lt _ positive, by
      rw [later, whole]⟩
  obtain ⟨round, index, inside, here⟩ := split
  have before : latestRow H seed count round index (rowBefore count index) =
      placeRow H seed count place := by
    cases index with
    | zero =>
        have last : place = count * round + (count - 1) := by
          rw [Nat.mul_succ] at here
          omega
        rw [last, placeRow_mul_add H seed round (by omega), latestRow, rowBefore, if_pos rfl,
          if_neg (Nat.not_lt_zero _)]
    | succ index =>
        have last : place = count * (round + 1) + index := by omega
        rw [last, placeRow_mul_add H seed (round + 1) (by omega), latestRow, rowBefore,
          if_neg (Nat.succ_ne_zero index), Nat.succ_sub_one, if_pos (Nat.lt_succ_self index)]
  rw [here, placeMessage_mul_add H seed (round + 1) inside, cacheMessage,
    placeSelected_mul_add H seed round inside, before]

/-- Both builds hash the same message right after the last row in which they differ: the
selected rows differ in the same bits as the rows before them. -/
structure Cancels (H : HashFunction) (count : Nat) (first second : Bytes) (place : Nat) :
    Prop where
  mixing : count ≤ place + 1
  inside : place < count * Cache.rounds
  before_ne : placeRow H first count place ≠ placeRow H second count place
  xor_eq :
    (placeSelected H first count (place + 1)).xor (placeRow H first count place) =
      (placeSelected H second count (place + 1)).xor (placeRow H second count place)
  after_eq : ∀ later, place < later → later < count * (Cache.rounds + 1) →
    placeRow H first count later = placeRow H second count later

/-- The last place where two builds differ, if they differ at the start. -/
private theorem exists_last_difference {first second : Bytes} (limit : Nat)
    (start_ne : placeRow H first count 0 ≠ placeRow H second count 0) :
    ∃ last ≤ limit, placeRow H first count last ≠ placeRow H second count last ∧
      ∀ later, last < later → later ≤ limit →
        placeRow H first count later = placeRow H second count later := by
  induction limit with
  | zero => exact ⟨0, Nat.le_refl 0, start_ne, fun later after inside => by omega⟩
  | succ limit ih =>
      by_cases rows :
          placeRow H first count (limit + 1) = placeRow H second count (limit + 1)
      · obtain ⟨last, bound, last_ne, after_eq⟩ := ih
        refine ⟨last, Nat.le_succ_of_le bound, last_ne, ?_⟩
        intro later after inside
        rcases Nat.le_or_eq_of_le_succ inside with early | rfl
        · exact after_eq later after early
        · exact rows
      · exact ⟨limit + 1, Nat.le_refl _, rows, fun later after inside => by omega⟩

/-- Two seeds that lead to the same words collide somewhere or are cancelled. -/
theorem collidesOn_or_cancels {first second : Bytes} (positive : 0 < count)
    (different : first ≠ second) (same : cacheWords H first count = cacheWords H second count) :
    CollidesOn H (cacheMessages H first count Cache.rounds ++
        cacheMessages H second count Cache.rounds) ∨
      ∃ place, Cancels H count first second place := by
  by_cases collision : CollidesOn H (cacheMessages H first count Cache.rounds ++
      cacheMessages H second count Cache.rounds)
  · exact .inl collision
  right
  have total : count * (Cache.rounds + 1) = count * Cache.rounds + count := Nat.mul_succ ..
  have message_eq : ∀ place < count * (Cache.rounds + 1),
      placeRow H first count place = placeRow H second count place →
        placeMessage H first count place = placeMessage H second count place := by
    intro place inside rows
    apply Decidable.byContradiction
    intro messages
    rw [placeRow_eq_hash, placeRow_eq_hash] at rows
    exact collision ⟨_, List.mem_append_left _ (placeMessage_mem inside), _,
      List.mem_append_right _ (placeMessage_mem inside), messages, rows⟩
  have start_ne : placeRow H first count 0 ≠ placeRow H second count 0 := by
    intro rows
    have seeds := message_eq 0 (by omega) rows
    rw [placeMessage_zero, placeMessage_zero] at seeds
    exact different seeds
  obtain ⟨last, bound, before_ne, after_eq⟩ :=
    exists_last_difference (count * (Cache.rounds + 1) - 1) start_ne
  have early : last < count * Cache.rounds := by
    apply Nat.lt_of_not_le
    intro late
    have here : last = count * Cache.rounds + (last - count * Cache.rounds) := by omega
    have inside : last - count * Cache.rounds < count := by omega
    rw [here, placeRow_mul_add H first _ inside, placeRow_mul_add H second _ inside] at before_ne
    exact before_ne (Cache.cacheRow_eq_of_words same inside)
  have messages := message_eq (last + 1) (by omega)
    (after_eq (last + 1) (Nat.lt_succ_self last) (by omega))
  have mixing : count ≤ last + 1 := by
    apply Nat.le_of_not_lt
    intro chain
    rw [placeMessage_chain (by omega), placeMessage_chain (by omega)] at messages
    exact before_ne (Vector.toList_inj.mp messages)
  rw [placeMessage_mix positive mixing, placeMessage_mix positive mixing] at messages
  exact ⟨last, mixing, early, before_ne, Vector.toList_inj.mp messages,
    fun later after inside => after_eq later after (by omega)⟩

/-- Where the builds are cancelled, the seeds lead to the same words. -/
theorem Cancels.cacheWords_eq {first second : Bytes} {place : Nat}
    (cancels : Cancels H count first second place) :
    cacheWords H first count = cacheWords H second count := by
  have total : count * (Cache.rounds + 1) = count * Cache.rounds + count := Nat.mul_succ ..
  have early := cancels.inside
  have lastRow : ∀ index < count,
      cacheRow H first count 3 index = cacheRow H second count 3 index := by
    intro index inside
    have last := cancels.after_eq (count * Cache.rounds + index) (by omega) (by omega)
    rwa [placeRow_mul_add H first _ inside, placeRow_mul_add H second _ inside] at last
  rw [cacheWords, cacheWords, List.flatMap_def, List.flatMap_def]
  congr 1
  apply List.map_congr_left
  intro index member
  rw [lastRow index (List.mem_range.mp member)]

/-- A single row is flipped by itself, whatever it holds. -/
private theorem cacheMessage_single (H : HashFunction) (seed : Bytes) (round : Nat) :
    cacheMessage H seed 1 (round + 1) 0 = Block.zero.toList := by
  have selected : selectedRow H seed 1 round 0 = 0 := Nat.mod_one _
  have before : rowBefore 1 0 = 0 := rfl
  rw [cacheMessage, selected, before, Block.xor_self]

private theorem cacheMessages_single (H : HashFunction) (seed : Bytes) :
    cacheMessages H seed 1 Cache.rounds =
      [seed, Block.zero.toList, Block.zero.toList, Block.zero.toList] := by
  have start : cacheMessage H seed 1 0 0 = seed := by rw [cacheMessage]
  simp [cacheMessages, Cache.rounds, List.range_succ, start, cacheMessage_single]

private theorem cacheWords_single (H : HashFunction) (first second : Bytes) :
    cacheWords H first 1 = cacheWords H second 1 := by
  simp [cacheWords, List.range_succ, cacheRow_eq_hash, cacheMessage_single]

end Scheme

namespace Cache

private theorem exists_ofSeed {count byteCount : Nat} (size : 0 < count ∧ byteCount = 64 * count)
    (H : HashFunction) (number : UInt64) (seed : Bytes) :
    ∃ cache, ofSeed H number seed byteCount = .ok cache ∧
      cache.words = Scheme.cacheWords H seed count := by
  have words := words_ofSeed size H number seed
  cases grown : ofSeed H number seed byteCount with
  | error reason =>
      rw [grown] at words
      cases words
  | ok cache =>
      rw [grown] at words
      exact ⟨cache, rfl, Except.ok.inj words⟩

/-- Two different seeds lead to the same cache only if two different messages collide
that are hashed on the way, or the mixing cancels the last difference of the builds. -/
theorem equal_words_collide_or_cancel (H : HashFunction) (number other : UInt64)
    {first second : Bytes} (different : first ≠ second) {byteCount : Nat}
    (positive : 0 < byteCount) (aligned : byteCount % 64 = 0) :
    ∃ cache otherCache, ofSeed H number first byteCount = .ok cache ∧
      ofSeed H other second byteCount = .ok otherCache ∧
      (cache.words = otherCache.words →
        CollidesOn H (messages H first (byteCount / 64) ++ messages H second (byteCount / 64)) ∨
          ∃ place, Scheme.Cancels H (byteCount / 64) first second place) := by
  have size : 0 < byteCount / 64 ∧ byteCount = 64 * (byteCount / 64) := by omega
  obtain ⟨cache, grown, words⟩ := exists_ofSeed size H number first
  obtain ⟨otherCache, otherGrown, otherWords⟩ := exists_ofSeed size H other second
  refine ⟨cache, otherCache, grown, otherGrown, ?_⟩
  intro same
  rw [words, otherWords] at same
  rw [messages_eq, messages_eq]
  exact Scheme.collidesOn_or_cancels size.1 different same

private theorem not_collidesOn_single {first second : Bytes} (seeds : H first ≠ H second)
    (fromFirst : H first ≠ H Block.zero.toList) (fromSecond : H second ≠ H Block.zero.toList) :
    ¬CollidesOn H (messages H first 1 ++ messages H second 1) := by
  rw [messages_eq, messages_eq, Scheme.cacheMessages_single, Scheme.cacheMessages_single]
  have known : ∀ message ∈ [first, Block.zero.toList, Block.zero.toList, Block.zero.toList] ++
      [second, Block.zero.toList, Block.zero.toList, Block.zero.toList],
      message = first ∨ message = second ∨ message = Block.zero.toList := by
    simp
  rintro ⟨message, member, other, otherMember, different, same⟩
  rcases known message member with rfl | rfl | rfl <;>
    rcases known other otherMember with rfl | rfl | rfl
  all_goals first
    | exact different rfl
    | exact seeds same
    | exact seeds same.symm
    | exact fromFirst same
    | exact fromFirst same.symm
    | exact fromSecond same
    | exact fromSecond same.symm

/-- The hash of the scheme tells the messages of two builds of one row apart. -/
theorem sha512_single_ne :
    Sha2.sha512 [0x61] ≠ Sha2.sha512 [0x62] ∧
      Sha2.sha512 [0x61] ≠ Sha2.sha512 Block.zero.toList ∧
      Sha2.sha512 [0x62] ≠ Sha2.sha512 Block.zero.toList := by
  decide +kernel

theorem single_row_cancels :
    ([0x61] : Bytes) ≠ [0x62] ∧ 0 < 64 ∧ 64 % 64 = 0 ∧
      ∃ place, Scheme.Cancels Sha2.sha512 1 [0x61] [0x62] place := by
  have different : ([0x61] : Bytes) ≠ [0x62] := by decide
  have positive : 0 < 64 := by decide
  obtain ⟨cache, otherCache, grown, otherGrown, lost⟩ :=
    equal_words_collide_or_cancel Sha2.sha512 0 0 different positive rfl
  have size : 0 < 1 ∧ 64 = 64 * 1 := by decide
  obtain ⟨known, knownGrown, words⟩ := exists_ofSeed size Sha2.sha512 0 [0x61]
  obtain ⟨otherKnown, otherKnownGrown, otherWords⟩ := exists_ofSeed size Sha2.sha512 0 [0x62]
  cases grown.symm.trans knownGrown
  cases otherGrown.symm.trans otherKnownGrown
  rw [words, otherWords, Scheme.cacheWords_single _ _ [0x62]] at lost
  obtain ⟨seeds, fromFirst, fromSecond⟩ := sha512_single_ne
  refine ⟨different, positive, rfl, ?_⟩
  exact (lost rfl).resolve_left (not_collidesOn_single seeds fromFirst fromSecond)

theorem single_row_forgets_seed :
    ∃ cache otherCache, ofSeed Sha2.sha512 0 [0x61] 64 = .ok cache ∧
      ofSeed Sha2.sha512 0 [0x62] 64 = .ok otherCache ∧
      cache.words = otherCache.words ∧
      ¬CollidesOn Sha2.sha512
        (messages Sha2.sha512 [0x61] 1 ++ messages Sha2.sha512 [0x62] 1) := by
  obtain ⟨seeds, fromFirst, fromSecond⟩ := sha512_single_ne
  have size : 0 < 1 ∧ 64 = 64 * 1 := by decide
  obtain ⟨cache, grown, words⟩ := exists_ofSeed size Sha2.sha512 0 [0x61]
  obtain ⟨otherCache, otherGrown, otherWords⟩ := exists_ofSeed size Sha2.sha512 0 [0x62]
  refine ⟨cache, otherCache, grown, otherGrown, ?_,
    not_collidesOn_single seeds fromFirst fromSecond⟩
  rw [words, otherWords, Scheme.cacheWords_single]

end Cache

end MemoryHard
