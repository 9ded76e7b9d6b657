import MemoryHard.Proofs.BoardSteps

/-!
# Serial numbers tell editions apart

An edition can only be published by someone who holds it, and it is held because an
earlier attempt was answered with it.  In such a run a serial number stands for one
edition, so comparing serial numbers finds out whether the board shows that very edition.
-/

namespace MemoryHard.Board

variable {board : Board} {attempt : Attempt} {attempts : List Attempt} {held : List Edition}

/-- The editions that the attempts are answered with. -/
def editions (board : Board) : List Attempt → List Edition
  | [] => []
  | attempt :: rest =>
      (board.attempt attempt).1.toOption.toList ++ (board.attempt attempt).2.editions rest

/-- Whoever publishes an edition holds it, and holds it because an attempt was answered
with it. -/
def Genuine (board : Board) (held : List Edition) : List Attempt → Prop
  | [] => True
  | attempt :: rest =>
      (∀ edition, attempt = .publish edition → edition ∈ held) ∧
        (board.attempt attempt).2.Genuine
          (held ++ (board.attempt attempt).1.toOption.toList) rest

/-- Serial numbers identify the editions that are held, and what is shown is held. -/
structure Consistent (board : Board) (held : List Edition) : Prop where
  made : ∀ edition ∈ held, edition.serial < board.made
  unique : ∀ edition ∈ held, ∀ other ∈ held, edition.serial = other.serial → edition = other
  shown : ∀ edition, board.current? = some edition → edition ∈ held

private theorem Consistent.add_made (consistent : board.Consistent held) (epoch : Epoch)
    {current? : Option Edition}
    (shown : ∀ edition, current? = some edition →
      edition ∈ held ∨ edition = { serial := board.made, epoch }) :
    Consistent { board with made := board.made + 1, current? }
      (held ++ [{ serial := board.made, epoch }]) := by
  refine ⟨?_, ?_, ?_⟩
  · intro edition member
    rcases List.mem_append.mp member with earlier | last
    · exact Nat.lt_succ_of_lt (consistent.made edition earlier)
    · rw [List.mem_singleton.mp last]
      exact Nat.lt_succ_self board.made
  · intro edition member other otherMember same
    rcases List.mem_append.mp member with earlier | last <;>
      rcases List.mem_append.mp otherMember with otherEarlier | otherLast
    · exact consistent.unique edition earlier other otherEarlier same
    · rw [List.mem_singleton.mp otherLast] at same
      exact absurd same (Nat.ne_of_lt (consistent.made edition earlier))
    · rw [List.mem_singleton.mp last] at same
      exact absurd same.symm (Nat.ne_of_lt (consistent.made other otherEarlier))
    · rw [List.mem_singleton.mp last, List.mem_singleton.mp otherLast]
  · intro edition found
    simpa using shown edition found

private theorem Consistent.publish (consistent : board.Consistent held) {edition : Edition}
    (member : edition ∈ held) :
    Consistent { board with current? := some edition } (held ++ [edition]) := by
  have members : ∀ other, other ∈ held ++ [edition] ↔ other ∈ held := by
    intro other
    simp only [List.mem_append, List.mem_singleton]
    constructor
    · rintro (earlier | rfl)
      · exact earlier
      · exact member
    · exact .inl
  refine ⟨?_, ?_, ?_⟩
  · intro other found
    exact consistent.made other ((members other).mp found)
  · intro first found second otherFound
    exact consistent.unique first ((members first).mp found) second ((members second).mp otherFound)
  · intro other found
    cases found
    exact (members edition).mpr member

private theorem Effect.consistent {result : Except Epoch.Fault Edition × Board}
    (effect : board.Effect attempt result) (consistent : board.Consistent held)
    (genuine : ∀ edition, attempt = .publish edition → edition ∈ held) :
    result.2.Consistent (held ++ result.1.toOption.toList) := by
  cases effect with
  | @built _ _ _ epoch made =>
      exact consistent.add_made epoch fun edition found => .inl (consistent.shown edition found)
  | @published edition newer => exact consistent.publish (genuine edition rfl)
  | @advanced _ _ _ epoch advances newer made =>
      exact consistent.add_made epoch fun edition found => .inr (Option.some.inj found).symm
  | notBuilt failed => simpa [Except.toOption] using consistent
  | notAdvanced advances newer failed => simpa [Except.toOption] using consistent
  | stale requested shown stale => simpa [Except.toOption] using consistent
  | notDecoded failed => simpa [Except.toOption] using consistent

theorem consistent_run (consistent : board.Consistent held)
    (genuine : board.Genuine held attempts) :
    (board.run attempts).Consistent (held ++ board.editions attempts) := by
  induction attempts generalizing board held with
  | nil => simpa [editions, run] using consistent
  | cons attempt rest ih =>
      obtain ⟨offered, later⟩ := genuine
      have next := (effect_attempt board attempt).consistent consistent offered
      rw [run_cons, editions, ← List.append_assoc]
      exact ih next later

theorem Consistent.shows_iff (consistent : board.Consistent held) {edition : Edition}
    (member : edition ∈ held) : board.shows edition = true ↔ board.current? = some edition := by
  cases shown : board.current? with
  | none => simp [shows, shown]
  | some current =>
      rw [shows, shown, Option.any_some, beq_iff_eq, Option.some.injEq]
      constructor
      · exact consistent.unique current (consistent.shown current shown) edition member
      · intro same
        rw [same]

end MemoryHard.Board
