import MemoryHard.Proofs.JudgedProofs

/-!
# What a digest binds

The digest of a proof is the start of a hash of its mix digest behind a seed, which is
itself the hash of header and nonce.  Both messages can be taken apart again, so two
proofs with the same digest are the same proof, or two different messages of one of the
two hashes collide.  No property of the hash function is assumed.
-/

namespace MemoryHard

private theorem littleEndian_toNat_inj {first second : UInt64}
    (same : littleEndian 8 first.toNat = littleEndian 8 second.toNat) : first = second := by
  have values : Nat.pow 256 8 = 2 ^ 64 := rfl
  have numbers := congrArg ofLittleEndian same
  rw [ofLittleEndian_littleEndian, ofLittleEndian_littleEndian, values,
    Nat.mod_eq_of_lt first.toNat_lt, Nat.mod_eq_of_lt second.toNat_lt] at numbers
  exact UInt64.toNat_inj.mp numbers

namespace WorkProof

/-- What the seed of a proof is the hash of. -/
def seedMessage (proof : WorkProof) : Bytes :=
  proof.header.toList ++ littleEndian 8 proof.nonce.toNat

/-- What the digest of a proof is the start of the hash of. -/
def closingMessage (H : HashFunction) (proof : WorkProof) : Bytes :=
  (H proof.seedMessage).toList ++ proof.mixDigest.toList

variable {H : HashFunction} {first second : WorkProof}

private theorem claimedDigest_eq (H : HashFunction) (proof : WorkProof) :
    Evaluation.claimedDigest H proof.header proof.nonce proof.mixDigest =
      (H (proof.closingMessage H)).take 32 :=
  rfl

@[simp] theorem length_seedMessage (proof : WorkProof) : proof.seedMessage.length = 40 := by
  simp [seedMessage]

@[simp] theorem length_closingMessage (H : HashFunction) (proof : WorkProof) :
    (proof.closingMessage H).length = 96 := by
  simp [closingMessage]

private theorem seedMessage_inj :
    first.seedMessage = second.seedMessage ↔
      first.header = second.header ∧ first.nonce = second.nonce := by
  constructor
  · intro same
    obtain ⟨headers, nonces⟩ := List.append_inj same (by simp)
    exact ⟨Vector.toList_inj.mp headers, littleEndian_toNat_inj nonces⟩
  · rintro ⟨headers, nonces⟩
    rw [seedMessage, seedMessage, headers, nonces]

private theorem closingMessage_inj :
    first.closingMessage H = second.closingMessage H ↔
      H first.seedMessage = H second.seedMessage ∧ first.mixDigest = second.mixDigest := by
  constructor
  · intro same
    obtain ⟨seeds, mixDigests⟩ := List.append_inj same (by simp)
    exact ⟨Vector.toList_inj.mp seeds, Vector.toList_inj.mp mixDigests⟩
  · rintro ⟨seeds, mixDigests⟩
    rw [closingMessage, closingMessage, seeds, mixDigests]

/-- Two proofs exhibit a collision of the hash: of their seeds, where nothing else tells
the proofs apart, or of the part that is published of their last hash. -/
inductive Collide (H : HashFunction) (first second : WorkProof) : Prop where
  | seed :
      first.seedMessage ≠ second.seedMessage →
      H first.seedMessage = H second.seedMessage →
      first.mixDigest = second.mixDigest → Collide H first second
  | closing :
      first.closingMessage H ≠ second.closingMessage H →
      (H (first.closingMessage H)).take 32 = (H (second.closingMessage H)).take 32 →
      Collide H first second

private theorem claimedDigest_eq_iff :
    Evaluation.claimedDigest H first.header first.nonce first.mixDigest =
        Evaluation.claimedDigest H second.header second.nonce second.mixDigest ↔
      first = second ∨ Collide H first second := by
  rw [claimedDigest_eq, claimedDigest_eq]
  constructor
  · intro same
    by_cases closing : first.closingMessage H = second.closingMessage H
    · obtain ⟨seeds, mixDigests⟩ := closingMessage_inj.mp closing
      by_cases opening : first.seedMessage = second.seedMessage
      · obtain ⟨headers, nonces⟩ := seedMessage_inj.mp opening
        left
        cases first
        cases second
        simp_all
      · exact .inr (.seed opening seeds mixDigests)
    · exact .inr (.closing closing same)
  · rintro (rfl | collision)
    · rfl
    · cases collision with
      | seed _ seeds mixDigests =>
          rw [closingMessage_inj.mpr ⟨seeds, mixDigests⟩]
      | closing _ same => exact same

/-- Equal digests belong to one proof or exhibit a collision, and a collision leads to
equal digests.  So do two proofs that are accepted with the same digest, in whichever
epochs with the same hash they are judged. -/
theorem equal_or_collide (H : HashFunction) (first second : WorkProof) :
    first.seedMessage.length = 40 ∧ (first.closingMessage H).length = 96 ∧
      (Evaluation.claimedDigest H first.header first.nonce first.mixDigest =
          Evaluation.claimedDigest H second.header second.nonce second.mixDigest ↔
        first = second ∨ Collide H first second) ∧
      ∀ (settings other : Settings) (number otherNumber : UInt64) (seed otherSeed : Bytes)
        (epoch otherEpoch : Epoch) (digest : Digest),
        Epoch.ofSeed settings number seed = .ok epoch →
        Epoch.ofSeed other otherNumber otherSeed = .ok otherEpoch →
        epoch.hash = otherEpoch.hash →
        epoch.judge first = .ok digest → otherEpoch.judge second = .ok digest →
        first = second ∨ Collide epoch.hash.hash first second := by
  refine ⟨first.length_seedMessage, first.length_closingMessage H, claimedDigest_eq_iff, ?_⟩
  intro settings other number otherNumber seed otherSeed epoch otherEpoch digest made
    otherMade sameHash accepted otherAccepted
  have claimed := Epoch.claimedDigest_of_judge (Epoch.grown_of_ofSeed made).2 accepted
  have otherClaimed :=
    Epoch.claimedDigest_of_judge (Epoch.grown_of_ofSeed otherMade).2 otherAccepted
  apply claimedDigest_eq_iff.mp
  rw [Epoch.claimedDigest] at claimed
  rw [Epoch.claimedDigest, ← sameHash] at otherClaimed
  rw [claimed, otherClaimed]

end WorkProof

end MemoryHard
