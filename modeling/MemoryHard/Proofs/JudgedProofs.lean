import MemoryHard.Proofs.ValidSettings

/-!
# Judging published proofs

An epoch judges a proof by evaluating its nonce.  It accepts exactly the proofs that
claim the mix digest of this evaluation, and the accepted digest is the one that the
claim leads to without any row.  Every other proof is refused for its mix digest.
-/

namespace MemoryHard

/-- Flip the bits of a digest that are set in a mask. -/
def Digest.xor (digest mask : Digest) : Digest :=
  digest.zipWith (· ^^^ ·) mask

private theorem Digest.xor_eq_self_iff {digest mask : Digest} :
    digest.xor mask = digest ↔ mask = Vector.replicate 32 0 := by
  constructor
  · intro same
    apply Vector.ext
    intro place inside
    have byte : digest[place] ^^^ mask[place] = digest[place] ^^^ 0 := by
      have placed := congrArg (fun other : Digest => other[place]) same
      simpa [Digest.xor] using placed
    rw [(UInt8.xor_right_inj digest[place]).mp byte, Vector.getElem_replicate]
  · rintro rfl
    apply Vector.ext
    intro place inside
    simp [Digest.xor]

/-- The final digest is the one that the mix digest leads to. -/
private theorem Evaluation.digest_of_light {H : HashFunction} {cache : Cache} {header : Digest}
    {nonce : UInt64} {byteCount : Nat} {evaluation : Evaluation}
    (found : light H cache header nonce byteCount = .ok evaluation) :
    evaluation.digest = claimedDigest H header nonce evaluation.mixDigest := by
  obtain ⟨aligned, large⟩ := (light_eq_ok_iff H cache header nonce byteCount).mp ⟨_, found⟩
  rw [light_of_admissible aligned large] at found
  cases found
  rfl

namespace Epoch

variable {settings : Settings} {number : UInt64} {seed : Bytes} {epoch : Epoch}
  {header : Digest} {nonce : UInt64} {evaluation : Evaluation}

private theorem judge_of_evaluate (found : epoch.evaluate header nonce = .ok evaluation)
    (mixDigest : Digest) :
    epoch.judge { header, nonce, mixDigest } =
      if mixDigest = evaluation.mixDigest then .ok evaluation.digest
      else .error .mixMismatch := by
  rw [judge, found, ok_bind]
  by_cases right : mixDigest = evaluation.mixDigest
  · simp [right]
  · simp [right, Ne.symm right]

private theorem judge_eq_ok_iff (found : epoch.evaluate header nonce = .ok evaluation)
    (mixDigest digest : Digest) :
    epoch.judge { header, nonce, mixDigest } = .ok digest ↔
      mixDigest = evaluation.mixDigest ∧ digest = evaluation.digest := by
  rw [judge_of_evaluate found]
  split
  next right => simp [right, eq_comm]
  next wrong => simp [wrong]

private theorem judge_eq_error_iff (found : epoch.evaluate header nonce = .ok evaluation)
    (mixDigest : Digest) (fault : Fault) :
    epoch.judge { header, nonce, mixDigest } = .error fault ↔
      mixDigest ≠ evaluation.mixDigest ∧ fault = .mixMismatch := by
  rw [judge_of_evaluate found]
  split
  next right => simp [right]
  next wrong => simp [wrong, eq_comm]

/-- The right mix digest leads to the digest of the evaluation without any row. -/
theorem claimedDigest_of_evaluate (grown : epoch.Grown settings number seed)
    (found : epoch.evaluate header nonce = .ok evaluation) :
    epoch.claimedDigest { header, nonce, mixDigest := evaluation.mixDigest } =
      evaluation.digest := by
  rw [evaluate_eq_light grown] at found
  rw [claimedDigest, grown.hash_eq, Evaluation.digest_of_light (mapError_eq_ok_iff.mp found)]

theorem claimedDigest_of_judge {proof : WorkProof} {digest : Digest}
    (grown : epoch.Grown settings number seed) (accepted : epoch.judge proof = .ok digest) :
    epoch.claimedDigest proof = digest := by
  obtain ⟨header, nonce, mixDigest⟩ := proof
  obtain ⟨evaluation, found, _⟩ := bind_eq_ok_iff.mp accepted
  obtain ⟨rfl, rfl⟩ := (judge_eq_ok_iff found mixDigest digest).mp accepted
  exact claimedDigest_of_evaluate grown found

/-- An epoch from valid settings accepts a proof exactly if the proof claims the mix
digest of its nonce, and gives it the digest that the claim leads to.  A proof is refused
for nothing but its mix digest, whichever bits of it were flipped.  Where the claim leads
to another digest than the evaluation, the proof is refused as well. -/
theorem judge_accepts_honest (valid : settings.check = .ok ()) (number : UInt64)
    (seed : Bytes) :
    ∃ epoch, ofSeed settings number seed = .ok epoch ∧
      ∀ (header : Digest) (nonce : UInt64), ∃ evaluation,
        Evaluation.light settings.hash.hash epoch.cache header nonce
            settings.datasetBytes.toNat = .ok evaluation ∧
          (∀ mixDigest digest, epoch.judge { header, nonce, mixDigest } = .ok digest ↔
            mixDigest = evaluation.mixDigest ∧ digest = evaluation.digest) ∧
          epoch.claimedDigest { header, nonce, mixDigest := evaluation.mixDigest } =
            evaluation.digest ∧
          (∀ mixDigest fault, epoch.judge { header, nonce, mixDigest } = .error fault ↔
            mixDigest ≠ evaluation.mixDigest ∧ fault = .mixMismatch) ∧
          (∀ mask, mask ≠ Vector.replicate 32 0 →
            epoch.judge { header, nonce, mixDigest := evaluation.mixDigest.xor mask } =
              .error .mixMismatch) ∧
          ∀ mixDigest, epoch.claimedDigest { header, nonce, mixDigest } ≠ evaluation.digest →
            epoch.judge { header, nonce, mixDigest } = .error .mixMismatch := by
  obtain ⟨epoch, made, grown⟩ := ofSeed_of_valid valid number seed
  refine ⟨epoch, made, fun header nonce => ?_⟩
  obtain ⟨evaluation, light⟩ := (Settings.check_eq_ok_iff.mp valid).light_eq_ok
    settings.hash.hash epoch.cache header nonce
  have found : epoch.evaluate header nonce = .ok evaluation := by
    rw [evaluate_eq_light grown, light, mapError_ok]
  have claimed := claimedDigest_of_evaluate grown found
  refine ⟨evaluation, light, judge_eq_ok_iff found, claimed, judge_eq_error_iff found, ?_, ?_⟩
  · intro mask some
    apply (judge_eq_error_iff found _ _).mpr
    exact ⟨fun same => some (Digest.xor_eq_self_iff.mp same), rfl⟩
  · intro mixDigest different
    apply (judge_eq_error_iff found _ _).mpr
    exact ⟨fun right => different (right ▸ claimed), rfl⟩

theorem judge_tells_flipped_bit :
    Settings.check { cacheBytes := 128, datasetBytes := 256, fullDataset := true } = .ok () ∧
      ∃ epoch,
        ofSeed { cacheBytes := 128, datasetBytes := 256, fullDataset := true } 7 [1, 2] =
          .ok epoch ∧
        ∃ evaluation : Evaluation,
          epoch.judge ⟨Vector.replicate 32 5, 9, evaluation.mixDigest⟩ = .ok evaluation.digest ∧
            epoch.judge ⟨Vector.replicate 32 5, 9,
              evaluation.mixDigest.xor ((Vector.replicate 32 0).set 31 0x80)⟩ =
                .error .mixMismatch := by
  have valid : Settings.check
      { cacheBytes := 128, datasetBytes := 256, fullDataset := true } = .ok () := rfl
  obtain ⟨epoch, made, judged⟩ := judge_accepts_honest valid 7 [1, 2]
  obtain ⟨evaluation, _, accepted, _, _, forged, _⟩ := judged (Vector.replicate 32 5) 9
  refine ⟨valid, epoch, made, evaluation, (accepted _ _).mpr ⟨rfl, rfl⟩, forged _ ?_⟩
  decide

end Epoch

end MemoryHard
