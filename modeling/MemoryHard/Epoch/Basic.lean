import MemoryHard.Settings
import MemoryHard.Work.Evaluation
import MemoryHard.Work.WorkProof

/-!
# Epochs

An epoch has a cache for its seed and, where the settings ask for it, the whole
dataset in advance.  It evaluates nonces and checks published proofs.  The dataset
only saves work: every answer is that of the cache.
-/

namespace MemoryHard

structure Epoch where
  hash : HashName
  datasetBytes : UInt64
  cache : Cache
  dataset? : Option Dataset

namespace Epoch

/-- Why an epoch cannot be built, published or asked. -/
inductive Fault where
  | scheme (reason : Refusal)
  | settings (size : Settings.InvalidSize)
  | seedHex (fault : Hex.Fault)
  | stale (current requested : UInt64)
  | notPublished
  | mixMismatch
  deriving DecidableEq, Repr

def Fault.message : Fault → String
  | .scheme reason => "Algorithm error: " ++ reason.message
  | .settings size => "Config error: " ++ size.message
  | .seedHex fault => "Invalid seed hex: " ++ fault.message
  | .stale current requested =>
      let older := current.toNat
      let newer := requested.toNat
      s!"Epoch {newer} is not newer than published epoch {older}"
  | .notPublished => "No epoch has been published"
  | .mixMismatch => "Claimed mix digest does not match the recomputed one"

def number (epoch : Epoch) : UInt64 :=
  epoch.cache.epoch

/-- Build the cache and, if it is wanted, the dataset. -/
def ofSeed (settings : Settings) (number : UInt64) (seed : Bytes) : Except Fault Epoch := do
  settings.check.mapError .settings
  let cache ←
    (Cache.ofSeed settings.hash.hash number seed settings.cacheBytes.toNat).mapError .scheme
  let dataset? ←
    if settings.fullDataset then
      let dataset ←
        (Dataset.ofCache settings.hash.hash cache settings.datasetBytes.toNat).mapError .scheme
      pure (some dataset)
    else
      pure none
  return { hash := settings.hash, datasetBytes := settings.datasetBytes, cache, dataset? }

/-- Evaluate with rows that are always derived from the cache. -/
def evaluateLight (epoch : Epoch) (header : Digest) (nonce : UInt64) : Except Fault Evaluation :=
  (Evaluation.light epoch.hash.hash epoch.cache header nonce
    epoch.datasetBytes.toNat).mapError .scheme

/-- Evaluate with the dataset if there is one. -/
def evaluate (epoch : Epoch) (header : Digest) (nonce : UInt64) : Except Fault Evaluation :=
  match epoch.dataset? with
  | some dataset => (Evaluation.full epoch.hash.hash dataset header nonce).mapError .scheme
  | none => epoch.evaluateLight header nonce

/-- The digest that the claimed mix digest leads to. -/
def claimedDigest (epoch : Epoch) (proof : WorkProof) : Digest :=
  Evaluation.claimedDigest epoch.hash.hash proof.header proof.nonce proof.mixDigest

/-- The digest of a proof whose claimed mix digest is right. -/
def judge (epoch : Epoch) (proof : WorkProof) : Except Fault Digest := do
  let evaluation ← epoch.evaluate proof.header proof.nonce
  if evaluation.mixDigest ≠ proof.mixDigest then
    throw .mixMismatch
  return evaluation.digest

end Epoch

end MemoryHard
