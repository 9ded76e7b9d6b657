import MemoryHard.Settings
import MemoryHard.Work.Evaluation

/-!
# The parameters of the scheme

Every number here is part of what two parties have to agree on.  The names are those
under which the numbers are published.
-/

namespace MemoryHard

def parameters : List (String × Nat) := [
  ("ROW_BYTES", rowBytes),
  ("WORD_BYTES", wordBytes),
  ("ROW_WORDS", rowWords),
  ("CACHE_ROUNDS", Cache.rounds),
  ("DATASET_PARENTS", Cache.parents),
  ("MIX_BYTES", mixBytes),
  ("MIX_WORDS", mixWords),
  ("MIX_ROWS", mixRows),
  ("HASHIMOTO_ACCESSES", Evaluation.accesses),
  ("DIGEST_BYTES", digestBytes),
  ("FNV_PRIME", Word.multiplier.toNat),
  ("DEFAULT_CACHE_BYTES", ({} : Settings).cacheBytes.toNat),
  ("DEFAULT_DATASET_BYTES", ({} : Settings).datasetBytes.toNat)]

end MemoryHard
