import MemoryHard.Epoch.Board
import MemoryHard.Proofs.LightAndFull
import MemoryHard.Settings.Document

/-!
# Valid settings

Settings are checked once, in bytes and in units of rows and pages.  Whatever is
built from settings that pass, the later checks of words, rows and pages pass too,
so an epoch can be built from every seed and asked about every nonce.
-/

namespace MemoryHard

namespace Settings

private theorem checkSize_eq_ok_iff {size : Size} {value : UInt64} :
    checkSize size value = .ok () ↔ 0 < value.toNat ∧ value.toNat % size.unit = 0 := by
  have zero : value = 0 ↔ value.toNat = 0 := UInt64.toNat_inj.symm
  unfold checkSize
  split
  next bad =>
    rw [zero] at bad
    simp only [reduceCtorEq, false_iff]
    omega
  next good =>
    rw [zero] at good
    simp only [true_iff]
    omega

/-- Valid settings: a cache of whole rows and a dataset of whole pages, neither empty. -/
structure Valid (settings : Settings) : Prop where
  cache_pos : 0 < settings.cacheBytes.toNat
  cache_rows : settings.cacheBytes.toNat % 64 = 0
  dataset_pos : 0 < settings.datasetBytes.toNat
  dataset_pages : settings.datasetBytes.toNat % 128 = 0

theorem check_eq_ok_iff {settings : Settings} : settings.check = .ok () ↔ settings.Valid := by
  rw [check, bind_eq_ok_iff]
  constructor
  · rintro ⟨⟨⟩, cache, dataset⟩
    obtain ⟨cachePositive, cacheRows⟩ := checkSize_eq_ok_iff.mp cache
    obtain ⟨datasetPositive, datasetPages⟩ := checkSize_eq_ok_iff.mp dataset
    exact ⟨cachePositive, cacheRows, datasetPositive, datasetPages⟩
  · intro valid
    exact ⟨(), checkSize_eq_ok_iff.mpr ⟨valid.cache_pos, valid.cache_rows⟩,
      checkSize_eq_ok_iff.mpr ⟨valid.dataset_pos, valid.dataset_pages⟩⟩

private theorem check_of_ofText {text : List Char} {settings : Settings}
    (found : ofText text = .ok settings) : settings.check = .ok () := by
  unfold ofText at found
  split at found
  · cases found
  · split at found
    · cases found
    next checked =>
      cases found
      exact checked

end Settings

/-- A cache size in rows is accepted, and the epoch number does not reach the rows. -/
theorem Cache.exists_rows_ofSeed (H : HashFunction) (seed : Bytes) {byteCount : Nat}
    (positive : 0 < byteCount) (aligned : byteCount % 64 = 0) :
    ∃ table : Table, ∀ number,
      Cache.ofSeed H number seed byteCount = .ok { toTable := table, epoch := number } := by
  have some : 0 < byteCount / 64 := by omega
  have size : byteCount / 4 = 16 * (byteCount / 64) := by omega
  let rows := Cache.mixRows H seed (Vector.replicate (byteCount / 64) (Vector.replicate 16 0))
  refine ⟨{ rows := rows.toArray, nonempty := by simpa using some }, ?_⟩
  intro number
  rw [Cache.ofSeed, if_neg (by simpa using aligned), Cache.rowCount_of_rows ⟨some, size⟩]
  rfl

private theorem Cache.ofSeed_of_aligned (H : HashFunction) (number : UInt64) (seed : Bytes)
    {byteCount : Nat} (positive : 0 < byteCount) (aligned : byteCount % 64 = 0) :
    ∃ cache, Cache.ofSeed H number seed byteCount = .ok cache ∧ cache.epoch = number := by
  obtain ⟨table, grown⟩ := Cache.exists_rows_ofSeed H seed positive aligned
  exact ⟨_, grown number, rfl⟩

namespace Epoch

variable {settings : Settings} {number : UInt64} {seed : Bytes} {epoch : Epoch}

/-- What building an epoch from settings, number and seed leads to. -/
structure Grown (epoch : Epoch) (settings : Settings) (number : UInt64) (seed : Bytes) :
    Prop where
  hash_eq : epoch.hash = settings.hash
  datasetBytes_eq : epoch.datasetBytes = settings.datasetBytes
  cache_eq :
    Cache.ofSeed settings.hash.hash number seed settings.cacheBytes.toNat = .ok epoch.cache
  number_eq : epoch.number = number
  isSome_eq : epoch.dataset?.isSome = settings.fullDataset
  holdsItems : ∀ dataset, epoch.dataset? = some dataset →
    dataset.HoldsItems settings.hash.hash epoch.cache settings.datasetBytes.toNat

private theorem ofSeed_of_invalid {invalid : Settings.InvalidSize}
    (refused : settings.check = .error invalid) (number : UInt64) (seed : Bytes) :
    ofSeed settings number seed = .error (.settings invalid) := by
  rw [ofSeed, refused]
  rfl

theorem ofSeed_of_valid (valid : settings.check = .ok ()) (number : UInt64) (seed : Bytes) :
    ∃ epoch, ofSeed settings number seed = .ok epoch ∧ epoch.Grown settings number seed := by
  obtain ⟨cachePositive, cacheRows, datasetPositive, datasetPages⟩ :=
    Settings.check_eq_ok_iff.mp valid
  obtain ⟨cache, grown, named⟩ := Cache.ofSeed_of_aligned settings.hash.hash number seed
    cachePositive cacheRows
  have rows : 0 < settings.datasetBytes.toNat / 64 ∧
      settings.datasetBytes.toNat = 64 * (settings.datasetBytes.toNat / 64) := by omega
  obtain ⟨dataset, made, holds⟩ := Dataset.ofCache_of_rows rows settings.hash.hash cache
  let epoch (dataset? : Option Dataset) : Epoch :=
    { hash := settings.hash, datasetBytes := settings.datasetBytes, cache, dataset? }
  cases wanted : settings.fullDataset with
  | true =>
      refine ⟨epoch (some dataset), ?_, rfl, rfl, grown, named, ?_, ?_⟩
      · simp [ofSeed, valid, grown, wanted, made, epoch]
      · simp [epoch, wanted]
      · intro other found
        cases found
        exact holds
  | false =>
      refine ⟨epoch none, ?_, rfl, rfl, grown, named, ?_, ?_⟩
      · simp [ofSeed, valid, grown, wanted, epoch]
      · simp [epoch, wanted]
      · intro other found
        cases found

theorem grown_of_ofSeed (made : ofSeed settings number seed = .ok epoch) :
    settings.check = .ok () ∧ epoch.Grown settings number seed := by
  cases valid : settings.check with
  | error invalid =>
      rw [ofSeed_of_invalid valid] at made
      cases made
  | ok =>
      obtain ⟨other, made', grown⟩ := ofSeed_of_valid valid number seed
      rw [made'] at made
      cases made
      exact ⟨rfl, grown⟩

/-- The dataset of an epoch saves work and decides nothing. -/
theorem evaluate_eq_light (grown : epoch.Grown settings number seed)
    (header : Digest) (nonce : UInt64) :
    epoch.evaluate header nonce =
      (Evaluation.light settings.hash.hash epoch.cache header nonce
        settings.datasetBytes.toNat).mapError .scheme := by
  unfold evaluate
  split
  next dataset found =>
    rw [grown.hash_eq, Evaluation.full_eq_light (grown.holdsItems dataset found)]
  next => rw [evaluateLight, grown.hash_eq, grown.datasetBytes_eq]

private theorem evaluateLight_eq_light (grown : epoch.Grown settings number seed)
    (header : Digest) (nonce : UInt64) :
    epoch.evaluateLight header nonce =
      (Evaluation.light settings.hash.hash epoch.cache header nonce
        settings.datasetBytes.toNat).mapError .scheme := by
  rw [evaluateLight, grown.hash_eq, grown.datasetBytes_eq]

end Epoch

theorem Settings.Valid.light_eq_ok {settings : Settings} (valid : settings.Valid)
    (H : HashFunction) (cache : Cache) (header : Digest) (nonce : UInt64) :
    ∃ evaluation,
      Evaluation.light H cache header nonce settings.datasetBytes.toNat = .ok evaluation := by
  have positive := valid.dataset_pos
  have pages := valid.dataset_pages
  apply (Evaluation.light_eq_ok_iff H cache header nonce _).mpr
  omega

/-- The check of the settings decides whether a board opens and whether an epoch is
built, with the same reason when they are not.  A built epoch evaluates every nonce,
and judging a proof can only find that the claimed mix digest is wrong.  Settings
that come from JSON have passed the check. -/
theorem Settings.check_decides (settings : Settings) (number : UInt64) (seed : Bytes) :
    ((Board.new settings).map fun _ => ()) = settings.check.mapError .settings ∧
      ((Epoch.ofSeed settings number seed).map fun _ => ()) = settings.check.mapError .settings ∧
      (∀ epoch, Epoch.ofSeed settings number seed = .ok epoch →
        ∀ (header : Digest) (nonce : UInt64),
          (∃ evaluation, epoch.evaluate header nonce = .ok evaluation) ∧
            (∃ evaluation, epoch.evaluateLight header nonce = .ok evaluation) ∧
            ∀ mixDigest, (∃ digest, epoch.judge { header, nonce, mixDigest } = .ok digest) ∨
              epoch.judge { header, nonce, mixDigest } = .error .mixMismatch) ∧
      ∀ text, Settings.ofJson text = .ok settings → settings.check = .ok () := by
  refine ⟨?_, ?_, ?_, ?_⟩
  · cases valid : settings.check with
    | error invalid => simp [Board.new, valid, Except.map]
    | ok => simp [Board.new, valid, Except.map]
  · cases valid : settings.check with
    | error invalid =>
        rw [Epoch.ofSeed_of_invalid valid]
        rfl
    | ok =>
        obtain ⟨epoch, made, _⟩ := Epoch.ofSeed_of_valid valid number seed
        rw [made]
        rfl
  · intro epoch made header nonce
    obtain ⟨valid, grown⟩ := Epoch.grown_of_ofSeed made
    obtain ⟨evaluation, light⟩ := (Settings.check_eq_ok_iff.mp valid).light_eq_ok
      settings.hash.hash epoch.cache header nonce
    have full : epoch.evaluate header nonce = .ok evaluation := by
      rw [Epoch.evaluate_eq_light grown, light, mapError_ok]
    refine ⟨⟨evaluation, full⟩, ⟨evaluation, ?_⟩, ?_⟩
    · rw [Epoch.evaluateLight_eq_light grown, light, mapError_ok]
    · intro mixDigest
      by_cases right : evaluation.mixDigest = mixDigest
      · exact .inl ⟨evaluation.digest, by simp [Epoch.judge, full, right]⟩
      · exact .inr (by simp [Epoch.judge, full, right])
  · intro text found
    exact Settings.check_of_ofText found

end MemoryHard
