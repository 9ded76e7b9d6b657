import MemoryHard.Work.RowSource

/-!
# Evaluating a nonce

A header digest and a nonce are hashed to a seed.  A mix of two rows starts from
the seed and combines 64 pages of two consecutive dataset rows, each selected by
the mix so far.  The compressed mix and the hash of seed and compressed mix are
the outcome.  The final digest can also be computed from a claimed mix digest.
-/

namespace MemoryHard

/-- The outcome for one nonce. -/
structure Evaluation where
  digest : Digest
  mixDigest : Digest
  deriving DecidableEq

/-- As many words as a page of two rows. -/
abbrev Mix := Vector Word mixWords

namespace Mix

def ofSeed (seed : Block) : Mix :=
  Row.ofBlock seed ++ Row.ofBlock seed

/-- Combine word by word with a page. -/
def combine (mix page : Mix) : Mix :=
  mix.zipWith Word.combine page

/-- Word `group` of the compressed mix: four words of the mix folded into one. -/
def groupWord (mix : Mix) (group : Fin 8) : Word :=
  have inside : 4 * group.val + 3 < mixWords := by simp; omega
  Word.combine
    (Word.combine
      (Word.combine mix[4 * group.val] mix[4 * group.val + 1])
      mix[4 * group.val + 2])
    mix[4 * group.val + 3]

def compress (mix : Mix) : Digest :=
  ⟨(bytesOfWords (Vector.ofFn mix.groupWord).toList).toArray, by simp⟩

end Mix

namespace Evaluation

variable {σ : Type}

def accesses : Nat := 64

/-- The number of pages in a dataset of `bytes` bytes. -/
def pageCount (bytes : Nat) : Except Refusal Nat := do
  let ⟨rows, _⟩ ← Dataset.rowCount bytes
  if rows / mixRows = 0 then
    throw (.datasetTooSmall bytes)
  return rows / mixRows

/-- The page that one access selects. -/
def pageNumber (seedWord : Word) (pages access : Nat) (mix : Mix) : Nat :=
  have bound : access % mixWords < mixWords := Nat.mod_lt access (by decide)
  (Word.combine (UInt32.ofNat access ^^^ seedWord) mix[access % mixWords]).toNat % pages

def fetchPage (source : RowSource σ) (page : Nat) : ExceptT Refusal (StateM σ) Mix := do
  let first ← source (mixRows * page)
  let second ← source (mixRows * page + 1)
  return Row.ofBlock first ++ Row.ofBlock second

def access (source : RowSource σ) (seedWord : Word) (pages : Nat) (mix : Mix) (number : Nat) :
    ExceptT Refusal (StateM σ) Mix := do
  let page ← fetchPage source (pageNumber seedWord pages number mix)
  return mix.combine page

def mixPages (source : RowSource σ) (seed : Block) (pages : Nat) :
    ExceptT Refusal (StateM σ) Mix :=
  let seedWord := (Row.ofBlock seed).get ⟨0, Row.first_lt⟩
  (List.range accesses).foldlM (access source seedWord pages) (Mix.ofSeed seed)

def seedBlock (H : HashFunction) (header : Digest) (nonce : UInt64) : Block :=
  H (header.toList ++ littleEndian 8 nonce.toNat)

def closingDigest (H : HashFunction) (seed : Block) (mixDigest : Digest) : Digest :=
  (H (seed.toList ++ mixDigest.toList)).take digestBytes

/-- Evaluate from a seed over a dataset of `bytes` bytes. -/
def ofSeed (H : HashFunction) (seed : Block) (bytes : Nat) (source : RowSource σ) :
    ExceptT Refusal (StateM σ) Evaluation := do
  let pages ← pageCount bytes
  let mix ← mixPages source seed pages
  return { digest := closingDigest H seed mix.compress, mixDigest := mix.compress }

def ofNonce (H : HashFunction) (header : Digest) (nonce : UInt64) (bytes : Nat)
    (source : RowSource σ) : ExceptT Refusal (StateM σ) Evaluation :=
  ofSeed H (seedBlock H header nonce) bytes source

/-- Evaluate with rows derived from a cache. -/
def light (H : HashFunction) (cache : Cache) (header : Digest) (nonce : UInt64) (bytes : Nat) :
    Except Refusal Evaluation :=
  RowSource.outcome (ofNonce H header nonce bytes (RowSource.ofCache H cache))

/-- Evaluate with the rows of a dataset. -/
def full (H : HashFunction) (dataset : Dataset) (header : Digest) (nonce : UInt64) :
    Except Refusal Evaluation :=
  RowSource.outcome (ofNonce H header nonce dataset.byteCount (RowSource.ofDataset dataset))

/-- The digest that a claimed mix digest leads to, without any row. -/
def claimedDigest (H : HashFunction) (header : Digest) (nonce : UInt64) (mixDigest : Digest) :
    Digest :=
  closingDigest H (seedBlock H header nonce) mixDigest

end Evaluation

end MemoryHard
