import MemoryHard.Data.Row
import MemoryHard.Data.Hex
import MemoryHard.Json.Record

/-!
# Published proofs of work

A prover publishes a header digest, a nonce and the mix digest that it claims for
them.  As JSON this is an object with the fields in their order and without blanks,
where digests are strings of 64 hexadecimal digits.  No field may be missing.
-/

namespace MemoryHard

structure WorkProof where
  header : Digest
  nonce : UInt64
  mixDigest : Digest
  deriving DecidableEq

/-- The digest that is spelled by exactly 64 hexadecimal digits. -/
def Digest.ofHex? (text : List Char) : Option Digest :=
  match Hex.decode text with
  | .ok bytes => if size : bytes.length = digestBytes then some ⟨bytes.toArray, size⟩ else none
  | .error _ => none

def Digest.toHex (digest : Digest) : List Char :=
  Hex.encode digest.toList

namespace WorkProof

/-- A proof of which some fields have been read. -/
structure Draft where
  header? : Option Digest := none
  nonce? : Option UInt64 := none
  mixDigest? : Option Digest := none

def Draft.complete? (draft : Draft) : Option WorkProof := do
  let header ← draft.header?
  let nonce ← draft.nonce?
  let mixDigest ← draft.mixDigest?
  return { header, nonce, mixDigest }

def digestReader : Json.Reader Digest := do
  match Digest.ofHex? (← Json.string) with
  | some digest => return digest
  | none => Json.Reader.fail .mismatched

def fields : List (Json.Field Draft) := [
  .ofPart "header_digest".toList Draft.header?
    (fun draft value => { draft with header? := some value }) digestReader,
  .ofPart "nonce".toList Draft.nonce?
    (fun draft value => { draft with nonce? := some value }) Json.natural64,
  .ofPart "mix_digest".toList Draft.mixDigest?
    (fun draft value => { draft with mixDigest? := some value }) digestReader]

def reader : Json.Reader WorkProof := do
  match (← Json.record fields {}).complete? with
  | some proof => return proof
  | none => Json.Reader.fail .mismatched

def ofText (text : List Char) : Except Json.Fault WorkProof :=
  reader.readAll text

def ofJson (text : String) : Except Json.Fault WorkProof :=
  ofText text.toList

def toText (proof : WorkProof) : List Char :=
  "\x7b\"header_digest\":\"".toList ++ proof.header.toHex
    ++ "\",\"nonce\":".toList ++ Json.decimal proof.nonce
    ++ ",\"mix_digest\":\"".toList ++ proof.mixDigest.toHex
    ++ "\"\x7d".toList

def toJson (proof : WorkProof) : String :=
  String.ofList proof.toText

end WorkProof

end MemoryHard
