import MemoryHard.Proofs.HexSpellings
import MemoryHard.Proofs.SpelledRecords
import MemoryHard.Work.WorkProof

/-!
# The text of a published proof

Every proof of work has one text up to the case of the hexadecimal letters.  The text is
read as this proof and as nothing else.  It shows its own end: a part of it is reported as
cut off, and what follows it is refused unless it is blank.
-/

namespace MemoryHard

private theorem Digest.ofHex?_toHex {digest : Digest} {text : List Char}
    (spelled : Hex.EitherCase digest.toHex text) : ofHex? text = some digest := by
  have size : digest.toList.length = 32 := digest.length_toList
  rw [ofHex?, Hex.decode_encode spelled]
  dsimp only
  rw [dif_pos size]
  exact congrArg some (Vector.toList_inj.mp rfl)

namespace WorkProof

/-- The text of a proof around its two digests. -/
def textAround (header : List Char) (nonce : UInt64) (mixDigest : List Char) : List Char :=
  "\x7b\"header_digest\":\"".toList ++ header
    ++ "\",\"nonce\":".toList ++ Json.decimal nonce
    ++ ",\"mix_digest\":\"".toList ++ mixDigest
    ++ "\"\x7d".toList

/-- The text of a proof with any of the letters of its digests as capitals. -/
def SpelledBy (proof : WorkProof) (text : List Char) : Prop :=
  ∃ header mixDigest, Hex.EitherCase proof.header.toHex header ∧
    Hex.EitherCase proof.mixDigest.toHex mixDigest ∧
    text = textAround header proof.nonce mixDigest

private theorem spelledBy_toText (proof : WorkProof) : proof.SpelledBy proof.toText :=
  ⟨_, _, .refl _, .refl _, rfl⟩

private theorem closed_digestReader {digest : Digest} {text : List Char}
    (spelled : Hex.EitherCase digest.toHex text) :
    digestReader.Closed ('"' :: (text ++ ['"'])) digest := by
  apply (Json.closed_string spelled.isPlain).then_pure
  rw [Digest.ofHex?_toHex spelled]

private theorem textAround_eq (header : List Char) (nonce : UInt64) (mixDigest : List Char) :
    textAround header nonce mixDigest = '\x7b' ::
      (Json.memberText true "header_digest".toList ('"' :: (header ++ ['"'])) ++
        (Json.memberText false "nonce".toList (Json.decimal nonce) ++
          (Json.memberText false "mix_digest".toList ('"' :: (mixDigest ++ ['"'])) ++
            ['\x7d']))) := by
  unfold textAround
  simp [Json.memberText, Json.keyStart]

/-- The members of a text fill the empty draft. -/
theorem closed_textAround {header mixDigest : List Char} {first second : Digest} (nonce : UInt64)
    (headerSpelled : Hex.EitherCase first.toHex header)
    (mixSpelled : Hex.EitherCase second.toHex mixDigest) :
    (Json.record fields {}).Closed (textAround header nonce mixDigest)
      ⟨some first, some nonce, some second⟩ := by
  have headerNamed : fields.find? (·.name = "header_digest".toList) =
      some (.ofPart _ Draft.header? (fun draft value => { draft with header? := some value })
        digestReader) := rfl
  have nonceNamed : fields.find? (·.name = "nonce".toList) =
      some (.ofPart _ Draft.nonce? (fun draft value => { draft with nonce? := some value })
        Json.natural64) := rfl
  have mixNamed : fields.find? (·.name = "mix_digest".toList) =
      some (.ofPart _ Draft.mixDigest? (fun draft value => { draft with mixDigest? := some value })
        digestReader) := rfl
  rw [textAround_eq]
  apply Json.closed_record
  apply Json.Members.part headerNamed rfl rfl (closed_digestReader headerSpelled).toOpen
  apply Json.Members.part nonceNamed rfl rfl (Json.open_natural64 nonce)
  apply Json.Members.part mixNamed rfl rfl (closed_digestReader mixSpelled).toOpen
  exact .close

private theorem SpelledBy.closed {proof : WorkProof} {text : List Char}
    (spelled : proof.SpelledBy text) : reader.Closed text proof := by
  obtain ⟨header, mixDigest, headerSpelled, mixSpelled, rfl⟩ := spelled
  apply (closed_textAround proof.nonce headerSpelled mixSpelled).then_pure
  rfl

/-- A proof is read from its text and nothing but blanks may follow.  The text cut
anywhere is reported as cut. -/
theorem ofJson_delimited (proof : WorkProof) :
    proof.SpelledBy proof.toJson.toList ∧ ∀ text : String, proof.SpelledBy text.toList →
      (∀ rest : String, (ofJson (text ++ rest)).mapError Json.Fault.category =
        if rest.toList.all Json.Reader.isBlank then .ok proof else .error "syntax") ∧
      ∀ part rest : String, part ++ rest = text → rest ≠ "" →
        (ofJson part).mapError Json.Fault.category = .error "eof" := by
  refine ⟨?_, ?_⟩
  · rw [toJson, String.toList_ofList]
    exact spelledBy_toText proof
  intro text spelled
  have closed := spelled.closed
  constructor
  · intro rest
    rw [ofJson, ofText, String.toList_append, closed.readAll_append]
    split <;> rfl
  · intro part rest joined proper
    rw [ofJson, ofText, closed.readAll_cut_string (congrArg String.toList joined) proper]
    rfl

end WorkProof

end MemoryHard
