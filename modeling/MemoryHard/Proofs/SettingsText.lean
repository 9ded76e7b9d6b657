import MemoryHard.Proofs.Outcome
import MemoryHard.Proofs.SpelledRecords
import MemoryHard.Settings.Document

/-!
# The text of settings

Settings are read back from their text, whether they are valid or not, and are checked
only after the whole text has been read.  Although every field has a default, a part of
the text is never taken for settings, and nothing but blanks may follow it.
-/

namespace MemoryHard.Settings

theorem hashName?_spelling (name : HashName) : hashName? name.spelling.toList = some name := by
  cases name <;> rfl

private theorem isPlain_spelling (name : HashName) : name.spelling.toList.all Json.isPlain := by
  cases name <;> rfl

/-- The draft in which every field has been read. -/
def filled (settings : Settings) : Draft where
  cacheBytes? := some settings.cacheBytes
  datasetBytes? := some settings.datasetBytes
  hash? := some settings.hash
  fullDataset? := some settings.fullDataset

private theorem toText_eq (settings : Settings) :
    settings.toText = '\x7b' ::
      (Json.memberText true "cache_bytes".toList (Json.decimal settings.cacheBytes) ++
        (Json.memberText false "dataset_bytes".toList (Json.decimal settings.datasetBytes) ++
          (Json.memberText false "hash".toList ('"' :: (settings.hash.spelling.toList ++ ['"'])) ++
            (Json.memberText false "full_dataset".toList
              (if settings.fullDataset then "true".toList else "false".toList) ++
                ['\x7d'])))) := by
  unfold toText
  simp [Json.memberText, Json.keyStart]

/-- The members of the text fill the empty draft. -/
theorem closed_record_toText (settings : Settings) :
    (Json.record fields {}).Closed settings.toText settings.filled := by
  have cacheNamed : fields.find? (·.name = "cache_bytes".toList) =
      some (.ofPart _ Draft.cacheBytes? (fun draft value => { draft with cacheBytes? := some value })
        Json.natural64) := rfl
  have datasetNamed : fields.find? (·.name = "dataset_bytes".toList) =
      some (.ofPart _ Draft.datasetBytes?
        (fun draft value => { draft with datasetBytes? := some value }) Json.natural64) := rfl
  have hashNamed : fields.find? (·.name = "hash".toList) =
      some (.ofPart _ Draft.hash? (fun draft value => { draft with hash? := some value })
        (Json.variant hashName?)) := rfl
  have fullNamed : fields.find? (·.name = "full_dataset".toList) =
      some (.ofPart _ Draft.fullDataset?
        (fun draft value => { draft with fullDataset? := some value }) Json.boolean) := rfl
  have hashPlain := List.all_eq_true.mp (isPlain_spelling settings.hash)
  have hashSpelled := Json.closed_variant (hashName?_spelling settings.hash) hashPlain
  rw [toText_eq]
  apply Json.closed_record
  apply Json.Members.part cacheNamed rfl rfl (Json.open_natural64 settings.cacheBytes)
  apply Json.Members.part datasetNamed rfl rfl (Json.open_natural64 settings.datasetBytes)
  apply Json.Members.part hashNamed rfl rfl hashSpelled.toOpen
  apply Json.Members.part fullNamed rfl rfl (Json.closed_boolean settings.fullDataset).toOpen
  exact .close

private theorem closed_toText (settings : Settings) : reader.Closed settings.toText settings :=
  (closed_record_toText settings).then_pure rfl

/-- The check comes after the whole text, so a fault of the text hides it. -/
theorem ofText_of_readAll {text : List Char} {settings : Settings}
    (read : reader.readAll text = .ok settings) :
    ofText text = (settings.check.mapError .invalid).map fun _ => settings := by
  rw [ofText, read]
  dsimp only
  cases settings.check with
  | error size => rfl
  | ok => rfl

theorem ofText_of_fault {text : List Char} {fault : Json.Fault}
    (failed : reader.readAll text = .error fault) : ofText text = .error (.json fault) := by
  rw [ofText, failed]

/-- The text of any settings, followed by blanks, is read as these settings if they are
valid and is refused with the reason of the check if they are not.  With anything else
behind it the text is malformed, and cut anywhere it is reported as cut. -/
theorem toJson_selfDelimited (settings : Settings) :
    (∀ rest : String, rest.toList.all Json.Reader.isBlank →
        (settings.check = .ok () → ofJson (settings.toJson ++ rest) = .ok settings) ∧
          ∀ size, settings.check = .error size →
            ofJson (settings.toJson ++ rest) = .error (.invalid size)) ∧
      (∀ rest : String, ¬rest.toList.all Json.Reader.isBlank →
        ∃ fault, ofJson (settings.toJson ++ rest) = .error (.json fault) ∧
          fault.category = "syntax") ∧
      ∀ part rest : String, part ++ rest = settings.toJson → rest ≠ "" →
        ∃ fault, ofJson part = .error (.json fault) ∧ fault.category = "eof" := by
  have closed := settings.closed_toText
  have text : ∀ rest : String,
      ofJson (settings.toJson ++ rest) = ofText (settings.toText ++ rest.toList) := by
    intro rest
    rw [ofJson, toJson, String.toList_append, String.toList_ofList]
  refine ⟨?_, ?_, ?_⟩
  · intro rest blank
    have read : reader.readAll (settings.toText ++ rest.toList) = .ok settings := by
      rw [closed.readAll_append, if_pos blank]
    rw [text, ofText_of_readAll read]
    constructor
    · intro valid
      rw [valid]
      rfl
    · intro size invalid
      rw [invalid]
      rfl
  · intro rest more
    have failed : reader.readAll (settings.toText ++ rest.toList) = .error .malformed := by
      rw [closed.readAll_append, if_neg more]
    exact ⟨.malformed, by rw [text, ofText_of_fault failed], rfl⟩
  · intro part rest joined proper
    have whole : (part ++ rest).toList = settings.toText := by
      rw [joined, toJson, String.toList_ofList]
    exact ⟨.truncated, ofText_of_fault (closed.readAll_cut_string whole proper), rfl⟩

end MemoryHard.Settings
