import MemoryHard.Json.Record
import MemoryHard.Settings

/-!
# Settings as JSON

Settings are written as one object with the fields in their order and without blanks.
In reading, a missing field takes its default, and the settings are checked once
the whole text has been read.
-/

namespace MemoryHard.Settings

/-- Why no settings come from a file. -/
inductive LoadFault where
  | missingFile
  | directory
  | notUnicode
  | json (fault : Json.Fault)
  | invalid (size : InvalidSize)
  deriving DecidableEq, Repr

/-- Settings of which some fields have been read. -/
structure Draft where
  cacheBytes? : Option UInt64 := none
  datasetBytes? : Option UInt64 := none
  hash? : Option HashName := none
  fullDataset? : Option Bool := none

def Draft.complete (draft : Draft) : Settings :=
  let defaults : Settings := {}
  { cacheBytes := draft.cacheBytes?.getD defaults.cacheBytes
    datasetBytes := draft.datasetBytes?.getD defaults.datasetBytes
    hash := draft.hash?.getD defaults.hash
    fullDataset := draft.fullDataset?.getD defaults.fullDataset }

def hashName? (name : List Char) : Option HashName :=
  HashName.ofSpelling? (String.ofList name)

def fields : List (Json.Field Draft) := [
  .ofPart "cache_bytes".toList Draft.cacheBytes?
    (fun draft value => { draft with cacheBytes? := some value }) Json.natural64,
  .ofPart "dataset_bytes".toList Draft.datasetBytes?
    (fun draft value => { draft with datasetBytes? := some value }) Json.natural64,
  .ofPart "hash".toList Draft.hash?
    (fun draft value => { draft with hash? := some value }) (Json.variant hashName?),
  .ofPart "full_dataset".toList Draft.fullDataset?
    (fun draft value => { draft with fullDataset? := some value }) Json.boolean]

/-- Settings that need not be valid. -/
def reader : Json.Reader Settings := do
  let draft ← Json.record fields {}
  return draft.complete

def ofText (text : List Char) : Except LoadFault Settings :=
  match reader.readAll text with
  | .error fault => .error (.json fault)
  | .ok settings =>
      match settings.check with
      | .error size => .error (.invalid size)
      | .ok () => .ok settings

def ofJson (text : String) : Except LoadFault Settings :=
  ofText text.toList

/-- What stands where a settings file is looked for. -/
inductive File where
  | missing
  | directory
  | contents (bytes : Bytes)

def ofFile : File → Except LoadFault Settings
  | .missing => .error .missingFile
  | .directory => .error .directory
  | .contents bytes =>
      match String.fromUTF8? (ByteArray.mk bytes.toArray) with
      | some text => ofJson text
      | none => .error .notUnicode

def toText (settings : Settings) : List Char :=
  "\x7b\"cache_bytes\":".toList ++ Json.decimal settings.cacheBytes
    ++ ",\"dataset_bytes\":".toList ++ Json.decimal settings.datasetBytes
    ++ ",\"hash\":\"".toList ++ settings.hash.spelling.toList
    ++ "\",\"full_dataset\":".toList
    ++ (if settings.fullDataset then "true".toList else "false".toList)
    ++ "\x7d".toList

def toJson (settings : Settings) : String :=
  String.ofList settings.toText

end MemoryHard.Settings
