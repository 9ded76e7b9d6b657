import Mathlib.Data.List.Nodup
import MemoryHard.Proofs.SettingsText
import MemoryHard.Proofs.SpacedRecords

/-!
# Settings in any order

A settings text states some of the fields, in any order, among members of other names.  The
settings that are read from it are the defaults with the stated values in their places,
so neither the order nor the other members matter.  A field that is stated twice is
refused.
-/

namespace MemoryHard.Settings

inductive FieldName where
  | cacheBytes
  | datasetBytes
  | hash
  | fullDataset
  deriving DecidableEq

def FieldName.text : FieldName → List Char
  | .cacheBytes => "cache_bytes".toList
  | .datasetBytes => "dataset_bytes".toList
  | .hash => "hash".toList
  | .fullDataset => "full_dataset".toList

/-- A field with the value that is stated for it. -/
inductive Setting where
  | cacheBytes (value : UInt64)
  | datasetBytes (value : UInt64)
  | hash (name : HashName)
  | fullDataset (value : Bool)

def Setting.field : Setting → FieldName
  | .cacheBytes _ => .cacheBytes
  | .datasetBytes _ => .datasetBytes
  | .hash _ => .hash
  | .fullDataset _ => .fullDataset

/-- The literals that stand for the value of a setting. -/
inductive SettingText : Setting → List Char → Prop where
  | cacheBytes (value : UInt64) : SettingText (.cacheBytes value) (Json.decimal value)
  | datasetBytes (value : UInt64) : SettingText (.datasetBytes value) (Json.decimal value)
  | hash {name : HashName} {text : List Char}
      (string : Json.WrittenString name.spelling.toList text) :
      SettingText (.hash name) ('"' :: text)
  | fullDataset (value : Bool) :
      SettingText (.fullDataset value) (if value then "true".toList else "false".toList)

/-- The member is of another name. -/
def Unknown (entry : Json.Entry) : Prop :=
  ∀ name : FieldName, entry.key ≠ name.text

/-- What a member states: one setting, or nothing if its name is unknown. -/
inductive Yields : Json.Entry → List Setting → Prop where
  | setting {setting : Setting} {value : List Char} (spelled : SettingText setting value) :
      Yields ⟨setting.field.text, value⟩ [setting]
  | nothing {entry : Json.Entry} (unknown : Unknown entry)
      (value : Json.ValueText entry.value) : Yields entry []

/-- What members state, one after the other. -/
inductive States : List Json.Entry → List Setting → Prop where
  | nil : States [] []
  | cons {entry : Json.Entry} {entries : List Json.Entry} {part settings : List Setting}
      (yields : Yields entry part) (others : States entries settings) :
      States (entry :: entries) (part ++ settings)

/-- The texts of an object of these members with blanks around it. -/
inductive DocumentText : List Json.Entry → List Char → Prop where
  | object {entries : List Json.Entry} {before text after : List Char}
      (blankBefore : Json.AllBlank before) (object : Json.ObjectText entries text)
      (blankAfter : Json.AllBlank after) : DocumentText entries (before ++ (text ++ after))

section Members

variable {entries others dropped : List Json.Entry} {settings : List Setting}

/-- Members in another order state the same settings in another order. -/
theorem States.perm (states : States entries settings) (perm : entries.Perm others) :
    ∃ moved, States others moved ∧ settings.Perm moved := by
  induction perm generalizing settings with
  | nil => exact ⟨settings, states, .refl settings⟩
  | cons entry _ ih =>
      cases states with
      | @cons _ _ part _ yields behind =>
          obtain ⟨moved, found, same⟩ := ih behind
          exact ⟨part ++ moved, .cons yields found, same.append_left part⟩
  | swap first second =>
      cases states with
      | @cons _ _ part _ yields behind =>
          cases behind with
          | @cons _ _ part' settings yields' behind =>
              refine ⟨part' ++ (part ++ settings), .cons yields' (.cons yields behind), ?_⟩
              rw [← List.append_assoc, ← List.append_assoc]
              exact List.perm_append_comm.append_right settings
  | trans _ _ firstIh secondIh =>
      obtain ⟨middle, found, same⟩ := firstIh states
      obtain ⟨moved, found, same'⟩ := secondIh found
      exact ⟨moved, found, same.trans same'⟩

/-- Unknown members state nothing. -/
private theorem States.of_append (states : States (dropped ++ others) settings)
    (unknown : ∀ entry ∈ dropped, Unknown entry) : States others settings := by
  induction dropped generalizing settings with
  | nil => exact states
  | cons entry dropped ih =>
      obtain ⟨first, behind⟩ := List.forall_mem_cons.mp unknown
      cases states with
      | cons yields states =>
          cases yields with
          | @setting setting => exact absurd rfl (first setting.field)
          | nothing => exact ih states behind

end Members

def put (settings : Settings) : Setting → Settings
  | .cacheBytes value => { settings with cacheBytes := value }
  | .datasetBytes value => { settings with datasetBytes := value }
  | .hash name => { settings with hash := name }
  | .fullDataset value => { settings with fullDataset := value }

/-- The defaults with the stated values in their places. -/
def stated (settings : List Setting) : Settings :=
  settings.foldl put {}

private theorem put_right_comm {first second : Setting} (different : first.field ≠ second.field)
    (settings : Settings) :
    (settings.put first).put second = (settings.put second).put first := by
  cases first <;> cases second <;> first | rfl | exact absurd rfl different

/-- Settings of different fields may be put in any order. -/
theorem stated_eq_of_perm {first second : List Setting} (perm : first.Perm second)
    (once : (first.map Setting.field).Nodup) : stated first = stated second := by
  apply perm.foldl_eq'
  intro one oneMember other otherMember settings
  by_cases same : one.field = other.field
  · rw [List.inj_on_of_nodup_map once oneMember otherMember same]
  · exact put_right_comm same settings

section Drafts

variable {setting : Setting} {settings : List Setting} {draft : Draft}

def Draft.put (draft : Draft) : Setting → Draft
  | .cacheBytes value => { draft with cacheBytes? := some value }
  | .datasetBytes value => { draft with datasetBytes? := some value }
  | .hash name => { draft with hash? := some name }
  | .fullDataset value => { draft with fullDataset? := some value }

/-- The field of the setting has been read. -/
def Draft.has (draft : Draft) : Setting → Bool
  | .cacheBytes _ => draft.cacheBytes?.isSome
  | .datasetBytes _ => draft.datasetBytes?.isSome
  | .hash _ => draft.hash?.isSome
  | .fullDataset _ => draft.fullDataset?.isSome

private theorem Draft.complete_put (draft : Draft) (setting : Setting) :
    (draft.put setting).complete = draft.complete.put setting := by
  cases setting <;> rfl

private theorem Draft.has_put (draft : Draft) (setting other : Setting) :
    (draft.put setting).has other = (decide (setting.field = other.field) || draft.has other) := by
  cases setting <;> cases other <;> rfl

/-- The settings put one after the other, where a field that is set already is refused. -/
def Draft.fill (draft : Draft) : List Setting → Except Json.Fault Draft
  | [] => .ok draft
  | setting :: settings =>
      if draft.has setting then .error .mismatched else (draft.put setting).fill settings

/-- No field is stated twice, and none that the draft has already. -/
def Draft.Lacks (draft : Draft) (settings : List Setting) : Prop :=
  (settings.map Setting.field).Nodup ∧ ∀ setting ∈ settings, draft.has setting = false

private theorem Draft.lacks_cons :
    draft.Lacks (setting :: settings) ↔
      draft.has setting = false ∧ (draft.put setting).Lacks settings := by
  have unstated : setting.field ∉ settings.map Setting.field ↔
      ∀ other ∈ settings, setting.field ≠ other.field := by
    simp [eq_comm]
  simp only [Lacks, List.map_cons, List.nodup_cons, List.forall_mem_cons, has_put,
    Bool.or_eq_false_iff, decide_eq_false_iff_not, unstated, forall_and]
  tauto

private theorem Draft.fill_of_lacks (lacks : draft.Lacks settings) :
    draft.fill settings = .ok (settings.foldl Draft.put draft) := by
  induction settings generalizing draft with
  | nil => rfl
  | cons setting settings ih =>
      obtain ⟨missing, others⟩ := lacks_cons.mp lacks
      rw [fill, if_neg (by simp [missing]), ih others, List.foldl_cons]

private theorem Draft.fill_of_not_lacks (again : ¬draft.Lacks settings) :
    draft.fill settings = .error .mismatched := by
  induction settings generalizing draft with
  | nil => exact absurd ⟨List.nodup_nil, by simp⟩ again
  | cons setting settings ih =>
      rw [fill]
      split
      next => rfl
      next missing =>
        apply ih
        intro others
        exact again (lacks_cons.mpr ⟨by simpa using missing, others⟩)

private theorem Draft.lacks_empty :
    ({} : Draft).Lacks settings ↔ (settings.map Setting.field).Nodup := by
  have none : ∀ setting, ({} : Draft).has setting = false := by
    intro setting
    cases setting <;> rfl
  simp [Lacks, none]

private theorem Draft.complete_foldl (settings : List Setting) (draft : Draft) :
    (settings.foldl Draft.put draft).complete = settings.foldl Settings.put draft.complete := by
  induction settings generalizing draft with
  | nil => rfl
  | cons setting settings ih => rw [List.foldl_cons, ih, complete_put, List.foldl_cons]

end Drafts

/-- A setting is read by the field of its name. -/
private theorem exists_field (setting : Setting) :
    ∃ field, fields.find? (·.name = setting.field.text) = some field ∧
      (∀ draft, field.isSet draft = draft.has setting) ∧
      ∀ draft text, SettingText setting text →
        (field.read draft).Takes text (draft.put setting) := by
  cases setting with
  | cacheBytes value =>
      refine ⟨_, rfl, fun _ => rfl, fun draft text spelled => ?_⟩
      cases spelled
      exact (Json.takes_natural64 value).map fun value => draft.put (.cacheBytes value)
  | datasetBytes value =>
      refine ⟨_, rfl, fun _ => rfl, fun draft text spelled => ?_⟩
      cases spelled
      exact (Json.takes_natural64 value).map fun value => draft.put (.datasetBytes value)
  | hash name =>
      refine ⟨_, rfl, fun _ => rfl, fun draft text spelled => ?_⟩
      cases spelled with
      | hash string =>
          have taken := Json.takes_variant (hashName?_spelling name) string
          exact taken.map fun name => draft.put (.hash name)
  | fullDataset value =>
      refine ⟨_, rfl, fun _ => rfl, fun draft text spelled => ?_⟩
      cases spelled
      exact (Json.takes_boolean value).map fun value => draft.put (.fullDataset value)

private theorem exists_fieldName {field : Json.Field Draft} (member : field ∈ fields) :
    ∃ name : FieldName, field.name = name.text := by
  simp only [fields, List.mem_cons, List.not_mem_nil, or_false] at member
  obtain rfl | rfl | rfl | rfl := member
  · exact ⟨.cacheBytes, rfl⟩
  · exact ⟨.datasetBytes, rfl⟩
  · exact ⟨.hash, rfl⟩
  · exact ⟨.fullDataset, rfl⟩

private theorem find?_of_unknown {key : List Char} (unknown : ∀ name : FieldName, key ≠ name.text) :
    fields.find? (·.name = key) = none := by
  rw [List.find?_eq_none]
  intro field member same
  obtain ⟨name, named⟩ := exists_fieldName member
  exact unknown name ((of_decide_eq_true same).symm.trans named)

/-- Members fill the draft with the settings that they state. -/
theorem States.outcome {entries : List Json.Entry} {settings : List Setting}
    (states : States entries settings) (draft : Draft) :
    Json.Outcome fields draft entries (draft.fill settings) := by
  induction states generalizing draft with
  | nil => exact .done
  | @cons entry entries part settings yields _ ih =>
      cases yields with
      | nothing unknown value => exact .other (find?_of_unknown unknown) value (ih draft)
      | @setting setting value spelled =>
          obtain ⟨field, found, isSet, read⟩ := exists_field setting
          rw [List.singleton_append, Draft.fill]
          split
          next present => exact .again found (by rw [isSet, present])
          next missing =>
            have unset : field.isSet draft = false := by
              rw [isSet, Bool.eq_false_iff]
              exact missing
            exact .field found unset (read draft value spelled) (ih _)

section Documents

variable {entries others : List Json.Entry} {settings moved : List Setting}
  {text other : List Char}

private theorem DocumentText.readAll_eq (document : DocumentText entries text)
    (states : States entries settings) :
    reader.readAll text = (({} : Draft).fill settings).map Draft.complete := by
  cases document with
  | @object before text after blankBefore object blankAfter =>
      have read := object.run_record (states.outcome {}) blankBefore after
      have ends : after.all Json.Reader.isBlank := List.all_eq_true.mpr blankAfter
      rw [Json.Reader.readAll, reader]
      cases filled : ({} : Draft).fill settings with
      | ok draft =>
          rw [filled] at read
          rw [Json.Reader.run_bind_ok read, Json.Reader.run_pure]
          dsimp only
          rw [if_pos ends]
          rfl
      | error fault =>
          rw [filled] at read
          rw [Json.Reader.run_bind_error read]
          rfl

private theorem DocumentText.ofText_once (document : DocumentText entries text)
    (states : States entries settings) (once : (settings.map Setting.field).Nodup) :
    ofText text = ((stated settings).check.mapError .invalid).map fun _ => stated settings := by
  apply ofText_of_readAll
  rw [document.readAll_eq states, Draft.fill_of_lacks (Draft.lacks_empty.mpr once)]
  exact congrArg Except.ok (Draft.complete_foldl settings {})

private theorem DocumentText.ofText_again (document : DocumentText entries text)
    (states : States entries settings) (again : ¬(settings.map Setting.field).Nodup) :
    ofText text = .error (.json .mismatched) := by
  have refused : ¬({} : Draft).Lacks settings := fun lacks => again (Draft.lacks_empty.mp lacks)
  apply ofText_of_fault
  rw [document.readAll_eq states, Draft.fill_of_not_lacks refused]
  rfl

/-- The result depends on which settings are stated only. -/
theorem DocumentText.ofText_eq (document : DocumentText entries text)
    (states : States entries settings) (otherDocument : DocumentText others other)
    (otherStates : States others moved) (perm : settings.Perm moved) :
    ofText text = ofText other := by
  have names := (perm.map Setting.field).nodup_iff
  by_cases once : (settings.map Setting.field).Nodup
  · rw [document.ofText_once states once, otherDocument.ofText_once otherStates (names.mp once),
      stated_eq_of_perm perm once]
  · have again : ¬(moved.map Setting.field).Nodup := fun found => once (names.mpr found)
    rw [document.ofText_again states once, otherDocument.ofText_again otherStates again]

end Documents

/-- Settings that are stated at most once each are read wherever they stand, and are then
checked.  A field that is stated again is refused.  The members may be put in another order,
and unknown ones may be dropped, without a change of the result. -/
theorem ofJson_stated :
    (∀ (text : String) (entries : List Json.Entry) (settings : List Setting),
      DocumentText entries text.toList → States entries settings →
      ((settings.map Setting.field).Nodup →
        ((stated settings).check = .ok () → ofJson text = .ok (stated settings)) ∧
          ∀ size, (stated settings).check = .error size → ofJson text = .error (.invalid size)) ∧
      (¬(settings.map Setting.field).Nodup →
        ∃ fault, ofJson text = .error (.json fault) ∧ fault.category = "data")) ∧
    ∀ (text other : String) (entries dropped others : List Json.Entry) (settings : List Setting),
      DocumentText entries text.toList → States entries settings →
      entries.Perm (dropped ++ others) → (∀ entry ∈ dropped, Unknown entry) →
      DocumentText others other.toList → ofJson text = ofJson other := by
  refine ⟨?_, ?_⟩
  · intro text entries settings document states
    refine ⟨fun once => ?_, fun again => ?_⟩
    · have read := document.ofText_once states once
      constructor
      · intro valid
        rw [ofJson, read, valid]
        rfl
      · intro size invalid
        rw [ofJson, read, invalid]
        rfl
    · exact ⟨.mismatched, document.ofText_again states again, rfl⟩
  · intro text other entries dropped others settings document states perm unknown otherDocument
    obtain ⟨moved, found, same⟩ := states.perm perm
    exact document.ofText_eq states otherDocument (found.of_append unknown) same

/-- A value inside brackets, with half a pair in its string. -/
private theorem valueText_nested :
    Json.ValueText "[-0, \x7b\"y\":\"\\ud800\"\x7d]".toList := by
  have none := Json.allBlank_nil
  have blank : Json.AllBlank [' '] := List.all_eq_true.mp rfl
  have whole : Json.Numeral.Whole ['0'] :=
    ⟨⟨List.cons_ne_nil _ _, List.all_eq_true.mp rfl⟩, fun _ => rfl⟩
  have zero := Json.Numeral.NumeralText.negative (.parts whole .absent .absent)
  have half : Json.FourDigits 0xd800 ['d', '8', '0', '0'] := ⟨0xd8, 0, rfl, .refl _⟩
  have string := Json.PhraseText.string (.unit half .close)
  have key := Json.KeyText.object (.plain (rfl : Json.isPlain 'y') .close) none none
  have object := Json.PhraseText.filled none (.last key string none)
  have elements := Json.PhraseText.more .list (.numeral zero) none blank (.last .list object none)
  exact Json.PhraseText.filled none elements

/-- An unknown member, an escape in a key and blanks change nothing. -/
theorem ofJson_stated_cacheBytes :
    let text := " \x7b \"x\":[-0, \x7b\"y\":\"\\ud800\"\x7d],\"\\u0063ache_bytes\" :128\x7d"
    ofJson text = .ok { cacheBytes := 128 } ∧
      ofJson text = ofJson "\x7b\"cache_bytes\":128\x7d" ∧
      ∃ fault, ofJson "\x7b\"cache_bytes\":128,\"cache_bytes\":128\x7d" = .error (.json fault) ∧
        fault.category = "data" := by
  intro text
  have none := Json.allBlank_nil
  have blank : Json.AllBlank [' '] := List.all_eq_true.mp rfl
  let nested : Json.Entry := ⟨['x'], "[-0, \x7b\"y\":\"\\ud800\"\x7d]".toList⟩
  let cache : Json.Entry := ⟨"cache_bytes".toList, Json.decimal 128⟩
  have number : Json.decimal 128 = ['1', '2', '8'] := rfl
  have plain : Json.WrittenString cache.key ("cache_bytes".toList ++ ['"']) :=
    Json.writtenString_of_isPlain (List.all_eq_true.mp rfl)
  have others : Json.WrittenString "ache_bytes".toList ("ache_bytes".toList ++ ['"']) :=
    Json.writtenString_of_isPlain (List.all_eq_true.mp rfl)
  have letter : Json.FourDigits 'c'.toNat ['0', '0', '6', '3'] := ⟨0, 0x63, rfl, .refl _⟩
  have cacheKey : cache.key = 'c' :: "ache_bytes".toList := rfl
  have escaped := cacheKey ▸ Json.WrittenString.cons (.unit (by decide) letter) others
  have nestedText : Json.EntryText nested _ := .parts (.cons (.plain rfl) .close) none none
  have cacheText : Json.EntryText cache _ := .parts plain none none
  have escapedText : Json.EntryText cache _ := .parts escaped blank none
  have first : DocumentText [nested, cache] text.toList := by
    have members := Json.EntriesText.more nestedText none none (.last escapedText none)
    simpa [text, nested, cache, number] using DocumentText.object blank (.filled blank members) none
  have second : DocumentText [cache] "\x7b\"cache_bytes\":128\x7d".toList := by
    have members := Json.EntriesText.last cacheText none
    simpa [cache, number] using DocumentText.object none (.filled none members) none
  have third : DocumentText [cache, cache]
      "\x7b\"cache_bytes\":128,\"cache_bytes\":128\x7d".toList := by
    have members := Json.EntriesText.more cacheText none none (.last cacheText none)
    simpa [cache, number] using DocumentText.object none (.filled none members) none
  have unknown : Unknown nested := by
    intro name
    cases name <;> decide
  have known : Yields cache [.cacheBytes 128] := .setting (.cacheBytes 128)
  have states := States.cons (.nothing unknown valueText_nested) (.cons known .nil)
  have again := States.cons known (.cons known .nil)
  refine ⟨?_, ?_, ?_⟩
  · exact ((ofJson_stated.1 text _ _ first states).1 (by decide)).1 rfl
  · have dropped : ∀ entry ∈ [nested], Unknown entry := by simpa using unknown
    exact ofJson_stated.2 text _ _ [nested] _ _ first states (.refl _) dropped second
  · exact (ofJson_stated.1 _ _ _ third again).2 (by decide)

end MemoryHard.Settings
