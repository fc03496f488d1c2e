/-
  FuzzBundle.Proofs.KeptFields — what a request keeps of the value that it was read from.

  A request knows three fields, and at two levels inside it every other field is kept. So the value
  that it is written as again is compared with the value that it was read from, field by field. The
  known fields come back as they were because what they are read as is written as the same value
  (`Faithful`); the others because they are kept as values. What becomes different is what the
  defaults make of it: a null text and an empty list of remappings are left out, and a selection is
  always written (`keptEntryField?`, `keptSetting?`).

  A request may also be given by an array of its fields, and is written as an object all the same
  (`Json.recordField?`).

  Main statements: `SourceEntry.exists_hasFields`, `InputSettings.exists_hasFields`,
  `InputDocument.reencoded`.
-/
import FuzzBundle.Proofs.RecordReading
import FuzzBundle.Proofs.TextReading

namespace FuzzBundle

/-! ## §1. What is written as it was read -/

/-- A type of which everything is written as the value that it was read from. -/
class Faithful (α : Type u) [Recorded α] : Prop where
  value?_eq : ∀ {value : Json} {a : α}, value.Canonical → Recorded.ofValue? value = some a →
    Recorded.value? a = some value

instance : Faithful String where
  value?_eq {value _} _ read := by
    cases value with
    | string s => cases read; rfl
    | _ => cases read

theorem values?_of_decodeItems [Recorded α] [Faithful α] {items : List Json} {as : List α}
    (canonical : ∀ item ∈ items, item.Canonical)
    (read : decodeItems (Json.writtenItems items) = some as) :
    Written.values? (as.map encode) = some items := by
  induction items generalizing as with
  | nil => cases read; rfl
  | cons item rest ih =>
    obtain ⟨first, others⟩ := List.forall_mem_cons.1 canonical
    rw [Json.writtenItems, decodeItems] at read
    split at read
    · next a more readFirst readMore =>
      cases read
      have valued : (encode a : Written).value? = some item := Faithful.value?_eq first readFirst
      rw [List.map_cons, Written.values?, valued, ih others readMore]
    · cases read

instance [Recorded α] [Faithful α] : Faithful (List α) where
  value?_eq {value as} canonical read := by
    cases value with
    | array items =>
      rw [Json.Canonical, Json.canonicalItems_iff] at canonical
      show (Written.values? (as.map encode)).map Json.array = _
      rw [values?_of_decodeItems canonical read, Option.map_some]
    | _ => cases read

/-- If every value of a list of fields is written as something related to it, so is the list. -/
theorem exists_fieldValues?_of_decodeFields [Recorded α] {R : Json → Json → Prop}
    {fields : List (String × Json)} {entries : List (String × α)}
    (each : ∀ field ∈ fields, ∀ a : α, Recorded.ofValue? field.2 = some a →
      ∃ out, Recorded.value? a = some out ∧ R field.2 out)
    (read : decodeFields (Json.writtenFields fields) = some entries) :
    ∃ outs, Written.fieldValues? (entries.map fun entry => (entry.1, encode entry.2)) = some outs
      ∧ List.Forall₂ (fun field out => out.1 = field.1 ∧ R field.2 out.2) fields outs
      ∧ outs.map Prod.fst = fields.map Prod.fst
      ∧ entries.map Prod.fst = fields.map Prod.fst := by
  induction fields generalizing entries with
  | nil =>
    cases read
    exact ⟨[], rfl, .nil, rfl, rfl⟩
  | cons field rest ih =>
    obtain ⟨key, value⟩ := field
    obtain ⟨first, others⟩ := List.forall_mem_cons.1 each
    rw [Json.writtenFields, decodeFields] at read
    split at read
    · next a more readFirst readMore =>
      cases read
      obtain ⟨out, valued, related⟩ := first a readFirst
      obtain ⟨outs, valuedRest, relatedRest, keysOut, keysIn⟩ := ih others readMore
      refine ⟨(key, out) :: outs, ?_, .cons ⟨rfl, related⟩ relatedRest, ?_, ?_⟩
      · rw [List.map_cons, Written.fieldValues?, show (encode a : Written).value? = _ from valued,
          valuedRest]
      · rw [List.map_cons, List.map_cons, keysOut]
      · rw [List.map_cons, List.map_cons, keysIn]
    · cases read

/-- A dictionary is written as a dictionary of the same keys, value by value. -/
theorem exists_value?_of_dict [Recorded α] {R : Json → Json → Prop} (given : Dict Json)
    {d : Dict α} (each : ∀ key value, given.get? key = some value →
      ∀ a : α, Recorded.ofValue? value = some a → ∃ out, Recorded.value? a = some out ∧ R value out)
    (read : Recorded.ofValue? (.object given.entries) = some d) :
    ∃ out : Dict Json, Recorded.value? d = some (.object out.entries) ∧ given.Pointwise R out := by
  obtain ⟨entries, decoded, rfl⟩ := Option.map_eq_some_iff.1 read
  obtain ⟨outs, valued, related, keysOut, keysIn⟩ := exists_fieldValues?_of_decodeFields
    (fun field member => each field.1 field.2 (Dict.mem_toList_iff.1 member)) decoded
  have ordered : Entries.Ascending outs := given.ascending.of_keys keysOut
  have same : (Dict.ofList entries).toList = entries :=
    Entries.ofList_of_ascending (given.ascending.of_keys keysIn)
  refine ⟨⟨outs, ordered⟩, ?_, related⟩
  show (Written.fieldValues? ((Dict.ofList entries).toList.map _)).map Json.ofFields = _
  rw [same, valued, Option.map_some, Json.ofFields, Entries.ofList_of_ascending ordered]

instance [Recorded α] [Faithful α] : Faithful (Dict α) where
  value?_eq {value d} canonical read := by
    cases value with
    | object fields =>
      rw [Json.Canonical, Json.canonicalFields_iff] at canonical
      let given : Dict Json := ⟨fields, canonical.1⟩
      obtain ⟨out, valued, same⟩ := exists_value?_of_dict (R := fun v out => out = v)
        given (fun key v found a readValue => ⟨v, Faithful.value?_eq
          (canonical.2 (key, v) (Dict.mem_toList_iff.2 found)) readValue, rfl⟩) read
      rw [valued, Dict.eq_of_pointwise_eq same]
    | _ => cases read

/-! ## §2. Fields of a value -/

/-- A value is an object with these fields and no others. -/
def Json.HasFields (value : Json) (field? : String → Option Json) : Prop :=
  ∃ fields : Dict Json, value = .object fields.entries ∧ ∀ key, fields.get? key = field? key

/-- What a value has as a field of a record that has fields of these names: by its name in an
object, and by its place in an array. -/
def Json.recordField? (names : List String) (value : Json) (name : String) : Option Json :=
  match value with
  | .object fields => Entries.get? fields name
  | .array items => Entries.get? (names.zip items) name
  | _ => none

/-- The fields of a record are found where the value has them. -/
theorem get?_slots_written {names : List String} {value : Json} (canonical : value.Canonical)
    {s : Slots} (slots : value.written.slots? names = some s) (name : String) :
    s.get? name = (value.recordField? names name).map Json.written := by
  cases value with
  | object fields =>
    rw [Json.Canonical] at canonical
    let d : Dict Json := ⟨fields, canonical.1⟩
    rw [show Json.object fields = .object d.entries from rfl, written_object,
      slots?_writtenEach] at slots
    cases slots
    exact d.get?_slots name
  | array items =>
    obtain ⟨-, same⟩ := Option.ite_none_right_eq_some.1 slots
    cases same
    show Entries.get? (names.zip (Json.writtenItems items)) name = _
    rw [Json.writtenItems_eq_map, List.zip_map_right]
    exact Entries.get?_map (names.zip items) (fun _ => Json.written) name
  | _ => cases slots

theorem canonical_of_recordField? {names : List String} {value : Json} (canonical : value.Canonical)
    {name : String} {field : Json} (there : value.recordField? names name = some field) :
    field.Canonical := by
  cases value with
  | object fields =>
    rw [Json.Canonical, Json.canonicalFields_iff] at canonical
    exact canonical.2 _ (Entries.mem_of_get? there)
  | array items =>
    rw [Json.Canonical, Json.canonicalItems_iff] at canonical
    exact canonical _ (List.of_mem_zip (Entries.mem_of_get? there)).2
  | _ => cases there

/-- The fields of other names are those that the value has. -/
theorem get?_of_unknownFields {known : List String} {d extra : Dict Json}
    (canonical : ∀ entry ∈ d.entries, entry.2.Canonical)
    (read : unknownFields known (writtenEach d) = some extra) (key : String) :
    extra.get? key = if key ∈ known then none else d.get? key := by
  let others : Dict Json :=
    ⟨d.entries.filter fun entry => !known.contains entry.1, d.ascending.filter _⟩
  have get (key : String) : others.get? key = if key ∈ known then none else d.get? key := by
    show Entries.get? (d.entries.filter fun entry => !known.contains entry.1) key = _
    rw [Entries.get?_filter d.entries fun key => !known.contains key]
    by_cases member : key ∈ known
    · simp [member]
    · simp [member]
      rfl
  have same : extra = others :=
    Option.some.inj (read.symm.trans (unknownFields_writtenEach canonical get))
  rw [same]
  exact get key

/-! ## §3. Source entries and settings -/

/-- What a source entry is written with under a key: what it was read with, but no null text. -/
def keptEntryField? (given : Json) (key : String) : Option Json :=
  if key = "content" ∧ given.field? key = some .null then none else given.field? key

/-- What settings are written with under a key: what they were read with, but no empty list of
remappings, and always a selection. -/
def keptSetting? (given : Json) (key : String) : Option Json :=
  if key = "remappings" ∧ given.field? key = some (.array []) then none
  else if key = "outputSelection" ∧ given.field? key = none then some (.object [])
  else given.field? key

section Fields

variable [Recorded α] [Faithful α] {d : Dict Json} {name : String}

/-- What an optional field was read from is written again unless it was null. -/
theorem value?_of_optional {a? : Option α}
    (canonical : ∀ value, d.get? name = some value → value.Canonical)
    (read : d.slots.optional name = some a?) :
    (a?.map encode).bind Written.value?
      = if d.get? name = some .null then none else d.get? name := by
  rw [optional_slots] at read
  cases there : d.get? name with
  | none =>
    rw [there] at read
    cases read
    rfl
  | some value =>
    rw [there, Option.bind_some] at read
    by_cases null : value = .null
    · subst null
      cases read
      rfl
    · rw [Json.present?_of_ne_null null] at read
      obtain ⟨a, own, rfl⟩ := Option.map_eq_some_iff.1 read
      rw [if_neg fun same => null (Option.some.inj same)]
      exact Faithful.value?_eq (canonical value there) own

/-- A field with a default was read from what is written again, or it is the default. -/
theorem value?_of_withDefault {a default : α}
    (canonical : ∀ value, d.get? name = some value → value.Canonical)
    (read : d.slots.withDefault name default = some a) :
    (d.get? name = none ∧ a = default)
      ∨ ∃ value, d.get? name = some value ∧ Recorded.value? a = some value := by
  rw [withDefault_slots] at read
  cases there : d.get? name with
  | none =>
    rw [there] at read
    cases read
    exact .inl ⟨rfl, rfl⟩
  | some value =>
    rw [there] at read
    exact .inr ⟨value, rfl, Faithful.value?_eq (canonical value there) read⟩

end Fields

/-- Only the empty list of texts is written as the empty array. -/
theorem eq_nil_of_value?_array {items : List String}
    (h : Recorded.value? items = some (.array [])) : items = [] := by
  cases items with
  | nil => rfl
  | cons item rest =>
    obtain ⟨values, found, same⟩ := Option.map_eq_some_iff.1 h
    cases same
    rw [List.map_cons, Written.values?] at found
    split at found
    · cases found
    · cases found

/-- What a list of texts was read from is written again unless it was empty. -/
theorem value?_of_unlessEmpty {d : Dict Json} {name : String} {items : List String}
    (canonical : ∀ value, d.get? name = some value → value.Canonical)
    (read : d.slots.withDefault name [] = some items) :
    (if items.isEmpty then none else some (encode items)).bind Written.value?
      = if d.get? name = some (.array []) then none else d.get? name := by
  rcases value?_of_withDefault canonical read with ⟨missing, rfl⟩ | ⟨value, there, own⟩
  · rw [missing]
    rfl
  · rw [there, ← own]
    cases items with
    | nil => exact (if_pos rfl).symm
    | cons item rest => exact (if_neg fun empty =>
      List.cons_ne_nil item rest (eq_nil_of_value?_array empty)).symm

/-- A source entry is written as it was read, except that a null text is left out. -/
theorem SourceEntry.exists_hasFields {given : Json} (canonical : given.Canonical) {e : SourceEntry}
    (read : Recorded.ofValue? given = some e) :
    ∃ out, Recorded.value? e = some out ∧ out.HasFields (keptEntryField? given) := by
  have unknown : UnknownTo ["content"] e.extra := by
    obtain ⟨fields, -, extra⟩ := SourceEntry.exists_unknownFields read
    exact unknownTo_of_unknownFields extra
  cases given with
  | object fields =>
    rw [Json.Canonical] at canonical
    let d : Dict Json := ⟨fields, canonical.1⟩
    have each : ∀ entry ∈ d.entries, entry.2.Canonical := Json.canonicalFields_iff.1 canonical.2
    have decoded : decode (Json.object d.entries).written = some e := read
    rw [written_object] at decoded
    have decoded : ((Written.object (writtenEach d)).slots? ["content"] >>= fun s => _) = some e :=
      decoded
    rw [slots?_writtenEach, Option.bind_eq_bind, Option.bind_some] at decoded
    obtain ⟨content?, readContent, decoded⟩ := Option.bind_eq_some_iff.1 decoded
    obtain ⟨extra, readExtra, decoded⟩ := Option.bind_eq_some_iff.1 decoded
    cases decoded
    obtain ⟨out, valued, known, others⟩ := exists_dict_parts
      [.optional "content" content? fun _ _ => (restored _).legible] extra
      (show ["content"].Nodup by decide) unknown
    refine ⟨_, ?_, out, rfl, fun key => ?_⟩
    · simp only [List.flatMap_cons, Part.fields_optional, List.flatMap_nil, List.append_nil]
        at valued
      exact valued
    · show _ = if key = "content" ∧ d.get? key = some .null then none else d.get? key
      by_cases same : key = "content"
      · subst same
        have text : out.get? "content" = (content?.map encode).bind Written.value? :=
          known _ List.mem_cons_self
        have own (value : Json) (found : d.get? "content" = some value) : value.Canonical :=
          each ("content", value) (Entries.mem_of_get? found)
        rw [text, value?_of_optional own readContent]
        simp
      · have other : key ∉ ["content"] := fun member => same (List.mem_singleton.1 member)
        rw [others key other, get?_of_unknownFields each readExtra, if_neg other,
          if_neg fun both => same both.1]
  | _ => cases read

/-- Settings are written as they were read, except that an empty list of remappings is left out and
a missing selection is written as an empty one. -/
theorem InputSettings.exists_hasFields {given : Json} (canonical : given.Canonical)
    {s : InputSettings} (read : Recorded.ofValue? given = some s) :
    ∃ out, Recorded.value? s = some out ∧ out.HasFields (keptSetting? given) := by
  have unknown : UnknownTo ["remappings", "outputSelection"] s.extra := by
    obtain ⟨fields, -, extra⟩ := InputSettings.exists_unknownFields read
    exact unknownTo_of_unknownFields extra
  cases given with
  | object fields =>
    rw [Json.Canonical] at canonical
    let d : Dict Json := ⟨fields, canonical.1⟩
    have each : ∀ entry ∈ d.entries, entry.2.Canonical := Json.canonicalFields_iff.1 canonical.2
    have own (name : String) (value : Json) (found : d.get? name = some value) : value.Canonical :=
      each (name, value) (Entries.mem_of_get? found)
    have decoded : decode (Json.object d.entries).written = some s := read
    rw [written_object] at decoded
    have decoded : ((Written.object (writtenEach d)).slots? ["remappings", "outputSelection"]
      >>= fun s => _) = some s := decoded
    rw [slots?_writtenEach, Option.bind_eq_bind, Option.bind_some] at decoded
    obtain ⟨remappings, readRemappings, decoded⟩ := Option.bind_eq_some_iff.1 decoded
    obtain ⟨selection, readSelection, decoded⟩ := Option.bind_eq_some_iff.1 decoded
    obtain ⟨extra, readExtra, decoded⟩ := Option.bind_eq_some_iff.1 decoded
    cases decoded
    obtain ⟨out, valued, known, others⟩ := exists_dict_parts
      [.unlessEmpty "remappings" remappings,
        .givenOr "outputSelection" selection Dict.empty (restored _)] extra
      (show ["remappings", "outputSelection"].Nodup by decide) unknown
    refine ⟨_, ?_, out, rfl, fun key => ?_⟩
    · simp only [List.flatMap_cons, Part.fields_unlessEmpty, Part.fields_givenOr,
        List.flatMap_nil, List.append_nil] at valued
      exact valued
    · show _ = if key = "remappings" ∧ d.get? key = some (.array []) then none
        else if key = "outputSelection" ∧ d.get? key = none then some (.object [])
        else d.get? key
      by_cases first : key = "remappings"
      · subst first
        have written : out.get? "remappings"
            = (if remappings.isEmpty then none else some (encode remappings)).bind
              Written.value? := known _ List.mem_cons_self
        rw [written, value?_of_unlessEmpty (own _) readRemappings]
        simp
      · by_cases second : key = "outputSelection"
        · subst second
          have written : out.get? "outputSelection" = (some (encode selection)).bind
              Written.value? := known _ (List.mem_cons_of_mem _ List.mem_cons_self)
          rw [written, Option.bind_some, if_neg fun both => absurd both.1 (by decide)]
          rcases value?_of_withDefault (own _) readSelection with
            ⟨missing, rfl⟩ | ⟨value, there, valued⟩
          · rw [if_pos ⟨rfl, missing⟩]
            rfl
          · rw [there, if_neg fun both => Option.some_ne_none value both.2]
            exact valued
        · have other : key ∉ ["remappings", "outputSelection"] := by simp [first, second]
          rw [others key other, get?_of_unknownFields each readExtra, if_neg other,
            if_neg fun both => first both.1, if_neg fun both => second both.1]
  | _ => cases read

/-! ## §4. Requests -/

namespace InputDocument

/-- The fields that a request knows. -/
def fieldNames : List String := ["language", "sources", "settings"]

/-- A request was read from one value and is written as another: no field is there but those that
it knows. The language is the same, and so are the paths of the sources; the source entries and the
settings have the fields that they had, up to their defaults. -/
structure Reencodes (given : Json) (out : Dict Json) : Prop where
  language : out.get? "language" = given.recordField? fieldNames "language"
  sources : ∃ files outFiles : Dict Json,
    given.recordField? fieldNames "sources" = some (.object files.entries)
    ∧ out.get? "sources" = some (.object outFiles.entries)
    ∧ files.Pointwise (fun entry outEntry => outEntry.HasFields (keptEntryField? entry)) outFiles
  settings : ∃ outSettings, out.get? "settings" = some outSettings
    ∧ outSettings.HasFields
        (keptSetting? ((given.recordField? fieldNames "settings").getD (.object [])))
  others : ∀ key, key ∉ fieldNames → out.get? key = none

section Read

variable {given : Json} {s : Slots}

/-- A field that must be given was read from a field of the value. -/
theorem exists_of_required [Recorded α] (canonical : given.Canonical)
    (slots : given.written.slots? fieldNames = some s) {name : String} {a : α}
    (read : s.required name = some a) :
    ∃ value, given.recordField? fieldNames name = some value ∧ value.Canonical
      ∧ Recorded.ofValue? value = some a := by
  obtain ⟨w, found, decoded⟩ := Option.bind_eq_some_iff.1 read
  rw [get?_slots_written canonical slots name] at found
  obtain ⟨value, there, rfl⟩ := Option.map_eq_some_iff.1 found
  exact ⟨value, there, canonical_of_recordField? canonical there, decoded⟩

/-- Settings that are missing are read from the object without fields. -/
theorem ofValue?_of_settings (canonical : given.Canonical)
    (slots : given.written.slots? fieldNames = some s) {settings : InputSettings}
    (read : s.withDefault "settings" .empty = some settings) :
    ((given.recordField? fieldNames "settings").getD (.object [])).Canonical
    ∧ Recorded.ofValue? ((given.recordField? fieldNames "settings").getD (.object []))
      = some settings := by
  rw [Slots.withDefault, get?_slots_written canonical slots "settings"] at read
  cases there : given.recordField? fieldNames "settings" with
  | none =>
    rw [there] at read
    cases read
    exact ⟨⟨.nil, trivial⟩, rfl⟩
  | some value =>
    rw [there] at read
    exact ⟨canonical_of_recordField? canonical there, read⟩

/-- Sources are written under the paths that they were read under. -/
theorem exists_files {value : Json} (canonical : value.Canonical) {sources : Dict SourceEntry}
    (read : Recorded.ofValue? value = some sources) :
    ∃ files outFiles : Dict Json, value = .object files.entries
      ∧ Recorded.value? sources = some (.object outFiles.entries)
      ∧ files.Pointwise (fun entry outEntry => outEntry.HasFields (keptEntryField? entry))
        outFiles := by
  cases value with
  | object fields =>
    rw [Json.Canonical, Json.canonicalFields_iff] at canonical
    let files : Dict Json := ⟨fields, canonical.1⟩
    obtain ⟨outFiles, valued, each⟩ := exists_value?_of_dict
      (R := fun entry outEntry => outEntry.HasFields (keptEntryField? entry)) files
      (fun path entry found e readEntry => SourceEntry.exists_hasFields
        (canonical.2 (path, entry) (Dict.mem_toList_iff.2 found)) readEntry) read
    exact ⟨files, outFiles, rfl, valued, each⟩
  | _ => cases read

end Read

/-- **A request is read back from the value that it is written as, and this value keeps all that
the request was read from** but unknown fields of the request itself. -/
theorem reencoded {given : Json} (canonical : given.Canonical) {d : InputDocument}
    (read : Recorded.ofValue? given = some d) :
    ∃ out : Dict Json, Recorded.value? d = some (.object out.entries)
      ∧ Recorded.ofValue? (.object out.entries) = some d ∧ Reencodes given out := by
  have kept : d.Kept := kept_of_decode read
  have back : (Recorded.value? d).bind Recorded.ofValue? = some d := kept.restored
  have restoredSources : Restored d.sources := restored_dict fun entry member =>
    restored_sourceEntry (kept.sources entry.1 entry.2 (Dict.mem_toList_iff.1 member))
  -- the fields of the request, each with the value that it was read from
  have decoded : (given.written.slots? fieldNames >>= fun s => _) = some d := read
  obtain ⟨s, slots, decoded⟩ := Option.bind_eq_some_iff.1 decoded
  obtain ⟨language, readLanguage, decoded⟩ := Option.bind_eq_some_iff.1 decoded
  obtain ⟨sources, readSources, decoded⟩ := Option.bind_eq_some_iff.1 decoded
  obtain ⟨settings, readSettings, decoded⟩ := Option.bind_eq_some_iff.1 decoded
  cases decoded
  obtain ⟨languageValue, thereLanguage, canonicalLanguage, ownLanguage⟩ :=
    exists_of_required canonical slots readLanguage
  obtain ⟨sourcesValue, thereSources, canonicalSources, ownSources⟩ :=
    exists_of_required canonical slots readSources
  obtain ⟨files, outFiles, rfl, valuedSources, each⟩ := exists_files canonicalSources ownSources
  obtain ⟨canonicalSettings, ownSettings⟩ := ofValue?_of_settings canonical slots readSettings
  obtain ⟨outSettings, valuedSettings, same⟩ :=
    InputSettings.exists_hasFields canonicalSettings ownSettings
  -- the value of the request has the values of these fields and nothing else
  obtain ⟨out, valued, known, others⟩ := exists_dict_parts
    [.given "language" language (restored _), .given "sources" sources restoredSources,
      .givenOr "settings" settings .empty (restored_inputSettings kept.settings)]
    Dict.empty (show fieldNames.Nodup by decide) (unknownTo_empty _)
  have whole : Recorded.value? (⟨language, sources, settings⟩ : InputDocument)
      = some (.object out.entries) := valued
  rw [whole, Option.bind_some] at back
  refine ⟨out, whole, back, ?_, ⟨files, outFiles, thereSources, ?_, each⟩,
    ⟨outSettings, ?_, same⟩, fun key other => others key other⟩
  · rw [thereLanguage, ← Faithful.value?_eq canonicalLanguage ownLanguage]
    exact known _ List.mem_cons_self
  · rw [← valuedSources]
    exact known _ (List.mem_cons_of_mem _ List.mem_cons_self)
  · rw [← valuedSettings]
    exact known _ (List.mem_cons_of_mem _ (List.mem_cons_of_mem _ List.mem_cons_self))

/-- A request with a field that is not known, a null text, an empty list of remappings and no
selection. -/
def sparseRequest : Json :=
  .object [("language", .string "Solidity"), ("note", .null),
    ("settings", .object [("remappings", .array [])]),
    ("sources", .object [("A.sol", .object [("content", .null), ("license", .string "MIT")])])]

theorem canonical_sparseRequest : sparseRequest.Canonical := by
  have entry : (Json.object [("content", .null), ("license", .string "MIT")]).Canonical :=
    ⟨by decide, trivial, trivial, trivial⟩
  have files : (Json.object [("A.sol",
      .object [("content", .null), ("license", .string "MIT")])]).Canonical :=
    ⟨by decide, entry, trivial⟩
  exact ⟨by decide, trivial, trivial, ⟨by decide, trivial, trivial⟩, files, trivial⟩

theorem reencoded_sparse : ∃ (d : InputDocument) (out : Dict Json),
    Recorded.ofValue? sparseRequest = some d
    ∧ Recorded.value? d = some (.object out.entries)
    ∧ Recorded.ofValue? (.object out.entries) = some d ∧ Reencodes sparseRequest out := by
  have read : (Recorded.ofValue? sparseRequest : Option InputDocument) = some (⟨"Solidity",
      Dict.empty.insert "A.sol" ⟨none, Dict.empty.insert "license" (.string "MIT")⟩, .empty⟩) := rfl
  obtain ⟨out, valued, back, same⟩ := reencoded canonical_sparseRequest read
  exact ⟨_, out, read, valued, back, same⟩

end InputDocument

end FuzzBundle
