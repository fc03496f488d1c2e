/-
  FuzzBundle.Proofs.RecordReading — the records in an artifact are read back.

  Every record of an artifact is written as parts (`Part`), and each of them comes back. For a
  request something has to be known: what it keeps of a document that it was read from are fields of
  other names with canonical values (`InputDocument.Kept`).

  Main statements: `InputDocument.Kept.restored`, `InputDocument.kept_of_decode`,
  `CompilerArgs.restored_of_kept`.
-/
import FuzzBundle.Artifact.Basic
import FuzzBundle.Proofs.RecordParts

namespace FuzzBundle

/-! ## §1. Projections and findings -/

instance : Restorable ParameterProjection where
  ne_null _ := nofun
  restored p := by
    refine ofValue?_record ["name", "type"]
      [.given "name" p.name (restored _), .given "type" p.type (restored _)]
      rfl rfl (by decide) (fun _ => rfl) fun s found => ?_
    simp only [List.forall_mem_cons, Part.given] at found
    simp [found]

instance : Restorable VariableProjection where
  ne_null _ := nofun
  restored v := by
    refine ofValue?_record ["name", "docs", "type", "body"]
      [.given "name" v.name (restored _), .given "docs" v.docs (restored _),
        .given "type" v.type (restored _), .given "body" v.body (restored _)]
      rfl rfl (by decide) (fun _ => rfl) fun s found => ?_
    simp only [List.forall_mem_cons, Part.given] at found
    simp [found]

instance : Restorable FunctionProjection where
  ne_null _ := nofun
  restored f := by
    refine ofValue?_record ["name", "docs", "args", "rets", "source", "constructor", "implemented",
        "visibility", "virtual"]
      [.given "name" f.name (restored _), .given "docs" f.docs (restored _),
        .given "args" f.args (restored _), .given "rets" f.rets (restored _),
        .given "source" f.source (restored _), .given "constructor" f.isConstructor (restored _),
        .given "implemented" f.isImplemented (restored _),
        .given "visibility" f.visibility (restored _), .given "virtual" f.isVirtual (restored _)]
      rfl rfl (by decide) (fun _ => rfl) fun s found => ?_
    simp only [List.forall_mem_cons, Part.given] at found
    simp [found]

instance : Restorable ContractProjection where
  ne_null _ := nofun
  restored c := by
    refine ofValue?_record ["name", "docs", "kind", "abstract", "bases", "contract_header",
        "modifiers", "state_variables", "functions"]
      [.given "name" c.name (restored _), .given "docs" c.docs (restored _),
        .given "kind" c.kind (restored _), .given "abstract" c.isAbstract (restored _),
        .given "bases" c.bases (restored _), .given "contract_header" c.header (restored _),
        .given "modifiers" c.modifiers (restored _),
        .given "state_variables" c.stateVariables (restored _),
        .given "functions" c.functions (restored _)]
      rfl rfl (by decide) (fun _ => rfl) fun s found => ?_
    simp only [List.forall_mem_cons, Part.given] at found
    simp [found]

instance : Restorable UnitProjection where
  ne_null _ := nofun
  restored u := by
    refine ofValue?_record ["header", "contracts"]
      [.given "header" u.header (restored _), .given "contracts" u.contracts (restored _)]
      rfl rfl (by decide) (fun _ => rfl) fun s found => ?_
    simp only [List.forall_mem_cons, Part.given] at found
    simp [found]

instance : Restorable InvariantKind where
  ne_null _ := nofun
  restored kind := by cases kind <;> rfl

instance : Restorable Invariant where
  ne_null _ := nofun
  restored i := by
    refine ofValue?_record ["name", "type"]
      [.given "name" i.name (restored _), .given "type" i.kind (restored _)]
      rfl rfl (by decide) (fun _ => rfl) fun s found => ?_
    simp only [List.forall_mem_cons, Part.given] at found
    simp [found]

instance : Restorable SourceRecord where
  ne_null _ := nofun
  restored r := by
    refine ofValue?_record ["id", "source"] [.orNull "id" r.id?, .orNull "source" r.source?]
      ?_ rfl (by decide) (fun _ => rfl) fun s found => ?_
    · simp only [List.flatMap_cons, Part.fields_orNull, List.flatMap_nil, List.append_nil]
      rfl
    · simp only [List.forall_mem_cons, Part.orNull] at found
      simp [found]

/-! ## §2. Requests -/

/-- What a request keeps besides the fields it knows are fields of other names. -/
structure InputDocument.Kept (d : InputDocument) : Prop where
  sources : ∀ path entry, d.sources.get? path = some entry → UnknownTo ["content"] entry.extra
  settings : UnknownTo ["remappings", "outputSelection"] d.settings.extra

theorem restored_sourceEntry {e : SourceEntry} (h : UnknownTo ["content"] e.extra) :
    Restored e := by
  refine ofValue?_parts [.optional "content" e.content? fun _ _ => (restored _).legible] e.extra
    ?_ (show ["content"].Nodup by decide) h fun d found extra => ?_
  · simp only [List.flatMap_cons, Part.fields_optional, List.flatMap_nil, List.append_nil]
    rfl
  · simp only [List.forall_mem_cons, Part.optional, bind_reread] at found
    show ((Written.object (writtenEach d)).slots? ["content"] >>= _) = _
    rw [slots?_writtenEach]
    have extra : unknownFields ["content"] (writtenEach d) = some e.extra := extra
    simp [found, extra]

theorem restored_inputSettings {settings : InputSettings}
    (h : UnknownTo ["remappings", "outputSelection"] settings.extra) : Restored settings := by
  refine ofValue?_parts
    [.unlessEmpty "remappings" settings.remappings,
      .givenOr "outputSelection" settings.outputSelection Dict.empty (restored _)] settings.extra
    ?_ (show ["remappings", "outputSelection"].Nodup by decide) h fun d found extra => ?_
  · simp only [List.flatMap_cons, Part.fields_unlessEmpty, Part.fields_givenOr, List.flatMap_nil,
      List.append_nil]
    rfl
  · simp only [List.forall_mem_cons, Part.unlessEmpty, Part.givenOr] at found
    show ((Written.object (writtenEach d)).slots? ["remappings", "outputSelection"] >>= _) = _
    rw [slots?_writtenEach]
    have extra : unknownFields ["remappings", "outputSelection"] (writtenEach d)
        = some settings.extra := extra
    simp [found, extra]

theorem InputDocument.Kept.restored {d : InputDocument} (h : d.Kept) : Restored d := by
  have sources : Restored d.sources := restored_dict fun entry member =>
    restored_sourceEntry (h.sources entry.1 entry.2 (Dict.mem_toList_iff.1 member))
  refine ofValue?_record ["language", "sources", "settings"]
    [.given "language" d.language (FuzzBundle.restored _), .given "sources" d.sources sources,
      .givenOr "settings" d.settings .empty (restored_inputSettings h.settings)]
    rfl rfl (by decide) (fun _ => rfl) fun s found => ?_
  simp only [List.forall_mem_cons, Part.given, Part.givenOr] at found
  simp [found]

/-- What is kept of the fields of a document are fields of other names. -/
theorem unknownTo_of_unknownFields {known : List String} {fields : List (String × Written)}
    {extra : Dict Json} (h : unknownFields known fields = some extra) : UnknownTo known extra := by
  obtain ⟨entries, read, rfl⟩ := Option.map_eq_some_iff.1 h
  intro key value found
  have member : (key, value) ∈ entries := Entries.mem_of_mem_ofList (Entries.mem_of_get? found)
  obtain ⟨w, valued, there⟩ := mem_of_decodeFields read member
  have other := (List.mem_filter.1 there).2
  exact ⟨by simpa using other, Json.canonical_of_value? valued⟩

/-- The other fields of a source entry are those of the object that it was read from. -/
theorem SourceEntry.exists_unknownFields {w : Written} {e : SourceEntry} (h : decode w = some e) :
    ∃ fields, w = .object fields ∧ unknownFields ["content"] fields = some e.extra := by
  cases w with
  | object fields =>
    have h : ((Written.object fields).slots? ["content"] >>= _) = some e := h
    obtain ⟨s, -, h⟩ := Option.bind_eq_some_iff.1 h
    obtain ⟨content?, -, h⟩ := Option.bind_eq_some_iff.1 h
    obtain ⟨extra, found, h⟩ := Option.bind_eq_some_iff.1 h
    cases h
    exact ⟨fields, rfl, found⟩
  | _ => cases h

/-- So are those of settings. -/
theorem InputSettings.exists_unknownFields {w : Written} {settings : InputSettings}
    (h : decode w = some settings) :
    ∃ fields, w = .object fields
      ∧ unknownFields ["remappings", "outputSelection"] fields = some settings.extra := by
  cases w with
  | object fields =>
    have h : ((Written.object fields).slots? ["remappings", "outputSelection"] >>= _)
        = some settings := h
    obtain ⟨s, -, h⟩ := Option.bind_eq_some_iff.1 h
    obtain ⟨remappings, -, h⟩ := Option.bind_eq_some_iff.1 h
    obtain ⟨selection, -, h⟩ := Option.bind_eq_some_iff.1 h
    obtain ⟨extra, found, h⟩ := Option.bind_eq_some_iff.1 h
    cases h
    exact ⟨fields, rfl, found⟩
  | _ => cases h

/-- A request that was read from a document keeps nothing else. -/
theorem InputDocument.kept_of_decode {w : Written} {d : InputDocument} (h : decode w = some d) :
    d.Kept := by
  have h : (w.slots? ["language", "sources", "settings"] >>= _) = some d := h
  obtain ⟨s, -, h⟩ := Option.bind_eq_some_iff.1 h
  obtain ⟨language, -, h⟩ := Option.bind_eq_some_iff.1 h
  obtain ⟨sources, readSources, h⟩ := Option.bind_eq_some_iff.1 h
  obtain ⟨settings, readSettings, h⟩ := Option.bind_eq_some_iff.1 h
  cases h
  constructor
  · intro path entry found
    obtain ⟨written, -, read⟩ := Option.bind_eq_some_iff.1 readSources
    obtain ⟨w', readEntry⟩ := exists_decode_of_get? read found
    obtain ⟨fields, -, extra⟩ := SourceEntry.exists_unknownFields readEntry
    exact unknownTo_of_unknownFields extra
  · rw [Slots.withDefault] at readSettings
    split at readSettings
    · obtain ⟨fields, -, extra⟩ := InputSettings.exists_unknownFields readSettings
      exact unknownTo_of_unknownFields extra
    · cases readSettings
      exact unknownTo_empty _

theorem CompilerArgs.restored_of_kept {args : CompilerArgs} (h : args.document.Kept) :
    Restored args := by
  refine ofValue?_record ["version", "compiler_json"]
    [.given "version" args.version (restored _), .given "compiler_json" args.document h.restored]
    rfl rfl (by decide) (fun _ => rfl) fun s found => ?_
  simp only [List.forall_mem_cons, Part.given] at found
  simp [found]

end FuzzBundle
