/-
  FuzzBundle.Proofs.OutputReading — compiler outputs read back.

  An output can be read back from the value that it is written as, or from the text of it. From the
  value it always comes back as it was: what it holds was read itself, so its trees and interfaces
  are canonical and none of them is null (`Json.Given`), and a text that is laid over a file does
  not change that (`CompilerOutput.restored`).

  From the text nothing comes back different but the doubles in trees and interfaces
  (`CompilerOutput.rereads_iff`), and so the output comes back as it was exactly if these are steady
  (`CompilerOutput.rereads_self_iff`).

  Main statements: `CompilerOutput.restored`, `CompilerOutput.rereads_iff`,
  `CompilerOutput.overlaid_reread`.
-/
import FuzzBundle.Proofs.CompileOutcomes
import FuzzBundle.Proofs.TextReading

namespace FuzzBundle

/-! ## §1. Messages and codes -/

instance : Restorable Diagnostic where
  ne_null _ := nofun
  restored d := by
    refine ofValue?_record ["severity", "message", "formattedMessage", "type"]
      [.givenOr "severity" d.severity "" (restored _), .givenOr "message" d.message "" (restored _),
        .optional "formattedMessage" d.formatted? fun _ _ => (restored _).legible,
        .optional "type" d.category? fun _ _ => (restored _).legible]
      ?_ rfl (by decide) (fun _ => rfl) fun s found => ?_
    · simp only [List.flatMap_cons, Part.fields_givenOr, Part.fields_optional, List.flatMap_nil,
        List.append_nil]
      rfl
    · simp only [List.forall_mem_cons, Part.givenOr, Part.optional, bind_reread] at found
      simp [found]

instance : Restorable CodeOutput where
  ne_null _ := nofun
  restored c := by
    refine ofValue?_record ["object", "sourceMap"]
      [.optional "object" c.object? fun _ _ => (restored _).legible,
        .optional "sourceMap" c.sourceMap? fun _ _ => (restored _).legible]
      ?_ rfl (by decide) (fun _ => rfl) fun s found => ?_
    · simp only [List.flatMap_cons, Part.fields_optional, List.flatMap_nil, List.append_nil]
      rfl
    · simp only [List.forall_mem_cons, Part.optional, bind_reread] at found
      simp [found]

instance : Restorable MachineOutput where
  ne_null _ := nofun
  restored m := by
    refine ofValue?_record ["bytecode", "deployedBytecode"]
      [.optional "bytecode" m.creation? fun _ _ => (restored _).legible,
        .optional "deployedBytecode" m.deployed? fun _ _ => (restored _).legible]
      ?_ rfl (by decide) (fun _ => rfl) fun s found => ?_
    · simp only [List.flatMap_cons, Part.fields_optional, List.flatMap_nil, List.append_nil]
      rfl
    · simp only [List.forall_mem_cons, Part.optional, bind_reread] at found
      simp [found]

instance : Verbatim Diagnostic where
  decode_encode d := by
    obtain ⟨severity, message, formatted?, category?⟩ := d
    cases formatted? <;> cases category? <;> rfl
  readBack d := by
    obtain ⟨severity, message, formatted?, category?⟩ := d
    cases formatted? <;> cases category? <;> rfl
  ne_null _ := nofun

instance : Verbatim CodeOutput where
  decode_encode c := by
    obtain ⟨object?, sourceMap?⟩ := c
    cases object? <;> cases sourceMap? <;> rfl
  readBack c := by
    obtain ⟨object?, sourceMap?⟩ := c
    cases object? <;> cases sourceMap? <;> rfl
  ne_null _ := nofun

instance : Verbatim MachineOutput where
  decode_encode m := by
    let fields := writtenIfAny "bytecode" m.creation? ++ writtenIfAny "deployedBytecode" m.deployed?
    have keys : (fields.map Prod.fst).Sublist ["bytecode", "deployedBytecode"] := by
      rw [List.map_append]
      exact (keys_writtenIfAny _ _).append (keys_writtenIfAny _ _)
    have creation : (Slots.mk fields false).optional "bytecode" = some m.creation? :=
      optional_of_get? (by simp [fields, Slots.get?, Entries.get?_append, get?_writtenIfAny])
    have deployed : (Slots.mk fields false).optional "deployedBytecode" = some m.deployed? :=
      optional_of_get? (by simp [fields, Slots.get?, Entries.get?_append, get?_writtenIfAny])
    show ((Written.object fields).slots? ["bytecode", "deployedBytecode"] >>= fun s => _) = some m
    rw [Written.slots?_object (keys.nodup (by decide)), Option.bind_eq_bind, Option.bind_some,
      creation, Option.bind_eq_bind, Option.bind_some, deployed]
    rfl
  readBack m := by
    have read (c : CodeOutput) : (encode c : Written).readBack = encode c := Verbatim.readBack c
    obtain ⟨creation?, deployed?⟩ := m
    show Written.object (Written.readBackFields _) = .object _
    rw [Written.readBackFields_eq_map]
    cases creation? <;> cases deployed? <;> simp [writtenIfAny, read]
  ne_null _ := nofun

/-! ## §2. Values that an output holds -/

/-- A given value comes back where it may be missing. -/
theorem bind_reread_of_given {value? : Option Json}
    (h : ∀ value, value? = some value → value.Given) : value?.bind reread = value? := by
  cases value? with
  | none => rfl
  | some value =>
    have given := h value rfl
    refine given.canonical.restored.reread_eq fun null => given.ne_null ?_
    have valued : value.written.value? = some value := Json.value?_written given.canonical
    rw [show value.written = .null from null] at valued
    exact (Option.some.inj valued).symm

/-- The trees of a file have a property. -/
structure SourceOutput.EachTree (P : Json → Prop) (o : SourceOutput) : Prop where
  tree : ∀ value, o.tree? = some value → P value
  legacyTree : ∀ value, o.legacyTree? = some value → P value

/-- The trees of all files and the interfaces of all contracts have a property. -/
structure CompilerOutput.EachValue (P : Json → Prop) (o : CompilerOutput) : Prop where
  sources : ∀ path source, o.sources.get? path = some source → source.EachTree P
  contracts : ∀ file contracts, o.contracts.get? file = some contracts →
    ∀ name contract, contracts.get? name = some contract →
      ∀ value, contract.abi? = some value → P value

/-- The numbers of all files have 64 bits. -/
def CompilerOutput.NumbersFit (o : CompilerOutput) : Prop :=
  ∀ path source, o.sources.get? path = some source →
    ∀ n, source.id? = some n → n ≤ Json.Literal.significandMax

section Read

variable {w : Written}

/-- What is read from an optional field of a fitting document is given. -/
theorem given_of_optional {s : Slots} {name : String} {value? : Option Json}
    (fits : ∀ w, s.get? name = some w → w.Fits) (read : s.optional name = some value?)
    (value : Json) (there : value? = some value) : value.Given := by
  subst there
  rw [Slots.optional] at read
  split at read
  · cases read
  · cases read
  · next w other found =>
    obtain ⟨value', valued, same⟩ := Option.map_eq_some_iff.1 read
    cases same
    refine ⟨fun null => ?_, Json.canonical_of_value? valued,
      Json.eachNumber_of_value? (fits w found) valued⟩
    -- only null denotes null, and null would have been taken for nothing
    subst null
    exact other (Written.eq_null_of_value? valued)

theorem SourceOutput.given_of_decode {o : SourceOutput} (fits : w.Fits) (h : decode w = some o) :
    o.EachTree Json.Given ∧ ∀ n, o.id? = some n → n ≤ Json.Literal.significandMax := by
  have h : (w.slots? ["id", "ast", "legacyAST", "source"] >>= fun s => _) = some o := h
  obtain ⟨s, slots, h⟩ := Option.bind_eq_some_iff.1 h
  obtain ⟨id?, readId, h⟩ := Option.bind_eq_some_iff.1 h
  obtain ⟨tree?, readTree, h⟩ := Option.bind_eq_some_iff.1 h
  obtain ⟨legacyTree?, readLegacyTree, h⟩ := Option.bind_eq_some_iff.1 h
  obtain ⟨source?, -, h⟩ := Option.bind_eq_some_iff.1 h
  cases h
  refine ⟨⟨given_of_optional (fun w => fits.get?_slots slots) readTree,
    given_of_optional (fun w => fits.get?_slots slots) readLegacyTree⟩, ?_⟩
  intro n there
  subst there
  rw [Slots.optional] at readId
  split at readId
  · cases readId
  · cases readId
  · next w _ found =>
    obtain ⟨m, read, same⟩ := Option.map_eq_some_iff.1 readId
    cases same
    have own : w.Fits := fits.get?_slots slots found
    cases w with
    | number x =>
      cases x with
      | natural m => cases read; exact own
      | _ => cases read
    | _ => cases read

theorem ContractOutput.given_of_decode {c : ContractOutput} (fits : w.Fits)
    (h : decode w = some c) : ∀ value, c.abi? = some value → value.Given := by
  have h : (w.slots? ["abi", "evm"] >>= fun s => _) = some c := h
  obtain ⟨s, slots, h⟩ := Option.bind_eq_some_iff.1 h
  obtain ⟨abi?, read, h⟩ := Option.bind_eq_some_iff.1 h
  obtain ⟨machine?, -, h⟩ := Option.bind_eq_some_iff.1 h
  cases h
  exact given_of_optional (fun w => fits.get?_slots slots) read

end Read

namespace CompilerOutput

/-- An output that was read from a document of a text holds given values, and files of 64 bits. -/
theorem given_of_decode {w : Written} {o : CompilerOutput} (fits : w.Fits)
    (h : decode w = some o) : o.EachValue Json.Given ∧ o.NumbersFit := by
  have h : (w.slots? ["errors", "sources", "contracts"] >>= fun s => _) = some o := h
  obtain ⟨s, slots, h⟩ := Option.bind_eq_some_iff.1 h
  obtain ⟨errors, -, h⟩ := Option.bind_eq_some_iff.1 h
  obtain ⟨sources, readSources, h⟩ := Option.bind_eq_some_iff.1 h
  obtain ⟨contracts, readContracts, h⟩ := Option.bind_eq_some_iff.1 h
  cases h
  have file (path : String) (source : SourceOutput) (found : sources.get? path = some source) :
      ∃ w' : Written, w'.Fits ∧ decode w' = some source := by
    rw [Slots.withDefault] at readSources
    split at readSources
    · next given => exact (fits.get?_slots slots given).exists_decode readSources found
    · cases readSources
      cases found
  refine ⟨⟨fun path source found => ?_, fun path own foundFile name c found => ?_⟩,
    fun path source found => ?_⟩
  · obtain ⟨w', fits', read⟩ := file path source found
    exact (SourceOutput.given_of_decode fits' read).1
  · rw [Slots.withDefault] at readContracts
    split at readContracts
    · next given =>
      obtain ⟨w', fits', read⟩ :=
        (fits.get?_slots slots given).exists_decode readContracts foundFile
      obtain ⟨w'', fits'', readContract⟩ := fits'.exists_decode read found
      exact ContractOutput.given_of_decode fits'' readContract
    · cases readContracts
      cases foundFile
  · obtain ⟨w', fits', read⟩ := file path source found
    exact (SourceOutput.given_of_decode fits' read).2

/-- Texts that are laid over an output change nothing of its files but their texts. -/
theorem exists_get?_overlaySources (o : CompilerOutput) (contents : List (String × String)) :
    ∃ texts : String → SourceOutput → Option String, ∀ path,
      (o.overlaySources contents).sources.get? path
        = (o.sources.get? path).map fun source => { source with source? := texts path source } := by
  induction contents generalizing o with
  | nil => exact ⟨fun _ source => source.source?, fun path => Option.map_id'.symm⟩
  | cons first rest ih =>
    obtain ⟨texts, later⟩ := ih (o.overlaySource first.1 first.2)
    refine ⟨fun path source => texts path
      (if path = first.1 then { source with source? := some first.2 } else source), fun path => ?_⟩
    -- what the later texts do, they do to the output that the first one was laid over
    show ((o.overlaySource first.1 first.2).overlaySources rest).sources.get? path = _
    rw [later, get?_overlaySource, Option.map_map]
    refine Option.map_congr fun source _ => ?_
    dsimp only [Function.comp_apply]
    split <;> rfl

/-- So they change nothing that an output holds besides. -/
theorem eachValue_overlaySources_iff {P : Json → Prop} {o : CompilerOutput}
    (contents : List (String × String)) :
    (o.overlaySources contents).EachValue P ↔ o.EachValue P := by
  obtain ⟨texts, files⟩ := o.exists_get?_overlaySources contents
  constructor
  · intro each
    refine ⟨fun path source found => ?_, contracts_overlaySources o contents ▸ each.contracts⟩
    have own := each.sources path _ (by rw [files, found]; rfl)
    exact ⟨own.tree, own.legacyTree⟩
  · intro each
    refine ⟨fun path source found => ?_, contracts_overlaySources o contents ▸ each.contracts⟩
    rw [files] at found
    obtain ⟨before, there, rfl⟩ := Option.map_eq_some_iff.1 found
    have own := each.sources path before there
    exact ⟨own.tree, own.legacyTree⟩

theorem NumbersFit.overlaySources {o : CompilerOutput} (h : o.NumbersFit)
    (contents : List (String × String)) : (o.overlaySources contents).NumbersFit := by
  obtain ⟨texts, files⟩ := o.exists_get?_overlaySources contents
  intro path source found
  rw [files] at found
  obtain ⟨before, there, rfl⟩ := Option.map_eq_some_iff.1 found
  exact h path before there

end CompilerOutput

/-! ## §3. From the value -/

theorem SourceOutput.restored {o : SourceOutput} (h : o.EachTree Json.Given) : Restored o := by
  refine ofValue?_record ["id", "ast", "legacyAST", "source"]
    [.optional "id" o.id? fun _ _ => (FuzzBundle.restored _).legible,
      .optional "ast" o.tree? fun tree there => (h.tree tree there).canonical.restored.legible,
      .optional "legacyAST" o.legacyTree? fun tree there =>
        (h.legacyTree tree there).canonical.restored.legible,
      .optional "source" o.source? fun _ _ => (FuzzBundle.restored _).legible]
    ?_ rfl (by decide) (fun _ => rfl) fun s found => ?_
  · simp only [List.flatMap_cons, Part.fields_optional, List.flatMap_nil, List.append_nil,
      ← List.append_assoc]
    rfl
  · simp only [List.forall_mem_cons, Part.optional, bind_reread, bind_reread_of_given h.tree,
      bind_reread_of_given h.legacyTree] at found
    simp [found]

theorem ContractOutput.restored {c : ContractOutput}
    (h : ∀ value, c.abi? = some value → value.Given) : Restored c := by
  refine ofValue?_record ["abi", "evm"]
    [.optional "abi" c.abi? fun value there => (h value there).canonical.restored.legible,
      .optional "evm" c.machine? fun _ _ => (FuzzBundle.restored _).legible]
    ?_ rfl (by decide) (fun _ => rfl) fun s found => ?_
  · simp only [List.flatMap_cons, Part.fields_optional, List.flatMap_nil, List.append_nil]
    rfl
  · simp only [List.forall_mem_cons, Part.optional, bind_reread, bind_reread_of_given h] at found
    simp [found]

/-- **An output comes back from the value that it is written as.** -/
theorem CompilerOutput.restored {o : CompilerOutput} (h : o.EachValue Json.Given) :
    Restored o := by
  have sources : Restored o.sources := restored_dict fun entry member =>
    SourceOutput.restored (h.sources entry.1 entry.2 (Dict.mem_toList_iff.1 member))
  have contracts : Restored o.contracts := restored_dict fun entry member =>
    restored_dict fun inner there => ContractOutput.restored (h.contracts entry.1 entry.2
      (Dict.mem_toList_iff.1 member) inner.1 inner.2 (Dict.mem_toList_iff.1 there))
  refine ofValue?_record ["errors", "sources", "contracts"]
    [.givenOr "errors" o.errors [] (FuzzBundle.restored _),
      .givenOr "sources" o.sources Dict.empty sources,
      .givenOr "contracts" o.contracts Dict.empty contracts]
    rfl rfl (by decide) (fun _ => rfl) fun s found => ?_
  simp only [List.forall_mem_cons, Part.givenOr] at found
  simp [found]

/-! ## §4. From the text -/

/-- What a file is read as: only its trees can be different. -/
structure SourceOutput.ReadAs (o o' : SourceOutput) : Prop where
  id : o'.id? = o.id?
  tree : RereadsIfAny o.tree? o'.tree?
  legacyTree : RereadsIfAny o.legacyTree? o'.legacyTree?
  source : o'.source? = o.source?

/-- What a contract is read as: only its interface can be different. -/
structure ContractOutput.ReadAs (c c' : ContractOutput) : Prop where
  abi : RereadsIfAny c.abi? c'.abi?
  machine : c'.machine? = c.machine?

/-- What an output is read as: the same messages, and files and contracts of the same names. -/
structure CompilerOutput.ReadAs (o o' : CompilerOutput) : Prop where
  errors : o'.errors = o.errors
  sources : o.sources.Pointwise SourceOutput.ReadAs o'.sources
  contracts : o.contracts.Pointwise (Dict.Pointwise ContractOutput.ReadAs) o'.contracts

/-- The number of a file is read as it was if it has 64 bits. -/
theorem rereadsIfAny_number_iff {n? m? : Option Nat}
    (h : ∀ n, n? = some n → n ≤ Json.Literal.significandMax) : RereadsIfAny n? m? ↔ m? = n? := by
  refine rereadsIfAny_iff_eq fun n there => ?_
  have back : (encode n : Written).readBack = .number (.natural n) :=
    Json.Number.readBack_eq_natural_iff.2 ⟨rfl, h n there⟩
  refine ⟨by rw [back]; exact nofun, ?_⟩
  rw [rereads_iff, back]
  rfl

theorem SourceOutput.rereads_iff {o o' : SourceOutput}
    (fits : ∀ n, o.id? = some n → n ≤ Json.Literal.significandMax) :
    Rereads o o' ↔ o.ReadAs o' := by
  let fields := writtenIfAny "id" o.id? ++ writtenIfAny "ast" o.tree?
    ++ writtenIfAny "legacyAST" o.legacyTree? ++ writtenIfAny "source" o.source?
  have keys : (fields.map Prod.fst).Sublist ["id", "ast", "legacyAST", "source"] := by
    rw [List.map_append, List.map_append, List.map_append]
    exact (((keys_writtenIfAny _ _).append (keys_writtenIfAny _ _)).append
      (keys_writtenIfAny _ _)).append (keys_writtenIfAny _ _)
  have id : Entries.get? fields "id" = o.id?.map encode := by
    simp [fields, Entries.get?_append, get?_writtenIfAny]
  have tree : Entries.get? fields "ast" = o.tree?.map encode := by
    simp [fields, Entries.get?_append, get?_writtenIfAny]
  have legacyTree : Entries.get? fields "legacyAST" = o.legacyTree?.map encode := by
    simp [fields, Entries.get?_append, get?_writtenIfAny]
  have source : Entries.get? fields "source" = o.source?.map encode := by
    simp [fields, Entries.get?_append, get?_writtenIfAny]
  rw [FuzzBundle.rereads_iff]
  show ((Written.object fields).readBack.slots? ["id", "ast", "legacyAST", "source"]
    >>= fun s => _) = some o' ↔ _
  rw [Written.slots?_readBack (keys.nodup (by decide)), Option.bind_eq_bind, Option.bind_some]
  constructor
  · intro read
    obtain ⟨id?, readId, read⟩ := Option.bind_eq_some_iff.1 read
    obtain ⟨tree?, readTree, read⟩ := Option.bind_eq_some_iff.1 read
    obtain ⟨legacyTree?, readLegacyTree, read⟩ := Option.bind_eq_some_iff.1 read
    obtain ⟨source?, readSource, read⟩ := Option.bind_eq_some_iff.1 read
    cases read
    exact ⟨(rereadsIfAny_number_iff fits).1 ((optional_slotsBack_iff id).1 readId),
      (optional_slotsBack_iff tree).1 readTree,
      (optional_slotsBack_iff legacyTree).1 readLegacyTree,
      rereadsIfAny_verbatim_iff.1 ((optional_slotsBack_iff source).1 readSource)⟩
  · intro same
    refine Option.bind_eq_some_iff.2 ⟨o'.id?, ?_, Option.bind_eq_some_iff.2 ⟨o'.tree?, ?_,
      Option.bind_eq_some_iff.2 ⟨o'.legacyTree?, ?_, Option.bind_eq_some_iff.2
        ⟨o'.source?, ?_, rfl⟩⟩⟩⟩
    · exact (optional_slotsBack_iff id).2 ((rereadsIfAny_number_iff fits).2 same.id)
    · exact (optional_slotsBack_iff tree).2 same.tree
    · exact (optional_slotsBack_iff legacyTree).2 same.legacyTree
    · exact (optional_slotsBack_iff source).2 (rereadsIfAny_verbatim_iff.2 same.source)

theorem ContractOutput.rereads_iff {c c' : ContractOutput} : Rereads c c' ↔ c.ReadAs c' := by
  let fields := writtenIfAny "abi" c.abi? ++ writtenIfAny "evm" c.machine?
  have keys : (fields.map Prod.fst).Sublist ["abi", "evm"] := by
    rw [List.map_append]
    exact (keys_writtenIfAny _ _).append (keys_writtenIfAny _ _)
  have abi : Entries.get? fields "abi" = c.abi?.map encode := by
    simp [fields, Entries.get?_append, get?_writtenIfAny]
  have machine : Entries.get? fields "evm" = c.machine?.map encode := by
    simp [fields, Entries.get?_append, get?_writtenIfAny]
  rw [FuzzBundle.rereads_iff]
  show ((Written.object fields).readBack.slots? ["abi", "evm"] >>= fun s => _) = some c' ↔ _
  rw [Written.slots?_readBack (keys.nodup (by decide)), Option.bind_eq_bind, Option.bind_some]
  constructor
  · intro read
    obtain ⟨abi?, readAbi, read⟩ := Option.bind_eq_some_iff.1 read
    obtain ⟨machine?, readMachine, read⟩ := Option.bind_eq_some_iff.1 read
    cases read
    exact ⟨(optional_slotsBack_iff abi).1 readAbi,
      rereadsIfAny_verbatim_iff.1 ((optional_slotsBack_iff machine).1 readMachine)⟩
  · intro same
    refine Option.bind_eq_some_iff.2
      ⟨c'.abi?, ?_, Option.bind_eq_some_iff.2 ⟨c'.machine?, ?_, rfl⟩⟩
    · exact (optional_slotsBack_iff abi).2 same.abi
    · exact (optional_slotsBack_iff machine).2 (rereadsIfAny_verbatim_iff.2 same.machine)

namespace CompilerOutput

/-- **What is read from the text of an output** is the output up to its trees and interfaces, and
these are read as values are. -/
theorem rereads_iff {o o' : CompilerOutput} (fits : o.NumbersFit) :
    Rereads o o' ↔ o.ReadAs o' := by
  let fields := written "errors" o.errors ++ written "sources" o.sources
    ++ written "contracts" o.contracts
  have distinct : (fields.map Prod.fst).Nodup := by
    show (["errors", "sources", "contracts"] : List String).Nodup
    decide
  have errors : Entries.get? fields "errors" = some (encode o.errors) := rfl
  have sources : Entries.get? fields "sources" = some (encode o.sources) := rfl
  have contracts : Entries.get? fields "contracts" = some (encode o.contracts) := rfl
  have files (read : Dict SourceOutput) :
      Rereads o.sources read ↔ o.sources.Pointwise SourceOutput.ReadAs read := by
    rw [rereads_dict_iff]
    exact Dict.pointwise_congr fun path source found _ =>
      SourceOutput.rereads_iff (fits path source found)
  have own (read : ContractMap ContractOutput) : Rereads o.contracts read
      ↔ o.contracts.Pointwise (Dict.Pointwise ContractOutput.ReadAs) read := by
    rw [rereads_dict_iff]
    refine Dict.pointwise_congr fun file contracts _ read => ?_
    rw [rereads_dict_iff]
    exact Dict.pointwise_congr fun _ _ _ _ => ContractOutput.rereads_iff
  rw [FuzzBundle.rereads_iff]
  show ((Written.object fields).readBack.slots? ["errors", "sources", "contracts"]
    >>= fun s => _) = some o' ↔ _
  rw [Written.slots?_readBack distinct, Option.bind_eq_bind, Option.bind_some]
  constructor
  · intro read
    obtain ⟨e, readErrors, read⟩ := Option.bind_eq_some_iff.1 read
    obtain ⟨f, readSources, read⟩ := Option.bind_eq_some_iff.1 read
    obtain ⟨c, readContracts, read⟩ := Option.bind_eq_some_iff.1 read
    cases read
    exact ⟨rereads_iff_eq.1 ((withDefault_slotsBack_iff errors).1 readErrors),
      (files f).1 ((withDefault_slotsBack_iff sources).1 readSources),
      (own c).1 ((withDefault_slotsBack_iff contracts).1 readContracts)⟩
  · intro same
    refine Option.bind_eq_some_iff.2 ⟨o'.errors, ?_, Option.bind_eq_some_iff.2
      ⟨o'.sources, ?_, Option.bind_eq_some_iff.2 ⟨o'.contracts, ?_, rfl⟩⟩⟩
    · exact (withDefault_slotsBack_iff errors).2 (rereads_iff_eq.2 same.errors)
    · exact (withDefault_slotsBack_iff sources).2 ((files _).2 same.sources)
    · exact (withDefault_slotsBack_iff contracts).2 ((own _).2 same.contracts)

/-- **An output is read from its text as it was exactly if the doubles of its trees and interfaces
are steady.** -/
theorem rereads_self_iff {o : CompilerOutput} (given : o.EachValue Json.Given)
    (fits : o.NumbersFit) : Rereads o o ↔ o.EachValue Json.Steady := by
  rw [rereads_iff fits]
  constructor
  · intro same
    refine ⟨fun path source found => ?_, fun file contracts foundFile name c found => ?_⟩
    · have own := Dict.pointwise_self_iff.1 same.sources path source found
      have there := given.sources path source found
      exact ⟨(rereadsIfAny_self_iff there.tree).1 own.tree,
        (rereadsIfAny_self_iff there.legacyTree).1 own.legacyTree⟩
    · have ofFile := Dict.pointwise_self_iff.1 same.contracts file contracts foundFile
      have own := Dict.pointwise_self_iff.1 ofFile name c found
      have there := given.contracts file contracts foundFile name c found
      exact (rereadsIfAny_self_iff there).1 own.abi
  · intro steady
    refine ⟨rfl, Dict.pointwise_self_iff.2 fun path source found => ?_,
      Dict.pointwise_self_iff.2 fun file contracts foundFile =>
        Dict.pointwise_self_iff.2 fun name c found => ?_⟩
    · have own := steady.sources path source found
      have there := given.sources path source found
      exact ⟨rfl, (rereadsIfAny_self_iff there.tree).2 own.tree,
        (rereadsIfAny_self_iff there.legacyTree).2 own.legacyTree, rfl⟩
    · exact ⟨(rereadsIfAny_self_iff (given.contracts file contracts foundFile name c found)).2
        (steady.contracts file contracts foundFile name c found), rfl⟩

/-! ## §5. Outputs that a worker left -/

theorem given_of_read? {text : String} {o : CompilerOutput} (h : read? text = some o) :
    o.EachValue Json.Given ∧ o.NumbersFit := by
  obtain ⟨w, read, decoded⟩ := Option.bind_eq_some_iff.1 h
  exact given_of_decode (Written.fits_of_read read) decoded

/-- **What is read back of an accepted output with texts laid over it.** From its value it is always
the same; from its text it is the same exactly if the doubles of its trees and interfaces are
steady, and whatever is read there has the same messages, files, contracts, numbers, texts and
codes. -/
theorem overlaid_reread (content : Content) (parsed : CompilerOutput)
    (contents : List (String × String)) (read : read? content.documentText = some parsed) :
    Restored (parsed.overlaySources contents)
    ∧ (read? (Recorded.text (parsed.overlaySources contents))
          = some (parsed.overlaySources contents)
        ↔ parsed.EachValue Json.Steady)
    ∧ ∀ o', read? (Recorded.text (parsed.overlaySources contents)) = some o' →
        (parsed.overlaySources contents).ReadAs o' := by
  obtain ⟨given, fits⟩ := given_of_read? read
  have overlaid : (parsed.overlaySources contents).EachValue Json.Given :=
    (eachValue_overlaySources_iff contents).2 given
  have numbers : (parsed.overlaySources contents).NumbersFit := fits.overlaySources contents
  refine ⟨restored overlaid, ?_, fun o' reread => (rereads_iff numbers).1 reread⟩
  exact (rereads_self_iff overlaid numbers).trans (eachValue_overlaySources_iff contents)

/-- The answer of a compiler that has a number for the tree of a file. -/
def numberAnswer (digits : String) : String :=
  "\x7b\"sources\":\x7b\"A.sol\":\x7b\"ast\":" ++ digits ++ "\x7d\x7d\x7d"

/-- The output that such an answer is. -/
def numberOutput (x : Binary64) : CompilerOutput where
  errors := []
  sources := Dict.empty.insert "A.sol" ⟨none, some (.number (.real x)), none, none⟩
  contracts := Dict.empty

theorem steady_numberOutput {x : Binary64} (h : (Json.Number.real x).Steady) :
    (numberOutput x).EachValue Json.Steady := by
  refine ⟨fun path source found => ?_, nofun⟩
  obtain ⟨-, rfl⟩ := Dict.eq_of_get?_single found
  refine ⟨fun value there => ?_, nofun⟩
  cases there
  exact h

theorem read?_half :
    read? (Content.text (numberAnswer "0.5")).documentText
      = some (numberOutput (.ofDecimal false 5 (-1))) := by
  rw [Content.documentText]
  decide +kernel

/-- One half comes back from its text. -/
theorem overlaid_reread_half :
    read? (Recorded.text
        ((numberOutput (.ofDecimal false 5 (-1))).overlaySources [("A.sol", "contract A")]))
      = some ((numberOutput (.ofDecimal false 5 (-1))).overlaySources [("A.sol", "contract A")]) :=
  (overlaid_reread (.text (numberAnswer "0.5")) _ [("A.sol", "contract A")] read?_half).2.1.2
    (steady_numberOutput (by decide +kernel))

theorem read?_drifting :
    read? (Content.text (numberAnswer "8.770558466747389e-10")).documentText
      = some (numberOutput (.ofDecimal false 8770558466747388 (-25))) := by
  rw [Content.documentText]
  decide +kernel

/-- **An accepted output does not always come back from its text.** -/
theorem not_always_reread :
    ¬ ∀ (content : Content) (parsed : CompilerOutput) (contents : List (String × String)),
      read? content.documentText = some parsed →
      read? (Recorded.text (parsed.overlaySources contents))
        = some (parsed.overlaySources contents) := by
  intro always
  obtain ⟨given, fits⟩ := given_of_read? read?_drifting
  have same := always _ _ [] read?_drifting
  have steady := ((rereads_self_iff given fits).1 same).sources "A.sol" _ rfl
  have drifts : ¬ (Json.Number.real (.ofDecimal false 8770558466747388 (-25))).Steady := by
    decide +kernel
  exact drifts (steady.tree _ rfl)

end CompilerOutput

end FuzzBundle
