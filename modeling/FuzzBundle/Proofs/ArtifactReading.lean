/-
  FuzzBundle.Proofs.ArtifactReading — what an artifact is read back as.

  All of an artifact comes back but the interfaces of contracts, which are canonical values and are
  read for what they look like. Values for all contracts come back as such (`restored_nested`). One
  value comes back as one unless it can be taken for something else: where a field may be missing
  null is nothing, and an object of objects has the form of values for all contracts
  (`Json.Mistakable`).

  Main statements: `PerContract.reread_single_iff`, `Artifact.ofValue?_value`,
  `Artifact.Clean.restored_iff_not_mistakable`.
-/
import FuzzBundle.Proofs.Assembled
import FuzzBundle.Proofs.RecordReading

namespace FuzzBundle

/-! ## §1. Fields of contracts -/

namespace PerContract

/-- Values for all contracts are looked for first. -/
theorem decode_eq [Recorded α] (w : Written) :
    (decode w : Option (PerContract α))
      = ((decode w : Option (ContractMap α)).map .nested).or ((decode w).map .single) := by
  rw [decode, instRecordedPerContract]
  dsimp only
  cases (decode w : Option (ContractMap α)) <;> rfl

/-- Values for all contracts come back as values for all contracts. -/
theorem restored_nested [Recorded α] {m : ContractMap α} (h : Restored m) :
    Restored (PerContract.nested m) := by
  obtain ⟨value, valued, read⟩ := restored_iff.1 h
  refine restored_iff.2 ⟨value, valued, ?_⟩
  rw [Recorded.ofValue?, decode_eq, show decode value.written = some m from read]
  rfl

instance : Restorable (PerContract String) where
  ne_null p := by cases p <;> exact nofun
  restored p := by
    cases p with
    | nested m => exact restored_nested (restored m)
    | single text => rfl

/-- All values are canonical. -/
def Canonical : PerContract Json → Prop
  | .nested m => ∀ file contract value, m.find? file contract = some value → value.Canonical
  | .single value => value.Canonical

end PerContract

/-- A value that is taken for something else where one value stands and values for all contracts
may stand, or nothing: null, and an object whose fields are objects. -/
def Json.Mistakable (value : Json) : Prop :=
  value = .null
    ∨ ∃ fields, value = .object fields ∧ ∀ field ∈ fields, ∃ inner, field.2 = .object inner

/-- A canonical value is read as a dictionary of values if it is an object. -/
theorem isSome_decode_dict_iff {value : Json} (h : value.Canonical) :
    (decode value.written : Option (Dict Json)).isSome = true
      ↔ ∃ fields, value = .object fields := by
  cases value with
  | object fields =>
    refine iff_of_true ?_ ⟨fields, rfl⟩
    rw [Json.Canonical] at h
    have read : decodeFields (Json.writtenFields fields) = some fields := by
      rw [Json.writtenFields_eq_map]
      exact decodeFields_written (Json.canonicalFields_iff.1 h.2)
    show ((decodeFields (Json.writtenFields fields)).map Dict.ofList).isSome = true
    rw [read]
    rfl
  | _ => exact iff_of_false nofun nofun

/-- It is read as values for all contracts if it is an object whose fields are objects. -/
theorem isSome_decode_contractMap_iff {value : Json} (h : value.Canonical) :
    (decode value.written : Option (ContractMap Json)).isSome = true
      ↔ ∃ fields, value = .object fields ∧ ∀ field ∈ fields, ∃ inner, field.2 = .object inner := by
  cases value with
  | object fields =>
    rw [Json.Canonical] at h
    show ((decodeFields (Json.writtenFields fields)).map Dict.ofList).isSome = true ↔ _
    rw [Option.isSome_map, isSome_decodeFields_iff, Json.writtenFields_eq_map, List.forall_mem_map]
    have each : (∀ field ∈ fields, (decode field.2.written : Option (Dict Json)).isSome = true)
        ↔ ∀ field ∈ fields, ∃ inner, field.2 = .object inner :=
      forall₂_congr fun field member =>
        isSome_decode_dict_iff (Json.canonicalFields_iff.1 h.2 field member)
    rw [each]
    constructor
    · intro objects
      exact ⟨fields, rfl, objects⟩
    · intro object
      obtain ⟨_, same, objects⟩ := object
      cases same
      exact objects
  | _ => exact iff_of_false nofun nofun

namespace PerContract

theorem ofValue?_single {value : Json} (h : value.Canonical) :
    (Recorded.ofValue? value : Option (PerContract Json))
      = ((decode value.written : Option (ContractMap Json)).map .nested).or
        (some (.single value)) := by
  rw [Recorded.ofValue?, decode_eq,
    show (decode value.written : Option Json) = some value from Json.value?_written h]
  rfl

theorem restored_of_canonical_nested {m : ContractMap Json} (h : (nested m).Canonical) :
    Restored (nested m) := by
  refine restored_nested (restored_dict fun entry member => restored_dict fun inner there => ?_)
  refine Json.Canonical.restored (h entry.1 inner.1 inner.2 ?_)
  rw [ContractMap.find?, Dict.mem_toList_iff.1 member]
  exact Dict.mem_toList_iff.1 there

theorem legible_of_canonical {p : PerContract Json} (h : p.Canonical) : Legible p := by
  cases p with
  | nested m => exact (restored_of_canonical_nested h).legible
  | single value =>
    refine ⟨value, Json.value?_written h, fun _ => ?_⟩
    rw [ofValue?_single h]
    cases (decode value.written : Option (ContractMap Json)) <;> rfl

/-- One value is nothing if it is null, and else values for all contracts if it can be read as
such. -/
theorem reread_single {value : Json} (h : value.Canonical) :
    reread (single value)
      = if value = .null then none
        else ((decode value.written : Option (ContractMap Json)).map .nested).or
          (some (.single value)) := by
  have valued : Recorded.value? (single value) = some value := Json.value?_written h
  rw [reread, valued, Option.bind_some]
  split
  · next null =>
    rw [null]
    rfl
  · next other => rw [Json.present?_of_ne_null other, Option.bind_some, ofValue?_single h]

/-- One value comes back as that value unless it can be mistaken. -/
theorem reread_single_iff {value : Json} (h : value.Canonical) :
    reread (single value) = some (single value) ↔ ¬ value.Mistakable := by
  rw [reread_single h, Json.Mistakable, ← isSome_decode_contractMap_iff h]
  split
  · next null => exact iff_of_false nofun fun sure => sure (.inl null)
  · next other =>
    cases (decode value.written : Option (ContractMap Json)) with
    | none => exact iff_of_true rfl fun mistaken => mistaken.elim other nofun
    | some values => exact iff_of_false nofun fun sure => sure (.inr rfl)

/-- One value that can be mistaken is nothing, or comes back as values for all contracts. -/
theorem reread_of_mistakable {value : Json} (h : value.Canonical) (mistaken : value.Mistakable) :
    reread (single value) = none ∨ ∃ m, reread (single value) = some (nested m) := by
  rw [reread_single h]
  split
  · exact .inl rfl
  · next other =>
    have read := (isSome_decode_contractMap_iff h).2 (mistaken.resolve_left other)
    obtain ⟨m, read⟩ := Option.isSome_iff_exists.1 read
    exact .inr ⟨m, by rw [read]; rfl⟩

end PerContract

/-! ## §2. Artifacts -/

namespace Artifact

/-- The request of an artifact keeps nothing but fields of other names, and its interfaces are
canonical values. -/
structure Clean (a : Artifact) : Prop where
  request : ∀ args, a.args? = some args → args.document.Kept
  interfaces : ∀ p, a.abi? = some p → p.Canonical

/-- **What an artifact is read back as.** All of it comes back, except that interfaces are read for
what their values look like. -/
theorem ofValue?_value {a : Artifact} (h : a.Clean) :
    (Recorded.value? a).bind Recorded.ofValue? = some { a with abi? := a.abi?.bind reread } := by
  refine ofValue?_record ["success", "err", "remappings", "ast", "sourcemap", "sources", "bytecode",
      "runtime_bytecode", "abi", "invariants", "compiler_args", "address", "unresolved"]
    [.given "success" a.success (restored _),
      .optional "err" a.error? fun _ _ => (restored _).legible,
      .optional "remappings" a.remappings? fun _ _ => (restored _).legible,
      .optional "ast" a.projections? fun _ _ => (restored _).legible,
      .optional "sourcemap" a.sourceMap? fun _ _ => (restored _).legible,
      .optional "sources" a.sources? fun _ _ => (restored _).legible,
      .optional "bytecode" a.creationCode? fun _ _ => (restored _).legible,
      .optional "runtime_bytecode" a.deployedCode? fun _ _ => (restored _).legible,
      .optional "abi" a.abi? fun p there => PerContract.legible_of_canonical (h.interfaces p there),
      .optional "invariants" a.invariants? fun _ _ => (restored _).legible,
      .optional "compiler_args" a.args? fun args there =>
        (CompilerArgs.restored_of_kept (h.request args there)).legible,
      .optional "address" a.addresses? fun _ _ => (restored _).legible,
      .optional "unresolved" a.unresolved? fun _ _ => (restored _).legible]
    ?_ rfl (by decide) (fun _ => rfl) fun s found => ?_
  · simp only [List.flatMap_cons, Part.fields_given, Part.fields_optional, List.flatMap_nil,
      List.append_nil, ← List.append_assoc]
    rfl
  · -- the request comes back because of what it keeps, the rest because of its type
    have request : a.args?.bind reread = a.args? := by
      cases there : a.args? with
      | none => rfl
      | some args =>
        have own := CompilerArgs.restored_of_kept (h.request args there)
        exact own.reread_eq fun null => Written.noConfusion null
    simp only [List.forall_mem_cons, Part.given, Part.optional, bind_reread, request] at found
    simp [found]

/-- Each field of contracts that is there has values by file and contract. -/
def EachNested (a : Artifact) : Prop :=
  a.EachField fun field? _ => ∀ p, field? = some p → ∃ m, p = .nested m

/-- The interface, if there is one, is that of one contract. -/
def SingleInterface (a : Artifact) : Prop := ∀ p, a.abi? = some p → ∃ value, p = .single value

theorem Clean.restored_iff {a : Artifact} (h : a.Clean) :
    Restored a ↔ a.abi?.bind reread = a.abi? := by
  rw [Restored, ofValue?_value h, Option.some.injEq]
  constructor
  · intro same
    exact congrArg abi? same
  · intro same
    rw [same]

/-- **An artifact of all contracts is restored.** -/
theorem Clean.restored_of_eachNested {a : Artifact} (h : a.Clean) (nested : a.EachNested) :
    Restored a := by
  rw [h.restored_iff]
  cases there : a.abi? with
  | none => rfl
  | some p =>
    obtain ⟨m, rfl⟩ := nested.interfaces p there
    have canonical := h.interfaces _ there
    refine (PerContract.restored_of_canonical_nested canonical).reread_eq ?_
    exact nofun

/-- An artifact of one contract is restored unless the interface of that contract can be
mistaken. -/
theorem Clean.restored_iff_not_mistakable {a : Artifact} (h : a.Clean)
    (single : a.SingleInterface) :
    Restored a ↔ ∀ value, a.abi? = some (.single value) → ¬ value.Mistakable := by
  rw [h.restored_iff]
  cases there : a.abi? with
  | none => exact iff_of_true rfl nofun
  | some p =>
    obtain ⟨value, rfl⟩ := single p there
    have one := PerContract.reread_single_iff (h.interfaces _ there)
    constructor
    · intro same other found
      cases found
      exact one.1 same
    · intro sure
      exact one.2 (sure value rfl)

end Artifact

end FuzzBundle
