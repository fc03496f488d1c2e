/-
  FuzzBundle.Proofs.ValueReading — the value of what was written is read as the same.

  A record is written with its fields in an order of its own, and the value of its document has them
  in ascending order, of every key once. What is read from that value is therefore read from another
  document than the one that was written. `Restored a` says that it is `a` all the same. Lists and
  dictionaries are restored if all that they hold is.

  Main statements: `Json.value?_written` and `Json.canonical_of_value?` (a value is canonical
  exactly if it is the value of its own document), `restored_list`, `restored_dict`.
-/
import FuzzBundle.Compiler.Input

namespace FuzzBundle

/-! ## §1. Canonical values -/

namespace Json

theorem writtenFields_eq_map (fields : List (String × Json)) :
    writtenFields fields = fields.map fun field => (field.1, field.2.written) := by
  induction fields with
  | nil => rfl
  | cons field rest ih => rw [writtenFields, List.map_cons, ih]

mutual

/-- A canonical value is the value of the document that lists its fields. -/
theorem value?_written : ∀ {value : Json}, value.Canonical → value.written.value? = some value
  | .null, _ => rfl
  | .bool _, _ => rfl
  | .number _, _ => rfl
  | .string _, _ => rfl
  | .array items, h => by
    rw [Canonical] at h
    rw [written, Written.value?, values?_writtenItems h]
    rfl
  | .object fields, h => by
    rw [Canonical] at h
    rw [written, Written.value?, fieldValues?_writtenFields h.2, Option.map_some, ofFields,
      Entries.ofList_of_ascending h.1]

theorem values?_writtenItems : ∀ {items : List Json}, CanonicalItems items →
    Written.values? (writtenItems items) = some items
  | [], _ => rfl
  | item :: rest, h => by
    rw [CanonicalItems] at h
    rw [writtenItems, Written.values?, value?_written h.1, values?_writtenItems h.2]

theorem fieldValues?_writtenFields : ∀ {fields : List (String × Json)}, CanonicalFields fields →
    Written.fieldValues? (writtenFields fields) = some fields
  | [], _ => rfl
  | (key, value) :: rest, h => by
    rw [CanonicalFields] at h
    rw [writtenFields, Written.fieldValues?, value?_written h.1, fieldValues?_writtenFields h.2]

end

mutual

/-- The value of any document is canonical. -/
theorem canonical_of_value? : ∀ {w : Written} {value : Json}, w.value? = some value →
    value.Canonical
  | .null, _, h => by cases h; trivial
  | .bool _, _, h => by cases h; trivial
  | .number _, _, h => by cases h; trivial
  | .string _, _, h => by cases h; trivial
  | .invalid, _, h => by cases h
  | .array items, _, h => by
    rw [Written.value?] at h
    obtain ⟨values, found, rfl⟩ := Option.map_eq_some_iff.1 h
    exact canonicalItems_iff.2 (canonical_of_values? found)
  | .object fields, _, h => by
    rw [Written.value?] at h
    obtain ⟨values, found, rfl⟩ := Option.map_eq_some_iff.1 h
    -- of a repeated key one value stays, and all values of the list are canonical
    refine ⟨Entries.ascending_ofList values, canonicalFields_iff.2 fun field member => ?_⟩
    exact canonical_of_fieldValues? found field (Entries.mem_of_mem_ofList member)

theorem canonical_of_values? : ∀ {items : List Written} {values : List Json},
    Written.values? items = some values → ∀ value ∈ values, value.Canonical
  | [], _, h => by cases h; exact nofun
  | item :: rest, _, h => by
    rw [Written.values?] at h
    split at h
    · next first more hfirst hmore =>
      cases h
      exact List.forall_mem_cons.2 ⟨canonical_of_value? hfirst, canonical_of_values? hmore⟩
    · cases h

theorem canonical_of_fieldValues? : ∀ {fields : List (String × Written)}
    {values : List (String × Json)}, Written.fieldValues? fields = some values →
    ∀ value ∈ values, value.2.Canonical
  | [], _, h => by cases h; exact nofun
  | (key, w) :: rest, _, h => by
    rw [Written.fieldValues?] at h
    split at h
    · next first more hfirst hmore =>
      cases h
      exact List.forall_mem_cons.2 ⟨canonical_of_value? hfirst, canonical_of_fieldValues? hmore⟩
    · cases h

end

end Json

/-! ## §2. Through a value and back -/

namespace Recorded

/-- The value of what something is written as. -/
def value? [Recorded α] (a : α) : Option Json := (encode a : Written).value?

/-- What is read from a value. -/
def ofValue? [Recorded α] (value : Json) : Option α := decode value.written

end Recorded

/-- Something is read from the value of what it is written as. -/
def Restored [Recorded α] (a : α) : Prop :=
  (Recorded.value? a).bind Recorded.ofValue? = some a

theorem restored_iff [Recorded α] {a : α} :
    Restored a ↔ ∃ value, Recorded.value? a = some value ∧ Recorded.ofValue? value = some a :=
  Option.bind_eq_some_iff

/-- Everything of a type is restored, and nothing of it is written as null. -/
class Restorable (α : Type u) [Recorded α] : Prop where
  restored : ∀ a : α, Restored a
  ne_null : ∀ a : α, (encode a : Written) ≠ .null

export Restorable (restored)

instance : Restorable String := ⟨fun _ => rfl, fun _ => nofun⟩
instance : Restorable Bool := ⟨fun _ => rfl, fun _ => nofun⟩
instance : Restorable Nat := ⟨fun _ => rfl, fun _ => nofun⟩

/-- A value is restored if it is canonical. -/
theorem Json.Canonical.restored {value : Json} (h : value.Canonical) : Restored value := by
  have same : value.written.value? = some value := Json.value?_written h
  show (value.written.value?).bind (fun v => v.written.value?) = some value
  rw [same, Option.bind_some, same]

/-! ## §3. Lists and dictionaries -/

theorem exists_values? [Recorded α] {items : List α} (h : ∀ item ∈ items, Restored item) :
    ∃ values, Written.values? (items.map encode) = some values
      ∧ decodeItems (Json.writtenItems values) = some items := by
  induction items with
  | nil => exact ⟨[], rfl, rfl⟩
  | cons item rest ih =>
    obtain ⟨first, others⟩ := List.forall_mem_cons.1 h
    obtain ⟨value, valued, read⟩ := restored_iff.1 first
    obtain ⟨values, valuedRest, readRest⟩ := ih others
    refine ⟨value :: values, ?_, ?_⟩
    · rw [List.map_cons, Written.values?, show (encode item : Written).value? = _ from valued,
        valuedRest]
    · rw [Json.writtenItems, decodeItems, show decode value.written = _ from read, readRest]

/-- A list is restored if its items are. -/
theorem restored_list [Recorded α] {items : List α} (h : ∀ item ∈ items, Restored item) :
    Restored items := by
  obtain ⟨values, valued, read⟩ := exists_values? h
  refine restored_iff.2 ⟨.array values, ?_, read⟩
  show (Written.values? (items.map encode)).map Json.array = _
  rw [valued, Option.map_some]

theorem exists_fieldValues? [Recorded α] {entries : Entries α}
    (h : ∀ entry ∈ entries, Restored entry.2) :
    ∃ values, Written.fieldValues? (entries.map fun entry => (entry.1, encode entry.2))
        = some values
      ∧ values.map Prod.fst = entries.map Prod.fst
      ∧ decodeFields (Json.writtenFields values) = some entries := by
  induction entries with
  | nil => exact ⟨[], rfl, rfl, rfl⟩
  | cons entry rest ih =>
    obtain ⟨key, a⟩ := entry
    obtain ⟨first, others⟩ := List.forall_mem_cons.1 h
    obtain ⟨value, valued, read⟩ := restored_iff.1 first
    obtain ⟨values, valuedRest, keys, readRest⟩ := ih others
    refine ⟨(key, value) :: values, ?_, ?_, ?_⟩
    · rw [List.map_cons, Written.fieldValues?, show (encode a : Written).value? = _ from valued,
        valuedRest]
    · rw [List.map_cons, List.map_cons, keys]
    · rw [Json.writtenFields, decodeFields, show decode value.written = _ from read, readRest]

/-- A dictionary is restored if its values are. -/
theorem restored_dict [Recorded α] {d : Dict α} (h : ∀ entry ∈ d.toList, Restored entry.2) :
    Restored d := by
  obtain ⟨values, valued, keys, read⟩ := exists_fieldValues? h
  -- the keys are those of the dictionary, so the values stand in the right order already
  have ascending : Entries.Ascending values := d.ascending.of_keys keys
  refine restored_iff.2 ⟨.object values, ?_, ?_⟩
  · show (Written.fieldValues? (d.toList.map fun entry => (entry.1, encode entry.2))).map
      Json.ofFields = _
    rw [valued, Option.map_some, Json.ofFields, Entries.ofList_of_ascending ascending]
  · show (decodeFields (Json.writtenFields values)).map Dict.ofList = some d
    rw [read, Option.map_some]
    refine congrArg some (Dict.ext_get? fun key => ?_)
    exact Entries.get?_ofList (Entries.nodup_keys d.ascending) key

theorem mem_of_decodeFields [Recorded α] {fields : List (String × Written)}
    {entries : List (String × α)} (h : decodeFields fields = some entries) {key : String} {a : α}
    (member : (key, a) ∈ entries) : ∃ w, decode w = some a ∧ (key, w) ∈ fields := by
  induction fields generalizing entries with
  | nil =>
    cases h
    cases member
  | cons field rest ih =>
    obtain ⟨name, w⟩ := field
    rw [decodeFields] at h
    split at h
    · next first more hfirst hmore =>
      cases h
      rcases List.mem_cons.1 member with same | member
      · cases same
        exact ⟨w, hfirst, List.mem_cons_self⟩
      · obtain ⟨w', read, there⟩ := ih hmore member
        exact ⟨w', read, List.mem_cons_of_mem _ there⟩
    · cases h

/-- What is found in a dictionary that was read was read itself. -/
theorem exists_decode_of_get? [Recorded α] {w : Written} {d : Dict α} (h : decode w = some d)
    {key : String} {a : α} (found : d.get? key = some a) : ∃ w' : Written, decode w' = some a := by
  cases w with
  | object fields =>
    obtain ⟨entries, read, rfl⟩ := Option.map_eq_some_iff.1 h
    have member : (key, a) ∈ entries := Entries.mem_of_mem_ofList (Entries.mem_of_get? found)
    obtain ⟨w', readEntry, -⟩ := mem_of_decodeFields read member
    exact ⟨w', readEntry⟩
  | _ => cases h

instance [Recorded α] [Restorable α] : Restorable (List α) :=
  ⟨fun _ => restored_list fun item _ => restored item, fun _ => nofun⟩

instance [Recorded α] [Restorable α] : Restorable (Dict α) :=
  ⟨fun _ => restored_dict fun entry _ => restored entry.2, fun _ => nofun⟩

end FuzzBundle
