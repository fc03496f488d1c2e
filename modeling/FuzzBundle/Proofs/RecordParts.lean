/-
  FuzzBundle.Proofs.RecordParts — records are restored part by part.

  A `Part` is a field of a record with what a reader makes of it, and there is one kind of part for
  each way in which a field is written and read. If a record is written by its parts, its reader may
  rely on all of them. Fields of other names, kept as they are, come back as the dictionary that
  they were (`unknownFields_writtenEach`).

  Main statements: `ofValue?_parts`, `ofValue?_record`.
-/
import FuzzBundle.Proofs.ValueReading

namespace FuzzBundle

/-! ## §1. Slots of a value -/

theorem Json.present?_of_ne_null {value : Json} (h : value ≠ .null) :
    value.present? = some value := by
  cases value with
  | null => exact absurd rfl h
  | _ => rfl

/-- The fields of a value, found by name. -/
def Dict.slots (d : Dict Json) : Slots := ⟨writtenEach d, false⟩

theorem Dict.get?_slots (d : Dict Json) (name : String) :
    d.slots.get? name = (d.get? name).map Json.written :=
  Entries.get?_map d.entries (fun _ => Json.written) name

/-- No field of a value is repeated. -/
theorem slots?_writtenEach (d : Dict Json) (names : List String) :
    (Written.object (writtenEach d)).slots? names = some d.slots := by
  refine if_pos (List.all_eq_true.2 fun name _ => decide_eq_true ?_)
  exact Entries.length_filter_key (d.map fun _ => Json.written).ascending name

section Slots

variable [Recorded α] (d : Dict Json) (name : String)

theorem required_slots :
    (d.slots.required name : Option α) = (d.get? name).bind Recorded.ofValue? := by
  rw [Slots.required, d.get?_slots, Option.bind_map]
  rfl

theorem withDefault_slots (default : α) :
    d.slots.withDefault name default
      = match d.get? name with
        | none => some default
        | some value => Recorded.ofValue? value := by
  rw [Slots.withDefault, d.get?_slots]
  cases d.get? name <;> rfl

theorem optional_slots :
    (d.slots.optional name : Option (Option α))
      = match (d.get? name).bind Json.present? with
        | none => some none
        | some value => (Recorded.ofValue? value).map some := by
  rw [Slots.optional, d.get?_slots]
  cases d.get? name with
  | none => rfl
  | some value => cases value <;> rfl

/-- Fields that are found by name may be missing where they may be null. -/
theorem nullable_slots :
    (d.slots.nullable name : Option (Option α)) = d.slots.optional name :=
  if_neg fun byPlace => Bool.false_ne_true byPlace.1

end Slots

/-! ## §2. Parts of records -/

theorem isSome_value?_of_restored [Recorded α] {a : α} (h : Restored a) :
    (encode a : Written).value?.isSome = true := by
  obtain ⟨value, valued, -⟩ := restored_iff.1 h
  exact Option.isSome_iff_exists.2 ⟨value, valued⟩

/-- What is found where something was written that may be missing or null. -/
def reread [Recorded α] (a : α) : Option α :=
  ((Recorded.value? a).bind Json.present?).bind Recorded.ofValue?

/-- Something has a value, and from that value anything of its type is read. -/
def Legible [Recorded α] (a : α) : Prop :=
  ∃ value, Recorded.value? a = some value
    ∧ (value ≠ .null → (Recorded.ofValue? value : Option α).isSome = true)

theorem Restored.legible [Recorded α] {a : α} (h : Restored a) : Legible a := by
  obtain ⟨value, valued, read⟩ := restored_iff.1 h
  exact ⟨value, valued, fun _ => Option.isSome_iff_exists.2 ⟨a, read⟩⟩

/-- Null is the value of nothing but null. -/
theorem Written.eq_null_of_value? {w : Written} (h : w.value? = some .null) : w = .null := by
  cases w with
  | null => rfl
  | array items =>
    rw [value?] at h
    obtain ⟨values, -, array⟩ := Option.map_eq_some_iff.1 h
    cases array
  | object fields =>
    rw [value?] at h
    obtain ⟨values, -, object⟩ := Option.map_eq_some_iff.1 h
    cases object
  | _ => cases h

theorem Restored.reread_eq [Recorded α] {a : α} (h : Restored a)
    (other : (encode a : Written) ≠ .null) : reread a = some a := by
  obtain ⟨value, valued, read⟩ := restored_iff.1 h
  have present : value ≠ .null := fun null => other (Written.eq_null_of_value? (null ▸ valued))
  rw [reread, valued, Option.bind_some, Json.present?_of_ne_null present, Option.bind_some, read]

/-- What a type that is always restored has in an optional field comes back. -/
theorem bind_reread [Recorded α] [Restorable α] (a? : Option α) : a?.bind reread = a? := by
  cases a? with
  | none => rfl
  | some a => exact (restored a).reread_eq (Restorable.ne_null a)

/-- A field of a record: the document it is written as, if it is written, and what a reader makes of
it where it is found in a value. -/
structure Part where
  name : String
  document? : Option Written
  Read : Slots → Prop
  valued : ∀ w, document? = some w → w.value?.isSome = true
  read : ∀ d : Dict Json, d.get? name = document?.bind Written.value? → Read d.slots

namespace Part

/-- The field as it stands in a document. -/
def fields (p : Part) : List (String × Written) := p.document?.toList.map (p.name, ·)

/-- A field that is always written, and must be given. -/
def given [Recorded α] (name : String) (a : α) (h : Restored a) : Part where
  name := name
  document? := some (encode a)
  Read s := s.required name = some a
  valued w written := by
    cases written
    exact isSome_value?_of_restored h
  read d found := by
    rw [required_slots, found]
    exact h

/-- A field that is always written, and for which there is a default. -/
def givenOr [Recorded α] (name : String) (a default : α) (h : Restored a) : Part where
  name := name
  document? := some (encode a)
  Read s := s.withDefault name default = some a
  valued w written := by
    cases written
    exact isSome_value?_of_restored h
  read d found := by
    obtain ⟨value, valued, read⟩ := restored_iff.1 h
    rw [withDefault_slots, show d.get? name = some value from found.trans valued]
    exact read

/-- A list that is left out when it is empty, and is empty when it is missing. -/
def unlessEmpty [Recorded α] [Restorable α] (name : String) (items : List α) : Part where
  name := name
  document? := if items.isEmpty then none else some (encode items)
  Read s := s.withDefault name [] = some items
  valued w written := by
    split at written
    · cases written
    · cases written
      exact isSome_value?_of_restored (restored items)
  read d found := by
    rw [withDefault_slots]
    split at found
    · next empty =>
      rw [show d.get? name = none from found, List.isEmpty_iff.1 empty]
    · obtain ⟨value, valued, read⟩ := restored_iff.1 (restored items)
      rw [show d.get? name = some value from found.trans valued]
      exact read

/-- A field that may be left out. -/
def optional [Recorded α] (name : String) (a? : Option α)
    (legible : ∀ a, a? = some a → Legible a) : Part where
  name := name
  document? := a?.map encode
  Read s := s.optional name = some (a?.bind reread)
  valued w written := by
    obtain ⟨a, there, same⟩ := Option.map_eq_some_iff.1 written
    obtain ⟨value, valued, -⟩ := legible a there
    cases same
    exact Option.isSome_iff_exists.2 ⟨value, valued⟩
  read d found := by
    rw [optional_slots]
    cases a? with
    | none =>
      rw [show d.get? name = none from found]
      rfl
    | some a =>
      obtain ⟨value, valued, reads⟩ := legible a rfl
      rw [show d.get? name = some value from found.trans valued, Option.bind_some,
        Option.bind_some, reread, valued, Option.bind_some]
      by_cases null : value = .null
      · rw [null]
        rfl
      · obtain ⟨b, read⟩ := Option.isSome_iff_exists.1 (reads null)
        rw [Json.present?_of_ne_null null, Option.bind_some]
        show (Recorded.ofValue? value).map some = _
        rw [read, Option.map_some]

/-- A field that is written as null when there is nothing. -/
def orNull [Recorded α] [Restorable α] (name : String) (a? : Option α) : Part where
  name := name
  document? := some (match a? with | some a => encode a | none => .null)
  Read s := s.nullable name = some a?
  valued w written := by
    cases written
    cases a? with
    | none => rfl
    | some a => exact isSome_value?_of_restored (restored a)
  read d found := by
    rw [nullable_slots]
    cases a? with
    | none =>
      rw [optional_slots, show d.get? name = some .null from found]
      rfl
    | some a =>
      have read := (optional name (some a) fun _ _ => (restored _).legible).read d found
      rw [← bind_reread (some a)]
      exact read

theorem fields_given [Recorded α] (name : String) (a : α) (h : Restored a) :
    (given name a h).fields = written name a := rfl

theorem fields_givenOr [Recorded α] (name : String) (a default : α) (h : Restored a) :
    (givenOr name a default h).fields = written name a := rfl

theorem fields_unlessEmpty [Recorded α] [Restorable α] (name : String) (items : List α) :
    (unlessEmpty name items).fields = if items.isEmpty then [] else written name items := by
  unfold fields unlessEmpty
  split <;> rfl

theorem fields_optional [Recorded α] (name : String) (a? : Option α)
    (legible : ∀ a, a? = some a → Legible a) :
    (optional name a? legible).fields = writtenIfAny name a? := by
  cases a? <;> rfl

theorem fields_orNull [Recorded α] [Restorable α] (name : String) (a? : Option α) :
    (orNull name a?).fields = writtenOrNull name a? := by
  cases a? <;> rfl

theorem keys_fields (p : Part) :
    p.fields.map Prod.fst = p.document?.toList.map fun _ => p.name := by
  rw [fields, List.map_map]
  rfl

theorem get?_fields (p : Part) (key : String) :
    Entries.get? p.fields key = if p.name = key then p.document? else none := by
  unfold fields
  cases p.document? with
  | none => exact (ite_self none).symm
  | some w => exact Entries.get?_cons p.name w [] key

/-- The names of the fields of some parts stand in the order of the parts. -/
theorem keys_flatMap_fields (parts : List Part) :
    ((parts.flatMap fields).map Prod.fst).Sublist (parts.map name) := by
  induction parts with
  | nil => exact .slnil
  | cons p rest ih =>
    rw [List.flatMap_cons, List.map_append, p.keys_fields]
    cases p.document? with
    | none => exact ih.cons p.name
    | some w => exact ih.cons_cons p.name

theorem get?_flatMap_fields {parts : List Part} (distinct : (parts.map name).Nodup) {p : Part}
    (member : p ∈ parts) : Entries.get? (parts.flatMap fields) p.name = p.document? := by
  induction parts with
  | nil => cases member
  | cons q rest ih =>
    obtain ⟨new, distinct⟩ := List.nodup_cons.1 distinct
    rw [List.flatMap_cons, Entries.get?_append, q.get?_fields]
    rcases List.mem_cons.1 member with same | member
    · subst same
      -- no later part has the same name
      have absent : Entries.get? (rest.flatMap fields) p.name = none :=
        Entries.get?_eq_none fun other => new ((keys_flatMap_fields rest).subset other)
      rw [if_pos rfl, absent, Option.or_none]
    · have other : q.name ≠ p.name := fun same => new (same ▸ List.mem_map_of_mem member)
      rw [if_neg other, Option.none_or, ih distinct member]

end Part

/-! ## §3. Records -/

/-- Fields of names that a record does not know, with canonical values. -/
def UnknownTo (known : List String) (extra : Dict Json) : Prop :=
  ∀ key value, extra.get? key = some value → key ∉ known ∧ value.Canonical

theorem unknownTo_empty (known : List String) : UnknownTo known Dict.empty := nofun

theorem get?_writtenEach (d : Dict Json) (key : String) :
    Entries.get? (writtenEach d) key = (d.get? key).map Json.written := d.get?_slots key

theorem decodeFields_written {entries : Entries Json}
    (h : ∀ entry ∈ entries, entry.2.Canonical) :
    decodeFields (entries.map fun entry => (entry.1, encode entry.2)) = some entries := by
  induction entries with
  | nil => rfl
  | cons entry rest ih =>
    obtain ⟨first, others⟩ := List.forall_mem_cons.1 h
    rw [List.map_cons, decodeFields, ih others,
      show (decode (encode entry.2) : Option Json) = some entry.2 from Json.value?_written first]

/-- Fields of other names come back as they were. -/
theorem unknownFields_writtenEach {known : List String} {d extra : Dict Json}
    (canonical : ∀ entry ∈ d.entries, entry.2.Canonical)
    (same : ∀ key, extra.get? key = if key ∈ known then none else d.get? key) :
    unknownFields known (writtenEach d) = some extra := by
  let chosen := d.entries.filter fun entry => !known.contains entry.1
  have fields : (writtenEach d).filter (fun field => !known.contains field.1)
      = chosen.map fun entry => (entry.1, encode entry.2) := List.filter_map
  have read : decodeFields (chosen.map fun entry => (entry.1, encode entry.2)) = some chosen :=
    decodeFields_written fun entry member => canonical entry (List.mem_filter.1 member).1
  rw [unknownFields, fields, read, Option.map_some]
  refine congrArg some (Dict.ext_get? fun key => ?_)
  have distinct : (chosen.map Prod.fst).Nodup := Entries.nodup_keys (d.ascending.filter _)
  show Entries.get? (Entries.ofList chosen) key = _
  rw [Entries.get?_ofList distinct, Entries.get?_filter d.entries (fun k => !known.contains k),
    same]
  by_cases h : key ∈ known
  · simp [h]
  · simp [h]
    rfl

theorem written_object (d : Dict Json) :
    (Json.object d.entries).written = .object (writtenEach d) := by
  rw [Json.written, Json.writtenFields_eq_map]
  rfl

/-- The values of some fields, in the order of the fields. -/
theorem exists_fieldValues?_get? {fields : List (String × Written)}
    (valued : ∀ field ∈ fields, field.2.value?.isSome = true) :
    ∃ values, Written.fieldValues? fields = some values
      ∧ values.map Prod.fst = fields.map Prod.fst
      ∧ ∀ key, Entries.get? values key = (Entries.get? fields key).bind Written.value? := by
  induction fields with
  | nil => exact ⟨[], rfl, rfl, fun _ => rfl⟩
  | cons field rest ih =>
    obtain ⟨name, w⟩ := field
    obtain ⟨first, others⟩ := List.forall_mem_cons.1 valued
    obtain ⟨value, found⟩ := Option.isSome_iff_exists.1 first
    obtain ⟨values, valuedRest, keys, get⟩ := ih others
    refine ⟨(name, value) :: values, ?_, ?_, fun key => ?_⟩
    · rw [Written.fieldValues?, found, valuedRest]
    · rw [List.map_cons, List.map_cons, keys]
    · rw [Entries.get?_cons, Entries.get?_cons, get]
      split
      · exact found.symm
      · rfl

/-- The value of an object is a dictionary that has the value of each of its fields. -/
theorem exists_dict {fields : List (String × Written)} (distinct : (fields.map Prod.fst).Nodup)
    (valued : ∀ field ∈ fields, field.2.value?.isSome = true) :
    ∃ d : Dict Json, (Written.object fields).value? = some (.object d.entries)
      ∧ ∀ key, d.get? key = (Entries.get? fields key).bind Written.value? := by
  obtain ⟨values, found, keys, get⟩ := exists_fieldValues?_get? valued
  refine ⟨Dict.ofList values, ?_, fun key => ?_⟩
  · rw [Written.value?, found]
    rfl
  · rw [← get key]
    exact Entries.get?_ofList (keys ▸ distinct) key

/-- No field is written twice where fields of known names stand before other fields. -/
theorem nodup_keys_append {known : List String} {front : List (String × Written)}
    {extra : Dict Json} (keys : (front.map Prod.fst).Sublist known) (distinct : known.Nodup)
    (unknown : UnknownTo known extra) :
    ((front ++ writtenEach extra).map Prod.fst).Nodup := by
  have others : (writtenEach extra).map Prod.fst = extra.entries.map Prod.fst := List.map_map
  rw [List.map_append, others]
  refine List.nodup_append.2 ⟨keys.nodup distinct, Entries.nodup_keys extra.ascending, ?_⟩
  intro name inFront other inExtra same
  obtain ⟨entry, member, rfl⟩ := List.mem_map.1 inExtra
  have found : extra.get? entry.1 = some entry.2 := Entries.get?_of_mem extra.ascending member
  exact (unknown entry.1 entry.2 found).1 (same ▸ keys.subset inFront)

section Parts

variable {parts : List Part} {extra : Dict Json}

theorem get?_extra_of_mem (unknown : UnknownTo (parts.map Part.name) extra) {key : String}
    (known : key ∈ parts.map Part.name) : extra.get? key = none := by
  refine Option.eq_none_iff_forall_ne_some.2 fun value found => ?_
  exact (unknown key value found).1 known

/-- No field of parts and other fields is written twice. -/
theorem nodup_keys_parts (distinct : (parts.map Part.name).Nodup)
    (unknown : UnknownTo (parts.map Part.name) extra) :
    ((parts.flatMap Part.fields ++ writtenEach extra).map Prod.fst).Nodup :=
  nodup_keys_append (Part.keys_flatMap_fields parts) distinct unknown

theorem isSome_value?_of_mem_parts (unknown : UnknownTo (parts.map Part.name) extra)
    {field : String × Written} (member : field ∈ parts.flatMap Part.fields ++ writtenEach extra) :
    field.2.value?.isSome = true := by
  rcases List.mem_append.1 member with member | member
  · obtain ⟨p, -, member⟩ := List.mem_flatMap.1 member
    obtain ⟨w, there, rfl⟩ := List.mem_map.1 member
    exact p.valued w (Option.mem_toList.1 there)
  · obtain ⟨entry, inside, rfl⟩ := List.mem_map.1 member
    have found : extra.get? entry.1 = some entry.2 := Entries.get?_of_mem extra.ascending inside
    exact isSome_value?_of_restored (unknown entry.1 entry.2 found).2.restored

/-- A part is found among parts and other fields, and these do not hide it. -/
theorem get?_parts (distinct : (parts.map Part.name).Nodup)
    (unknown : UnknownTo (parts.map Part.name) extra) {p : Part} (member : p ∈ parts) :
    Entries.get? (parts.flatMap Part.fields ++ writtenEach extra) p.name = p.document? := by
  rw [Entries.get?_append, Part.get?_flatMap_fields distinct member, get?_writtenEach,
    get?_extra_of_mem unknown (List.mem_map_of_mem member), Option.map_none, Option.or_none]

/-- What is found under other names are the other fields. -/
theorem bind_get?_parts (unknown : UnknownTo (parts.map Part.name) extra) {key : String}
    (other : key ∉ parts.map Part.name) :
    (Entries.get? (parts.flatMap Part.fields ++ writtenEach extra) key).bind Written.value?
      = extra.get? key := by
  have absent : Entries.get? (parts.flatMap Part.fields) key = none :=
    Entries.get?_eq_none fun member => other ((Part.keys_flatMap_fields parts).subset member)
  rw [Entries.get?_append, absent, Option.none_or, get?_writtenEach]
  cases found : extra.get? key with
  | none => rfl
  | some value => exact Json.value?_written (unknown key value found).2

/-- The value of a record is a dictionary that has the value of each part, and the other fields. -/
theorem exists_dict_parts (parts : List Part) (extra : Dict Json)
    (distinct : (parts.map Part.name).Nodup)
    (unknown : UnknownTo (parts.map Part.name) extra) :
    ∃ d : Dict Json,
      (Written.object (parts.flatMap Part.fields ++ writtenEach extra)).value?
        = some (.object d.entries)
      ∧ (∀ p ∈ parts, d.get? p.name = p.document?.bind Written.value?)
      ∧ ∀ key, key ∉ parts.map Part.name → d.get? key = extra.get? key := by
  obtain ⟨d, value, get⟩ := exists_dict (nodup_keys_parts distinct unknown)
    fun _ member => isSome_value?_of_mem_parts unknown member
  refine ⟨d, value, fun p member => ?_, fun key other => ?_⟩
  · rw [get, get?_parts distinct unknown member]
  · rw [get, bind_get?_parts unknown other]

end Parts

/-- **What is read from the value of a record.** The record is written as parts of different names
and fields of other names; its reader finds every part and the other fields as they were. -/
theorem ofValue?_parts [Recorded α] {a b : α} (parts : List Part) (extra : Dict Json)
    (written : (encode a : Written) = .object (parts.flatMap Part.fields ++ writtenEach extra))
    (distinct : (parts.map Part.name).Nodup) (unknown : UnknownTo (parts.map Part.name) extra)
    (read : ∀ d : Dict Json, (∀ p ∈ parts, p.Read d.slots) →
      unknownFields (parts.map Part.name) (writtenEach d) = some extra →
      decode (.object (writtenEach d)) = some b) :
    (Recorded.value? a).bind Recorded.ofValue? = some b := by
  obtain ⟨d, value, known, others⟩ := exists_dict_parts parts extra distinct unknown
  have canonical : (Json.object d.entries).Canonical := Json.canonical_of_value? value
  rw [Json.Canonical] at canonical
  rw [show Recorded.value? a = some (.object d.entries) by rw [Recorded.value?, written, value],
    Option.bind_some, Recorded.ofValue?, written_object]
  refine read d (fun p member => p.read d (known p member)) ?_
  refine unknownFields_writtenEach (Json.canonicalFields_iff.1 canonical.2) fun key => ?_
  split
  · next inParts => exact get?_extra_of_mem unknown inParts
  · next other => exact (others key other).symm

/-- The same for a record that has no other fields, with the names that its reader asks for. -/
theorem ofValue?_record [Recorded α] {a b : α} {read : Slots → Option α} (names : List String)
    (parts : List Part) (written : (encode a : Written) = .object (parts.flatMap Part.fields))
    (named : parts.map Part.name = names) (distinct : names.Nodup)
    (reads : ∀ w : Written, decode w = (w.slots? names).bind read)
    (back : ∀ s : Slots, (∀ p ∈ parts, p.Read s) → read s = some b) :
    (Recorded.value? a).bind Recorded.ofValue? = some b := by
  subst named
  refine ofValue?_parts parts Dict.empty ?_ distinct (unknownTo_empty _) fun d found _ => ?_
  · rw [written]
    exact congrArg _ (List.append_nil _).symm
  · rw [reads, slots?_writtenEach, Option.bind_some]
    exact back d.slots found

end FuzzBundle
