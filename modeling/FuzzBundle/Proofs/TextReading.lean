/-
  FuzzBundle.Proofs.TextReading — records read from the texts that they were written as.

  `Rereads a b` says that `b` is read from the text of `a`. What holds no numbers is read as it was
  (`Verbatim`), and a value is read as it was exactly if its doubles are steady
  (`Json.rereads_self_iff`). Lists and dictionaries are read item by item, and of a dictionary the
  keys stay (`rereads_dict_iff`). The fields of a record are found by name as they are read back
  (`slots?_readBack`, `get?_readBackFields`), so that a record is read field by field.

  Main statements: `Json.rereads_self_iff`, `rereads_dict_iff`, `rereadsIfAny_iff`.
-/
import FuzzBundle.Proofs.NumberReading
import FuzzBundle.Proofs.RecordParts
import Mathlib.Data.List.Forall2

namespace FuzzBundle

/-! ## §1. Texts -/

namespace Recorded

/-- The text of something on one line. -/
def text [Recorded α] (a : α) : String := (encode a : Written).compact

/-- What is read from a text that is one document. -/
def ofText? [Recorded α] (text : String) : Option α := (Written.read text).bind decode

/-- The text of something is read as its document read back. -/
theorem ofText?_text [Recorded α] [Recorded β] (a : α) :
    (ofText? (text a) : Option β) = decode (encode a : Written).readBack := by
  rw [ofText?, text, Written.read_compact, Option.bind_some]

end Recorded

/-- The second is read from the text that the first is written as. -/
def Rereads [Recorded α] (a b : α) : Prop := Recorded.ofText? (Recorded.text a) = some b

theorem rereads_iff [Recorded α] {a b : α} :
    Rereads a b ↔ decode (encode a : Written).readBack = some b := by
  rw [Rereads, Recorded.ofText?_text]

/-- Not more than one thing is read. -/
theorem Rereads.unique [Recorded α] {a b c : α} (hb : Rereads a b) (hc : Rereads a c) : b = c :=
  Option.some.inj (hb.symm.trans hc)

/-! ## §2. What holds no numbers -/

/-- A type without numbers: its documents are read as they were written, and none of them is
null. -/
class Verbatim (α : Type u) [Recorded α] : Prop extends LawfulRecorded α where
  readBack : ∀ a : α, (encode a : Written).readBack = encode a
  ne_null : ∀ a : α, (encode a : Written) ≠ .null

theorem rereads_iff_eq [Recorded α] [Verbatim α] {a b : α} : Rereads a b ↔ b = a := by
  rw [rereads_iff, Verbatim.readBack, LawfulRecorded.decode_encode, Option.some.injEq]
  exact eq_comm

instance : Verbatim String := ⟨fun _ => rfl, fun _ => nofun⟩

/-! ## §3. Lists and dictionaries -/

/-- Two dictionaries have the same keys and related values. -/
def Dict.Pointwise (R : α → β → Prop) (d : Dict α) (d' : Dict β) : Prop :=
  List.Forall₂ (fun entry entry' => entry'.1 = entry.1 ∧ R entry.2 entry'.2) d.toList d'.toList

theorem Dict.pointwise_self_iff {R : α → α → Prop} {d : Dict α} :
    d.Pointwise R d ↔ ∀ key a, d.get? key = some a → R a a := by
  rw [Pointwise, List.forall₂_same]
  constructor
  · intro each key a found
    exact (each (key, a) (mem_toList_iff.2 found)).2
  · intro each entry member
    exact ⟨rfl, each entry.1 entry.2 (mem_toList_iff.1 member)⟩

theorem Dict.eq_of_pointwise_eq {d d' : Dict α} (h : d.Pointwise (fun a b => b = a) d') :
    d' = d := by
  have same : List.Forall₂ Eq d'.toList d.toList :=
    h.flip.imp fun entry entry' both => Prod.ext both.1 both.2
  rw [List.forall₂_eq_eq_eq] at same
  exact toList_inj.1 same

/-- A dictionary of one entry has nothing but that entry. -/
theorem Dict.eq_of_get?_single {key k : String} {a b : α}
    (h : (Dict.empty.insert key a).get? k = some b) : key = k ∧ a = b := by
  rw [Dict.get?_insert] at h
  split at h
  · next same => exact ⟨same, Option.some.inj h⟩
  · cases h

theorem forall₂_congr_of_mem {R S : α → β → Prop} {xs : List α} {ys : List β}
    (h : ∀ x ∈ xs, ∀ y, R x y ↔ S x y) : List.Forall₂ R xs ys ↔ List.Forall₂ S xs ys := by
  induction xs generalizing ys with
  | nil => rw [List.forall₂_nil_left_iff, List.forall₂_nil_left_iff]
  | cons x xs ih =>
    obtain ⟨first, others⟩ := List.forall_mem_cons.1 h
    rw [List.forall₂_cons_left_iff, List.forall₂_cons_left_iff]
    exact exists_congr fun y => exists_congr fun ys' =>
      and_congr (first y) (and_congr_left fun _ => ih others)

theorem Dict.pointwise_congr {R S : α → β → Prop} {d : Dict α} {d' : Dict β}
    (h : ∀ key a, d.get? key = some a → ∀ b, R a b ↔ S a b) :
    d.Pointwise R d' ↔ d.Pointwise S d' :=
  forall₂_congr_of_mem fun entry member _ =>
    and_congr_right fun _ => h entry.1 entry.2 (mem_toList_iff.1 member) _

theorem decodeItems_readBack_iff [Recorded α] {items items' : List α} :
    decodeItems (Written.readBackItems (items.map encode)) = some items'
      ↔ List.Forall₂ Rereads items items' := by
  induction items generalizing items' with
  | nil =>
    rw [List.forall₂_nil_left_iff]
    exact Option.some_inj.trans eq_comm
  | cons item rest ih =>
    rw [List.forall₂_cons_left_iff, List.map_cons, Written.readBackItems, decodeItems]
    constructor
    · intro h
      split at h
      · next first more hfirst hmore =>
        cases h
        exact ⟨first, more, rereads_iff.2 hfirst, ih.1 hmore, rfl⟩
      · cases h
    · intro h
      obtain ⟨first, more, hfirst, hmore, rfl⟩ := h
      rw [rereads_iff.1 hfirst, ih.2 hmore]

/-- A list is read item by item. -/
theorem rereads_list_iff [Recorded α] {items items' : List α} :
    Rereads items items' ↔ List.Forall₂ Rereads items items' :=
  rereads_iff.trans decodeItems_readBack_iff

theorem decodeFields_readBack_iff [Recorded α] {entries entries' : List (String × α)} :
    decodeFields (Written.readBackFields (entries.map fun entry => (entry.1, encode entry.2)))
        = some entries'
      ↔ List.Forall₂ (fun entry entry' => entry'.1 = entry.1 ∧ Rereads entry.2 entry'.2)
          entries entries' := by
  induction entries generalizing entries' with
  | nil =>
    rw [List.forall₂_nil_left_iff]
    exact Option.some_inj.trans eq_comm
  | cons entry rest ih =>
    obtain ⟨key, a⟩ := entry
    rw [List.forall₂_cons_left_iff, List.map_cons, Written.readBackFields, decodeFields]
    constructor
    · intro h
      split at h
      · next first more hfirst hmore =>
        cases h
        exact ⟨(key, first), more, ⟨rfl, rereads_iff.2 hfirst⟩, ih.1 hmore, rfl⟩
      · cases h
    · intro h
      obtain ⟨⟨key', first⟩, more, ⟨same, hfirst⟩, hmore, rfl⟩ := h
      rw [rereads_iff.1 hfirst, ih.2 hmore]
      cases same
      rfl

/-- A dictionary is read value by value, and its keys stay. -/
theorem rereads_dict_iff [Recorded α] {d d' : Dict α} : Rereads d d' ↔ d.Pointwise Rereads d' := by
  rw [rereads_iff, Dict.Pointwise, ← decodeFields_readBack_iff]
  show (decodeFields (Written.readBackFields _)).map Dict.ofList = some d' ↔ _
  constructor
  · intro h
    obtain ⟨entries, read, rfl⟩ := Option.map_eq_some_iff.1 h
    -- the keys are those of the dictionary, so they are in order already
    have keys : entries.map Prod.fst = d.toList.map Prod.fst := by
      have each := (decodeFields_readBack_iff.1 read).imp fun _ _ both => both.1
      exact List.forall₂_eq_eq_eq ▸
        List.forall₂_map_left_iff.2 (List.forall₂_map_right_iff.2 each.flip)
    have same : (Dict.ofList entries).toList = entries :=
      Entries.ofList_of_ascending (d.ascending.of_keys keys)
    rw [read, same]
  · intro h
    rw [h, Option.map_some]
    exact congrArg some (Dict.toList_inj.1 (Entries.ofList_of_ascending d'.ascending))

theorem Written.readBackItems_eq_map (items : List Written) :
    readBackItems items = items.map readBack := by
  induction items with
  | nil => rfl
  | cons item rest ih => rw [readBackItems, List.map_cons, ih]

instance [Recorded α] [Verbatim α] : Verbatim (List α) where
  readBack items := by
    show Written.array (Written.readBackItems _) = _
    rw [Written.readBackItems_eq_map, List.map_map]
    exact congrArg _ (List.map_congr_left fun item _ => Verbatim.readBack item)
  ne_null _ := nofun

instance [Recorded α] [LawfulRecorded α] : LawfulRecorded (Dict α) where
  decode_encode d := by
    show (decodeFields _).map Dict.ofList = some d
    rw [decodeFields_map_encode, Option.map_some]
    exact congrArg some (Dict.toList_inj.1 (Entries.ofList_of_ascending d.ascending))

instance [Recorded α] [Verbatim α] : Verbatim (Dict α) where
  readBack d := by
    show Written.object (Written.readBackFields _) = _
    rw [Written.readBackFields_eq_map, List.map_map]
    exact congrArg _ (List.map_congr_left fun entry _ => by
      rw [Function.comp_apply, Verbatim.readBack])
  ne_null _ := nofun

/-! ## §4. Values -/

namespace Json

theorem writtenItems_eq_map (items : List Json) : writtenItems items = items.map written := by
  induction items with
  | nil => rfl
  | cons item rest ih => rw [writtenItems, List.map_cons, ih]

theorem decodeItems_eq (items : List Written) :
    (decodeItems items : Option (List Json)) = Written.values? items := by
  induction items with
  | nil => rfl
  | cons item rest ih =>
    rw [decodeItems, Written.values?, ih, show (decode item : Option Json) = item.value? from rfl]
    cases item.value? <;> cases Written.values? rest <;> rfl

theorem decodeFields_eq (fields : List (String × Written)) :
    (decodeFields fields : Option (List (String × Json))) = Written.fieldValues? fields := by
  induction fields with
  | nil => rfl
  | cons field rest ih =>
    obtain ⟨key, w⟩ := field
    rw [decodeFields, Written.fieldValues?, ih, show (decode w : Option Json) = w.value? from rfl]
    cases w.value? <;> cases Written.fieldValues? rest <;> rfl

/-- Null is read where null was written, and where a double is not finite. -/
theorem rereads_number_iff {n : Number} :
    Rereads (Json.number n) (.number n) ↔ n.readBack = .number n := by
  rw [rereads_iff]
  constructor
  · intro h
    have valued : n.readBack.value? = some (.number n) := h
    cases none : n.blank with
    | true => rw [n.readBack_of_blank none] at valued; cases valued
    | false =>
      rcases n.readBack_of_not_blank none with ⟨x, read⟩ | read
      · rw [read] at valued ⊢
        cases valued
        rfl
      · rw [read] at valued
        cases valued
  · intro h
    show n.readBack.value? = _
    rw [h]
    rfl

instance : DecidablePred Number.Steady
  | .real x => decidable_of_iff ((Number.real x).readBack.value? = some (.number (.real x)))
      (rereads_iff.symm.trans rereads_number_iff)
  | .natural _ => isTrue trivial
  | .negative _ => isTrue trivial

theorem rereads_array_iff {items items' : List Json} :
    Rereads (Json.array items) (.array items') ↔ Rereads items items' := by
  rw [rereads_iff, rereads_iff]
  show (Written.values? (Written.readBackItems (writtenItems items))).map array = _
    ↔ decodeItems (Written.readBackItems (items.map written)) = _
  rw [decodeItems_eq, writtenItems_eq_map, Option.map_eq_some_iff]
  constructor
  · intro h
    obtain ⟨values, found, same⟩ := h
    cases same
    exact found
  · intro h
    exact ⟨_, h, rfl⟩

theorem rereads_object_iff (d d' : Dict Json) :
    Rereads (Json.object d.entries) (.object d'.entries) ↔ Rereads d d' := by
  rw [rereads_iff, rereads_iff]
  show (Written.fieldValues? (Written.readBackFields (writtenFields d.entries))).map ofFields = _
    ↔ (decodeFields (Written.readBackFields
        (d.entries.map fun entry => (entry.1, entry.2.written)))).map Dict.ofList = _
  rw [decodeFields_eq, writtenFields_eq_map, Option.map_eq_some_iff, Option.map_eq_some_iff]
  refine exists_congr fun values => and_congr_right fun _ => ?_
  rw [ofFields, Json.object.injEq, ← Dict.toList_inj]
  rfl

/-- **A value is read as it was exactly if its doubles are steady.** -/
theorem rereads_self_iff : ∀ {value : Json}, value.Canonical → value.EachNumber Number.Fits →
    (Rereads value value ↔ value.Steady)
  | .null, _, _ => iff_of_true rfl trivial
  | .bool b, _, _ => iff_of_true (by cases b <;> rfl) trivial
  | .string s, _, _ => iff_of_true (rereads_iff.2 rfl) trivial
  | .number n, _, fits => rereads_number_iff.trans (Number.readBack_eq_self_iff fits)
  | .array items, canonical, fits => by
    rw [Canonical] at canonical
    rw [rereads_array_iff, rereads_list_iff, List.forall₂_same, Steady, eachNumber_array]
    exact forall₂_congr fun item member => rereads_self_iff
      (canonicalItems_iff.1 canonical item member) (eachNumber_array.1 fits item member)
  | .object fields, canonical, fits => by
    rw [Canonical] at canonical
    rw [rereads_object_iff ⟨fields, canonical.1⟩ ⟨fields, canonical.1⟩,
      rereads_dict_iff, Dict.Pointwise, List.forall₂_same, Steady, eachNumber_object]
    exact forall₂_congr fun field member => (and_iff_right rfl).trans (rereads_self_iff
      (canonicalFields_iff.1 canonical.2 field member) (eachNumber_object.1 fits field member))
termination_by value => value.height
decreasing_by
  · exact height_lt_of_mem member
  · exact Nat.lt_succ_of_le (height_le_of_mem_fields member)

end Json

/-! ## §5. Fields of records -/

/-- What is read where a field may be missing: nothing, if the field was missing or if null is read
where it was written, and otherwise what is read where it was written. -/
inductive RereadsIfAny [Recorded α] : Option α → Option α → Prop
  | missing : RereadsIfAny none none
  | lost {a : α} : (encode a : Written).readBack = .null → RereadsIfAny (some a) none
  | given {a b : α} : (encode a : Written).readBack ≠ .null → Rereads a b →
      RereadsIfAny (some a) (some b)

/-- What is read as it was is read as it was where it may be missing. -/
theorem rereadsIfAny_iff_eq [Recorded α] {a? b? : Option α}
    (h : ∀ a, a? = some a → (encode a : Written).readBack ≠ .null ∧ Rereads a a) :
    RereadsIfAny a? b? ↔ b? = a? := by
  constructor
  · intro read
    cases read with
    | missing => rfl
    | lost null => exact absurd null (h _ rfl).1
    | given other read => rw [read.unique (h _ rfl).2]
  · intro same
    subst same
    cases b? with
    | none => exact .missing
    | some a => exact .given (h a rfl).1 (h a rfl).2

theorem rereadsIfAny_verbatim_iff [Recorded α] [Verbatim α] {a? b? : Option α} :
    RereadsIfAny a? b? ↔ b? = a? :=
  rereadsIfAny_iff_eq fun a _ =>
    ⟨by rw [Verbatim.readBack]; exact Verbatim.ne_null a, rereads_iff_eq.2 rfl⟩

/-- A value that may be missing, as it is read from a document of a text: it is not null, its
objects are in order, and its integers have 64 bits. -/
structure Json.Given (value : Json) : Prop where
  ne_null : value ≠ .null
  canonical : value.Canonical
  fits : value.EachNumber Json.Number.Fits

/-- A given value is read as it was where it may be missing exactly if it is steady. -/
theorem rereadsIfAny_self_iff {value? : Option Json}
    (h : ∀ value, value? = some value → value.Given) :
    RereadsIfAny value? value? ↔ ∀ value, value? = some value → value.Steady := by
  cases value? with
  | none => exact iff_of_true .missing nofun
  | some value =>
    obtain ⟨other, canonical, fits⟩ := h value rfl
    have same : (∀ v, some value = some v → v.Steady) ↔ value.Steady :=
      ⟨fun each => each value rfl, fun steady v there => Option.some.inj there ▸ steady⟩
    rw [same, ← Json.rereads_self_iff canonical fits]
    constructor
    · intro read
      cases read with
      | given _ read => exact read
    · intro read
      refine .given (fun null => ?_) read
      -- from null only null would be read
      have valued := rereads_iff.1 read
      rw [show (encode value : Written).readBack = .null from null] at valued
      exact other (Option.some.inj valued).symm

theorem Entries.length_filter_key_of_nodup {entries : Entries α}
    (distinct : (entries.map Prod.fst).Nodup) (key : String) :
    (entries.filter (·.1 == key)).length ≤ 1 := by
  have count : (entries.filter (·.1 == key)).length = (entries.map Prod.fst).count key := by
    rw [← List.countP_eq_length_filter, List.count, List.countP_map]
    rfl
  rw [count]
  exact List.nodup_iff_count.1 distinct key

/-- A record whose fields have different names is read by name. -/
theorem Written.slots?_object {fields : List (String × Written)}
    (distinct : (fields.map Prod.fst).Nodup) (names : List String) :
    (Written.object fields).slots? names = some ⟨fields, false⟩ :=
  if_pos (List.all_eq_true.2 fun name _ =>
    decide_eq_true (Entries.length_filter_key_of_nodup distinct name))

/-- So is the record that is read back. -/
theorem Written.slots?_readBack {fields : List (String × Written)}
    (distinct : (fields.map Prod.fst).Nodup) (names : List String) :
    (Written.object fields).readBack.slots? names
      = some ⟨Written.readBackFields fields, false⟩ := by
  have keys : (Written.readBackFields fields).map Prod.fst = fields.map Prod.fst := by
    rw [Written.readBackFields_eq_map]
    exact List.map_map
  exact Written.slots?_object (keys ▸ distinct) names

theorem get?_readBackFields (fields : List (String × Written)) (name : String) :
    Entries.get? (Written.readBackFields fields) name
      = (Entries.get? fields name).map Written.readBack := by
  rw [Written.readBackFields_eq_map]
  exact Entries.get?_map fields (fun _ => Written.readBack) name

section Slots

variable [Recorded α] {fields : List (String × Written)} {name : String}

/-- What was written comes back where it may be missing. -/
theorem optional_of_get? [Verbatim α] {s : Slots} {a? : Option α}
    (there : s.get? name = a?.map encode) : s.optional name = some a? := by
  rw [Slots.optional, there]
  cases a? with
  | none => rfl
  | some a =>
    rw [Option.map_some]
    split
    · next missing => cases missing
    · next null => exact absurd (Option.some.inj null) (Verbatim.ne_null a)
    · next w _ there =>
      cases there
      rw [LawfulRecorded.decode_encode, Option.map_some]

/-- The slots of a record as they are read back. -/
def slotsBack (fields : List (String × Written)) : Slots := ⟨Written.readBackFields fields, false⟩

theorem required_slotsBack_iff {a b : α} (there : Entries.get? fields name = some (encode a)) :
    (slotsBack fields).required name = some b ↔ Rereads a b := by
  rw [Slots.required, Slots.get?, slotsBack, get?_readBackFields, there, rereads_iff]
  exact Iff.rfl

theorem withDefault_slotsBack_iff {a b default : α}
    (there : Entries.get? fields name = some (encode a)) :
    (slotsBack fields).withDefault name default = some b ↔ Rereads a b := by
  rw [Slots.withDefault, Slots.get?, slotsBack, get?_readBackFields, there, rereads_iff]
  exact Iff.rfl

theorem withDefault_slotsBack_missing {default : α} (missing : Entries.get? fields name = none) :
    (slotsBack fields).withDefault name default = some default := by
  rw [Slots.withDefault, Slots.get?, slotsBack, get?_readBackFields, missing]
  rfl

theorem optional_slotsBack_iff {a? b? : Option α}
    (there : Entries.get? fields name = a?.map encode) :
    (slotsBack fields).optional name = some b? ↔ RereadsIfAny a? b? := by
  rw [Slots.optional, Slots.get?, slotsBack, get?_readBackFields, there]
  cases a? with
  | none =>
    constructor
    · intro h
      cases h
      exact .missing
    · intro h
      cases h
      rfl
  | some a =>
    rw [Option.map_some, Option.map_some]
    split
    · next missing => cases missing
    · next null =>
      have null := Option.some.inj null
      constructor
      · intro h
        cases h
        exact .lost null
      · intro h
        cases h with
        | lost _ => rfl
        | given other _ => exact absurd null other
    · next w other there =>
      cases there
      have other : (encode a : Written).readBack ≠ .null := other
      rw [Option.map_eq_some_iff]
      constructor
      · intro h
        obtain ⟨b, read, rfl⟩ := h
        exact .given other (rereads_iff.2 read)
      · intro h
        cases h with
        | lost null => exact absurd null other
        | given _ read => exact ⟨_, rereads_iff.1 read, rfl⟩

end Slots

theorem get?_writtenIfAny [Recorded α] (name : String) (a? : Option α) (key : String) :
    Entries.get? (writtenIfAny name a?) key = if name = key then a?.map encode else none := by
  cases a? with
  | none => exact (ite_self none).symm
  | some a => rfl

theorem keys_writtenIfAny [Recorded α] (name : String) (a? : Option α) :
    ((writtenIfAny name a?).map Prod.fst).Sublist [name] := by
  cases a? with
  | none => exact List.nil_sublist _
  | some a => exact List.Sublist.refl _

/-! ## §6. Fields of other names -/

section Unknown

variable {known : List String} {front : List (String × Written)} {extra extra' : Dict Json}

/-- Fields of other names do not hide a known one. -/
theorem get?_append_writtenEach (unknown : UnknownTo known extra) {name : String}
    (member : name ∈ known) :
    Entries.get? (front ++ writtenEach extra) name = Entries.get? front name := by
  have absent : extra.get? name = none :=
    Option.eq_none_iff_forall_ne_some.2 fun value found => (unknown name value found).1 member
  rw [Entries.get?_append, get?_writtenEach, absent, Option.map_none, Option.or_none]

/-- Fields of other names, after those that a record knows, are read as a dictionary is. -/
theorem unknownFields_readBack_iff (keys : (front.map Prod.fst).Sublist known)
    (unknown : UnknownTo known extra) :
    unknownFields known (Written.readBackFields (front ++ writtenEach extra)) = some extra'
      ↔ extra.Pointwise Rereads extra' := by
  have none :
      (Written.readBackFields front).filter (fun field => !known.contains field.1) = [] := by
    rw [Written.readBackFields_eq_map, List.filter_eq_nil_iff, List.forall_mem_map]
    intro field member
    simpa using keys.subset (List.mem_map_of_mem member)
  have all : (Written.readBackFields (writtenEach extra)).filter
      (fun field => !known.contains field.1) = Written.readBackFields (writtenEach extra) := by
    rw [Written.readBackFields_eq_map, List.filter_eq_self, List.forall_mem_map]
    intro field member
    obtain ⟨entry, inside, rfl⟩ := List.mem_map.1 member
    simpa using (unknown entry.1 entry.2 (Dict.mem_toList_iff.1 inside)).1
  have apart : Written.readBackFields (front ++ writtenEach extra)
      = Written.readBackFields front ++ Written.readBackFields (writtenEach extra) := by
    simp only [Written.readBackFields_eq_map, List.map_append]
  rw [unknownFields, apart, List.filter_append, none, all, List.nil_append, ← rereads_dict_iff,
    rereads_iff]
  exact Iff.rfl

end Unknown

end FuzzBundle
