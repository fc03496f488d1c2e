/-
  FuzzBundle.Json.Record — records in documents.

  A type of records says how it is written as a document and how it is read back (`Recorded`).
  Reading is strict about what is known and open about what is not: fields of other names are
  skipped, but a known field that is repeated, missing without a default or of the wrong form
  refuses the record. A record may also be given by an array of its fields in order, where a tail
  of fields with defaults may be left out.

  `LawfulRecorded` says that reading what was written gives the record back. It is proved here for
  texts, truth values, numbers, values, lists and dictionaries.
-/
import FuzzBundle.Json.Reader
import FuzzBundle.Json.Printer

namespace FuzzBundle

/-- Values that can be written as documents and read back. -/
class Recorded (α : Type u) where
  encode : α → Written
  decode : Written → Option α

export Recorded (encode decode)

/-- Reading what was written gives the value back. -/
class LawfulRecorded (α : Type u) [Recorded α] : Prop where
  decode_encode : ∀ a : α, decode (encode a) = some a

/-! ## §1. Simple values -/

instance : Recorded String where
  encode := .string
  decode
    | .string s => some s
    | _ => none

instance : Recorded Bool where
  encode := .bool
  decode
    | .bool b => some b
    | _ => none

instance : Recorded Nat where
  encode n := .number (.natural n)
  decode
    | .number (.natural n) => some n
    | _ => none

instance : Recorded Json where
  encode := Json.written
  decode := Written.value?

instance : LawfulRecorded String := ⟨fun _ => rfl⟩
instance : LawfulRecorded Bool := ⟨fun _ => rfl⟩
instance : LawfulRecorded Nat := ⟨fun _ => rfl⟩

/-! ## §2. Lists and dictionaries -/

/-- Reads every item of a list. -/
def decodeItems [Recorded α] : List Written → Option (List α)
  | [] => some []
  | w :: rest =>
    match decode w, decodeItems rest with
    | some a, some as => some (a :: as)
    | _, _ => none

/-- Reads the value of every field of a list. -/
def decodeFields [Recorded α] : List (String × Written) → Option (List (String × α))
  | [] => some []
  | (key, w) :: rest =>
    match decode w, decodeFields rest with
    | some a, some as => some ((key, a) :: as)
    | _, _ => none

instance [Recorded α] : Recorded (List α) where
  encode items := .array (items.map encode)
  decode
    | .array items => decodeItems items
    | _ => none

/-- A dictionary is an object. Of a repeated key the last value stays, but all values must be in
order. -/
instance [Recorded α] : Recorded (Dict α) where
  encode d := .object (d.toList.map fun entry => (entry.1, encode entry.2))
  decode
    | .object fields => (decodeFields fields).map Dict.ofList
    | _ => none

theorem decodeItems_map_encode [Recorded α] [LawfulRecorded α] (items : List α) :
    decodeItems (items.map encode) = some items := by
  induction items with
  | nil => rfl
  | cons a rest ih => simp [decodeItems, LawfulRecorded.decode_encode, ih]

theorem decodeFields_map_encode [Recorded α] [LawfulRecorded α] (fields : List (String × α)) :
    decodeFields (fields.map fun entry => (entry.1, encode entry.2)) = some fields := by
  induction fields with
  | nil => rfl
  | cons entry rest ih => simp [decodeFields, LawfulRecorded.decode_encode, ih]

/-- Fields are read if the value of each of them is. -/
theorem isSome_decodeFields_iff [Recorded α] (fields : List (String × Written)) :
    (decodeFields fields : Option (List (String × α))).isSome = true
      ↔ ∀ field ∈ fields, (decode field.2 : Option α).isSome = true := by
  induction fields with
  | nil => exact iff_of_true rfl nofun
  | cons field rest ih =>
    obtain ⟨key, w⟩ := field
    rw [List.forall_mem_cons, ← ih, decodeFields]
    cases (decode w : Option α) <;>
      cases (decodeFields rest : Option (List (String × α))) <;> simp

instance [Recorded α] [LawfulRecorded α] : LawfulRecorded (List α) :=
  ⟨fun items => decodeItems_map_encode items⟩

/-! ## §3. Records -/

/-- The fields of a record, found by name or, in an array, by place. -/
structure Slots where
  given : List (String × Written)
  byPlace : Bool

/-- Whether no field of a known name is repeated. -/
def namedOnce (names : List String) (fields : List (String × Written)) : Bool :=
  names.all fun name => (fields.filter (·.1 == name)).length ≤ 1

/-- The fields of a record that has fields of these names, in this order. -/
def Written.slots? (names : List String) : Written → Option Slots
  | .object fields => if namedOnce names fields then some ⟨fields, false⟩ else none
  | .array items => if items.length ≤ names.length then some ⟨names.zip items, true⟩ else none
  | _ => none

namespace Slots

/-- What is given for a field. -/
def get? (s : Slots) (name : String) : Option Written := Entries.get? s.given name

/-- A field that must be given. -/
def required [Recorded α] (s : Slots) (name : String) : Option α := (s.get? name).bind decode

/-- A field that takes a default when it is not given. -/
def withDefault [Recorded α] (s : Slots) (name : String) (default : α) : Option α :=
  match s.get? name with
  | some w => decode w
  | none => some default

/-- A field that may be missing or null. -/
def optional [Recorded α] (s : Slots) (name : String) : Option (Option α) :=
  match s.get? name with
  | none | some .null => some none
  | some w => (decode w).map some

/-- A field that may be null, and may be missing only where fields have names. -/
def nullable [Recorded α] (s : Slots) (name : String) : Option (Option α) :=
  if s.byPlace ∧ (s.get? name).isNone then none else s.optional name

end Slots

/-- A field of a record that is written. -/
def written [Recorded α] (name : String) (a : α) : List (String × Written) := [(name, encode a)]

/-- A field of a record that is written only if there is a value. -/
def writtenIfAny [Recorded α] (name : String) : Option α → List (String × Written)
  | some a => [(name, encode a)]
  | none => []

/-- A field of a record that is written as null if there is no value. -/
def writtenOrNull [Recorded α] (name : String) : Option α → List (String × Written)
  | some a => [(name, encode a)]
  | none => [(name, .null)]

end FuzzBundle
