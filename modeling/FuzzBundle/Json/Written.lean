/-
  FuzzBundle.Json.Written — JSON documents as they are written.

  A `Written` document keeps what a `Json` value forgets: the order of the fields of an object and
  keys that are repeated. Records are read from it, because they refuse a repeated field, and
  records are written to it, because they put their fields in an order of their own.

  `Written.value?` is the value a document denotes. It fails only on `invalid`: a string with an
  unpaired surrogate or a number beyond all doubles has the form of JSON and may stand where it is
  skipped, but it denotes nothing.
-/
import FuzzBundle.Json.Basic

namespace FuzzBundle

/-- A JSON document as it is written. -/
inductive Written where
  | null
  | bool (b : Bool)
  | number (n : Json.Number)
  | string (s : String)
  | array (items : List Written)
  | object (fields : List (String × Written))
  | invalid
  deriving Repr, Inhabited

namespace Written

mutual

/-- The value that a document denotes: fields in ascending key order, of repeated keys the last. -/
def value? : Written → Option Json
  | .null => some .null
  | .bool b => some (.bool b)
  | .number n => some (.number n)
  | .string s => some (.string s)
  | .array items => (values? items).map .array
  | .object fields => (fieldValues? fields).map Json.ofFields
  | .invalid => none

/-- The values of a list of documents. -/
def values? : List Written → Option (List Json)
  | [] => some []
  | item :: rest =>
    match value? item, values? rest with
    | some v, some vs => some (v :: vs)
    | _, _ => none

/-- The values of a list of fields. -/
def fieldValues? : List (String × Written) → Option (List (String × Json))
  | [] => some []
  | (key, value) :: rest =>
    match value? value, fieldValues? rest with
    | some v, some vs => some ((key, v) :: vs)
    | _, _ => none

end

end Written

namespace Json

mutual

/-- The document that lists the fields of every object in the order of the value. -/
def written : Json → Written
  | .null => .null
  | .bool b => .bool b
  | .number n => .number n
  | .string s => .string s
  | .array items => .array (writtenItems items)
  | .object fields => .object (writtenFields fields)

/-- The documents of a list of values. -/
def writtenItems : List Json → List Written
  | [] => []
  | item :: rest => written item :: writtenItems rest

/-- The documents of a list of fields. -/
def writtenFields : List (String × Json) → List (String × Written)
  | [] => []
  | (key, value) :: rest => (key, written value) :: writtenFields rest

end

end Json

end FuzzBundle
