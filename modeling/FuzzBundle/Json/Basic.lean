/-
  FuzzBundle.Json.Basic — JSON values.

  A `Json` value is what a document means: the fields of an object stand in ascending key order and
  no key occurs twice (`Json.Canonical`), so equal values are equal terms. The text of a document,
  with its field order and repeated keys, is the business of `FuzzBundle.Json.Written`.

  `Json.height` bounds every recursion over a tree of values: a value inside another one is strictly
  lower (`height_lt_of_mem`, `height_lt_of_get?`).
-/
import FuzzBundle.Dict
import FuzzBundle.Number.Binary64

namespace FuzzBundle

/-- A number of a document: an integer of 64 bits with or without sign, or else a double. -/
inductive Json.Number where
  | natural (n : Nat)
  | negative (magnitude : Nat)
  | real (x : Binary64)
  deriving DecidableEq, Repr, Inhabited

/-- A JSON value. -/
inductive Json where
  | null
  | bool (b : Bool)
  | number (n : Json.Number)
  | string (s : String)
  | array (items : List Json)
  | object (fields : List (String × Json))
  deriving Repr, Inhabited

namespace Json

/-! ## §1. Equality is decidable -/

mutual

/-- Decides the equality of two values. -/
def decEq : (a b : Json) → Decidable (a = b)
  | .null, b => by
    cases b
    case null => exact isTrue rfl
    all_goals exact isFalse nofun
  | .bool x, b => by
    cases b
    case bool y => exact decidable_of_iff (x = y) (by simp)
    all_goals exact isFalse nofun
  | .number x, b => by
    cases b
    case number y => exact decidable_of_iff (x = y) (by simp)
    all_goals exact isFalse nofun
  | .string x, b => by
    cases b
    case string y => exact decidable_of_iff (x = y) (by simp)
    all_goals exact isFalse nofun
  | .array xs, .array ys =>
    match decEqItems xs ys with
    | isTrue h => isTrue (by rw [h])
    | isFalse h => isFalse (by simpa using h)
  | .object xs, .object ys =>
    match decEqFields xs ys with
    | isTrue h => isTrue (by rw [h])
    | isFalse h => isFalse (by simpa using h)
  | .array _, .null | .array _, .bool _ | .array _, .number _ | .array _, .string _
  | .array _, .object _ | .object _, .null | .object _, .bool _ | .object _, .number _
  | .object _, .string _ | .object _, .array _ => isFalse nofun

/-- Decides the equality of two lists of values. -/
def decEqItems : (xs ys : List Json) → Decidable (xs = ys)
  | [], [] => isTrue rfl
  | x :: xs, y :: ys =>
    match decEq x y, decEqItems xs ys with
    | isTrue h, isTrue hs => isTrue (by rw [h, hs])
    | isFalse h, _ => isFalse (by simp [h])
    | _, isFalse hs => isFalse (by simp [hs])
  | [], _ :: _ | _ :: _, [] => isFalse nofun

/-- Decides the equality of two lists of fields. -/
def decEqFields : (xs ys : List (String × Json)) → Decidable (xs = ys)
  | [], [] => isTrue rfl
  | (k, x) :: xs, (l, y) :: ys =>
    match (inferInstance : Decidable (k = l)), decEq x y, decEqFields xs ys with
    | isTrue hk, isTrue h, isTrue hs => isTrue (by rw [hk, h, hs])
    | isFalse hk, _, _ => isFalse (by simp [hk])
    | _, isFalse h, _ => isFalse (by simp [h])
    | _, _, isFalse hs => isFalse (by simp [hs])
  | [], _ :: _ | _ :: _, [] => isFalse nofun

end

instance : DecidableEq Json := decEq

/-! ## §2. Looking into a value -/

/-- The text of a string value. -/
def string? : Json → Option String
  | .string s => some s
  | _ => none

theorem string?_eq_some_iff {value : Json} {s : String} :
    value.string? = some s ↔ value = .string s := by
  cases value <;> simp [Json.string?]

/-- The truth value of a boolean. -/
def bool? : Json → Option Bool
  | .bool b => some b
  | _ => none

/-- The items of an array. -/
def items? : Json → Option (List Json)
  | .array items => some items
  | _ => none

/-- The field of an object with this key. -/
def field? (value : Json) (key : String) : Option Json :=
  match value with
  | .object fields => Entries.get? fields key
  | _ => none

/-- The value, unless it is null. -/
def present? : Json → Option Json
  | .null => none
  | value => some value

/-! ## §3. Height -/

mutual

/-- How deeply values are nested, counting this one. -/
def height : Json → Nat
  | .array items => heightItems items + 1
  | .object fields => heightFields fields + 1
  | .null | .bool _ | .number _ | .string _ => 1

/-- The greatest height in a list of values. -/
def heightItems : List Json → Nat
  | [] => 0
  | item :: rest => max (height item) (heightItems rest)

/-- The greatest height in a list of fields. -/
def heightFields : List (String × Json) → Nat
  | [] => 0
  | (_, value) :: rest => max (height value) (heightFields rest)

end

theorem height_le_of_mem_items {items : List Json} {item : Json} (h : item ∈ items) :
    item.height ≤ heightItems items := by
  induction items with
  | nil => simp at h
  | cons first rest ih =>
    rw [heightItems]
    rcases List.mem_cons.1 h with h | h
    · subst h; omega
    · have := ih h; omega

theorem height_le_of_mem_fields {fields : List (String × Json)} {key : String} {value : Json}
    (h : (key, value) ∈ fields) : value.height ≤ heightFields fields := by
  induction fields with
  | nil => simp at h
  | cons first rest ih =>
    obtain ⟨k, v⟩ := first
    rw [heightFields]
    rcases List.mem_cons.1 h with h | h
    · cases h; omega
    · have := ih h; omega

/-- The items of an array are lower than the array. -/
theorem height_lt_of_mem {items : List Json} {item : Json} (h : item ∈ items) :
    item.height < (Json.array items).height := by
  have := height_le_of_mem_items h
  rw [show (Json.array items).height = heightItems items + 1 by rw [height]]
  omega

/-- The fields of an object are lower than the object. -/
theorem height_lt_of_get? {fields : List (String × Json)} {key : String} {value : Json}
    (h : Entries.get? fields key = some value) : value.height < (Json.object fields).height := by
  have := height_le_of_mem_fields (Entries.mem_of_get? h)
  rw [show (Json.object fields).height = heightFields fields + 1 by rw [height]]
  omega

/-! ## §4. Canonical values -/

mutual

/-- Every object inside lists its keys in strictly ascending order. -/
def Canonical : Json → Prop
  | .array items => CanonicalItems items
  | .object fields => Entries.Ascending fields ∧ CanonicalFields fields
  | .null | .bool _ | .number _ | .string _ => True

/-- All values of a list are canonical. -/
def CanonicalItems : List Json → Prop
  | [] => True
  | item :: rest => Canonical item ∧ CanonicalItems rest

/-- The values of all fields are canonical. -/
def CanonicalFields : List (String × Json) → Prop
  | [] => True
  | (_, value) :: rest => Canonical value ∧ CanonicalFields rest

end

theorem canonicalItems_iff {items : List Json} :
    CanonicalItems items ↔ ∀ item ∈ items, item.Canonical := by
  induction items with
  | nil => exact iff_of_true trivial nofun
  | cons item rest ih => rw [CanonicalItems, ih, List.forall_mem_cons]

theorem canonicalFields_iff {fields : List (String × Json)} :
    CanonicalFields fields ↔ ∀ field ∈ fields, field.2.Canonical := by
  induction fields with
  | nil => exact iff_of_true trivial nofun
  | cons field rest ih => rw [CanonicalFields, ih, List.forall_mem_cons]

/-- The object of a list of fields; of equal keys the last one stays. -/
def ofFields (fields : List (String × Json)) : Json := .object (Entries.ofList fields)

end Json

end FuzzBundle
