/-
  FuzzBundle.Ast.Node — syntax nodes and how to look into them.

  A node is an object that says its type in the field `nodeType` (`Node.ofJson?`). Its other fields
  are read by name, and a field that is missing or has another form than asked for reads as absent:
  no shape of a tree is an error.

  `directChildren` are the nodes right below a node in source order, and `walk` visits a node and
  everything below it, parents first. The walk is bounded by the height of the node, which is always
  enough, since a child is lower than its parent (`height_lt_of_mem_directChildren`).
-/
import FuzzBundle.Ast.Kind
import FuzzBundle.Json.Basic
import FuzzBundle.Text.Natural

namespace FuzzBundle

/-- An object with a field `nodeType` that is a text. -/
structure Node where
  fields : List (String × Json)
  nodeType : String
  typed : Entries.get? fields "nodeType" = some (.string nodeType)
  deriving DecidableEq

namespace Node

/-! ## §1. Nodes and values -/

/-- The node that a value is, if it is one. -/
def ofJson? : Json → Option Node
  | .object fields =>
    match h : Entries.get? fields "nodeType" with
    | some (.string nodeType) => some ⟨fields, nodeType, h⟩
    | _ => none
  | _ => none

/-- The value of a node. -/
def toJson (n : Node) : Json := .object n.fields

/-- The kind of a node. -/
def kind (n : Node) : Kind := .ofName n.nodeType

/-- How deeply a node is nested. -/
def height (n : Node) : Nat := n.toJson.height

theorem toJson_of_ofJson? {value : Json} {n : Node} (h : ofJson? value = some n) :
    n.toJson = value := by
  unfold ofJson? at h
  split at h
  · split at h
    · cases h; rfl
    · simp at h
  · simp at h

theorem ofJson?_toJson (n : Node) : ofJson? n.toJson = some n := by
  unfold toJson ofJson?
  obtain ⟨fields, nodeType, typed⟩ := n
  simp only
  split
  · next t ht =>
    have : t = nodeType := by simpa using ht.symm.trans typed
    subst this
    rfl
  · next h => exact absurd typed (h nodeType)

/-! ## §2. Fields -/

/-- A field as it is. -/
def field? (n : Node) (key : String) : Option Json := Entries.get? n.fields key

/-- A field that is not null. -/
def value? (n : Node) (key : String) : Option Json := (n.field? key).bind Json.present?

/-- A field that is a text. -/
def string? (n : Node) (key : String) : Option String := (n.field? key).bind Json.string?

/-- A field that is a text, or else the empty text. -/
def string (n : Node) (key : String) : String := (n.string? key).getD ""

/-- A field that is true. -/
def flag (n : Node) (key : String) : Bool := ((n.field? key).bind Json.bool?).getD false

/-- The name of a node, empty when it has none. -/
def name (n : Node) : String := n.string "name"

/-- The identifier of a node, if it is an integer of 64 bits with sign. -/
def id? (n : Node) : Option Int :=
  match n.field? "id" with
  | some (.number (.natural i)) => if i < Nat.pow 2 63 then some i else none
  | some (.number (.negative i)) => some (-(i : Int))
  | _ => none

/-- The items of a field that is a list. -/
def items (n : Node) (key : String) : List Json := ((n.field? key).bind Json.items?).getD []

/-- A field that is a node. -/
def child? (n : Node) (key : String) : Option Node := (n.field? key).bind ofJson?

/-- A field is a node with a property. -/
def HasChild (n : Node) (key : String) (p : Node → Prop) : Prop := ∃ c, n.child? key = some c ∧ p c

/-- The nodes in a field that is a list. -/
def children (n : Node) (key : String) : List Node := (n.items key).filterMap ofJson?

/-- The items of a field that is a list, with a hole for each that is no node. -/
def optionalChildren (n : Node) (key : String) : List (Option Node) := (n.items key).map ofJson?

/-- The texts in a field that is a list. -/
def strings (n : Node) (key : String) : List String := (n.items key).filterMap Json.string?

/-- The members of a source unit or contract that are of one kind. -/
def membersOf (n : Node) (kind : Kind) : List Node :=
  (n.children "nodes").filter (fun member => member.kind == kind)

/-- The offset at which the source of a node starts: the number before the first colon of `src`. -/
def sourceOffset? (n : Node) : Option Nat :=
  (n.string? "src").bind fun src => Text.bounded? Text.word64 (src.toList.takeWhile (· ≠ ':'))

/-! ## §3. Children and the walk -/

/-- The nodes that a field holds: itself, or the items of a list. -/
def inField : Json → List Node
  | .array items => items.filterMap ofJson?
  | value => (ofJson? value).toList

/-- The place of a node among its siblings; a node without a readable offset comes last. -/
def sourceRank (n : Node) : Nat := n.sourceOffset?.getD (Text.word64 - 1)

/-- The nodes right below a node: by source offset, and where that is equal, by field and then by
place in a list. -/
def directChildren (n : Node) : List Node :=
  (n.fields.flatMap fun field => inField field.2).mergeSort
    (fun a b => a.sourceRank ≤ b.sourceRank)

/-- The visits to a node and all below it down to some depth, parents first. -/
def walkWithin : Nat → Node → List Node
  | 0, _ => []
  | depth + 1, n => n :: n.directChildren.flatMap (walkWithin depth)

/-- The visits to a node and all below it, parents first and siblings in source order. -/
def walk (n : Node) : List Node := walkWithin n.height n

/-! ## §4. Children are lower than their parent -/

theorem height_of_ofJson? {value : Json} {n : Node} (h : ofJson? value = some n) :
    n.height = value.height := by
  rw [height, toJson_of_ofJson? h]

theorem height_lt_of_field? {n : Node} {key : String} {value : Json}
    (h : n.field? key = some value) : value.height < n.height :=
  Json.height_lt_of_get? h

theorem height_lt_of_child? {n c : Node} {key : String} (h : n.child? key = some c) :
    c.height < n.height := by
  obtain ⟨value, hv, hc⟩ := Option.bind_eq_some_iff.1 h
  rw [height_of_ofJson? hc]
  exact height_lt_of_field? hv

theorem height_lt_of_mem_items {n : Node} {key : String} {item : Json} (h : item ∈ n.items key) :
    item.height < n.height := by
  unfold items at h
  cases hv : n.field? key with
  | none => simp [hv] at h
  | some value =>
    have hlt := height_lt_of_field? hv
    cases value <;> simp [hv, Json.items?] at h
    have := Json.height_lt_of_mem h
    omega

theorem height_lt_of_mem_children {n c : Node} {key : String} (h : c ∈ n.children key) :
    c.height < n.height := by
  obtain ⟨item, hi, hc⟩ := List.mem_filterMap.1 h
  rw [height_of_ofJson? hc]
  exact height_lt_of_mem_items hi

theorem height_lt_of_mem_optionalChildren {n c : Node} {key : String}
    (h : some c ∈ n.optionalChildren key) : c.height < n.height := by
  obtain ⟨item, hi, hc⟩ := List.mem_map.1 h
  rw [height_of_ofJson? hc]
  exact height_lt_of_mem_items hi

theorem height_le_of_mem_inField {value : Json} {c : Node} (h : c ∈ inField value) :
    c.height ≤ value.height := by
  unfold inField at h
  split at h
  · obtain ⟨item, hi, hc⟩ := List.mem_filterMap.1 h
    rw [height_of_ofJson? hc]
    have := Json.height_lt_of_mem hi
    omega
  · have hc : ofJson? value = some c := by simpa using h
    exact Nat.le_of_eq (height_of_ofJson? hc)

/-- A node right below another one is lower. -/
theorem height_lt_of_mem_directChildren {n c : Node} (h : c ∈ n.directChildren) :
    c.height < n.height := by
  rw [directChildren, List.mem_mergeSort, List.mem_flatMap] at h
  obtain ⟨⟨key, value⟩, hf, hc⟩ := h
  have hle := height_le_of_mem_inField hc
  have hlt := Json.height_le_of_mem_fields hf
  have heq : n.height = Json.heightFields n.fields + 1 := by rw [height, toJson, Json.height]
  simp only at hle
  omega

end Node

end FuzzBundle
