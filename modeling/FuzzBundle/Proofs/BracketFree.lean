/-
  FuzzBundle.Proofs.BracketFree — nodes without brackets in their texts.

  A tree is bracket-free when no text in it, at any depth, contains a bracket. All brackets of its
  printed source then come from the layout functions, and each of those writes them in pairs around
  the texts of inner nodes. What such a function relies on is `NestedBelow`: the texts of its node
  have no brackets, and the inner printer does right by the nodes below. Most layouts are made of
  the same few pieces, and those keep brackets nested.

  Main statements: `NestedBelow.child`, `nested_words`, `nested_braced`, `nested_literal`.
-/
import FuzzBundle.Proofs.Nesting
import FuzzBundle.Solidity.TypeName

namespace FuzzBundle

/-! ## §1. Values without brackets -/

namespace Json

mutual

/-- All texts in a value, at any depth, have a property. Keys are not among them. -/
def EveryText (p : String → Prop) : Json → Prop
  | .string s => p s
  | .array items => EveryTextOfItems p items
  | .object fields => EveryTextOfFields p fields
  | .null | .bool _ | .number _ => True

/-- All texts in a list of values have a property. -/
def EveryTextOfItems (p : String → Prop) : List Json → Prop
  | [] => True
  | item :: rest => EveryText p item ∧ EveryTextOfItems p rest

/-- All texts in the values of some fields have a property. -/
def EveryTextOfFields (p : String → Prop) : List (String × Json) → Prop
  | [] => True
  | (_, value) :: rest => EveryText p value ∧ EveryTextOfFields p rest

end

mutual

/-- Whether all texts in a value have a property. -/
def decideEveryText {p : String → Prop} [DecidablePred p] : (value : Json) →
    Decidable (EveryText p value)
  | .string s => (inferInstance : Decidable (p s))
  | .array items => decideEveryTextOfItems items
  | .object fields => decideEveryTextOfFields fields
  | .null | .bool _ | .number _ => isTrue trivial

/-- Whether all texts in a list of values have a property. -/
def decideEveryTextOfItems {p : String → Prop} [DecidablePred p] : (items : List Json) →
    Decidable (EveryTextOfItems p items)
  | [] => isTrue trivial
  | item :: rest =>
    have := decideEveryText (p := p) item
    have := decideEveryTextOfItems (p := p) rest
    (inferInstance : Decidable (EveryText p item ∧ EveryTextOfItems p rest))

/-- Whether all texts in the values of some fields have a property. -/
def decideEveryTextOfFields {p : String → Prop} [DecidablePred p] :
    (fields : List (String × Json)) → Decidable (EveryTextOfFields p fields)
  | [] => isTrue trivial
  | (_, value) :: rest =>
    have := decideEveryText (p := p) value
    have := decideEveryTextOfFields (p := p) rest
    (inferInstance : Decidable (EveryText p value ∧ EveryTextOfFields p rest))

end

instance {p : String → Prop} [DecidablePred p] (value : Json) : Decidable (value.EveryText p) :=
  decideEveryText value

variable {p : String → Prop}

theorem EveryText.of_mem {items : List Json} {item : Json}
    (h : EveryText p (.array items)) (hi : item ∈ items) : EveryText p item := by
  rw [EveryText] at h
  induction items with
  | nil => cases hi
  | cons first rest ih =>
    rw [EveryTextOfItems] at h
    rcases List.mem_cons.1 hi with rfl | hi
    · exact h.1
    · exact ih h.2 hi

theorem EveryText.of_get? {fields : List (String × Json)} {key : String} {value : Json}
    (h : EveryText p (.object fields)) (hv : Entries.get? fields key = some value) :
    EveryText p value := by
  rw [EveryText] at h
  induction fields with
  | nil => cases hv
  | cons first rest ih =>
    obtain ⟨k, v⟩ := first
    rw [EveryTextOfFields] at h
    rw [Entries.get?_cons] at hv
    split at hv
    · cases hv
      exact h.1
    · exact ih h.2 hv

/-- A value whose texts have no brackets. -/
abbrev BracketFree (value : Json) : Prop := value.EveryText Text.BracketFree

theorem BracketFree.field? {value inner : Json} {key : String} (h : value.BracketFree)
    (hv : value.field? key = some inner) : inner.BracketFree := by
  cases value <;> simp only [Json.field?, reduceCtorEq] at hv
  exact h.of_get? hv

theorem BracketFree.string? {value : Json} {s : String} (h : value.BracketFree)
    (hs : value.string? = some s) : Text.BracketFree s := by
  cases value <;> simp only [Json.string?, reduceCtorEq, Option.some.injEq] at hs
  subst hs
  rwa [BracketFree, EveryText] at h

theorem BracketFree.mem {value item : Json} {items : List Json} (h : value.BracketFree)
    (hs : value.items? = some items) (hi : item ∈ items) : item.BracketFree := by
  cases value <;> simp only [Json.items?, reduceCtorEq, Option.some.injEq] at hs
  subst hs
  exact h.of_mem hi

end Json

namespace Node

/-- A node whose texts have no brackets, at any depth. -/
def BracketFree (n : Node) : Prop := n.toJson.BracketFree

variable {n : Node}

theorem BracketFree.field? {value : Json} {key : String} (h : n.BracketFree)
    (hv : n.field? key = some value) : value.BracketFree := h.of_get? hv

theorem BracketFree.ofJson? {value : Json} (h : value.BracketFree)
    (hn : Node.ofJson? value = some n) : n.BracketFree := by
  rw [BracketFree, toJson_of_ofJson? hn]
  exact h

theorem BracketFree.string? {key s : String} (h : n.BracketFree) (hs : n.string? key = some s) :
    Text.BracketFree s := by
  obtain ⟨value, hv, hs⟩ := Option.bind_eq_some_iff.1 hs
  exact (h.field? hv).string? hs

theorem BracketFree.string (h : n.BracketFree) (key : String) :
    Text.BracketFree (n.string key) := by
  unfold Node.string
  cases hs : n.string? key with
  | none => exact fun _ hc => by cases hc
  | some s => exact h.string? hs

theorem BracketFree.child? {c : Node} {key : String} (h : n.BracketFree)
    (hc : n.child? key = some c) : c.BracketFree := by
  obtain ⟨value, hv, hc⟩ := Option.bind_eq_some_iff.1 hc
  exact .ofJson? (h.field? hv) hc

theorem BracketFree.items {item : Json} {key : String} (h : n.BracketFree)
    (hi : item ∈ n.items key) : item.BracketFree := by
  unfold Node.items at hi
  cases hv : (n.field? key).bind Json.items? with
  | none => simp [hv] at hi
  | some items =>
    obtain ⟨value, hf, hs⟩ := Option.bind_eq_some_iff.1 hv
    rw [hv] at hi
    exact (h.field? hf).mem hs hi

theorem BracketFree.children {c : Node} {key : String} (h : n.BracketFree)
    (hc : c ∈ n.children key) : c.BracketFree := by
  obtain ⟨item, hi, hc⟩ := List.mem_filterMap.1 hc
  exact .ofJson? (h.items hi) hc

theorem BracketFree.optionalChildren {c : Node} {key : String} (h : n.BracketFree)
    (hc : some c ∈ n.optionalChildren key) : c.BracketFree := by
  obtain ⟨item, hi, hc⟩ := List.mem_map.1 hc
  exact .ofJson? (h.items hi) hc

theorem BracketFree.strings {s key : String} (h : n.BracketFree) (hs : s ∈ n.strings key) :
    Text.BracketFree s := by
  obtain ⟨item, hi, hs⟩ := List.mem_filterMap.1 hs
  exact (h.items hi).string? hs

end Node

namespace Solidity

open Text

/-! ## §2. Around a node -/

/-- Nothing inside a node brings brackets that are not nested: its own texts have none, and the
nodes below it without brackets in their texts are printed with nested ones. -/
structure NestedBelow (inner : Inner) (n : Node) : Prop where
  plain : n.BracketFree
  below : ∀ place (c : Node), c.height < n.height → c.BracketFree → Nested (inner place c)

variable {inner : Inner} {n : Node}

namespace NestedBelow

theorem string? (h : NestedBelow inner n) {key s : String} (hs : n.string? key = some s) :
    Nested s := nested_of_bracketFree (h.plain.string? hs)

theorem string (h : NestedBelow inner n) (key : String) : Nested (n.string key) :=
  nested_of_bracketFree (h.plain.string key)

theorem name (h : NestedBelow inner n) : Nested n.name := h.string "name"

theorem child? (h : NestedBelow inner n) {place : Place} {key s : String}
    (hs : inner.child? place n key = some s) : Nested s := by
  obtain ⟨c, hc, rfl⟩ := Option.map_eq_some_iff.1 hs
  exact h.below place c (Node.height_lt_of_child? hc) (h.plain.child? hc)

theorem child (h : NestedBelow inner n) (place : Place) (key : String) :
    Nested (inner.child place n key) := by
  unfold Inner.child
  cases hs : inner.child? place n key with
  | none => exact nested_empty
  | some s => exact h.child? hs

theorem children (h : NestedBelow inner n) (place : Place) (key : String) :
    ∀ t ∈ inner.children place n key, Nested t := by
  intro t ht
  obtain ⟨c, hc, rfl⟩ := List.mem_map.1 ht
  exact h.below place c (Node.height_lt_of_mem_children hc) (h.plain.children hc)

theorem holes (h : NestedBelow inner n) (place : Place) (key : String) :
    ∀ t ∈ inner.holes place n key, Nested t := by
  intro t ht
  obtain ⟨item, hi, rfl⟩ := List.mem_map.1 ht
  cases item with
  | none => exact nested_empty
  | some c =>
    exact h.below place c (Node.height_lt_of_mem_optionalChildren hi) (h.plain.optionalChildren hi)

/-- What holds of a node holds of the nodes in its lists. -/
theorem descend (h : NestedBelow inner n) {c : Node} {key : String} (hc : c ∈ n.children key) :
    NestedBelow inner c where
  plain := h.plain.children hc
  below place d hd := h.below place d (Nat.lt_trans hd (Node.height_lt_of_mem_children hc))

theorem parametersIfAny? (h : NestedBelow inner n) {key s : String}
    (hs : Solidity.parametersIfAny? inner n key = some s) : Nested s := by
  unfold Solidity.parametersIfAny? at hs
  split at hs
  · split at hs
    · cases hs
    · exact h.child? hs
  · cases hs

theorem parametersOrNone (h : NestedBelow inner n) (key : String) :
    Nested (Solidity.parametersOrNone inner n key) := by
  unfold Solidity.parametersOrNone
  cases hs : inner.child? .parameterList n key with
  | none => decide
  | some s => exact h.child? hs

end NestedBelow

/-! ## §3. Pieces of layout -/

theorem nested_commaList {items : List String} (h : ∀ t ∈ items, Nested t) :
    Nested (commaList items) :=
  nested_intercalate (by decide) h

theorem nested_words {items : List String} (h : ∀ t ∈ items, Nested t) : Nested (words items) :=
  nested_intercalate (by decide) h

/-- A word that may be missing. -/
theorem nested_of_mem_toList {word? : Option String} (h : ∀ s, word? = some s → Nested s) :
    ∀ t ∈ word?.toList, Nested t := by
  intro t ht
  exact h t (by simpa using ht)

theorem nested_of_mem_unlessEmpty {s : String} (h : Nested s) : ∀ t ∈ unlessEmpty s, Nested t := by
  intro t ht
  unfold unlessEmpty at ht
  split at ht
  · cases ht
  · obtain rfl : t = s := by simpa using ht
    exact h

theorem nested_of_mem_ite {p : Prop} [Decidable p] {as bs : List String}
    (ha : ∀ t ∈ as, Nested t) (hb : ∀ t ∈ bs, Nested t) :
    ∀ t ∈ (if p then as else bs), Nested t := by
  split
  · exact ha
  · exact hb

/-- A word that depends on a flag. -/
theorem nested_of_mem_flagged {p : Prop} [Decidable p] {word : String} (h : Nested word) :
    ∀ t ∈ (if p then [word] else []), Nested t :=
  nested_of_mem_ite (by simpa using h) (by simp)

theorem nested_braced {body : String} (h : Nested body) : Nested (braced body) := by
  unfold braced
  split
  · decide
  · simp [Nested, (nested_indent h).within]

/-- No bracket comes from writing a character inside a literal. -/
theorem bracketFree_escapeChar {d : Char} (hd : isBracket d = false) :
    ∀ c ∈ Quoted.escapeChar d, isBracket c = false := by
  have digit {m : Nat} (hm : m < 16) : isBracket (Hex.digit m) = false := by
    have all : ∀ m : Fin 16, isBracket (Hex.digit m) = false := by decide
    exact all ⟨m, hm⟩
  intro c hc
  unfold Quoted.escapeChar at hc
  by_cases control : Quoted.isControl d = true
  · have small : d.toNat < 128 := by
      simp only [Quoted.isControl, Bool.or_eq_true, decide_eq_true_eq, beq_iff_eq] at control
      omega
    have high := digit (show d.toNat / 16 < 16 by omega)
    have low := digit (show d.toNat % 16 < 16 by omega)
    rw [if_pos control] at hc
    split_ifs at hc <;> simp only [List.mem_cons, List.not_mem_nil, or_false] at hc <;>
      rcases hc with rfl | rfl | rfl | rfl <;> first | decide | assumption
  · rw [if_neg control] at hc
    split_ifs at hc <;> simp only [List.mem_cons, List.not_mem_nil, or_false] at hc <;>
      rcases hc with rfl | rfl <;> first | decide | assumption

theorem nested_literal {s : String} (h : BracketFree s) : Nested (Quoted.literal s) := by
  refine nested_of_bracketFree (bracketFree_append (bracketFree_append (by decide) ?_) (by decide))
  intro c hc
  rw [Quoted.escape, String.toList_ofList, Quoted.escapeChars, List.mem_flatMap] at hc
  obtain ⟨d, hd, hc⟩ := hc
  exact bracketFree_escapeChar (h d hd) c hc

end Solidity

end FuzzBundle
