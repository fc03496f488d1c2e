/-
  FuzzBundle.Proofs.NestedExpressions — the brackets of types and expressions are nested.

  There is one lemma per layout function, and each assumes of the inner printer what `NestedBelow`
  says. No shape of a tree is asked for: children may be missing, and a kind may stand in a place
  where it is not expected, as a type among expressions does.

  Main statements: `nested_typeNameLayout`, `nested_expressionLayout`.
-/
import FuzzBundle.Proofs.BracketFree
import FuzzBundle.Solidity.Expression

namespace FuzzBundle.Solidity

open Text

variable {inner : Inner} {n : Node}

/-! ## §1. Type names -/

theorem nested_elementaryType (h : NestedBelow inner n) : Nested (elementaryType n) := by
  unfold elementaryType
  split
  · exact nested_append h.name (by decide)
  · exact h.name

theorem subset_of_dropStart? {start cs rest : List Char} (h : dropStart? start cs = some rest) :
    rest ⊆ cs := by
  rw [dropStart?_eq_some_iff.1 h]
  exact List.subset_append_right start rest

theorem dropStartRepeatedly_subset (start : List Char) (fuel : Nat) (cs : List Char) :
    dropStartRepeatedly start fuel cs ⊆ cs := by
  induction fuel generalizing cs with
  | zero => exact List.Subset.refl cs
  | succ fuel ih =>
    rw [dropStartRepeatedly]
    split
    · next rest hr => exact List.Subset.trans (ih rest) (subset_of_dropStart? hr)
    · exact List.Subset.refl cs

theorem bracketFree_trimEndText {s : String} (h : BracketFree s) (ending : String) :
    BracketFree (trimEndText ending s) := by
  refine bracketFree_of_subset ?_ h
  unfold trimEndText
  intro c hc
  rw [String.toList_ofList, List.mem_reverse] at hc
  simpa using dropStartRepeatedly_subset _ _ _ hc

theorem bracketFree_dropStart {s : String} (h : BracketFree s) (start : String) :
    BracketFree (dropStart start s) := by
  unfold dropStart
  split
  · next rest hr =>
    refine bracketFree_of_subset ?_ h
    rw [String.toList_ofList]
    exact subset_of_dropStart? hr
  · exact h

theorem bracketFree_withoutCategory {description : String} (h : BracketFree description) :
    BracketFree (withoutCategory description) := by
  unfold withoutCategory
  refine bracketFree_trimEndText (bracketFree_trimEndText ?_ _) _
  split
  · exact bracketFree_dropStart h _
  · exact h

theorem nested_userDefinedType (h : NestedBelow inner n) : Nested (userDefinedType n) := by
  unfold userDefinedType
  split
  · next path hp => exact nested_of_bracketFree ((h.plain.child? hp).string "name")
  · split
    · exact h.name
    · split
      · next description hd =>
        obtain ⟨typeString, ht, hs⟩ := Option.bind_eq_some_iff.1 hd
        obtain ⟨types, hv, hf⟩ := Option.bind_eq_some_iff.1 ht
        obtain ⟨value, hn, present⟩ := Option.bind_eq_some_iff.1 hv
        have plain : types.BracketFree := by
          cases value <;> cases present <;> exact h.plain.field? hn
        exact nested_of_bracketFree (bracketFree_withoutCategory ((plain.field? hf).string? hs))
      · exact nested_empty

theorem nested_mappingSide (h : NestedBelow inner n) (typeKey nameKey : String) :
    Nested (mappingSide inner n typeKey nameKey) := by
  have type := h.child .anywhere typeKey
  unfold mappingSide
  split
  · next name hn =>
    split
    · exact type
    · exact nested_append (nested_append type (by decide)) (h.string? hn)
  · exact type

theorem nested_of_stateMutability? (h : NestedBelow inner n) {s : String}
    (hs : stateMutability? n = some s) : Nested s := by
  unfold stateMutability? at hs
  split at hs
  · cases hs
  · next hm =>
    cases hs
    exact h.string? hm
  · split at hs
    · cases hs
      decide
    · split at hs
      · cases hs
        decide
      · cases hs

/-- What a function returns, after its keyword. -/
theorem nested_of_returns (h : NestedBelow inner n) {key keyword s : String}
    (hk : Nested keyword) (hs : (parametersIfAny? inner n key).map (keyword ++ ·) = some s) :
    Nested s := by
  obtain ⟨parameters, hp, rfl⟩ := Option.map_eq_some_iff.1 hs
  exact nested_append hk (h.parametersIfAny? hp)

theorem nested_functionType (h : NestedBelow inner n) : Nested (functionType inner n) := by
  unfold functionType
  refine nested_words ?_
  simp only [List.forall_mem_append, List.forall_mem_singleton]
  refine ⟨⟨⟨?_, ?_⟩, ?_⟩, ?_⟩
  · exact nested_append (by decide) (h.parametersOrNone _)
  · exact nested_of_mem_ite (by simp) (nested_of_mem_unlessEmpty (h.string _))
  · exact nested_of_mem_toList fun _ => nested_of_stateMutability? h
  · exact nested_of_mem_toList fun _ => nested_of_returns h (by decide)

theorem nested_typeNameLayout (h : NestedBelow inner n) : Nested (typeNameLayout inner n) := by
  unfold typeNameLayout
  split
  · exact nested_elementaryType h
  · exact nested_userDefinedType h
  · exact h.name
  · exact h.name
  · simp [Nested, (h.child .anywhere "baseType").within, (h.child .expression "length").within]
  · simp [Nested, (nested_mappingSide h "keyType" "keyName").within,
      (nested_mappingSide h "valueType" "valueName").within]
  · exact nested_functionType h
  · exact nested_empty

/-! ## §2. Expressions -/

theorem nested_hexLiteral (h : NestedBelow inner n) : Nested (hexLiteral n) :=
  nested_append (nested_append (by decide) (h.string "hexValue")) (by decide)

theorem nested_literalLayout (h : NestedBelow inner n) : Nested (literalLayout n) := by
  have value := h.string "value"
  unfold literalLayout
  split
  · split
    · next unit hu => exact nested_append (nested_append value (by decide)) (h.string? hu)
    · exact value
  · cases hv : n.string? "value" with
    | none => decide
    | some s => exact h.string? hv
  · exact nested_hexLiteral h
  · exact nested_append (by decide) (nested_literal (h.plain.string "value"))
  · split
    · next text ht =>
      split
      · exact nested_literal (h.plain.string? ht)
      · exact nested_hexLiteral h
    · exact nested_hexLiteral h

theorem nested_arguments (h : NestedBelow inner n) (key : String) :
    Nested (arguments inner n key) :=
  nested_commaList (h.children .expression key)

theorem nested_namedArguments (h : NestedBelow inner n) (key : String) :
    Nested (namedArguments inner n key) := by
  have named : Nested (commaList (List.zipWith (fun value name => name ++ ": " ++ value)
      (inner.children .expression n key) (n.strings "names"))) := by
    refine nested_commaList fun t ht => ?_
    rw [← List.map_uncurry_zip_eq_zipWith] at ht
    obtain ⟨⟨value, name⟩, hz, rfl⟩ := List.mem_map.1 ht
    obtain ⟨hv, hn⟩ := List.of_mem_zip hz
    exact nested_append (nested_append (nested_of_bracketFree (h.plain.strings hn)) (by decide))
      (h.children .expression key value hv)
  simp [namedArguments, Nested, named.within]

theorem nested_callArguments (h : NestedBelow inner n) (key : String) :
    Nested (callArguments inner n key) := by
  unfold callArguments
  split
  · exact nested_arguments h key
  · exact nested_namedArguments h key

theorem nested_binaryLayout (h : NestedBelow inner n) (left right : String) :
    Nested (binaryLayout inner n left right) := by
  simp [binaryLayout, Nested, (h.child .expression left).within, (h.string "operator").within,
    (h.child .expression right).within]

theorem nested_unaryLayout (h : NestedBelow inner n) : Nested (unaryLayout inner n) := by
  have operator := h.string "operator"
  have operand := h.child .expression "subExpression"
  simp only [unaryLayout]
  split
  · exact nested_append operand operator
  · split
    · exact nested_append (by decide) operand
    · exact nested_append operator operand

theorem nested_tupleLayout (h : NestedBelow inner n) : Nested (tupleLayout inner n) := by
  have components := nested_commaList (h.holes .expression "components")
  simp only [tupleLayout]
  split <;> simp [Nested, components.within]

theorem nested_expressionLayout (h : NestedBelow inner n) :
    Nested (expressionLayout inner n) := by
  have sub := h.child .expression
  unfold expressionLayout
  split
  · exact h.name
  · exact nested_literalLayout h
  · exact nested_binaryLayout h _ _
  · exact nested_binaryLayout h _ _
  · exact nested_unaryLayout h
  · simp [Nested, (sub "condition").within, (sub "trueExpression").within,
      (sub "falseExpression").within]
  · simp [Nested, (sub "expression").within, (nested_callArguments h "arguments").within]
  · exact nested_append (sub "expression") (nested_namedArguments h "options")
  · exact nested_append (nested_append (sub "expression") (by decide)) (h.string "memberName")
  · simp [Nested, (sub "baseExpression").within, (sub "indexExpression").within]
  · simp [Nested, (sub "baseExpression").within, (sub "startExpression").within,
      (sub "endExpression").within]
  · exact nested_append (by decide) (h.child .typeName "typeName")
  · cases ht : inner.child? .typeName n "typeName" with
    | none => exact h.string "typeName"
    | some s => exact h.child? ht
  · exact nested_tupleLayout h
  iterate 6 exact nested_typeNameLayout h
  exact nested_empty

theorem nested_typeLayout (h : NestedBelow inner n) : Nested (typeLayout inner n) := by
  unfold typeLayout
  split
  · exact nested_typeNameLayout h
  · exact nested_expressionLayout h

end FuzzBundle.Solidity
