/-
  FuzzBundle.Proofs.NestedStatements — the brackets of statements are nested.

  Assembly has a printer of its own, which is nested by induction on the height of the node
  (`nested_print`). Every other statement is laid out around the statements and expressions in it,
  and the catch clauses of a call are nodes that the statement lays out by itself.

  Main statements: `nested_print`, `nested_statementLayout`.
-/
import FuzzBundle.Proofs.NestedExpressions
import FuzzBundle.Solidity.Statement

namespace FuzzBundle.Solidity

open Text

variable {inner : Inner} {n : Node}

/-! ## §1. Assembly -/

theorem nested_assemblyLiteral (h : n.BracketFree) : Nested (Assembly.literalLayout n) := by
  unfold Assembly.literalLayout
  split
  · next value _ hv => exact nested_literal (h.string? hv)
  · exact nested_append (nested_append (by decide) (nested_of_bracketFree (h.string "hexValue")))
      (by decide)
  · next value hv _ => exact nested_of_bracketFree (h.string? hv)
  · exact nested_of_bracketFree (h.string "hexValue")

theorem nested_typedName (h : n.BracketFree) : Nested (Assembly.typedName n) := by
  have name : Nested n.name := nested_of_bracketFree (h.string "name")
  simp only [Assembly.typedName]
  split
  · exact name
  · exact nested_append (nested_append name (by decide)) (nested_of_bracketFree (h.string "type"))

/-- One node of assembly, around the nodes inside. -/
theorem nested_assemblyLayout {inner : Node → String} (h : n.BracketFree)
    (below : ∀ c : Node, c.height < n.height → c.BracketFree → Nested (inner c)) :
    Nested (Assembly.layout inner n) := by
  have sub (key : String) : Nested (((n.child? key).map inner).getD "") := by
    cases hc : n.child? key with
    | none => exact nested_empty
    | some c => exact below c (Node.height_lt_of_child? hc) (h.child? hc)
  have subs (key : String) : ∀ t ∈ (n.children key).map inner, Nested t := by
    intro t ht
    obtain ⟨c, hc, rfl⟩ := List.mem_map.1 ht
    exact below c (Node.height_lt_of_mem_children hc) (h.children hc)
  have list (key : String) : Nested (commaList ((n.children key).map inner)) :=
    nested_commaList (subs key)
  have name : Nested n.name := nested_of_bracketFree (h.string "name")
  unfold Assembly.layout
  split
  · exact nested_braced (nested_joinLines (subs "statements"))
  · split
    · simp [Nested, (list "variables").within, (sub "value").within]
    · exact nested_append (by decide) (list "variables")
  · simp [Nested, (list "variableNames").within, (sub "value").within]
  · exact sub "expression"
  · simp [Nested, (sub "functionName").within, (list "arguments").within]
  · exact name
  · exact nested_typedName h
  · exact nested_assemblyLiteral h
  · simp [Nested, (sub "condition").within, (sub "body").within]
  · refine nested_joinLines fun t ht => ?_
    rcases List.mem_cons.1 ht with rfl | ht
    · exact nested_append (by decide) (sub "expression")
    · exact subs "cases" t ht
  · split
    · exact nested_append (by decide) (sub "body")
    · simp [Nested, (sub "value").within, (sub "body").within]
  · simp [Nested, (sub "pre").within, (sub "condition").within, (sub "post").within,
      (sub "body").within]
  · simp only
    split <;> simp [Nested, name.within, (list "parameters").within,
      (list "returnVariables").within, (sub "body").within]
  · decide
  · decide
  · decide
  · exact nested_empty

/-- **Printed assembly is nested**, by induction on the height of the node. -/
theorem nested_print {n : Node} (h : n.BracketFree) : Nested (Assembly.print n) := by
  have upTo (height : Nat) : ∀ n : Node, n.height ≤ height → n.BracketFree →
      Nested (Assembly.print n) := by
    induction height with
    | zero =>
      intro n hn
      have := Assembly.height_pos n
      omega
    | succ height ih =>
      intro n hn h
      rw [Assembly.print_eq]
      exact nested_assemblyLayout h fun c hc => ih c (by omega)
  exact upTo n.height n (Nat.le_refl _) h

/-! ## §2. Statements -/

theorem nested_bodyLayout (h : NestedBelow inner n) (key : String) :
    Nested (bodyLayout inner n key) := by
  unfold bodyLayout
  cases hs : inner.child? .statement n key with
  | none => decide
  | some s => exact h.child? hs

theorem nested_blockLayout (h : NestedBelow inner n) : Nested (blockLayout inner n) :=
  nested_braced (nested_joinLines (h.children .statement "statements"))

theorem nested_variableStatement (h : NestedBelow inner n) :
    Nested (variableStatement inner n) := by
  have names := h.holes .parameter "declarations"
  have list : Nested ("(" ++ commaList (inner.holes .parameter n "declarations") ++ ")") := by
    simp [Nested, (nested_commaList names).within]
  have single {name : String} (hs : inner.holes .parameter n "declarations" = [name]) :
      Nested name :=
    names name (by rw [hs]; exact List.mem_singleton_self name)
  cases hv : inner.child? .expression n "initialValue" with
  | none =>
    simp only [variableStatement, hv]
    split
    · next hs => exact nested_append (single hs) (by decide)
    · exact nested_append list (by decide)
  | some value =>
    simp only [variableStatement, hv]
    have assigned {declared : String} (hd : Nested declared) :
        Nested (declared ++ " = " ++ value ++ ";") :=
      nested_append (nested_append (nested_append hd (by decide)) (h.child? hv)) (by decide)
    split
    · next hs => exact assigned (single hs)
    · exact assigned list

theorem nested_ifLayout (h : NestedBelow inner n) : Nested (ifLayout inner n) := by
  have otherwise :
      Nested (((inner.child? .statement n "falseBody").map (" else " ++ ·)).getD "") := by
    cases hs : inner.child? .statement n "falseBody" with
    | none => exact nested_empty
    | some s => exact nested_append (by decide) (h.child? hs)
  simp [ifLayout, Nested, (h.child .expression "condition").within,
    (nested_bodyLayout h "trueBody").within, otherwise.within]

theorem nested_forLayout (h : NestedBelow inner n) : Nested (forLayout inner n) := by
  have clause (key : String) : Nested (trimEndChar ';' (inner.child .statement n key)) :=
    nested_trimEndChar (by decide) (h.child .statement key)
  simp [forLayout, Nested, (clause "initializationExpression").within,
    (h.child .expression "condition").within, (clause "loopExpression").within,
    (nested_bodyLayout h "body").within]

theorem nested_successClause (h : NestedBelow inner n) : Nested (successClause inner n) := by
  have returns :
      Nested (((parametersIfAny? inner n "parameters").map (" returns " ++ ·)).getD "") := by
    cases hs : parametersIfAny? inner n "parameters" with
    | none => exact nested_empty
    | some s => exact nested_append (by decide) (h.parametersIfAny? hs)
  exact nested_append (nested_append returns (by decide)) (nested_bodyLayout h "block")

theorem nested_catchClause (h : NestedBelow inner n) : Nested (catchClause inner n) := by
  have parameters : Nested (((parametersIfAny? inner n "parameters").map (· ++ " ")).getD "") := by
    cases hs : parametersIfAny? inner n "parameters" with
    | none => exact nested_empty
    | some s => exact nested_append (h.parametersIfAny? hs) (by decide)
  simp [catchClause, Nested, (h.string "errorName").within, parameters.within,
    (nested_bodyLayout h "block").within]

theorem nested_clausesLayout {clauses : List Node} (h : ∀ c ∈ clauses, NestedBelow inner c) :
    Nested (clausesLayout inner clauses) := by
  cases clauses with
  | nil => exact nested_empty
  | cons first rest =>
    refine nested_append (nested_successClause (h first List.mem_cons_self)) (nested_join ?_)
    intro t ht
    obtain ⟨c, hc, rfl⟩ := List.mem_map.1 ht
    exact nested_catchClause (h c (List.mem_cons_of_mem first hc))

theorem nested_inlineAssembly (h : NestedBelow inner n) : Nested (assemblyLayout n) := by
  have flags : Nested (commaList ((n.strings "flags").map Quoted.literal)) := by
    refine nested_commaList fun t ht => ?_
    obtain ⟨flag, hf, rfl⟩ := List.mem_map.1 ht
    exact nested_literal (h.plain.strings hf)
  have start : Nested (if ((n.strings "flags").map Quoted.literal).isEmpty then "assembly"
      else "assembly (" ++ commaList ((n.strings "flags").map Quoted.literal) ++ ")") := by
    split
    · decide
    · simp [Nested, flags.within]
  have operations : Nested ((n.string? "operations").getD "\x7b\x7d") := by
    cases hs : n.string? "operations" with
    | none => decide
    | some s => exact h.string? hs
  simp only [assemblyLayout]
  split
  · next body hb =>
    exact nested_append (nested_append start (by decide)) (nested_print (h.plain.child? hb))
  · exact nested_append (nested_append start (by decide)) (nested_trim operations)

theorem nested_statementLayout (h : NestedBelow inner n) : Nested (statementLayout inner n) := by
  have sub := h.child .expression
  unfold statementLayout
  split
  · exact nested_blockLayout h
  · exact nested_append (by decide) (nested_blockLayout h)
  · exact nested_append (sub "expression") (by decide)
  · exact nested_variableStatement h
  · exact nested_ifLayout h
  · exact nested_forLayout h
  · simp [Nested, (sub "condition").within, (nested_bodyLayout h "body").within]
  · simp [Nested, (sub "condition").within, (nested_bodyLayout h "body").within]
  · split
    · next value hv => exact nested_append (nested_append (by decide) (h.child? hv)) (by decide)
    · decide
  · exact nested_append (nested_append (by decide) (sub "eventCall")) (by decide)
  · exact nested_append (nested_append (by decide) (sub "errorCall")) (by decide)
  · exact nested_append (nested_append (by decide) (sub "externalCall"))
      (nested_clausesLayout fun c hc => h.descend hc)
  iterate 4 decide
  · exact nested_inlineAssembly h
  · exact nested_append (nested_expressionLayout h) (by decide)

end FuzzBundle.Solidity
