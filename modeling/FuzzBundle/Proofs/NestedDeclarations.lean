/-
  FuzzBundle.Proofs.NestedDeclarations — the brackets of declarations are nested.

  The constraint of a pragma is written token by token, an import quotes the name of a file, and a
  function that is attached to a type is a node inside an entry of a list, which is no node itself
  (`nested_of_entry`). Other declarations are words in a row, of which some may be missing. In
  documentation there is no bracket at all.

  Main statements: `nested_functionLayout`, `nested_usingLayout`, `bracketFree_documentationLayout`.
-/
import FuzzBundle.Proofs.NestedStatements
import FuzzBundle.Solidity.Declaration

namespace FuzzBundle.Solidity

open Text

variable {inner : Inner} {n : Node}

/-! ## §1. Declarations -/

theorem nested_pragmaLayout (h : n.BracketFree) : Nested (Pragma.layout n) := by
  have plain := fun s (hs : s ∈ n.strings "literals") => nested_of_bracketFree (h.strings hs)
  unfold Pragma.layout
  split
  · exact nested_empty
  · next name tokens hl =>
    have name_plain : Nested name := plain name (by rw [hl]; exact List.mem_cons_self)
    -- the constraint is written token by token
    have written (tokens : List String) (htokens : ∀ t ∈ tokens, Nested t) (s : Pragma.State)
        (hs : Nested s.written) : Nested (tokens.foldl Pragma.State.push s).written := by
      induction tokens generalizing s with
      | nil => exact hs
      | cons token tokens ih =>
        refine ih (fun t ht => htokens t (List.mem_cons_of_mem token ht)) _ ?_
        have ht := htokens token List.mem_cons_self
        unfold Pragma.State.push
        split
        · exact nested_append hs (by decide)
        · refine nested_append (nested_append hs ?_) ht
          split <;> decide
    have constraint : Nested (Pragma.constraint tokens) :=
      written tokens (fun t ht => plain t (by rw [hl]; exact List.mem_cons_of_mem name ht)) {}
        nested_empty
    simp only
    split
    · exact nested_append (nested_append (by decide) name_plain) (by decide)
    · simp [Nested, name_plain.within, constraint.within]

theorem bracketFree_of_importedSymbol? {symbol : Json} {s : String} (h : symbol.BracketFree)
    (hs : importedSymbol? symbol = some s) : BracketFree s := by
  obtain ⟨foreign, hf, rfl⟩ := Option.map_eq_some_iff.1 hs
  obtain ⟨value, hv, hf⟩ := Option.bind_eq_some_iff.1 hf
  have name : BracketFree foreign.name :=
    (Node.BracketFree.ofJson? (h.field? hv) hf).string "name"
  split
  · next localName hl =>
    split
    · exact name
    · obtain ⟨value, hv, hl⟩ := Option.bind_eq_some_iff.1 hl
      exact bracketFree_append (bracketFree_append name (by decide)) ((h.field? hv).string? hl)
  · exact name

theorem nested_importLayout (h : n.BracketFree) : Nested (importLayout n) := by
  have file : Nested (Quoted.literal
      (((n.string? "file").orElse fun _ => n.string? "absolutePath").getD "")) := by
    refine nested_literal ?_
    cases hf : n.string? "file" with
    | some s => exact h.string? hf
    | none =>
      cases ha : n.string? "absolutePath" with
      | some s => exact h.string? ha
      | none => exact fun _ hc => by cases hc
  have unitAlias : Nested (n.string "unitAlias") := nested_of_bracketFree (h.string "unitAlias")
  have symbols : Nested (commaList ((n.items "symbolAliases").filterMap importedSymbol?)) := by
    refine nested_commaList fun t ht => ?_
    obtain ⟨symbol, hs, ht⟩ := List.mem_filterMap.1 ht
    exact nested_of_bracketFree (bracketFree_of_importedSymbol? (h.items hs) ht)
  simp only [importLayout]
  generalize Quoted.literal _ = literal at file ⊢
  split
  · simp [Nested, file.within, unitAlias.within]
  · split
    · exact nested_append (nested_append (by decide) file) (by decide)
    · simp [Nested, symbols.within, file.within]

/-- A node in a field of an entry of a list is below the node that has the list. -/
theorem nested_of_entry (h : NestedBelow inner n) {key field : String} {entry : Json} {c : Node}
    (he : entry ∈ n.items key) (hc : (entry.field? field).bind Node.ofJson? = some c)
    (place : Place) : Nested (inner place c) := by
  obtain ⟨value, hv, hc⟩ := Option.bind_eq_some_iff.1 hc
  have lower : value.height < entry.height := by
    cases entry <;> simp only [Json.field?, reduceCtorEq] at hv
    exact Json.height_lt_of_get? hv
  have entry_lower := Node.height_lt_of_mem_items he
  refine h.below place c ?_ (.ofJson? ((h.plain.items he).field? hv) hc)
  rw [Node.height_of_ofJson? hc]
  omega

theorem nested_of_attachedFunction? (h : NestedBelow inner n) {key s : String} {entry : Json}
    (he : entry ∈ n.items key) (hs : attachedFunction? inner entry = some s) : Nested s := by
  unfold attachedFunction? at hs
  split at hs
  · next function hf =>
    cases hs
    exact nested_of_entry h he hf .typeName
  · split at hs
    · next definition operator hd ho =>
      cases hs
      obtain ⟨value, hv, ho⟩ := Option.bind_eq_some_iff.1 ho
      exact nested_append (nested_append (nested_of_entry h he hd .typeName) (by decide))
        (nested_of_bracketFree (((h.plain.items he).field? hv).string? ho))
    · cases hs

theorem nested_usingLayout (h : NestedBelow inner n) : Nested (usingLayout inner n) := by
  have functions :
      Nested (commaList ((n.items "functionList").filterMap (attachedFunction? inner))) := by
    refine nested_commaList fun t ht => ?_
    obtain ⟨entry, he, ht⟩ := List.mem_filterMap.1 ht
    exact nested_of_attachedFunction? h he ht
  have library : Nested ((inner.child? .typeName n "libraryName").getD
      ("\x7b " ++ commaList ((n.items "functionList").filterMap (attachedFunction? inner))
        ++ " \x7d")) := by
    cases hs : inner.child? .typeName n "libraryName" with
    | none => simp [Nested, functions.within]
    | some s => exact h.child? hs
  have target : Nested ((inner.child? .typeName n "typeName").getD "*") := by
    cases hs : inner.child? .typeName n "typeName" with
    | none => decide
    | some s => exact h.child? hs
  have scope : Nested (if n.flag "global" then " global" else "") := by split <;> decide
  simp [usingLayout, Nested, library.within, target.within, scope.within]

theorem nested_declaredType (h : NestedBelow inner n) : Nested (declaredType inner n) := by
  unfold declaredType
  cases hs : inner.child? .typeName n "typeName" with
  | none => decide
  | some s => exact h.child? hs

theorem nested_parameterLayout (h : NestedBelow inner n) : Nested (parameterLayout inner n) := by
  unfold parameterLayout
  refine nested_words ?_
  simp only [List.forall_mem_append, List.forall_mem_singleton]
  refine ⟨⟨⟨nested_declaredType h, ?_⟩, ?_⟩, ?_⟩
  · exact nested_of_mem_ite (by simp) (nested_of_mem_unlessEmpty (h.string _))
  · exact nested_of_mem_flagged (by decide)
  · exact nested_of_mem_unlessEmpty h.name

theorem nested_parameterListLayout (h : NestedBelow inner n) :
    Nested (parameterListLayout inner n) := by
  have parameters := nested_commaList (h.children .parameter "parameters")
  simp [parameterListLayout, Nested, parameters.within]

theorem nested_of_variableMutability? {s : String} (hs : variableMutability? n = some s) :
    Nested s := by
  unfold variableMutability? at hs
  split at hs
  · cases hs
    decide
  · cases hs
    decide
  · cases hs
  · split at hs <;> cases hs
    decide

theorem nested_withInitializer (h : NestedBelow inner n) {declaration : String}
    (hd : Nested declaration) : Nested (withInitializer inner n declaration) := by
  unfold withInitializer
  split
  · next value hv => simp [Nested, hd.within, (h.child? hv).within]
  · exact nested_append hd (by decide)

theorem nested_stateVariableLayout (h : NestedBelow inner n) :
    Nested (stateVariableLayout inner n) := by
  refine nested_withInitializer h (nested_words ?_)
  simp only [List.forall_mem_append, List.forall_mem_singleton]
  refine ⟨⟨⟨⟨nested_declaredType h, ?_⟩, ?_⟩, ?_⟩, h.name⟩
  · exact nested_of_mem_unlessEmpty (h.string _)
  · exact nested_of_mem_toList fun _ => nested_of_variableMutability?
  · exact nested_of_mem_toList fun _ => h.child?

theorem nested_freeVariableLayout (h : NestedBelow inner n) :
    Nested (freeVariableLayout inner n) := by
  refine nested_withInitializer h (nested_words ?_)
  simp only [List.forall_mem_append, List.forall_mem_singleton]
  exact ⟨⟨nested_declaredType h, nested_of_mem_toList fun _ => nested_of_variableMutability?⟩,
    h.name⟩

theorem nested_structLayout (h : NestedBelow inner n) : Nested (structLayout inner n) := by
  have members : ∀ t ∈ (inner.children .parameter n "members").map (· ++ ";"), Nested t := by
    intro t ht
    obtain ⟨member, hm, rfl⟩ := List.mem_map.1 ht
    exact nested_append (h.children .parameter "members" member hm) (by decide)
  exact nested_append (nested_append (nested_append (by decide) h.name) (by decide))
    (nested_braced (nested_joinLines members))

theorem nested_enumLayout (h : n.BracketFree) : Nested (enumLayout n) := by
  have name : Nested n.name := nested_of_bracketFree (h.string "name")
  have members : Nested (commaList ((n.children "members").map Node.name)) := by
    refine nested_commaList fun t ht => ?_
    obtain ⟨member, hm, rfl⟩ := List.mem_map.1 ht
    exact nested_of_bracketFree ((h.children hm).string "name")
  simp [enumLayout, Nested, name.within, members.within]

theorem nested_eventLayout (h : NestedBelow inner n) : Nested (eventLayout inner n) := by
  have scope : Nested (if n.flag "anonymous" then " anonymous" else "") := by split <;> decide
  simp [eventLayout, Nested, h.name.within, (h.parametersOrNone "parameters").within, scope.within]

theorem nested_invocationLayout (h : NestedBelow inner n) (nameKey : String) :
    Nested (invocationLayout inner n nameKey) := by
  have name := h.child .anywhere nameKey
  simp only [invocationLayout]
  split
  · simp [Nested, name.within, (nested_arguments h "arguments").within]
  · exact name

theorem nested_overrideLayout (h : NestedBelow inner n) : Nested (overrideLayout inner n) := by
  have overridden := nested_commaList (h.children .typeName "overrides")
  simp only [overrideLayout]
  split
  · decide
  · simp [Nested, overridden.within]

theorem nested_withBody (h : NestedBelow inner n) {header : String} (hh : Nested header) :
    Nested (withBody inner n header) := by
  unfold withBody
  split
  · next body hb => exact nested_append (nested_append hh (by decide)) (h.child? hb)
  · exact nested_append hh (by decide)

theorem nested_functionKeyword (h : NestedBelow inner n) : Nested (functionKeyword n) := by
  simp only [functionKeyword]
  split
  · exact h.string "kind"
  · split
    · decide
    · split
      · decide
      · exact nested_append (by decide) h.name

theorem nested_functionLayout (h : NestedBelow inner n) (constructorVisibility : Bool) :
    Nested (functionLayout constructorVisibility inner n) := by
  refine nested_withBody h (nested_words ?_)
  simp only [List.forall_mem_append, List.forall_mem_singleton]
  refine ⟨⟨⟨⟨⟨⟨?_, ?_⟩, ?_⟩, ?_⟩, ?_⟩, ?_⟩, ?_⟩
  · exact nested_append (nested_functionKeyword h) (h.parametersOrNone _)
  · exact nested_of_mem_ite (nested_of_mem_unlessEmpty (h.string _)) (by simp)
  · exact nested_of_mem_toList fun _ => nested_of_stateMutability? h
  · exact nested_of_mem_flagged (by decide)
  · exact nested_of_mem_toList fun _ => h.child?
  · exact h.children _ _
  · exact nested_of_mem_toList fun _ => nested_of_returns h (by decide)

theorem nested_modifierLayout (h : NestedBelow inner n) : Nested (modifierLayout inner n) := by
  refine nested_withBody h (nested_words ?_)
  simp only [List.forall_mem_append, List.forall_mem_singleton]
  refine ⟨⟨?_, nested_of_mem_flagged (by decide)⟩, nested_of_mem_toList fun _ => h.child?⟩
  exact nested_append (nested_append (by decide) h.name) (h.parametersOrNone _)

/-! ## §2. Documentation -/

/-- The lines of a text, each after the sign that begins a comment. -/
theorem bracketFree_commentLines {s start : String} (h : BracketFree s) (hs : BracketFree start) :
    BracketFree (joinLines ((lines s).map (start ++ ·))) := by
  refine bracketFree_joinLines fun t ht => ?_
  obtain ⟨line, hl, rfl⟩ := List.mem_map.1 ht
  obtain ⟨cs, hcs, rfl⟩ := List.mem_map.1 hl
  refine bracketFree_append hs (bracketFree_of_subset ?_ h)
  rw [String.toList_ofList]
  exact (mem_splitLines hcs).1

theorem bracketFree_documentationLayout (h : n.BracketFree) : BracketFree (documentationLayout n) :=
  bracketFree_commentLines (h.string "text") (by decide)

end FuzzBundle.Solidity
