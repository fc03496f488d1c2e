/-
  FuzzBundle.Proofs.NestedSource — the brackets of printed source are nested.

  A node is printed with nested brackets when the nodes below it are (`nested_layout`), and so the
  printer is right by induction on the height of the node, at every place. A unit that was taken
  apart is put together from such texts, with brackets around the members of a contract, which come
  in pairs as well.

  Main statements: `Writer.nested_print`, `printed_nested`.
-/
import FuzzBundle.Proofs.NestedDeclarations
import FuzzBundle.Proofs.ProjectedFiles
import FuzzBundle.Projection.Render

namespace FuzzBundle

namespace Solidity

open Text

variable {inner : Inner} {n : Node}

/-! ## §1. Any node -/

theorem nested_anyLayout (h : NestedBelow inner n) (constructorVisibility : Bool) :
    Nested (anyLayout constructorVisibility inner n) := by
  unfold anyLayout
  split
  · exact nested_pragmaLayout h.plain
  · exact nested_importLayout h.plain
  · exact nested_usingLayout h
  · exact nested_structLayout h
  · exact nested_enumLayout h.plain
  · exact h.name
  · simp [Nested, h.name.within, (h.child .anywhere "underlyingType").within]
  · simp [Nested, h.name.within, (h.parametersOrNone "parameters").within]
  · exact nested_eventLayout h
  · exact nested_functionLayout h constructorVisibility
  · exact nested_modifierLayout h
  · exact nested_invocationLayout h "modifierName"
  · exact nested_overrideLayout h
  · exact nested_invocationLayout h "baseName"
  · split
    · exact nested_stateVariableLayout h
    · exact nested_parameterLayout h
  · exact nested_parameterListLayout h
  · exact nested_of_bracketFree (bracketFree_documentationLayout h.plain)
  · split
    · exact nested_typeLayout h
    · split
      · exact nested_statementLayout h
      · split
        · exact nested_print h.plain
        · exact nested_expressionLayout h

/-- **One step**: a node is printed with nested brackets when the nodes below it are. -/
theorem nested_layout (h : NestedBelow inner n) (constructorVisibility : Bool) (place : Place) :
    Nested (layout constructorVisibility inner place n) := by
  cases place with
  | anywhere => exact nested_anyLayout h constructorVisibility
  | statement => exact nested_statementLayout h
  | expression => exact nested_expressionLayout h
  | typeName => exact nested_typeLayout h
  | parameter => exact nested_parameterLayout h
  | parameterList => exact nested_parameterListLayout h
  | overrides => exact nested_overrideLayout h
  | modifierCall => exact nested_invocationLayout h "modifierName"

end Solidity

/-! ## §2. The writer -/

namespace Writer

open Text Solidity

/-- **A node is printed with nested brackets at every place**, by induction on its height. -/
theorem nested_print (w : Writer) {n : Node} (h : n.BracketFree) (place : Place) :
    Nested (w.print place n) := by
  have upTo (height : Nat) : ∀ place (n : Node), n.height ≤ height → n.BracketFree →
      Nested (w.print place n) := by
    induction height with
    | zero =>
      intro place n hn
      have := Assembly.height_pos n
      omega
    | succ height ih =>
      intro place n hn h
      rw [Writer.print_eq]
      exact nested_layout ⟨h, fun place c hc => ih place c (by omega)⟩ _ place
  exact upTo n.height place n (Nat.le_refl _) h

theorem nestedBelow_print (w : Writer) {n : Node} (h : n.BracketFree) : NestedBelow w.print n :=
  ⟨h, fun place _ _ hc => w.nested_print hc place⟩

theorem nested_stateVariable (w : Writer) {n : Node} (h : n.BracketFree) :
    Nested (w.stateVariable n) :=
  nested_stateVariableLayout (w.nestedBelow_print h)

theorem nested_freeVariable (w : Writer) {n : Node} (h : n.BracketFree) :
    Nested (w.freeVariable n) :=
  nested_freeVariableLayout (w.nestedBelow_print h)

theorem nested_inheritance (w : Writer) {n : Node} (h : n.BracketFree) :
    Nested (w.inheritance n) :=
  nested_invocationLayout (w.nestedBelow_print h) "baseName"

end Writer

/-! ## §3. Projections -/

namespace Projection

open Text Solidity

variable {n : Node}

theorem nested_headerText (w : Writer) (h : n.BracketFree) : Nested (headerText w n) := by
  unfold headerText
  split
  · exact w.nested_freeVariable h
  · exact w.nested_print h .anywhere

theorem nested_joinPresent {texts : List String} (h : ∀ t ∈ texts, Nested t) :
    Nested (joinPresent texts) :=
  nested_joinLines fun t ht => h t (List.mem_filter.1 ht).1

theorem bracketFree_of_mem_membersOf {member : Node} {kind : Kind} (h : n.BracketFree)
    (hm : member ∈ n.membersOf kind) : member.BracketFree :=
  h.children (List.mem_filter.1 hm).1

theorem nested_headerOf (w : Writer) (h : n.BracketFree) (kinds : List Kind) :
    Nested (headerOf w n kinds) := by
  refine nested_joinPresent fun t ht => ?_
  obtain ⟨kind, _, rfl⟩ := List.mem_map.1 ht
  refine nested_joinPresent fun u hu => ?_
  obtain ⟨member, hm, rfl⟩ := List.mem_map.1 hu
  exact nested_headerText w (bracketFree_of_mem_membersOf h hm)

theorem bracketFree_docsOf (h : n.BracketFree) : BracketFree (docsOf n) := by
  have plain {value : Json} (hv : n.value? "documentation" = some value) : value.BracketFree := by
    obtain ⟨given, hg, present⟩ := Option.bind_eq_some_iff.1 hv
    cases given <;> cases present <;> exact h.field? hg
  unfold docsOf documentation
  split
  · next text ht => exact (plain ht).string? rfl
  · next value _ hv =>
    cases hd : Node.ofJson? value with
    | none => exact fun _ hc => by cases hc
    | some d => exact bracketFree_documentationLayout (.ofJson? (plain hv) hd)
  · exact fun _ hc => by cases hc

theorem nested_withDocs {docs text : String} (hd : BracketFree docs) (ht : Nested text) :
    Nested (withDocs docs text) := by
  have comment : Nested (commented docs) := by
    unfold commented
    split
    · exact nested_of_bracketFree hd
    · exact nested_of_bracketFree (bracketFree_commentLines hd (by decide))
  unfold withDocs
  split
  · exact ht
  · exact nested_append (nested_append comment (by decide)) ht

theorem nested_members (w : Writer) (h : n.BracketFree) :
    ∀ t ∈ (ofContract w n).members, Nested t := by
  have header : Nested (ofContract w n).header := nested_headerOf w h contractHeaderKinds
  unfold ContractProjection.members
  simp only [List.forall_mem_append]
  refine ⟨⟨⟨?_, ?_⟩, ?_⟩, ?_⟩
  · exact nested_of_mem_ite (by simp) (by simpa using header)
  · intro t ht
    obtain ⟨v, hv, rfl⟩ := List.mem_map.1 ht
    obtain ⟨member, hm, rfl⟩ := List.mem_map.1 hv
    have plain := bracketFree_of_mem_membersOf h hm
    exact nested_withDocs (bracketFree_docsOf plain) (w.nested_stateVariable plain)
  · intro t ht
    obtain ⟨member, hm, rfl⟩ := List.mem_map.1 ht
    exact w.nested_print (bracketFree_of_mem_membersOf h hm) .anywhere
  · intro t ht
    obtain ⟨f, hf, rfl⟩ := List.mem_map.1 ht
    obtain ⟨member, hm, rfl⟩ := List.mem_map.1 hf
    have plain := bracketFree_of_mem_membersOf h hm
    exact nested_withDocs (bracketFree_docsOf plain) (w.nested_print plain .anywhere)

theorem nested_opening (w : Writer) (h : n.BracketFree) : Nested (ofContract w n).opening := by
  have name : Nested n.name := nested_of_bracketFree (h.string "name")
  have kind : Nested (Writer.contractKind n) := by
    unfold Writer.contractKind
    cases hs : n.string? "contractKind" with
    | none => decide
    | some s => exact nested_of_bracketFree (h.string? hs)
  have bases :
      Nested (String.intercalate ", " ((n.children "baseContracts").map w.inheritance)) := by
    refine nested_intercalate (by decide) fun t ht => ?_
    obtain ⟨base, hb, rfl⟩ := List.mem_map.1 ht
    exact w.nested_inheritance (h.children hb)
  unfold ContractProjection.opening
  refine nested_append (nested_append (nested_append (nested_append ?_ ?_) (by decide)) name) ?_
  · split <;> decide
  · split
    · decide
    · exact kind
  · split
    · decide
    · exact nested_append (by decide) bases

theorem nested_renderContract (w : Writer) (h : n.BracketFree) :
    Nested (ofContract w n).render := by
  have members := nested_indent (nested_joinLines (nested_members w h))
  have body : Nested (if (ofContract w n).members.isEmpty then "\x7b\x7d"
      else "\x7b\n" ++ indent (joinLines (ofContract w n).members) ++ "\n\x7d") := by
    split
    · decide
    · simp [Nested, members.within]
  exact nested_append (nested_append (nested_append
    (nested_withDocs (bracketFree_docsOf h) nested_empty) (nested_opening w h)) (by decide)) body

/-- **A unit that was taken apart is put together with nested brackets.** -/
theorem nested_renderUnit (w : Writer) (h : n.BracketFree) : Nested (ofUnit w n).render := by
  have header : Nested (ofUnit w n).header := nested_headerOf w h unitHeaderKinds
  refine nested_append (nested_intercalate (by decide) ?_) (by decide)
  rw [List.forall_mem_append]
  refine ⟨nested_of_mem_ite (by simp) (by simpa using header), ?_⟩
  intro t ht
  obtain ⟨contract, hc, rfl⟩ := List.mem_map.1 ht
  obtain ⟨c, hm, rfl⟩ := List.mem_map.1 hc
  exact nested_renderContract w (bracketFree_of_mem_membersOf h hm)

theorem nested_ofFile {file : String} {source : SourceOutput} {unit : UnitProjection}
    (h : ∀ tree, source.tree? = some tree → tree.BracketFree) (hu : ofFile file source = .ok unit) :
    Nested unit.render := by
  obtain ⟨n, root, rfl⟩ := ofFile_eq_ok_iff.1 hu
  obtain ⟨tree, there, node, -⟩ := unitOf_eq_ok_iff.1 root
  exact nested_renderUnit _ (.ofJson? (h tree there) node)

end Projection

/-! ## §4. All printed source -/

open Text in
/-- **The brackets of printed source are nested**: of any node that has no bracket in its texts, in
each of its forms, and of any output without brackets in its trees, put together again. -/
theorem printed_nested :
    (∀ (w : Writer) (n : Node), n.BracketFree →
      ∀ text ∈ [w.write n, w.statement n, w.expression n, w.typeName n, Solidity.Assembly.print n,
        w.parameter n, w.parameters n, w.stateVariable n, w.freeVariable n, w.inheritance n],
        Nested text)
    ∧ ∀ (output : CompilerOutput) (projections : Dict UnitProjection),
      (∀ file source tree, output.sources.get? file = some source → source.tree? = some tree →
        tree.BracketFree) →
      Projection.ofOutput output = .ok projections →
      ∀ file unit, projections.get? file = some unit → Nested unit.render := by
  constructor
  · intro w n h
    have place (p : Solidity.Place) : Nested (w.print p n) := w.nested_print h p
    simp only [List.forall_mem_cons]
    exact ⟨place .anywhere, place .statement, place .expression, place .typeName,
      Solidity.nested_print h, place .parameter, place .parameterList, w.nested_stateVariable h,
      w.nested_freeVariable h, w.nested_inheritance h, by simp⟩
  · intro output projections plain ok file unit hu
    obtain ⟨source, hs, hf⟩ := Projection.ofFile_of_get? ok hu
    exact Projection.nested_ofFile (fun tree ht => plain file source tree hs ht) hf

/-- A function with parameters, a condition and an access by index. -/
def guardedFunction : Json :=
  let identifier (name : String) : Json :=
    .object [("name", .string name), ("nodeType", .string "Identifier")]
  .object [
    ("body", .object [
      ("nodeType", .string "Block"),
      ("statements", .array [.object [
        ("condition", .object [
          ("baseExpression", identifier "open"), ("indexExpression", identifier "caller"),
          ("nodeType", .string "IndexAccess")]),
        ("nodeType", .string "IfStatement"),
        ("trueBody", .object [("nodeType", .string "Return")])]])]),
    ("kind", .string "function"),
    ("name", .string "close"),
    ("nodeType", .string "FunctionDefinition")]

/-- An output whose only file has that function and nothing else. -/
def guardedOutput : CompilerOutput where
  errors := []
  sources := ⟨[("A.sol", ⟨none, some (.object [
    ("nodeType", .string "SourceUnit"), ("nodes", .array [guardedFunction])]), none, none⟩)],
    by simp [Entries.Ascending]⟩
  contracts := .empty

open Text in
/-- The function as a node of its own, and the file with it. -/
theorem printed_nested_guarded :
    (∃ n, Node.ofJson? guardedFunction = some n ∧ Nested (({ } : Writer).write n))
    ∧ ∃ projections unit, Projection.ofOutput guardedOutput = .ok projections
      ∧ projections.get? "A.sol" = some unit ∧ Nested unit.render := by
  obtain ⟨nodes, outputs⟩ := printed_nested
  constructor
  · have node : (Node.ofJson? guardedFunction).isSome = true := by decide +kernel
    obtain ⟨n, hn⟩ := Option.isSome_iff_exists.1 node
    have plain : n.BracketFree := .ofJson? (by decide +kernel) hn
    exact ⟨n, hn, nodes { } n plain _ List.mem_cons_self⟩
  · have plain : ∀ file source tree, guardedOutput.sources.get? file = some source →
        source.tree? = some tree → tree.BracketFree := by
      intro file source tree hs ht
      have entry := Dict.mem_toList_iff.2 hs
      obtain ⟨_, rfl⟩ := Prod.mk.inj (List.mem_singleton.1 entry)
      cases ht
      decide +kernel
    have there : ((Projection.ofOutput guardedOutput).toOption.bind
        (·.get? "A.sol")).isSome = true := by decide +kernel
    obtain ⟨unit, hu⟩ := Option.isSome_iff_exists.1 there
    obtain ⟨projections, hp, hu⟩ := Option.bind_eq_some_iff.1 hu
    have ok : Projection.ofOutput guardedOutput = .ok projections := by
      cases h : Projection.ofOutput guardedOutput with
      | error e => simp [h, Except.toOption] at hp
      | ok found => simpa [h, Except.toOption] using hp
    exact ⟨projections, unit, ok, hu, outputs _ _ plain ok "A.sol" unit hu⟩

end FuzzBundle
