/-
  FuzzBundle.Proofs.FunctionSignatures — the signature of a function and its source text.

  What is kept of the parameters and results of a function is read off the tree apart from the text
  that the function is printed as. The two agree: right behind the keyword the text has a list in
  parentheses with one entry for each parameter that is kept (`Lists`), and where results are kept,
  and only there, it has such a list of these.

  Visibilities are written by one of three rules, and which of them it is for a function is a matter
  of the function alone (`VisibilityRule`). Constructors are those that are written by the first.

  Main statement: `ofFunction_signed`.
-/
import FuzzBundle.Projection.Unit

namespace FuzzBundle.Projection

open Solidity

/-! ## §1. Lists of parameters -/

/-- The parameters that a field of a function lists. What is no node is passed over. -/
def listed (n : Node) (key : String) : List Node :=
  ((n.child? key).map (·.children "parameters")).getD []

/-- What stands between the type of a parameter and its name: a data location that is not the
default one, and `indexed`. -/
def marks (p : Node) : List String :=
  let location := p.string "storageLocation"
  (if location = "" ∨ location = "default" then [] else [location])
    ++ if p.flag "indexed" then ["indexed"] else []

/-- The entry of a parameter in a list, by what is kept of it: the type, or `var` where the
parameter has none, its marks, and the name if there is one. -/
def entry (p : Node) (kept : ParameterProjection) : String :=
  words ((if (p.child? "typeName").isSome then kept.type else "var") :: marks p
    ++ if kept.name = "" then [] else [kept.name])

/-- A list in parentheses has one entry for each parameter that is kept, in the same order. -/
structure Lists (parameters : List Node) (kept : List ParameterProjection) (text : String) :
    Prop where
  length : kept.length = parameters.length
  text : text = "(" ++ commaList (List.zipWith entry parameters kept) ++ ")"

/-- What is kept of a parameter. -/
def kept (w : Writer) (p : Node) : ParameterProjection := ⟨p.name, typeOf w p⟩

theorem parametersOf_eq (w : Writer) (n : Node) (key : String) :
    parametersOf w n key = (listed n key).map (kept w) := by
  unfold parametersOf listed
  cases n.child? key <;> rfl

/-- **A parameter is printed as the entry of what is kept of it.** -/
theorem print_parameter (w : Writer) (p : Node) : w.print .parameter p = entry p (kept w p) := by
  have type : declaredType w.print p
      = if (p.child? "typeName").isSome then (kept w p).type else "var" := by
    unfold declaredType Inner.child? kept typeOf
    cases p.child? "typeName" <;> rfl
  have marked : (if p.string "storageLocation" = "default" then []
        else unlessEmpty (p.string "storageLocation"))
        ++ (if p.flag "indexed" then ["indexed"] else []) = marks p := by
    unfold marks unlessEmpty
    by_cases default : p.string "storageLocation" = "default"
    · simp [default]
    · by_cases empty : p.string "storageLocation" = "" <;> simp [default, empty]
  rw [Writer.print_eq]
  show words ([declaredType w.print p] ++ _ ++ _ ++ unlessEmpty p.name) = _
  rw [type, List.append_assoc [_], marked]
  rfl

theorem print_parameterList (w : Writer) (list : Node) :
    w.print .parameterList list
      = "(" ++ commaList ((list.children "parameters").map fun p => entry p (kept w p)) ++ ")" := by
  rw [Writer.print_eq]
  show "(" ++ commaList ((list.children "parameters").map (w.print .parameter)) ++ ")" = _
  rw [List.map_congr_left fun p _ => print_parameter w p]

/-- The list in parentheses of the parameters in a field. -/
def listText (w : Writer) (n : Node) (key : String) : String :=
  "(" ++ commaList ((listed n key).map fun p => entry p (kept w p)) ++ ")"

theorem lists_listText (w : Writer) (n : Node) (key : String) :
    Lists (listed n key) (parametersOf w n key) (listText w n key) where
  length := by rw [parametersOf_eq, List.length_map]
  text := by rw [parametersOf_eq, List.zipWith_map_right, List.zipWith_self, listText]

theorem parametersOrNone_eq (w : Writer) (n : Node) (key : String) :
    parametersOrNone w.print n key = listText w n key := by
  unfold parametersOrNone Inner.child? listText listed
  cases n.child? key with
  | none => rfl
  | some list => exact print_parameterList w list

/-- A list is left out exactly where nothing is kept of it. -/
theorem parametersIfAny?_eq (w : Writer) (n : Node) (key : String) :
    parametersIfAny? w.print n key
      = if parametersOf w n key = [] then none else some (listText w n key) := by
  unfold parametersIfAny? Inner.child? listText
  simp only [parametersOf_eq, List.map_eq_nil_iff]
  unfold listed
  cases n.child? key with
  | none => rfl
  | some list => simp only [Option.map_some, Option.getD_some, List.isEmpty_iff,
      print_parameterList]

/-! ## §2. The source of a function -/

/-- The rules by which the visibility of a function is written: as the writer is set for
constructors, always for the other functions of contracts, and never outside of contracts. -/
inductive VisibilityRule where
  | construction
  | member
  | free
  deriving DecidableEq, Repr

/-- What is written of a visibility by a rule. -/
def VisibilityRule.written (w : Writer) (visibility : String) : VisibilityRule → List String
  | .construction => if w.constructorVisibility ∧ visibility ≠ "" then [visibility] else []
  | .member => if visibility ≠ "" then [visibility] else []
  | .free => []

/-- The keywords of functions that are written without a name. -/
def bareKeywords : List String := ["constructor", "fallback", "receive", "function"]

/-- The words between the visibility of a function and its results. -/
def attributes (w : Writer) (n : Node) : List String :=
  (stateMutability? n).toList
    ++ (if n.flag "virtual" then ["virtual"] else [])
    ++ ((n.child? "overrides").map (w.print .overrides)).toList
    ++ (n.children "modifiers").map (w.print .modifierCall)

/-- What follows the header of a function: its body, or a semicolon. -/
def ending (w : Writer) (n : Node) : String :=
  match n.child? "body" with
  | some body => " " ++ w.statement body
  | none => ";"

/-- The source of a function has the signature that is kept of it: a keyword with the list of its
parameters right behind, the visibility by its rule, the other attributes, and the list of its
results where it has any. -/
structure Signed (w : Writer) (n : Node) (rule : VisibilityRule) (f : FunctionProjection) :
    Prop where
  source : ∃ keyword args rets,
    (keyword ∈ bareKeywords ∨ f.name ≠ "" ∧ keyword = "function " ++ f.name)
    ∧ Lists (listed n "parameters") f.args args
    ∧ Lists (listed n "returnParameters") f.rets rets
    ∧ f.source = words ((keyword ++ args) :: rule.written w f.visibility ++ attributes w n
        ++ if f.rets = [] then [] else ["returns " ++ rets]) ++ ending w n
  construction : f.isConstructor = true ↔ rule = .construction

/-- The rule for the visibility of a function. -/
def ruleOf (n : Node) : VisibilityRule :=
  if isConstructor n then .construction
  else if n.string "kind" = "freeFunction" then .free
  else .member

theorem functionVisibility_eq (w : Writer) (n : Node) :
    functionVisibility w.constructorVisibility n
      = (ruleOf n).written w (n.string "visibility") := by
  unfold functionVisibility ruleOf unlessEmpty
  by_cases constructor : isConstructor n = true
  · cases setting : w.constructorVisibility <;>
      simp [constructor, setting, VisibilityRule.written]
  · by_cases free : n.string "kind" = "freeFunction" <;>
      simp [constructor, free, VisibilityRule.written]

theorem functionKeyword_cases (n : Node) :
    functionKeyword n ∈ bareKeywords
      ∨ n.name ≠ "" ∧ functionKeyword n = "function " ++ n.name := by
  unfold functionKeyword bareKeywords
  dsimp only
  split
  · next special =>
    left
    rcases special with kind | kind | kind <;> simp [kind]
  · split
    · exact .inl (by decide)
    · split
      · exact .inl (by decide)
      · next named => exact .inr ⟨named, rfl⟩

theorem functionHeader_eq (w : Writer) (n : Node) :
    functionHeader w.constructorVisibility w.print n
      = words ((functionKeyword n ++ listText w n "parameters")
        :: (ruleOf n).written w (n.string "visibility") ++ attributes w n
        ++ if parametersOf w n "returnParameters" = [] then []
          else ["returns " ++ listText w n "returnParameters"]) := by
  have returns : ((parametersIfAny? w.print n "returnParameters").map ("returns " ++ ·)).toList
      = if parametersOf w n "returnParameters" = [] then []
        else ["returns " ++ listText w n "returnParameters"] := by
    rw [parametersIfAny?_eq]
    split <;> rfl
  unfold functionHeader attributes
  rw [returns, functionVisibility_eq, parametersOrNone_eq]
  simp only [List.append_assoc, List.cons_append, List.nil_append]
  rfl

theorem write_function (w : Writer) {n : Node} (h : n.kind = .functionDefinition) :
    w.write n = functionHeader w.constructorVisibility w.print n ++ ending w n := by
  rw [Writer.write, Writer.print_eq]
  simp only [layout, anyLayout, h]
  unfold functionLayout withBody Inner.child? ending
  cases n.child? "body" with
  | none => rfl
  | some body =>
    show _ ++ " " ++ _ = _ ++ (" " ++ _)
    rw [String.append_assoc]
    rfl

/-- **The signature that is kept of a function is that of its source**, whatever the writer is set
to, and it is kept as a constructor exactly if its visibility is written by the rule for these. -/
theorem ofFunction_signed {n : Node} (h : n.kind = .functionDefinition) :
    ∃ rule, ∀ w, Signed w n rule (ofFunction w n) := by
  refine ⟨ruleOf n, fun w => ⟨?_, ?_⟩⟩
  · refine ⟨functionKeyword n, listText w n "parameters", listText w n "returnParameters",
      functionKeyword_cases n, lists_listText w n "parameters",
      lists_listText w n "returnParameters", ?_⟩
    show w.write n = _
    rw [write_function w h, functionHeader_eq]
    rfl
  · show isConstructor n = true ↔ _
    unfold ruleOf
    by_cases constructor : isConstructor n = true
    · simp [constructor]
    · by_cases free : n.string "kind" = "freeFunction" <;> simp [constructor, free]

/-- A list of parameters, one with a type and one without, and something that is no node. -/
def mixedParameters : Json :=
  .ofFields [("nodeType", .string "ParameterList"), ("parameters", .array [
    .ofFields [("name", .string "to"), ("nodeType", .string "VariableDeclaration"),
      ("typeName", .ofFields [("name", .string "address"),
        ("nodeType", .string "ElementaryTypeName")])],
    .null,
    .ofFields [("name", .string "data"), ("nodeType", .string "VariableDeclaration"),
      ("storageLocation", .string "memory")]])]

/-- A function with these parameters, and with a result that has no name. -/
def transfer : Node where
  fields := [("name", .string "transfer"), ("nodeType", .string "FunctionDefinition"),
    ("parameters", mixedParameters),
    ("returnParameters", .ofFields [("nodeType", .string "ParameterList"), ("parameters", .array [
      .ofFields [("nodeType", .string "VariableDeclaration"),
        ("typeName", .ofFields [("name", .string "bool"),
          ("nodeType", .string "ElementaryTypeName")])]])]),
    ("visibility", .string "external")]
  nodeType := "FunctionDefinition"
  typed := rfl

theorem ofFunction_signed_transfer :
    transfer.kind = .functionDefinition
      ∧ (∃ rule, ∀ w, Signed w transfer rule (ofFunction w transfer))
      ∧ (ofFunction {} transfer).args = [⟨"to", "address"⟩, ⟨"data", ""⟩]
      ∧ (ofFunction {} transfer).source
        = "function transfer(address to, var memory data) external returns (bool);" :=
  ⟨by decide +kernel, ofFunction_signed (by decide +kernel), by decide +kernel,
    by decide +kernel⟩

end FuzzBundle.Projection
