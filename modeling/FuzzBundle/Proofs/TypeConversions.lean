/-
  FuzzBundle.Proofs.TypeConversions — conversions to elementary types, as they are printed.

  A conversion is a call whose callee names a type. The printer of types serves declarations and
  expressions alike, and a type that takes two words, the payable address, keeps both of them in
  front of the parenthesis, where the language knows one word only.

  What is printed inside an expression is told by one relation (`PartOf`), which has a rule for each
  way in which expressions and type names hold others. The text of a part is a piece of the text of
  the whole (`holds_of_partOf`), hence so is that of anything deeper inside.

  Main statement: `conversion_callable_iff`.
-/
import Mathlib.Logic.Relation
import FuzzBundle.Proofs.ListReading
import FuzzBundle.Solidity.Writer

namespace FuzzBundle.Solidity

/-! ## §1. Pieces of a text -/

/-- A text stands in another one, without a gap. -/
def Holds (text part : String) : Prop := ∃ before after, text = before ++ part ++ after

namespace Holds

variable {text part : String}

theorem refl (text : String) : Holds text text := ⟨"", "", by simp⟩

theorem empty (text : String) : Holds text "" := ⟨"", text, by simp⟩

@[grind ←]
theorem left (h : Holds text part) (more : String) : Holds (text ++ more) part := by
  obtain ⟨before, after, rfl⟩ := h
  exact ⟨before, after ++ more, by rw [String.append_assoc]⟩

@[grind ←]
theorem right (h : Holds text part) (more : String) : Holds (more ++ text) part := by
  obtain ⟨before, after, rfl⟩ := h
  exact ⟨more ++ before, after, by simp only [String.append_assoc]⟩

theorem between (h : Holds text part) (before after : String) :
    Holds (before ++ text ++ after) part :=
  (h.right before).left after

theorem trans {inner : String} (h : Holds text part) (h' : Holds part inner) :
    Holds text inner := by
  obtain ⟨before, after, rfl⟩ := h
  exact h'.between before after

theorem intercalate (separator : String) {items : List String} (h : part ∈ items) :
    Holds (separator.intercalate items) part := by
  induction items with
  | nil => exact absurd h List.not_mem_nil
  | cons item rest ih =>
    cases rest with
    | nil =>
      rw [List.mem_singleton.1 h, String.intercalate_singleton]
      exact refl item
    | cons next rest =>
      rw [String.intercalate_cons_cons]
      obtain rfl | h := List.mem_cons.1 h
      · exact ((refl part).left separator).left _
      · exact (ih h).right _

end Holds

/-! ## §2. Parts of an expression -/

/-- The fields in which an expression or a type name of a kind holds parts. -/
def partKeys : Kind → List String
  | .assignment => ["leftHandSide", "rightHandSide"]
  | .binaryOperation => ["leftExpression", "rightExpression"]
  | .unaryOperation => ["subExpression"]
  | .conditional => ["condition", "trueExpression", "falseExpression"]
  | .functionCall | .functionCallOptions | .memberAccess => ["expression"]
  | .indexAccess => ["baseExpression", "indexExpression"]
  | .indexRangeAccess => ["baseExpression", "startExpression", "endExpression"]
  | .newExpression | .elementaryTypeNameExpression => ["typeName"]
  | .arrayTypeName => ["baseType", "length"]
  | .mapping => ["keyType", "valueType"]
  | _ => []

/-- A node is printed right inside an expression or a type name: in a field, as an argument or
option, as a component, or as the type of a parameter. -/
inductive PartOf (c n : Node) : Prop where
  | field {key : String} (kind : key ∈ partKeys n.kind) (child : n.child? key = some c)
  | argument (kind : n.kind = .functionCall) (names : n.strings "names" = [])
      (member : c ∈ n.children "arguments")
  | named {name : String} (kind : n.kind = .functionCall) (names : n.strings "names" ≠ [])
      (member : (c, name) ∈ (n.children "arguments").zip (n.strings "names"))
  | option {name : String} (kind : n.kind = .functionCallOptions)
      (member : (c, name) ∈ (n.children "options").zip (n.strings "names"))
  | component (kind : n.kind = .tupleExpression)
      (member : some c ∈ n.optionalChildren "components")
  | parameter {key : String} {list p : Node} (kind : n.kind = .functionTypeName)
      (role : key = "parameterTypes" ∨ key = "returnParameterTypes")
      (child : n.child? key = some list) (member : p ∈ list.children "parameters")
      (type : p.child? "typeName" = some c)

/-- A node is printed somewhere inside an expression, or is the expression itself. -/
abbrev Within (c root : Node) : Prop := Relation.ReflTransGen PartOf c root

section Text

variable {w : Writer} {c n : Node}

theorem expression_eq (w : Writer) (n : Node) : w.expression n = expressionLayout w.print n :=
  w.print_eq .expression n

theorem typeLayout_eq_expressionLayout (inner : Inner) (n : Node) :
    typeLayout inner n = expressionLayout inner n := by
  unfold typeLayout expressionLayout typeNameLayout
  cases n.kind <;> simp [Kind.isTypeName]

/-- Where anything may stand, an expression or a type name is printed as everywhere. -/
theorem anyLayout_eq_or_empty (shown : Bool) (inner : Inner) (n : Node) :
    anyLayout shown inner n = expressionLayout inner n ∨ expressionLayout inner n = "" := by
  unfold anyLayout
  rw [typeLayout_eq_expressionLayout]
  cases kind : n.kind <;>
    simp [expressionLayout, kind, Kind.isTypeName, Kind.isStatement, Kind.isAssembly]

/-- Where expressions hold parts. -/
def holdsExpressions : Place → Bool
  | .expression | .typeName | .anywhere => true
  | _ => false

theorem holds_print {place : Place} (h : holdsExpressions place = true) :
    Holds (w.print place c) (w.expression c) := by
  rw [w.print_eq, expression_eq]
  cases place with
  | expression => exact .refl _
  | typeName =>
    rw [layout, typeLayout_eq_expressionLayout]
    exact .refl _
  | anywhere =>
    rw [layout]
    obtain same | none := anyLayout_eq_or_empty w.constructorVisibility w.print c
    · rw [same]
      exact .refl _
    · rw [none]
      exact .empty _
  | _ => simp [holdsExpressions] at h

theorem holds_child (w : Writer) (place : Place) {key : String}
    (h : holdsExpressions place = true) (child : n.child? key = some c) :
    Holds (Inner.child w.print place n key) (w.expression c) := by
  rw [Inner.child, Inner.child?, child]
  exact holds_print h

theorem holds_of_field {key : String} (kind : key ∈ partKeys n.kind)
    (child : n.child? key = some c) : Holds (w.expression n) (w.expression c) := by
  -- which of these is printed depends on the kind of the whole and on the field
  have value := holds_child w .expression rfl child
  have type := holds_child w .typeName rfl child
  have either := holds_child w .anywhere rfl child
  rw [expression_eq]
  unfold partKeys at kind
  cases h : n.kind <;> simp only [h, List.mem_cons, List.not_mem_nil, or_false] at kind
  all_goals simp only [expressionLayout, h]
  case assignment | binaryOperation =>
    rw [binaryLayout]
    obtain rfl | rfl := kind <;> grind
  case unaryOperation =>
    subst kind
    rw [unaryLayout]
    grind
  case conditional | indexRangeAccess => obtain rfl | rfl | rfl := kind <;> grind
  case indexAccess => obtain rfl | rfl := kind <;> grind
  case functionCall | functionCallOptions | memberAccess | newExpression => subst kind; grind
  case elementaryTypeNameExpression =>
    subst kind
    rw [Inner.child?, child]
    exact holds_print rfl
  case arrayTypeName =>
    simp only [typeNameLayout, h]
    obtain rfl | rfl := kind <;> grind
  case mapping =>
    simp only [typeNameLayout, h, mappingSide]
    obtain rfl | rfl := kind <;> grind

theorem holds_of_argument (kind : n.kind = .functionCall) (names : n.strings "names" = [])
    (member : c ∈ n.children "arguments") : Holds (w.expression n) (w.expression c) := by
  have listed : w.expression c ∈ Inner.children w.print .expression n "arguments" :=
    List.mem_map_of_mem member
  simp only [expression_eq w n, expressionLayout, kind, callArguments, names, List.isEmpty_nil,
    if_true, arguments, commaList]
  exact (Holds.intercalate ", " listed).between _ ")"

/-- A value given under a name is printed among the others. -/
theorem holds_namedArguments {key name : String}
    (member : (c, name) ∈ (n.children key).zip (n.strings "names")) :
    Holds (namedArguments w.print n key) (w.expression c) := by
  have listed : name ++ ": " ++ w.expression c
      ∈ List.zipWith (fun value name => name ++ ": " ++ value)
          (Inner.children w.print .expression n key) (n.strings "names") := by
    rw [Inner.children, List.zipWith_map_left, ← List.map_uncurry_zip_eq_zipWith]
    exact List.mem_map_of_mem member
  have piece := (Holds.intercalate ", " listed).trans ((Holds.refl (w.expression c)).right _)
  exact piece.between "\x7b" "\x7d"

theorem holds_of_component (kind : n.kind = .tupleExpression)
    (member : some c ∈ n.optionalChildren "components") :
    Holds (w.expression n) (w.expression c) := by
  have listed : w.expression c ∈ Inner.holes w.print .expression n "components" :=
    List.mem_map_of_mem member
  simp only [expression_eq w n, expressionLayout, kind, tupleLayout, commaList]
  have piece := Holds.intercalate ", " listed
  split
  · exact piece.between "[" "]"
  · exact piece.between "(" ")"

theorem holds_parameter {p : Node} (type : p.child? "typeName" = some c) :
    Holds (w.parameter p) (w.expression c) := by
  have printed : declaredType w.print p = w.print .typeName c := by
    rw [declaredType, Inner.child?, type, Option.map_some, Option.getD_some]
  rw [Writer.parameter, w.print_eq]
  simp only [layout, parameterLayout, words]
  exact (Holds.intercalate " " (by simp)).trans (printed ▸ holds_print rfl)

theorem holds_parameters {list p : Node} (member : p ∈ list.children "parameters")
    (type : p.child? "typeName" = some c) : Holds (w.parameters list) (w.expression c) := by
  have listed : w.parameter p ∈ Inner.children w.print .parameter list "parameters" :=
    List.mem_map_of_mem member
  rw [Writer.parameters, w.print_eq, layout, parameterListLayout, commaList]
  exact ((Holds.intercalate ", " listed).between "(" ")").trans (holds_parameter type)

theorem holds_of_parameter {key : String} {list p : Node} (kind : n.kind = .functionTypeName)
    (role : key = "parameterTypes" ∨ key = "returnParameterTypes")
    (child : n.child? key = some list) (member : p ∈ list.children "parameters")
    (type : p.child? "typeName" = some c) : Holds (w.expression n) (w.expression c) := by
  have piece := holds_parameters (w := w) member type
  simp only [expression_eq w n, expressionLayout, kind, typeNameLayout, functionType, words]
  obtain rfl | rfl := role
  · have first : parametersOrNone w.print n "parameterTypes" = w.parameters list := by
      rw [parametersOrNone, Inner.child?, child]
      rfl
    exact (Holds.intercalate " " (by simp)).trans (first ▸ piece.right "function ")
  · have last : parametersIfAny? w.print n "returnParameterTypes" = some (w.parameters list) := by
      have some : (list.children "parameters").isEmpty = false :=
        List.isEmpty_eq_false_iff.2 (List.ne_nil_of_mem member)
      simp only [parametersIfAny?, child, some, Inner.child?, Option.map_some]
      rfl
    rw [last]
    exact (Holds.intercalate " " (by simp)).trans (piece.right "returns ")

/-- What is right inside an expression is printed in it. -/
theorem holds_of_partOf (h : PartOf c n) : Holds (w.expression n) (w.expression c) := by
  cases h with
  | field kind child => exact holds_of_field kind child
  | argument kind names member => exact holds_of_argument kind names member
  | named kind names member =>
    have piece := holds_namedArguments (w := w) member
    simp only [expression_eq w n, expressionLayout, kind, callArguments, List.isEmpty_iff, names,
      if_false]
    exact piece.between _ ")"
  | option kind member =>
    have piece := holds_namedArguments (w := w) member
    simp only [expression_eq w n, expressionLayout, kind]
    exact piece.right _
  | component kind member => exact holds_of_component kind member
  | parameter kind role child member type => exact holds_of_parameter kind role child member type

/-- What is anywhere inside an expression is printed in it. -/
theorem holds_of_within {root : Node} (h : Within c root) :
    Holds (w.expression root) (w.expression c) := by
  -- on the way from the part up to the whole
  induction h with
  | refl => exact .refl _
  | tail _ part ih => exact (holds_of_partOf part).trans ih

end Text

/-! ## §3. Conversions -/

/-- Whether a text is one keyword of letters and digits. -/
def IsKeyword (s : String) : Prop := s ≠ "" ∧ s.toList.all Char.isAlphanum = true

instance (s : String) : Decidable (IsKeyword s) := inferInstanceAs (Decidable (_ ∧ _))

/-- An elementary type that a value is converted to. -/
inductive ConvertedType where
  | named (keyword : { s : String // IsKeyword s })
  | payableAddress
  deriving DecidableEq

/-- The type as it is printed in front of the parenthesis. -/
def ConvertedType.text : ConvertedType → String
  | .named keyword => keyword
  | .payableAddress => "address payable"

/-- The node of an elementary type. -/
def ConvertedType.At : ConvertedType → Node → Prop
  | .named keyword, n =>
    n.kind = .elementaryTypeName ∧ n.name = keyword ∧ n.string? "stateMutability" ≠ some "payable"
  | .payableAddress, n =>
    n.kind = .elementaryTypeName ∧ n.name = "address"
      ∧ n.string? "stateMutability" = some "payable"

/-- A call whose callee names an elementary type. -/
def Converts (target : ConvertedType) (n : Node) : Prop :=
  n.kind = .functionCall ∧ n.HasChild "expression" fun callee =>
    callee.kind = .elementaryTypeNameExpression ∧ callee.HasChild "typeName" target.At

/-- A text begins with one keyword, right before an opening parenthesis. -/
def CalledByKeyword (text : String) : Prop :=
  ∃ keyword arguments, IsKeyword keyword ∧ text = keyword ++ "(" ++ arguments ++ ")"

variable {w : Writer} {n root : Node} {target : ConvertedType}

theorem ConvertedType.At.typeName {type : Node} (h : target.At type) :
    w.typeName type = target.text := by
  have layout : w.typeName type = elementaryType type := by
    rw [Writer.typeName, w.print_eq, Solidity.layout, typeLayout_eq_expressionLayout]
    have kind : type.kind = .elementaryTypeName := by cases target <;> exact h.1
    simp only [expressionLayout, typeNameLayout, kind]
  rw [layout, elementaryType]
  cases target with
  | named keyword =>
    obtain ⟨-, name, plain⟩ := h
    rw [if_neg fun both => plain both.1, name, text]
  | payableAddress =>
    obtain ⟨-, name, payable⟩ := h
    rw [if_pos ⟨payable, by rw [name]; decide⟩, name]
    rfl

/-- A conversion is its type in front of the arguments in parentheses. -/
theorem Converts.expression (h : Converts target n) :
    w.expression n = target.text ++ "(" ++ callArguments w.print n "arguments" ++ ")" := by
  obtain ⟨kind, callee, child, calleeKind, type, typeChild, at_type⟩ := h
  have printed : w.expression callee = target.text := by
    simp only [expression_eq w callee, expressionLayout, calleeKind, Inner.child?, typeChild,
      Option.map_some, Option.getD_some]
    exact at_type.typeName
  have front : Inner.child w.print .expression n "expression" = target.text := by
    rw [Inner.child, Inner.child?, child]
    exact printed
  simp only [expression_eq w n, expressionLayout, kind, front]

theorem IsKeyword.notMem {s : String} (h : IsKeyword s) {c : Char} (hc : c.isAlphanum = false) :
    c ∉ s.toList := by
  intro member
  have := List.all_eq_true.1 h.2 c member
  simp [hc] at this

theorem ConvertedType.notMem_text (target : ConvertedType) : '(' ∉ target.text.toList := by
  cases target with
  | named keyword => exact keyword.2.notMem (by decide)
  | payableAddress => decide

/-- What stands in front of the first parenthesis. -/
theorem callee_inj {callee callee' arguments arguments' : String} (h : '(' ∉ callee.toList)
    (h' : '(' ∉ callee'.toList)
    (same : callee ++ "(" ++ arguments ++ ")" = callee' ++ "(" ++ arguments' ++ ")") :
    callee = callee' := by
  have chars := congrArg String.toList same
  simp only [String.toList_append, List.append_assoc] at chars
  exact String.toList_inj.1 (append_cons_inj_of_notMem_left h h' chars).1

theorem ConvertedType.text_injective {target target' : ConvertedType}
    (h : target.text = target'.text) : target = target' := by
  have blank (keyword : { s : String // IsKeyword s }) : keyword.val ≠ "address payable" :=
    fun eq => (keyword.2.notMem (c := ' ') (by decide)) (eq ▸ by decide)
  cases target with
  | named keyword =>
    cases target' with
    | named keyword' => rw [Subtype.ext h]
    | payableAddress => exact absurd h (blank keyword)
  | payableAddress =>
    cases target' with
    | named keyword' => exact absurd h.symm (blank keyword')
    | payableAddress => rfl

/-- **A conversion anywhere inside an expression is printed there**, as its type in front of the
arguments in parentheses. That is a call of one keyword unless the type is the payable address.
Conversions to different types are printed differently. -/
theorem conversion_callable_iff (w : Writer) {root n : Node} {target : ConvertedType}
    (within : Within n root) (converts : Converts target n) :
    Holds (w.expression root) (w.expression n)
      ∧ w.expression n = target.text ++ "(" ++ callArguments w.print n "arguments" ++ ")"
      ∧ (CalledByKeyword (w.expression n) ↔ target ≠ .payableAddress)
      ∧ ∀ {n' target'}, Converts target' n' → w.expression n = w.expression n' →
          target = target' := by
  refine ⟨holds_of_within within, converts.expression, ⟨?_, ?_⟩, ?_⟩
  · rintro ⟨keyword, arguments, isKeyword, eq⟩ rfl
    rw [converts.expression] at eq
    have callee := callee_inj (ConvertedType.notMem_text _) (isKeyword.notMem (by decide)) eq
    -- the payable address has a blank in it, and no keyword does
    exact isKeyword.notMem (c := ' ') (by decide) (callee ▸ by decide)
  · intro plain
    cases target with
    | named keyword => exact ⟨keyword, _, keyword.2, converts.expression⟩
    | payableAddress => exact absurd rfl plain
  · intro n' target' converts' same
    rw [converts.expression, converts'.expression] at same
    exact ConvertedType.text_injective (callee_inj target.notMem_text target'.notMem_text same)

/-- An elementary type as a node. -/
def typeNode (name : String) (mutability : Json) : Node where
  fields := [("name", .string name), ("nodeType", .string "ElementaryTypeName"),
    ("stateMutability", mutability)]
  nodeType := "ElementaryTypeName"
  typed := rfl

/-- A type in the place of a callee. -/
def calleeNode (type : Node) : Node where
  fields := [("nodeType", .string "ElementaryTypeNameExpression"), ("typeName", type.toJson)]
  nodeType := "ElementaryTypeNameExpression"
  typed := rfl

/-- A value that is converted to a type. -/
def conversionNode (type : Node) (value : Json) : Node where
  fields := [("arguments", .array [value]), ("expression", (calleeNode type).toJson),
    ("nodeType", .string "FunctionCall")]
  nodeType := "FunctionCall"
  typed := rfl

/-- A variable that is converted to the payable address. -/
def payableConversion : Node :=
  conversionNode (typeNode "address" (.string "payable"))
    (.ofFields [("name", .string "x"), ("nodeType", .string "Identifier")])

/-- The same inside another conversion. -/
def nestedConversion : Node :=
  conversionNode (typeNode "uint160" .null) payableConversion.toJson

theorem converts_conversionNode {target : ConvertedType} {type : Node} (value : Json)
    (h : target.At type) : Converts target (conversionNode type value) := by
  refine ⟨Kind.ofName_name .functionCall (by decide), calleeNode type, ?_,
    Kind.ofName_name .elementaryTypeNameExpression (by decide), type, ?_, h⟩
  · simp [Node.child?, Node.field?, conversionNode, Entries.get?, Node.ofJson?_toJson]
  · simp [Node.child?, Node.field?, calleeNode, Entries.get?, Node.ofJson?_toJson]

theorem converts_payableConversion : Converts .payableAddress payableConversion :=
  converts_conversionNode _
    ⟨Kind.ofName_name .elementaryTypeName (by decide), by decide +kernel, by decide +kernel⟩

theorem within_nestedConversion : Within payableConversion nestedConversion :=
  .single (.argument (by decide +kernel) (by decide +kernel) (by decide +kernel))

/-- A conversion to the payable address inside another conversion. -/
theorem conversion_callable_iff_nested :
    (Within payableConversion nestedConversion ∧ Converts .payableAddress payableConversion)
      ∧ ({} : Writer).expression nestedConversion = "uint160(address payable(x))"
      ∧ Holds (({} : Writer).expression nestedConversion)
          (({} : Writer).expression payableConversion)
      ∧ ¬ CalledByKeyword (({} : Writer).expression payableConversion) := by
  have result := conversion_callable_iff {} within_nestedConversion converts_payableConversion
  exact ⟨⟨within_nestedConversion, converts_payableConversion⟩, by decide +kernel, result.1,
    result.2.2.1.not.2 (not_not_intro rfl)⟩

/-- A conversion to the payable address is not a call of one keyword. -/
theorem not_always_callable :
    ¬ ∀ (w : Writer) (n : Node) (target : ConvertedType), Converts target n →
        CalledByKeyword (w.expression n) := by
  intro always
  obtain ⟨keyword, arguments, isKeyword, eq⟩ := always {} _ _ converts_payableConversion
  have text : ({} : Writer).expression payableConversion = "address payable" ++ "(" ++ "x" ++ ")" :=
    by decide +kernel
  rw [text] at eq
  have callee := callee_inj (by decide) (isKeyword.notMem (by decide)) eq
  exact isKeyword.notMem (c := ' ') (by decide) (callee ▸ by decide)

end FuzzBundle.Solidity
