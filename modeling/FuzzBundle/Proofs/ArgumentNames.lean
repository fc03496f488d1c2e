/-
  FuzzBundle.Proofs.ArgumentNames — what the arguments of a call give for a name.

  There are three sources of a name, tried in this order: the labels of the arguments, the types
  that the call or else its callee notes for them, and the name for what has none. A label counts
  only if it is not empty, so that labels never join to nothing (`joinedArguments_ne_empty`). Types
  count as soon as there is one. But three descriptions have an empty text, among them that of the
  empty string literal (`typeLabel_eq_empty_iff`), and where all types that count are described so,
  the name is nothing but the commas between them (`joinedArguments_of_blankTyped`).

  Main statements: `joinedArguments_usable_iff`, `joinedArguments_not_always_usable`.
-/
import Mathlib.Tactic.ByContra
import FuzzBundle.Invariant

namespace FuzzBundle.Invariant

/-! ## §1. Labels and types -/

/-- An argument has a literal value or a name that is not empty. -/
def Labelled (argument : Node) : Prop :=
  ∃ text, text ≠ ""
    ∧ (argument.string? "value" = some text ∨ argument.string? "name" = some text)

theorem isSome_label?_iff (argument : Node) :
    (label? argument).isSome = true ↔ Labelled argument := by
  unfold label? label?.nameOf Labelled
  grind

instance : DecidablePred Labelled := fun argument =>
  decidable_of_iff _ (isSome_label?_iff argument)

theorem label?_ne_empty (argument : Node) : label? argument ≠ some "" := by
  unfold label? label?.nameOf
  grind

/-- The argument types that a node notes, as the compiler describes them. -/
def notedTypes (n : Node) : List String :=
  (n.items "argumentTypes").filterMap fun entry =>
    (entry.field? "typeString").bind Json.string?

/-- The argument types that count: those of the call, or if it notes none, those of the callee. -/
def typesOf (call callee : Node) : List String :=
  if notedTypes call = [] then notedTypes callee else notedTypes call

/-- The descriptions of types that have no text: the empty one, and the mark of a string literal
with nothing behind it or with the closing quote alone. -/
def blankTypes : List String := ["", "literal_string \"", "literal_string \"\""]

/-- A description that begins with the mark of a string literal. -/
theorem mem_blankTypes_of_mark {type : String} {rest : List Char}
    (h : type.toList = "literal_string \"".toList ++ rest) :
    type ∈ blankTypes ↔ rest = [] ∨ rest = ['"'] := by
  have inj (other : String) : type = other ↔ type.toList = other.toList := String.toList_inj.symm
  have bare : "literal_string \"".toList ++ rest = "literal_string \"".toList ↔ rest = [] :=
    List.append_right_eq_self
  have closed : "literal_string \"".toList ++ rest = "literal_string \"".toList ++ ['"']
      ↔ rest = ['"'] :=
    List.append_right_inj _
  unfold blankTypes
  rw [List.mem_cons, List.mem_cons, List.mem_singleton, inj, inj, inj, h, bare, ← closed]
  constructor
  · intro either
    rcases either with empty | either
    · cases empty
    · exact either
  · exact .inr

/-- **Three descriptions of types have no text.** -/
theorem typeLabel_eq_empty_iff (type : String) : typeLabel type = "" ↔ type ∈ blankTypes := by
  unfold typeLabel
  cases found : Text.dropStart? "literal_string \"".toList type.toList with
  | none =>
    -- without the mark the description is the text
    have unmarked (rest : List Char) : type.toList ≠ "literal_string \"".toList ++ rest := by
      intro h
      rw [Text.dropStart?_eq_some_iff.2 h] at found
      cases found
    show type = "" ↔ _
    unfold blankTypes
    rw [List.mem_cons, List.mem_cons, List.mem_singleton]
    constructor
    · exact .inl
    · intro either
      rcases either with empty | bare | closed
      · exact empty
      · exact absurd (congrArg String.toList bare) (unmarked [])
      · exact absurd (congrArg String.toList closed) (unmarked ['"'])
  | some rest =>
    rw [mem_blankTypes_of_mark (Text.dropStart?_eq_some_iff.1 found)]
    obtain ⟨reversed, turned⟩ : ∃ reversed, rest = reversed.reverse :=
      ⟨rest.reverse, rest.reverse_reverse.symm⟩
    subst turned
    simp only [List.reverse_reverse]
    split
    · next front =>
      rw [String.ofList_eq_empty_iff]
      simp
    · next unclosed =>
      have other : reversed.reverse ≠ ['"'] := by
        intro same
        exact unclosed [] (List.reverse_eq_iff.1 same)
      rw [String.ofList_eq_empty_iff]
      exact ⟨.inl, fun either => either.resolve_right other⟩

/-! ## §2. Where a name comes from -/

theorem argumentTypes?_eq (n : Node) :
    argumentTypes? n = if notedTypes n = [] then none else some ((notedTypes n).map typeLabel) := by
  unfold argumentTypes? notedTypes Node.items Node.value?
  cases n.field? "argumentTypes" with
  | none => rfl
  | some value =>
    cases value with
    | array entries =>
      show (if ((entries.filterMap fun entry => _).map typeLabel).isEmpty = true then _ else _)
        = if entries.filterMap _ = [] then _ else _
      simp only [List.isEmpty_iff, List.map_eq_nil_iff]
      rfl
    | _ => rfl

/-- Labels give a name as soon as an argument has one. -/
theorem joinedArguments_of_labelled {call : Node} (callee : Node)
    (h : ∃ a ∈ call.children "arguments", Labelled a) :
    joinedArguments call callee
      = String.intercalate "," ((call.children "arguments").map fun a => (label? a).getD "") := by
  have anyLabel : ((call.children "arguments").map label?).any Option.isSome = true := by
    rw [List.any_map, List.any_eq_true]
    obtain ⟨a, member, labelled⟩ := h
    exact ⟨a, member, (isSome_label?_iff a).2 labelled⟩
  unfold joinedArguments
  rw [if_pos anyLabel, List.map_map]
  rfl

/-- Without a label the types that count give it, if there are any. -/
theorem joinedArguments_of_unlabelled {call : Node} (callee : Node)
    (h : ∀ a ∈ call.children "arguments", ¬ Labelled a) :
    joinedArguments call callee
      = if typesOf call callee = [] then unknownName
        else String.intercalate "," ((typesOf call callee).map typeLabel) := by
  have noLabel : ¬ ((call.children "arguments").map label?).any Option.isSome = true := by
    rw [List.any_map, List.any_eq_true]
    intro ⟨a, member, labelled⟩
    exact h a member ((isSome_label?_iff a).1 labelled)
  unfold joinedArguments typesOf
  -- the callee is asked only where the call notes nothing
  rw [if_neg noLabel, argumentTypes?_eq, argumentTypes?_eq]
  by_cases own : notedTypes call = []
  · rw [if_pos own, if_pos own]
    by_cases other : notedTypes callee = []
    · rw [if_pos other, if_pos other]
      rfl
    · rw [if_neg other, if_neg other]
      rfl
  · rw [if_neg own, if_neg own, if_neg own]
    rfl

/-! ## §3. Names without text -/

/-- Texts of which one is not empty do not join to nothing. -/
theorem intercalate_ne_empty {parts : List String} (h : ∃ part ∈ parts, part ≠ "") :
    String.intercalate "," parts ≠ "" := by
  obtain ⟨part, member, filled⟩ := h
  cases parts with
  | nil => cases member
  | cons first rest =>
    cases rest with
    | nil =>
      rw [String.intercalate_singleton, ← List.mem_singleton.1 member]
      exact filled
    | cons second rest =>
      -- there is a comma at least
      rw [String.intercalate_cons_cons]
      intro empty
      have comma : ',' ∈ (first ++ "," ++ String.intercalate "," (second :: rest)).toList := by
        rw [String.toList_append, String.toList_append]
        exact List.mem_append_left _ (List.mem_append_right _ (.head _))
      rw [empty] at comma
      cases comma

/-- Empty texts join to the commas between them. -/
theorem intercalate_replicate_empty (n : Nat) :
    String.intercalate "," (List.replicate (n + 1) "") = String.ofList (List.replicate n ',') := by
  induction n with
  | zero => rfl
  | succ n ih =>
    show String.intercalate "," ("" :: "" :: List.replicate n "") = _
    rw [String.intercalate_cons_cons]
    show "" ++ "," ++ String.intercalate "," (List.replicate (n + 1) "") = _
    rw [ih, List.replicate_succ, String.ofList_cons]
    rfl

/-- What could be a name is not empty, unless it is types without text. -/
theorem joinedArguments_ne_empty {call callee : Node}
    (h : (∃ a ∈ call.children "arguments", Labelled a)
      ∨ typesOf call callee = [] ∨ ∃ type ∈ typesOf call callee, typeLabel type ≠ "") :
    joinedArguments call callee ≠ "" := by
  by_cases labelled : ∃ a ∈ call.children "arguments", Labelled a
  · rw [joinedArguments_of_labelled callee labelled]
    obtain ⟨a, member, hasLabel⟩ := labelled
    obtain ⟨text, label⟩ := Option.isSome_iff_exists.1 ((isSome_label?_iff a).2 hasLabel)
    refine intercalate_ne_empty ⟨text, List.mem_map.2 ⟨a, member, by rw [label]; rfl⟩, ?_⟩
    intro empty
    exact label?_ne_empty a (empty ▸ label)
  · have unlabelled : ∀ a ∈ call.children "arguments", ¬ Labelled a := by
      intro a member hasLabel
      exact labelled ⟨a, member, hasLabel⟩
    rw [joinedArguments_of_unlabelled callee unlabelled]
    rcases h.resolve_left labelled with untyped | ⟨type, member, filled⟩
    · rw [if_pos untyped]
      decide
    · rw [if_neg (List.ne_nil_of_mem member)]
      exact intercalate_ne_empty ⟨_, List.mem_map_of_mem member, filled⟩

/-- Neither an argument nor a type that counts has a text. -/
structure Nameless (call callee : Node) : Prop where
  unlabelled : ∀ a ∈ call.children "arguments", ¬ Labelled a
  untyped : ∀ type ∈ typesOf call callee, typeLabel type = ""

/-- No argument has a label, and there are types that count, all of them without a text. -/
structure BlankTyped (call callee : Node) : Prop where
  unlabelled : ∀ a ∈ call.children "arguments", ¬ Labelled a
  typed : typesOf call callee ≠ []
  blank : ∀ type ∈ typesOf call callee, type ∈ blankTypes

/-- Types without a text give the commas between them. -/
theorem joinedArguments_of_blankTyped {call callee : Node} (h : BlankTyped call callee) :
    joinedArguments call callee
      = String.ofList (List.replicate ((typesOf call callee).length - 1) ',') := by
  rw [joinedArguments_of_unlabelled callee h.unlabelled, if_neg h.typed]
  have empty : (typesOf call callee).map typeLabel
      = List.replicate (typesOf call callee).length "" := by
    rw [List.eq_replicate_iff, List.length_map, List.forall_mem_map]
    exact ⟨rfl, fun type member => (typeLabel_eq_empty_iff type).2 (h.blank type member)⟩
  have positive : (typesOf call callee).length = (typesOf call callee).length - 1 + 1 := by
    have := List.length_pos_iff.2 h.typed
    omega
  rw [empty, positive]
  exact intercalate_replicate_empty _

/-- Unless types without a text are all there is, something has a text or nothing is noted. -/
theorem text_or_nothing_of_not_blankTyped {call callee : Node} (h : ¬ BlankTyped call callee) :
    (∃ a ∈ call.children "arguments", Labelled a)
      ∨ typesOf call callee = [] ∨ ∃ type ∈ typesOf call callee, typeLabel type ≠ "" := by
  by_contra neither
  rw [not_or, not_or] at neither
  obtain ⟨unlabelled, typed, blank⟩ := neither
  refine h ⟨fun a member hasLabel => unlabelled ⟨a, member, hasLabel⟩, typed, fun type member => ?_⟩
  by_contra filled
  exact blank ⟨type, member, fun empty => filled ((typeLabel_eq_empty_iff type).1 empty)⟩

/-- Without any text there are types without a text, or none at all. -/
theorem Nameless.joinedArguments_eq {call callee : Node} (h : Nameless call callee)
    (unblank : ¬ BlankTyped call callee) : joinedArguments call callee = unknownName := by
  have untyped : typesOf call callee = [] := by
    by_contra typed
    refine unblank ⟨h.unlabelled, typed, fun type member => ?_⟩
    exact (typeLabel_eq_empty_iff type).1 (h.untyped type member)
  rw [joinedArguments_of_unlabelled callee h.unlabelled, if_pos untyped]

theorem BlankTyped.nameless {call callee : Node} (h : BlankTyped call callee) :
    Nameless call callee where
  unlabelled := h.unlabelled
  untyped type member := (typeLabel_eq_empty_iff type).2 (h.blank type member)

/-- The name for what has none is not made of commas. -/
theorem commas_ne_unknownName (n : Nat) : String.ofList (List.replicate n ',') ≠ unknownName := by
  intro same
  have letter : 'U' ∈ (String.ofList (List.replicate n ',')).toList := by
    rw [same]
    decide
  rw [String.toList_ofList] at letter
  cases List.eq_of_mem_replicate letter

/-- **Arguments give a name that is not empty, and the one for what has none where nothing has a
text, exactly unless there is no label and all types that count are without text.** Then the name is
the commas between the types. It is empty exactly if there is one such type. -/
theorem joinedArguments_usable_iff (call callee : Node) :
    ((joinedArguments call callee ≠ ""
        ∧ (Nameless call callee → joinedArguments call callee = unknownName))
      ↔ ¬ BlankTyped call callee)
    ∧ (BlankTyped call callee → joinedArguments call callee
        = String.ofList (List.replicate ((typesOf call callee).length - 1) ','))
    ∧ (joinedArguments call callee = ""
      ↔ BlankTyped call callee ∧ (typesOf call callee).length = 1) := by
  refine ⟨⟨?_, ?_⟩, joinedArguments_of_blankTyped, ⟨?_, ?_⟩⟩
  · intro ⟨_, known⟩ blank
    have commas := joinedArguments_of_blankTyped blank
    rw [known blank.nameless] at commas
    exact commas_ne_unknownName _ commas.symm
  · intro typed
    refine ⟨joinedArguments_ne_empty (text_or_nothing_of_not_blankTyped typed), ?_⟩
    intro nameless
    exact nameless.joinedArguments_eq typed
  · intro empty
    have blank : BlankTyped call callee := by
      by_contra typed
      exact joinedArguments_ne_empty (text_or_nothing_of_not_blankTyped typed) empty
    rw [joinedArguments_of_blankTyped blank, String.ofList_eq_empty_iff,
      List.replicate_eq_nil_iff] at empty
    have positive := List.length_pos_iff.2 blank.typed
    exact ⟨blank, by omega⟩
  · intro ⟨blank, one⟩
    rw [joinedArguments_of_blankTyped blank, one]
    rfl

/-- A call with one argument, a string literal. -/
def literalCall (value : String) : Node where
  fields := [
    ("arguments", .array [.object [
      ("kind", .string "string"), ("nodeType", .string "Literal"), ("value", .string value)]]),
    ("nodeType", .string "FunctionCall")]
  nodeType := "FunctionCall"
  typed := rfl

/-- A callee that notes one argument type. -/
def typedCallee (type : String) : Node where
  fields := [
    ("argumentTypes", .array [.object [("typeString", .string type)]]),
    ("memberName", .string "typed_bug"), ("nodeType", .string "MemberAccess")]
  nodeType := "MemberAccess"
  typed := rfl

/-- A string literal that is empty, with the type that a compiler notes for it, gives no name. -/
theorem joinedArguments_usable_iff_emptyLiteral :
    BlankTyped (literalCall "") (typedCallee "literal_string \"\"")
    ∧ (typesOf (literalCall "") (typedCallee "literal_string \"\"")).length = 1
    ∧ joinedArguments (literalCall "") (typedCallee "literal_string \"\"") = "" := by
  have blank : BlankTyped (literalCall "") (typedCallee "literal_string \"\"") :=
    ⟨by decide, by decide, by decide⟩
  have one : (typesOf (literalCall "") (typedCallee "literal_string \"\"")).length = 1 := by
    decide
  exact ⟨blank, one, (joinedArguments_usable_iff _ _).2.2.2 ⟨blank, one⟩⟩

/-- **There is not always a name**: a call with the empty string literal for its argument has an
empty one. -/
theorem joinedArguments_not_always_usable :
    ¬ ∀ call callee : Node, joinedArguments call callee ≠ ""
      ∧ (Nameless call callee → joinedArguments call callee = unknownName) := by
  intro always
  have empty : joinedArguments (literalCall "") (typedCallee "literal_string \"\"") = "" := by
    decide +kernel
  exact (always _ _).1 empty

end FuzzBundle.Invariant
