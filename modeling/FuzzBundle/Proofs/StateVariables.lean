/-
  FuzzBundle.Proofs.StateVariables — state variables, as they are printed.

  A declaration is printed as words with one blank between them. The payable address takes two, a
  list of what is overridden may take more, and everything else is one word. So the name is what
  follows the last blank, the type and the visibility are what stands in front of the first ones,
  and a first letter tells the words between them apart. What a declaration says about storage is no
  word of it: two declarations that differ in nothing else are printed alike.

  Main statement: `stateVariable_eq_iff`.
-/
import FuzzBundle.Proofs.Lines
import FuzzBundle.Solidity.Writer

namespace FuzzBundle.Solidity

/-! ## §1. What a state variable declares -/

/-- A text that can be told apart in a list of words: some characters, and among them no blank, no
comma and no equals sign. -/
def IsPlain (s : String) : Prop := s ≠ "" ∧ s.toList.all (fun c => c ∉ [' ', ',', '=']) = true

instance (s : String) : Decidable (IsPlain s) := inferInstanceAs (Decidable (_ ∧ _))

/-- A name, or another text of one word. -/
abbrev Plain := { s : String // IsPlain s }

/-- The type of a variable: one word, or the payable address, which takes two. -/
inductive VariableType where
  | word (name : Plain)
  | payableAddress
  deriving DecidableEq

def VariableType.words : VariableType → List String
  | .word name => [name]
  | .payableAddress => ["address", "payable"]

def visibilities : List String := ["public", "internal", "private"]

abbrev Visibility := { s : String // s ∈ visibilities }

inductive Mutability where
  | mutable
  | constant
  | immutable
  deriving DecidableEq

/-- The word for it, if it is written. -/
def Mutability.words : Mutability → List String
  | .mutable => []
  | .constant => ["constant"]
  | .immutable => ["immutable"]

inductive StorageLocation where
  | default
  | transient
  deriving DecidableEq

def StorageLocation.word : StorageLocation → String
  | .default => "default"
  | .transient => "transient"

/-- All that the declaration of a state variable says. -/
structure StateVariable where
  type : VariableType
  visibility : Visibility
  mutability : Mutability
  location : StorageLocation
  /-- what it overrides, where it says so, perhaps without names -/
  overrides : Option (List Plain)
  name : Plain
  value : Option String
  deriving DecidableEq

/-- A node says whether its variable can change. Trees without the word carry a flag. -/
def Mutability.At : Mutability → Node → Prop
  | .mutable, n => n.string? "mutability" = some "mutable"
      ∨ n.string? "mutability" = none ∧ n.flag "constant" = false
  | .constant, n => n.string? "mutability" = some "constant"
      ∨ n.string? "mutability" = none ∧ n.flag "constant" = true
  | .immutable, n => n.string? "mutability" = some "immutable"

/-- The text for what is overridden. -/
def overrideText (names : List Plain) : String :=
  if names = [] then "override" else "override(" ++ commaList (names.map (·.val)) ++ ")"

/-- A node declares a state variable. Its type, the names that it overrides and its value are texts
that the writer prints. -/
structure Declares (w : Writer) (n : Node) (v : StateVariable) : Prop where
  type : n.HasChild "typeName" fun type => w.typeName type = words v.type.words
  visibility : n.string "visibility" = v.visibility.val
  mutability : v.mutability.At n
  location : n.string "storageLocation" = v.location.word
  overrides : match v.overrides with
    | none => n.child? "overrides" = none
    | some names => n.HasChild "overrides" fun specifier =>
        (specifier.children "overrides").map w.typeName = names.map (·.val)
  name : n.name = v.name
  value : (n.child? "value").map w.expression = v.value

/-! ## §2. The text of a state variable -/

namespace StateVariable

/-- The words between visibility and name. -/
def marks (v : StateVariable) : List String :=
  v.mutability.words ++ (v.overrides.map overrideText).toList

/-- The words in front of the name. -/
def front (v : StateVariable) : List String :=
  v.type.words ++ v.visibility.val :: v.marks

/-- The text in front of the value. -/
def declaration (v : StateVariable) : String := words (v.front ++ [v.name.val])

def text (v : StateVariable) : String :=
  match v.value with
  | some value => v.declaration ++ " = " ++ value ++ ";"
  | none => v.declaration ++ ";"

end StateVariable

section

variable {w : Writer} {n : Node} {v v' : StateVariable}

theorem Mutability.At.words {m : Mutability} (h : m.At n) :
    (variableMutability? n).toList = m.words := by
  unfold variableMutability?
  cases m with
  | mutable => obtain word | ⟨none, flag⟩ := h <;> simp [*, Mutability.words]
  | constant => obtain word | ⟨none, flag⟩ := h <;> simp [*, Mutability.words]
  | immutable =>
    have h : n.string? "mutability" = some "immutable" := h
    simp [h, Mutability.words]

theorem Declares.overrideWords (h : Declares w n v) :
    (Inner.child? w.print .overrides n "overrides").toList
      = (v.overrides.map overrideText).toList := by
  have overrides := h.overrides
  unfold Inner.child?
  cases eq : v.overrides with
  | none =>
    rw [eq] at overrides
    rw [show n.child? "overrides" = none from overrides]
    rfl
  | some names =>
    rw [eq] at overrides
    obtain ⟨specifier, child, printed⟩ := overrides
    have printed : Inner.children w.print .typeName specifier "overrides" = names.map (·.val) :=
      printed
    rw [child, Option.map_some, Option.map_some, w.print_eq, layout, overrideLayout, printed,
      overrideText]
    simp only [List.isEmpty_iff, List.map_eq_nil_iff]

theorem visible_ne_empty : ∀ s ∈ visibilities, s ≠ "" := by decide

/-- Words that are put together first. -/
theorem words_words_cons {first rest : List String} (present : first ≠ []) (more : rest ≠ []) :
    words (words first :: rest) = words (first ++ rest) := by
  simp only [words]
  rw [String.intercalate_cons_of_ne_nil more, String.intercalate_append_of_ne_nil present more]

theorem Declares.declaration (h : Declares w n v) :
    words ([declaredType w.print n] ++ unlessEmpty (n.string "visibility")
      ++ (variableMutability? n).toList ++ (Inner.child? w.print .overrides n "overrides").toList
      ++ [n.name]) = v.declaration := by
  have type : declaredType w.print n = words v.type.words := by
    obtain ⟨type, child, printed⟩ := h.type
    rw [declaredType, Inner.child?, child]
    exact printed
  have visibility : unlessEmpty (n.string "visibility") = [v.visibility.val] := by
    rw [h.visibility, unlessEmpty, if_neg (visible_ne_empty _ v.visibility.2)]
  have present : v.type.words ≠ [] := by cases v.type <;> simp [VariableType.words]
  rw [type, visibility, h.mutability.words, h.overrideWords, h.name, StateVariable.declaration,
    StateVariable.front, StateVariable.marks]
  simp only [List.append_assoc, List.cons_append]
  exact words_words_cons present (List.cons_ne_nil _ _)

theorem Declares.text (h : Declares w n v) : w.stateVariable n = v.text := by
  unfold Writer.stateVariable stateVariableLayout withInitializer
  have value : Inner.child? w.print .expression n "value" = v.value := h.value
  rw [h.declaration, value]
  rfl

end

/-! ## §3. Reading a declaration back -/

/-- No sign that separates words or texts is in a plain text. -/
theorem IsPlain.notMem {s : String} (h : IsPlain s) {c : Char} (hc : c ∈ [' ', ',', '=']) :
    c ∉ s.toList :=
  fun member => of_decide_eq_true (List.all_eq_true.1 h.2 c member) hc

theorem visible_notMem : ∀ s ∈ visibilities, ∀ c ∈ [' ', '='], c ∉ s.toList := by
  simp [visibilities]

/-- The first word of a list of words, and the others. -/
theorem words_cons_inj {s s' : String} {rest rest' : List String} (first : ' ' ∉ s.toList)
    (first' : ' ' ∉ s'.toList) (h : words (s :: rest) = words (s' :: rest')) :
    s = s' ∧ words rest = words rest' :=
  (Text.intercalate_cons_inj rfl first first' h).imp_right And.right

theorem head?_words_cons {s : String} (filled : s ≠ "") (rest : List String) :
    (words (s :: rest)).toList.head? = s.toList.head? := by
  have chars : s.toList ≠ [] := fun empty => filled (String.toList_eq_nil_iff.1 empty)
  cases rest with
  | nil => rw [words, String.intercalate_singleton]
  | cons next rest =>
    rw [words, String.intercalate_cons_cons, String.append_assoc, String.toList_append,
      List.head?_append_of_ne_nil _ chars]

/-- What is overridden is read off its text. -/
theorem overrideText_inj {names names' : List Plain}
    (h : overrideText names = overrideText names') : names = names' := by
  have longer (listed : String) : "override" ≠ "override(" ++ listed ++ ")" := by
    intro eq
    have lengths := congrArg (fun s : String => s.toList.length) eq
    simp only [String.toList_append, List.length_append] at lengths
    have shorter : "override".toList.length < "override(".toList.length := by decide
    omega
  have apart (names : List Plain) : ∀ name ∈ names.map (·.val), ',' ∉ name.toList := by
    intro name member
    obtain ⟨plain, -, rfl⟩ := List.mem_map.1 member
    exact plain.2.notMem (by decide)
  unfold overrideText at h
  by_cases none : names = [] <;> by_cases none' : names' = []
  · rw [none, none']
  · rw [if_pos none, if_neg none'] at h
    exact absurd h (longer _)
  · rw [if_neg none, if_pos none'] at h
    exact absurd h.symm (longer _)
  · rw [if_neg none, if_neg none'] at h
    have chars := congrArg String.toList h
    simp only [String.toList_append] at chars
    have listed := String.toList_inj.1 (List.append_cancel_left (List.append_cancel_right chars))
    have same := Text.intercalate_inj rfl (apart names) (apart names')
      (iff_of_false (mt List.map_eq_nil_iff.1 none) (mt List.map_eq_nil_iff.1 none')) listed
    exact List.map_injective_iff.2 Subtype.val_injective same

theorem head?_overrideText (names : List Plain) : (overrideText names).toList.head? = some 'o' := by
  unfold overrideText
  split
  · decide
  · rw [String.append_assoc, String.toList_append, List.head?_append_of_ne_nil _ (by decide)]
    decide

/-- Which mutability the first character of the words behind the visibility tells. -/
def Mutability.ofFirst : Option Char → Mutability
  | some 'c' => .constant
  | some 'i' => .immutable
  | _ => .mutable

namespace StateVariable

variable {v v' : StateVariable}

theorem ofFirst_marks (v : StateVariable) :
    Mutability.ofFirst (words v.marks).toList.head? = v.mutability := by
  unfold marks
  cases v.mutability with
  | constant =>
    rw [Mutability.words, List.singleton_append, head?_words_cons (by decide)]
    decide
  | immutable =>
    rw [Mutability.words, List.singleton_append, head?_words_cons (by decide)]
    decide
  | mutable =>
    cases v.overrides with
    | none => decide
    | some names =>
      show Mutability.ofFirst (words [overrideText names]).toList.head? = .mutable
      rw [words, String.intercalate_singleton, head?_overrideText]
      decide

theorem overrides_inj {overrides overrides' : Option (List Plain)}
    (h : words (overrides.map overrideText).toList = words (overrides'.map overrideText).toList) :
    overrides = overrides' := by
  have some (names : List Plain) : words [overrideText names] ≠ words [] := by
    intro empty
    have first := head?_overrideText names
    rw [words, String.intercalate_singleton] at empty
    rw [empty] at first
    cases first
  cases overrides with
  | none =>
    cases overrides' with
    | none => rfl
    | some names' => exact absurd h.symm (some names')
  | some names =>
    cases overrides' with
    | none => exact absurd h (some names)
    | some names' =>
      have text : words [overrideText names] = words [overrideText names'] := h
      rw [words, words, String.intercalate_singleton, String.intercalate_singleton] at text
      rw [overrideText_inj text]

theorem marks_inj (h : words v.marks = words v'.marks) :
    v.mutability = v'.mutability ∧ v.overrides = v'.overrides := by
  have mutability : v.mutability = v'.mutability := by
    rw [← ofFirst_marks v, ← ofFirst_marks v', h]
  -- the same word for it, or none, goes in front of what is overridden on both sides
  refine ⟨mutability, overrides_inj ?_⟩
  unfold marks at h
  rw [← mutability] at h
  cases m : v.mutability with
  | mutable => simpa [m, Mutability.words] using h
  | constant =>
    rw [m] at h
    exact (words_cons_inj (by decide) (by decide) h).2
  | immutable =>
    rw [m] at h
    exact (words_cons_inj (by decide) (by decide) h).2

theorem front_inj (h : words v.front = words v'.front) :
    v.type = v'.type ∧ v.visibility = v'.visibility ∧ words v.marks = words v'.marks := by
  have visibility (v : StateVariable) : ' ' ∉ v.visibility.val.toList :=
    visible_notMem _ v.visibility.2 ' ' (by decide)
  have word (name : Plain) : ' ' ∉ name.val.toList := name.2.notMem (by decide)
  -- no visibility is the second word of the payable address
  have other (v : StateVariable) : "payable" ≠ v.visibility.val :=
    fun eq => absurd (eq ▸ v.visibility.2) (by decide)
  unfold front at h
  cases type : v.type with
  | word name =>
    cases type' : v'.type with
    | word name' =>
      rw [type, type'] at h
      obtain ⟨name, rest⟩ := words_cons_inj (word _) (word _) h
      obtain ⟨shown, rest⟩ := words_cons_inj (visibility v) (visibility v') rest
      exact ⟨by rw [Subtype.ext name], Subtype.ext shown, rest⟩
    | payableAddress =>
      rw [type, type'] at h
      have rest := (words_cons_inj (word _) (by decide) h).2
      exact absurd (words_cons_inj (visibility v) (by decide) rest).1.symm (other v)
  | payableAddress =>
    cases type' : v'.type with
    | word name' =>
      rw [type, type'] at h
      have rest := (words_cons_inj (by decide) (word _) h).2
      exact absurd (words_cons_inj (by decide) (visibility v') rest).1 (other v')
    | payableAddress =>
      rw [type, type'] at h
      have rest := (words_cons_inj (by decide) (by decide) h).2
      have rest := (words_cons_inj (by decide) (by decide) rest).2
      obtain ⟨shown, rest⟩ := words_cons_inj (visibility v) (visibility v') rest
      exact ⟨rfl, Subtype.ext shown, rest⟩

theorem notMem_overrideText (names : List Plain) : '=' ∉ (overrideText names).toList := by
  unfold overrideText
  split
  · decide
  · rw [String.toList_append, String.toList_append, List.mem_append, List.mem_append]
    rintro ((opens | listed) | closes)
    · exact absurd opens (by decide)
    · obtain separates | ⟨name, member, inName⟩ := Text.mem_intercalate listed
      · exact absurd separates (by decide)
      · obtain ⟨plain, -, rfl⟩ := List.mem_map.1 member
        exact plain.2.notMem (by decide) inName
    · exact absurd closes (by decide)

/-- The first equals sign of a state variable is in front of its value. -/
theorem notMem_declaration (v : StateVariable) : '=' ∉ v.declaration.toList := by
  have type : ∀ word ∈ v.type.words, '=' ∉ word.toList := by
    cases v.type with
    | word name => simpa [VariableType.words] using name.2.notMem (by decide)
    | payableAddress => decide
  have mutability : ∀ word ∈ v.mutability.words, '=' ∉ word.toList := by
    cases v.mutability <;> decide
  intro member
  obtain separates | ⟨word, isWord, inWord⟩ := Text.mem_intercalate member
  · exact absurd separates (by decide)
  simp only [front, marks, List.append_assoc, List.cons_append, List.mem_append, List.mem_cons,
    List.not_mem_nil, or_false, Option.mem_toList, Option.map_eq_some_iff] at isWord
  obtain isType | rfl | isMutability | ⟨names, -, rfl⟩ | rfl := isWord
  · exact type word isType inWord
  · exact visible_notMem _ v.visibility.2 '=' (by decide) inWord
  · exact mutability word isMutability inWord
  · exact notMem_overrideText names inWord
  · exact v.name.2.notMem (by decide) inWord

theorem declaration_inj (h : v.declaration = v'.declaration) :
    words v.front = words v'.front ∧ v.name = v'.name := by
  have cut (v : StateVariable) :
      v.declaration.toList = (words v.front).toList ++ ' ' :: v.name.val.toList := by
    have present : v.front ≠ [] := List.append_ne_nil_of_right_ne_nil _ (List.cons_ne_nil _ _)
    rw [declaration, words, String.intercalate_append_of_ne_nil present (List.cons_ne_nil _ _),
      String.intercalate_singleton, String.toList_append, String.toList_append, List.append_assoc]
    rfl
  have chars := congrArg String.toList h
  rw [cut, cut] at chars
  -- the name is one word, so it is all that follows the last blank
  obtain ⟨front, name⟩ := append_cons_inj_of_notMem_right (v.name.2.notMem (by decide))
    (v'.name.2.notMem (by decide)) chars
  exact ⟨String.toList_inj.1 front, Subtype.ext (String.toList_inj.1 name)⟩

theorem text_inj (h : v.text = v'.text) : v.declaration = v'.declaration ∧ v.value = v'.value := by
  have valued (v : StateVariable) (e : String) : (v.declaration ++ " = " ++ e ++ ";").toList
      = (v.declaration.toList ++ [' ']) ++ '=' :: ' ' :: (e.toList ++ [';']) := by
    simp
  have before (v : StateVariable) : '=' ∉ v.declaration.toList ++ [' '] := by
    simpa using notMem_declaration v
  have plain (v : StateVariable) : '=' ∉ (v.declaration ++ ";").toList := by
    simpa using notMem_declaration v
  have chars := congrArg String.toList h
  unfold text at chars
  -- there is an equals sign exactly if there is a value, and the first one stands before it
  cases value : v.value with
  | none =>
    rw [value] at chars
    cases value' : v'.value with
    | none =>
      rw [value'] at chars
      simp only [String.toList_append] at chars
      exact ⟨String.toList_inj.1 (List.append_cancel_right chars), rfl⟩
    | some e' =>
      simp only [value', valued] at chars
      exact absurd (chars ▸ List.mem_append_right _ List.mem_cons_self) (plain v)
  | some e =>
    cases value' : v'.value with
    | none =>
      simp only [value, value', valued] at chars
      exact absurd (chars ▸ List.mem_append_right _ List.mem_cons_self) (plain v')
    | some e' =>
      simp only [value, value', valued] at chars
      obtain ⟨front, back⟩ := append_cons_inj_of_notMem_left (before v) (before v') chars
      have same := List.append_cancel_right (List.cons.inj back).2
      exact ⟨String.toList_inj.1 (List.append_cancel_right front), by rw [String.toList_inj.1 same]⟩

theorem text_eq_iff : v.text = v'.text ↔ { v with location := v'.location } = v' := by
  constructor
  · intro h
    obtain ⟨declaration, value⟩ := text_inj h
    obtain ⟨front, name⟩ := declaration_inj declaration
    obtain ⟨type, visibility, marks⟩ := front_inj front
    obtain ⟨mutability, overrides⟩ := marks_inj marks
    obtain ⟨_, _, _, _, _, _, _⟩ := v
    obtain ⟨_, _, _, _, _, _, _⟩ := v'
    simp_all
  · intro h
    rw [← h]
    rfl

end StateVariable

/-- **Two state variables are printed alike exactly if they differ in nothing but where they are
stored.** -/
theorem stateVariable_eq_iff (w : Writer) {n n' : Node} {v v' : StateVariable}
    (h : Declares w n v) (h' : Declares w n' v') :
    w.stateVariable n = w.stateVariable n' ↔ { v with location := v'.location } = v' := by
  rw [h.text, h'.text]
  exact StateVariable.text_eq_iff

/-- The type of the variables below. -/
def numberType : Node where
  fields := [("name", .string "uint256"), ("nodeType", .string "ElementaryTypeName")]
  nodeType := "ElementaryTypeName"
  typed := rfl

/-- What overrides the members of two contracts. -/
def twoOverridden : Node where
  fields := [("nodeType", .string "OverrideSpecifier"), ("overrides", .array [
    .ofFields [("name", .string "A"), ("nodeType", .string "IdentifierPath")],
    .ofFields [("name", .string "B"), ("nodeType", .string "IdentifierPath")]])]
  nodeType := "OverrideSpecifier"
  typed := rfl

/-- A public variable, stored somewhere, with something that it overrides. -/
def counterNode (location : StorageLocation) (overrides : Json) : Node where
  fields := [("mutability", .string "mutable"), ("name", .string "x"),
    ("nodeType", .string "VariableDeclaration"), ("overrides", overrides),
    ("stateVariable", .bool true), ("storageLocation", .string location.word),
    ("typeName", numberType.toJson), ("visibility", .string "public")]
  nodeType := "VariableDeclaration"
  typed := rfl

/-- What such a node declares. -/
def counter (location : StorageLocation) (overrides : Option (List Plain)) : StateVariable where
  type := .word ⟨"uint256", by decide⟩
  visibility := ⟨"public", by decide⟩
  mutability := .mutable
  location := location
  overrides := overrides
  name := ⟨"x", by decide⟩
  value := none

theorem declares_counterNode (location : StorageLocation) :
    Declares {} (counterNode location .null) (counter location none) := by
  cases location <;> exact
    ⟨⟨numberType, by decide +kernel, by decide +kernel⟩, by decide +kernel,
      .inl (by decide +kernel), by decide +kernel, (by decide +kernel : Node.child? _ _ = none),
      by decide +kernel, by decide +kernel⟩

theorem declares_overriding :
    Declares {} (counterNode .default twoOverridden.toJson)
      (counter .default (some [⟨"A", by decide⟩, ⟨"B", by decide⟩])) :=
  ⟨⟨numberType, by decide +kernel, by decide +kernel⟩, by decide +kernel,
    .inl (by decide +kernel), by decide +kernel,
    ⟨twoOverridden, by decide +kernel, by decide +kernel⟩, by decide +kernel, by decide +kernel⟩

/-- A variable that overrides others is told apart from one that does not, wherever it is stored. -/
theorem stateVariable_eq_iff_overriding :
    Declares {} (counterNode .default twoOverridden.toJson)
        (counter .default (some [⟨"A", by decide⟩, ⟨"B", by decide⟩]))
      ∧ Declares {} (counterNode .transient .null) (counter .transient none)
      ∧ ({} : Writer).stateVariable (counterNode .default twoOverridden.toJson)
        = "uint256 public override(A, B) x;"
      ∧ ({} : Writer).stateVariable (counterNode .default twoOverridden.toJson)
        ≠ ({} : Writer).stateVariable (counterNode .transient .null) :=
  ⟨declares_overriding, declares_counterNode .transient, by decide +kernel,
    (stateVariable_eq_iff {} declares_overriding (declares_counterNode .transient)).not.2
      (by decide)⟩

/-- A transient variable is printed as one that is not. -/
theorem not_always_told_apart :
    ¬ ∀ (w : Writer) (n n' : Node) (v v' : StateVariable), Declares w n v → Declares w n' v' →
        v ≠ v' → w.stateVariable n ≠ w.stateVariable n' := by
  intro always
  exact always {} _ _ _ _ (declares_counterNode .default) (declares_counterNode .transient)
    (by decide) (by decide +kernel)

end FuzzBundle.Solidity
