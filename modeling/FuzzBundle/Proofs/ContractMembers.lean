/-
  FuzzBundle.Proofs.ContractMembers — what becomes of the members of a contract.

  Every member of a contract has one place: state variables, functions and modifiers each have a
  list, in the order of the source, and all other members are texts in the header, group by group
  (`Projection.Partitioned`). Of the members nothing else counts than which there are of each kind,
  and in which order (`Projection.ofContract_congr`).

  A contract is printed with the texts of its members one after the other (`printedTexts`), each
  comment right before what it documents. Its body is the lines of these texts, moved to the right,
  and moving them back gives the lines again (`ContractProjection.unindented_body`).

  Main statement: `Projection.ofContract_partitioned`.
-/
import FuzzBundle.Proofs.Documentation
import FuzzBundle.Proofs.Headers

namespace FuzzBundle

/-! ## §1. Texts of a contract -/

/-- A declaration with the comment before it, if it is documented. -/
def documentedTexts (docs text : String) : List String :=
  if docs = "" then [text] else [commented docs, text]

theorem withDocs_eq_joinLines (docs text : String) :
    withDocs docs text = Text.joinLines (documentedTexts docs text) := by
  unfold withDocs documentedTexts
  split <;> simp [Text.joinLines]

namespace ContractProjection

variable (c : ContractProjection)

/-- The texts that are printed for each member of a contract, in the order in which they stand: the
header, the state variables, the modifiers and the functions. -/
def memberTexts : List (List String) :=
  (if c.header = "" then [] else [[c.header]])
    ++ c.stateVariables.map (fun v => documentedTexts v.docs v.body)
    ++ c.modifiers.map (fun text => [text])
    ++ c.functions.map (fun f => documentedTexts f.docs f.source)

/-- All texts that are printed in a contract, one after the other. -/
def printedTexts : List String := c.memberTexts.flatten

/-- The body of a contract between its braces. -/
def body : String := Text.joinLines c.bodyLines

theorem memberTexts_ne_nil : ∀ texts ∈ c.memberTexts, texts ≠ [] := by
  have documented (docs text : String) : documentedTexts docs text ≠ [] := by
    unfold documentedTexts
    split <;> exact List.cons_ne_nil _ _
  intro texts mem
  simp only [memberTexts, List.mem_append, List.mem_map] at mem
  rcases mem with ((header | ⟨v, -, rfl⟩) | ⟨text, -, rfl⟩) | ⟨f, -, rfl⟩
  · split at header
    · cases header
    · rw [List.mem_singleton.1 header]
      exact List.cons_ne_nil _ _
  · exact documented v.docs v.body
  · exact List.cons_ne_nil _ _
  · exact documented f.docs f.source

theorem members_eq : c.members = c.memberTexts.map Text.joinLines := by
  have header : (if c.header = "" then [] else [c.header])
      = (if c.header = "" then [] else [[c.header]]).map Text.joinLines := by
    split <;> simp [Text.joinLines]
  rw [members, memberTexts, header]
  simp [List.map_append, withDocs_eq_joinLines, Text.joinLines, Function.comp_def]

/-- A contract without texts has no members. -/
theorem printedTexts_eq_nil_iff : c.printedTexts = [] ↔ c.members = [] := by
  rw [members_eq, List.map_eq_nil_iff, printedTexts, List.flatten_eq_nil_iff]
  constructor
  · intro empty
    exact List.eq_nil_iff_forall_not_mem.2 fun texts mem =>
      c.memberTexts_ne_nil texts mem (empty texts mem)
  · rintro none texts mem
    rw [none] at mem
    cases mem

theorem bodyLines_eq :
    c.bodyLines = (Text.lines (Text.joinLines c.printedTexts)).map Text.indentLine := by
  rw [bodyLines, members_eq, Text.joinLines_groups c.memberTexts_ne_nil, printedTexts]

end ContractProjection

/-! ## §2. Moving lines back -/

theorem Text.dropStart_indentLine (line : String) :
    dropStart indentation (indentLine line) = line := by
  unfold indentLine
  split
  · next empty => rw [empty]; rfl
  · have found : dropStart? indentation.toList (indentation ++ line).toList = some line.toList := by
      rw [dropStart?_eq_some_iff, String.toList_append]
    rw [dropStart, found]
    exact String.ofList_toList

namespace ContractProjection

variable (c : ContractProjection)

/-- The lines of the body of a contract without their indentation. -/
def unindented : List String :=
  (Text.pieces '\n' c.body.toList).map fun line => Text.dropStart "    " (String.ofList line)

/-- **Moved back, the lines of the body are the lines of the texts.** -/
theorem unindented_body (present : Text.joinLines c.printedTexts ≠ "") :
    c.unindented = Text.lines (Text.joinLines c.printedTexts) := by
  have some : c.bodyLines ≠ [] := by
    rw [bodyLines_eq, Ne, List.map_eq_nil_iff]
    exact Text.lines_ne_nil present
  have unbroken : ∀ line ∈ c.bodyLines, '\n' ∉ line.toList := by
    intro line mem
    rw [bodyLines_eq] at mem
    obtain ⟨own, there, rfl⟩ := List.mem_map.1 mem
    obtain ⟨chars, chars_mem, rfl⟩ := List.mem_map.1 there
    have noFeed := (Text.mem_splitLines chars_mem).2
    unfold Text.indentLine
    split
    · simp
    · rw [String.toList_append, String.toList_ofList, List.mem_append, not_or]
      exact ⟨by decide, noFeed⟩
  rw [unindented, body, Text.joinLines, Text.pieces_intercalate rfl some unbroken, List.map_map,
    bodyLines_eq, List.map_map]
  refine (List.map_congr_left fun line _ => ?_).trans (List.map_id _)
  rw [Function.comp_apply, Function.comp_apply, String.ofList_toList]
  exact Text.dropStart_indentLine line

/-- The text of a contract: what documents it, the line that opens it, and its body, which is the
lines of the texts of its members moved to the right. -/
structure Printed : Prop where
  render : c.render = Comment.block c.docs ++ c.opening ++ " "
    ++ if c.printedTexts = [] then "\x7b\x7d" else "\x7b\n" ++ c.body ++ "\n\x7d"
  unindented : Text.joinLines c.printedTexts ≠ "" →
    c.unindented = Text.lines (Text.joinLines c.printedTexts)
  lines : (∀ text ∈ c.printedTexts, Text.EndsPlain text) →
    Text.lines (Text.joinLines c.printedTexts) = c.printedTexts.flatMap Text.lines

theorem printed : c.Printed where
  render := by
    by_cases none : c.members = []
    · rw [if_pos (c.printedTexts_eq_nil_iff.2 none), render, none]
      rfl
    · rw [if_neg (mt c.printedTexts_eq_nil_iff.1 none), c.render_eq none, body]
      apply String.toList_inj.1
      simp
  unindented := c.unindented_body
  lines := Text.lines_joinLines

end ContractProjection

/-! ## §3. Places of members -/

namespace Projection

/-- The kinds of members that a contract may have. -/
def memberKinds : List Kind :=
  [.usingForDirective, .enumDefinition, .userDefinedValueTypeDefinition, .errorDefinition,
    .eventDefinition, .structDefinition, .variableDeclaration, .functionDefinition,
    .modifierDefinition]

/-- The members of a contract that stand in its header: those of one kind after those of another,
and within a kind in the order of the source. -/
def headerMembers (members : List Node) : List Node :=
  grouped Node.kind
    [.usingForDirective, .enumDefinition, .userDefinedValueTypeDefinition, .errorDefinition,
      .eventDefinition, .structDefinition] members

/-- Every member of a contract has one place in its projection. -/
structure Partitioned (w : Writer) (members : List Node) (c : ContractProjection) : Prop where
  stateVariables : c.stateVariables
    = (members.filter (·.kind == .variableDeclaration)).map (ofVariable w)
  functions : c.functions = (members.filter (·.kind == .functionDefinition)).map (ofFunction w)
  modifiers : c.modifiers = (members.filter (·.kind == .modifierDefinition)).map w.write
  header : c.header = Text.joinLines ((headerMembers members).map w.write)
  once : (headerMembers members ++ members.filter (·.kind == .variableDeclaration)
    ++ members.filter (·.kind == .functionDefinition)
    ++ members.filter (·.kind == .modifierDefinition)).Perm members

/-- Every member of a header is printed as some text. -/
theorem write_ne_empty (w : Writer) {m : Node} (h : m.kind ∈ contractHeaderKinds) :
    w.write m ≠ "" := by
  rw [Writer.write, Writer.print_eq, Solidity.layout]
  simp only [contractHeaderKinds, List.mem_cons, List.not_mem_nil, or_false] at h
  unfold Solidity.anyLayout
  -- each begins with its keyword
  rcases h with kind | kind | kind | kind | kind | kind
  · simp [kind, Solidity.usingLayout]
  · simp [kind, Solidity.enumLayout]
  · simp [kind]
  · simp [kind]
  · simp [kind, Solidity.eventLayout]
  · simp [kind, Solidity.structLayout]

theorem headerText_eq_write (w : Writer) {m : Node} (h : m.kind ∈ contractHeaderKinds) :
    headerText w m = w.write m := by
  have other : ∀ kind ∈ contractHeaderKinds, kind ≠ .variableDeclaration := by decide
  exact if_neg (other m.kind h)

theorem partitioned (w : Writer) (n : Node)
    (allowed : ∀ m ∈ n.children "nodes", m.kind ∈ memberKinds) :
    Partitioned w (n.children "nodes") (ofContract w n) where
  stateVariables := rfl
  functions := rfl
  modifiers := rfl
  header := by
    have inHeader : ∀ m ∈ headerMembers (n.children "nodes"), m.kind ∈ contractHeaderKinds := by
      intro m mem
      obtain ⟨kind, known, there⟩ := List.mem_flatMap.1 mem
      rwa [beq_iff_eq.1 (List.mem_filter.1 there).2]
    have texts : (headerMembers (n.children "nodes")).map (headerText w)
        = (headerMembers (n.children "nodes")).map w.write :=
      List.map_congr_left fun m mem => headerText_eq_write w (inHeader m mem)
    show headerOf w n contractHeaderKinds = _
    rw [headerOf_eq, ← texts]
    refine joinPresent_of_present fun text mem => ?_
    obtain ⟨m, there, rfl⟩ := List.mem_map.1 mem
    rw [headerText_eq_write w (inHeader m there)]
    exact write_ne_empty w (inHeader m there)
  once := by
    have distinct : memberKinds.Nodup := by decide
    have all := grouped_perm Node.kind distinct allowed
    simpa [grouped, headerMembers, memberKinds] using all

/-- **Of the members of a contract only those of each kind count**, in their order. -/
theorem ofContract_congr (w : Writer) {n n' : Node}
    (same : ∀ key, key ≠ "nodes" → n'.field? key = n.field? key)
    (members : ∀ kind ∈ memberKinds, n'.membersOf kind = n.membersOf kind) :
    ofContract w n' = ofContract w n := by
  have header : headerOf w n' contractHeaderKinds = headerOf w n contractHeaderKinds := by
    have inHeader : ∀ kind ∈ contractHeaderKinds, kind ∈ memberKinds := by decide
    refine congrArg joinPresent (List.map_congr_left fun kind known => ?_)
    rw [groupText, groupText, members kind (inHeader kind known)]
  simp only [ofContract, Node.name, Node.string, Node.string?, docsOf, Node.value?,
    Writer.contractKind, Node.flag, Node.children, Node.items, header,
    same "name" (by decide), same "documentation" (by decide), same "contractKind" (by decide),
    same "abstract" (by decide), same "baseContracts" (by decide),
    members .modifierDefinition (by decide), members .variableDeclaration (by decide),
    members .functionDefinition (by decide)]

/-- **The projection of a contract has one place for every member**, depends on the members of each
kind alone, and is printed with the text of every member once. -/
theorem ofContract_partitioned (w : Writer) (n : Node)
    (allowed : ∀ m ∈ n.children "nodes", m.kind ∈ memberKinds) :
    Partitioned w (n.children "nodes") (ofContract w n)
      ∧ (∀ n' : Node, (∀ key, key ≠ "nodes" → n'.field? key = n.field? key) →
        (∀ kind ∈ memberKinds, n'.membersOf kind = n.membersOf kind) →
        ofContract w n' = ofContract w n)
      ∧ (ofContract w n).Printed :=
  ⟨partitioned w n allowed, fun _ => ofContract_congr w, (ofContract w n).printed⟩

/-- A contract with a documented function between an event and an error. -/
def vault : Node where
  fields := [("name", .string "Vault"), ("nodeType", .string "ContractDefinition"),
    ("nodes", .array [bareDeclaration "EventDefinition" "Opened",
      Json.ofFields [("documentation", .string "opens it"), ("name", .string "open"),
        ("nodeType", .string "FunctionDefinition")],
      bareDeclaration "ErrorDefinition" "Closed"])]
  nodeType := "ContractDefinition"
  typed := rfl

theorem ofContract_partitioned_vault :
    (ofContract {} vault).header = "error Closed();\nevent Opened();"
      ∧ (ofContract {} vault).unindented
        = ["error Closed();", "event Opened();", "/// opens it", "function open();"] := by
  obtain ⟨places, -, printed⟩ := ofContract_partitioned {} vault (by decide +kernel)
  refine ⟨places.header.trans (by decide +kernel), ?_⟩
  rw [printed.unindented (by decide +kernel)]
  decide +kernel

end Projection

end FuzzBundle
