/-
  FuzzBundle.Proofs.Documentation — documentation is printed as comments, if it looks right.

  Documentation comes as a node, whose text is printed line by line behind `///`, or as a plain
  text. A plain text is commented line by line as well, unless it begins with `//` or `/*`: then it
  counts as a comment already and is printed as it is. That is right only if it is one to its end
  (`Json.SelfContained`), and nothing looks beyond its beginning.

  Lines are comments (`Comment.AreComments`) when each of them begins with `//` or lies within a
  block comment, and no block comment is open behind the last one. Indentation does not matter to
  that (`Comment.areComments_indented`), so it is the same question for a contract, a state variable
  and a function.

  Main statements: `Comment.areComments_block_iff`,
  `ContractProjection.documentation_contained_iff`.
-/
import FuzzBundle.Proofs.Lines
import FuzzBundle.Projection.Render
import FuzzBundle.Solidity.Declaration

namespace FuzzBundle

/-! ## §1. Lines that are comments -/

namespace Comment

/-- What stands behind the first sign that closes a block comment, if there is one. -/
def afterClose? : List Char → Option (List Char)
  | [] => none
  | '*' :: '/' :: rest => some rest
  | _ :: rest => afterClose? rest

/-- Reads a line, or what is left of it, inside a block comment. The comment stays open, or it is
closed and nothing but white space follows. -/
def readBlock? (cs : List Char) : Option Bool :=
  match afterClose? cs with
  | none => some true
  | some rest => if rest.all Char.isWhitespace then some false else none

/-- Reads a line that is comment throughout. A truth value says whether a block comment is open:
first in front of the line, then behind it. -/
def readLine? (inBlock : Bool) (line : String) : Option Bool :=
  if inBlock then readBlock? line.toList
  else
    match line.toList.dropWhile Char.isWhitespace with
    | '/' :: '/' :: _ => some false
    | '/' :: '*' :: rest => readBlock? rest
    | _ => none

/-- Every line begins with `//` or lies within a block comment, and all block comments are
closed. -/
def AreComments (lines : List String) : Prop := lines.foldlM readLine? false = some false

instance (lines : List String) : Decidable (AreComments lines) :=
  inferInstanceAs (Decidable (_ = _))

example : AreComments ["/// a", "/* b", "  c */"] := by decide
example : ¬ AreComments ["// a", "b"] := by decide
example : ¬ AreComments ["/* a */ b"] := by decide
example : ¬ AreComments ["/* a"] := by decide

/-- A blank in front closes no block comment. -/
theorem afterClose?_space (cs : List Char) : afterClose? (' ' :: cs) = afterClose? cs := by
  rw [afterClose?]
  rintro rest ⟨⟩

theorem readLine?_indentLine (inBlock : Bool) (line : String) :
    readLine? inBlock (Text.indentLine line) = readLine? inBlock line := by
  unfold Text.indentLine
  split
  · next h => rw [h]
  · have chars : (Text.indentation ++ line).toList
        = ' ' :: ' ' :: ' ' :: ' ' :: line.toList := by
      rw [String.toList_append]
      rfl
    cases inBlock with
    | true =>
      show readBlock? _ = readBlock? _
      rw [chars, readBlock?, afterClose?_space, afterClose?_space, afterClose?_space,
        afterClose?_space, readBlock?]
    | false =>
      unfold readLine?
      rw [chars]
      rfl

/-- Indented lines are comments when the lines are. -/
theorem areComments_indented (lines : List String) :
    AreComments (lines.map Text.indentLine) ↔ AreComments lines := by
  rw [AreComments, List.foldlM_map, AreComments]
  simp only [readLine?_indentLine]

/-- Lines that begin with `//` are comments one by one. -/
theorem areComments_of_marked {lines : List String}
    (marked : ∀ line ∈ lines, "//".toList <+: line.toList) : AreComments lines := by
  unfold AreComments
  induction lines with
  | nil => rfl
  | cons line lines ih =>
    obtain ⟨rest, eq⟩ := marked line List.mem_cons_self
    have own : readLine? false line = some false := by
      unfold readLine?
      rw [← eq]
      rfl
    rw [List.foldlM_cons, own]
    exact ih fun l hl => marked l (List.mem_cons_of_mem line hl)

end Comment

/-! ## §2. Documentation as comments -/

/-- The text of a documentation value. -/
def Json.documentationText (value : Json) : String :=
  match value with
  | .string text => text
  | value => ((Node.ofJson? value).map fun n => n.string "text").getD ""

/-- Whether a text looks like a comment at its beginning. -/
def Comment.Marked (docs : String) : Prop :=
  Text.startsWith "//" docs = true ∨ Text.startsWith "/*" docs = true

instance (docs : String) : Decidable (Comment.Marked docs) :=
  inferInstanceAs (Decidable (_ ∨ _))

/-- A documentation value that is a comment to its end if it looks like one: a node, a plain text
that begins neither with `//` nor with `/*`, or a text of which every line is a comment. -/
def Json.SelfContained (value : Json) : Prop :=
  ∀ docs, value = .string docs → Comment.Marked docs →
    Comment.AreComments (Text.lines (docs ++ "\n"))

namespace Comment

/-- What stands before a documented declaration. -/
def block (docs : String) : String := withDocs docs ""

theorem withDocs_eq (docs text : String) : withDocs docs text = block docs ++ text := by
  unfold block withDocs
  split
  · simp
  · rw [String.append_empty]

theorem endsLine_block (docs : String) : Text.EndsLine (block docs) := by
  unfold block withDocs
  split
  · exact .inl rfl
  · exact .inr ⟨commented docs, by rw [String.append_empty]⟩

/-- The lines of a text, each behind a sign that begins a comment, are comments. -/
theorem areComments_prefixed {text start : String} (noReturn : '\r' ∉ text.toList)
    (marked : "//".toList <+: start.toList) (plain : '\n' ∉ start.toList ∧ '\r' ∉ start.toList)
    (present : text ≠ "") :
    AreComments (Text.lines
      (Text.joinLines ((Text.lines text).map (start ++ ·)) ++ "\n")) := by
  have lines : (Text.lines text).map (start ++ ·) ≠ [] := by
    rw [Ne, List.map_eq_nil_iff]
    exact Text.lines_ne_nil present
  rw [Text.joinLines_append_feed lines, Text.lines_terminated]
  · refine areComments_of_marked fun line hl => ?_
    obtain ⟨own, -, rfl⟩ := List.mem_map.1 hl
    rw [String.toList_append]
    exact marked.trans (List.prefix_append _ _)
  · intro line hl
    obtain ⟨own, ho, rfl⟩ := List.mem_map.1 hl
    obtain ⟨chars, hc, rfl⟩ := List.mem_map.1 ho
    obtain ⟨sub, noFeed⟩ := Text.mem_splitLines hc
    rw [String.toList_append, String.toList_ofList, List.mem_append, List.mem_append, not_or,
      not_or]
    exact ⟨⟨plain.1, noFeed⟩, plain.2, fun h => noReturn (sub h)⟩

theorem ne_empty_of_marked {docs : String} (h : Marked docs) : docs ≠ "" := by
  rintro rfl
  exact absurd h (by decide)

theorem block_marked {docs : String} (h : Marked docs) : block docs = docs ++ "\n" := by
  have same : commented docs = docs := if_pos h
  rw [block, withDocs, if_neg (ne_empty_of_marked h), same, String.append_empty]

theorem block_plain {docs : String} (present : docs ≠ "") (h : ¬ Marked docs) :
    block docs = Text.joinLines ((Text.lines docs).map ("/// " ++ ·)) ++ "\n" := by
  have behind : commented docs = Text.joinLines ((Text.lines docs).map ("/// " ++ ·)) := if_neg h
  rw [block, withDocs, if_neg present, behind, String.append_empty]

/-- The text of a documentation node is printed as comments. -/
theorem areComments_block_node (n : Node) (noReturn : '\r' ∉ (n.string "text").toList) :
    AreComments (Text.lines (block (Solidity.documentationLayout n))) := by
  by_cases present : n.string "text" = ""
  · rw [Solidity.documentationLayout, present]
    exact rfl
  · have marked : Marked (Solidity.documentationLayout n) := by
      unfold Solidity.documentationLayout
      cases lines : Text.lines (n.string "text") with
      | nil => exact absurd lines (Text.lines_ne_nil present)
      | cons line more =>
        rw [List.map_cons, Text.joinLines, String.intercalate_cons_append]
        refine .inl (Text.startsWith_iff.2 ?_)
        rw [String.toList_append]
        exact List.IsPrefix.trans (by decide) (List.prefix_append "///".toList _)
    rw [block_marked marked]
    exact areComments_prefixed noReturn (by decide) (by decide) present

/-- **Documentation is printed as comments exactly if it is what it looks like.** -/
theorem areComments_block_iff {value : Json} (noReturn : '\r' ∉ value.documentationText.toList) :
    AreComments (Text.lines (block (Solidity.documentation (some value))))
      ↔ value.SelfContained := by
  by_cases plain : ∃ docs, value = .string docs
  · obtain ⟨docs, rfl⟩ := plain
    have only : (Json.string docs).SelfContained
        ↔ (Marked docs → AreComments (Text.lines (docs ++ "\n"))) := by
      constructor
      · exact fun h => h docs rfl
      · rintro h _ ⟨⟩
        exact h
    rw [only, Solidity.documentation]
    by_cases marked : Marked docs
    · rw [block_marked marked]
      exact ⟨fun h _ => h, fun h => h marked⟩
    · refine ⟨fun _ h => absurd h marked, fun _ => ?_⟩
      by_cases present : docs = ""
      · rw [present]
        exact rfl
      · rw [block_plain present marked]
        exact areComments_prefixed noReturn (by decide) (by decide) present
  · have vacuous : value.SelfContained := fun docs h => absurd ⟨docs, h⟩ plain
    have other : Solidity.documentation (some value)
          = ((Node.ofJson? value).map Solidity.documentationLayout).getD ""
        ∧ value.documentationText
          = ((Node.ofJson? value).map fun n => n.string "text").getD "" := by
      cases value
      case string docs => exact absurd ⟨docs, rfl⟩ plain
      all_goals exact ⟨rfl, rfl⟩
    refine ⟨fun _ => vacuous, fun _ => ?_⟩
    rw [other.2] at noReturn
    rw [other.1]
    cases node : Node.ofJson? value with
    | none => exact rfl
    | some n =>
      rw [node] at noReturn
      exact areComments_block_node n noReturn

end Comment

/-! ## §3. Documented declarations of a contract -/

namespace ContractProjection

/-- The lines of the body of a contract, as they are printed. -/
def bodyLines (c : ContractProjection) : List String :=
  (Text.lines (Text.joinLines c.members)).map Text.indentLine

/-- A contract with members is its documentation, the line that opens it, and the lines of its
body. -/
theorem render_eq (c : ContractProjection) (present : c.members ≠ []) :
    c.render = Comment.block c.docs ++ c.opening ++ " \x7b\n" ++ Text.joinLines c.bodyLines
      ++ "\n\x7d" := by
  have body : ¬ c.members.isEmpty = true := by simpa using present
  rw [render, if_neg body]
  apply String.toList_inj.1
  simp [bodyLines, Text.indent, Comment.block]

/-- A contract is its documentation and then what it is without. -/
theorem render_eq_block (c : ContractProjection) :
    c.render = Comment.block c.docs ++ { c with docs := "" }.render := by
  have bare : { c with docs := "" }.render
      = c.opening ++ " " ++ (if c.members.isEmpty then "\x7b\x7d"
          else "\x7b\n" ++ Text.indent (Text.joinLines c.members) ++ "\n\x7d") :=
    congrArg (· ++ " " ++ _) (String.empty_append)
  rw [bare, render, Comment.block]
  simp only [String.append_assoc]

/-- A state variable or a function of a contract that is printed as some text behind some
documentation, with the members before it and those after it. -/
inductive Documented (c : ContractProjection) :
    List String → String → String → List String → Prop where
  | ofVariable {front : List VariableProjection} {v : VariableProjection}
      {back : List VariableProjection} : c.stateVariables = front ++ v :: back →
      Documented c
        ((if c.header = "" then [] else [c.header]) ++ front.map fun w => withDocs w.docs w.body)
        v.docs v.body
        ((back.map fun w => withDocs w.docs w.body) ++ c.modifiers
          ++ c.functions.map fun f => withDocs f.docs f.source)
  | ofFunction {front : List FunctionProjection} {f : FunctionProjection}
      {back : List FunctionProjection} : c.functions = front ++ f :: back →
      Documented c
        ((if c.header = "" then [] else [c.header])
          ++ (c.stateVariables.map fun w => withDocs w.docs w.body) ++ c.modifiers
          ++ front.map fun g => withDocs g.docs g.source)
        f.docs f.source
        (back.map fun g => withDocs g.docs g.source)

theorem Documented.members_eq {c : ContractProjection} {earlier later : List String}
    {docs text : String} (h : c.Documented earlier docs text later) :
    c.members = earlier ++ withDocs docs text :: later := by
  cases h with
  | ofVariable eq => simp [members, eq]
  | ofFunction eq => simp [members, eq]

/-- **The lines of a documented member**: those of the members before it, those of its
documentation, and then its own. -/
theorem Documented.bodyLines_eq {c : ContractProjection} {earlier later : List String}
    {docs text : String} (h : c.Documented earlier docs text later) :
    c.bodyLines = (Text.lines (Text.terminated earlier)).map Text.indentLine
      ++ (Text.lines (Comment.block docs)).map Text.indentLine
      ++ (Text.lines (Text.joinLines (text :: later))).map Text.indentLine := by
  have text : Text.joinLines c.members = Text.terminated earlier
      ++ (Comment.block docs ++ Text.joinLines (text :: later)) := by
    rw [h.members_eq, Text.joinLines_append, Comment.withDocs_eq, Text.joinLines,
      String.intercalate_cons_append, ← Text.joinLines]
  rw [bodyLines, text, Text.lines_append (Text.endsLine_terminated earlier),
    Text.lines_append (Comment.endsLine_block docs), List.map_append, List.map_append,
    List.append_assoc]

/-! ## §4. What is printed before a declaration -/

/-- A contract is printed as lines that are comments, and then as it is without documentation. -/
def CommentsFirst (c : ContractProjection) : Prop :=
  ∃ comment, c.render = comment ++ { c with docs := "" }.render ∧ Text.EndsLine comment
    ∧ Comment.AreComments (Text.lines comment)

/-- Between the members before it and its own text a member has lines that are comments. -/
def CommentsBefore (c : ContractProjection) (earlier : List String) (text : String)
    (later : List String) : Prop :=
  ∃ comment, c.bodyLines = (Text.lines (Text.terminated earlier)).map Text.indentLine ++ comment
      ++ (Text.lines (Text.joinLines (text :: later))).map Text.indentLine
    ∧ Comment.AreComments comment

theorem commentsFirst_iff (c : ContractProjection) :
    c.CommentsFirst ↔ Comment.AreComments (Text.lines (Comment.block c.docs)) := by
  constructor
  · rintro ⟨comment, eq, -, comments⟩
    rw [render_eq_block, String.append_left_inj] at eq
    rwa [eq]
  · exact fun comments =>
      ⟨Comment.block c.docs, c.render_eq_block, Comment.endsLine_block c.docs, comments⟩

theorem Documented.commentsBefore_iff {c : ContractProjection} {earlier later : List String}
    {docs text : String} (h : c.Documented earlier docs text later) :
    c.CommentsBefore earlier text later
      ↔ Comment.AreComments (Text.lines (Comment.block docs)) := by
  rw [← Comment.areComments_indented]
  constructor
  · rintro ⟨comment, eq, comments⟩
    rw [h.bodyLines_eq, List.append_left_inj, List.append_right_inj] at eq
    rwa [eq]
  · exact fun comments => ⟨_, h.bodyLines_eq, comments⟩

/-- **Documentation stays out of the code exactly if it is what it looks like**, wherever it is
printed: before a contract, before a state variable and before a function. -/
theorem documentation_contained_iff {value : Json}
    (noReturn : '\r' ∉ value.documentationText.toList) (c : ContractProjection) :
    (c.docs = Solidity.documentation (some value) → (c.CommentsFirst ↔ value.SelfContained))
      ∧ ∀ earlier text later,
          c.Documented earlier (Solidity.documentation (some value)) text later →
            c.render = Comment.block c.docs ++ c.opening ++ " \x7b\n" ++ Text.joinLines c.bodyLines
                ++ "\n\x7d"
              ∧ (c.CommentsBefore earlier text later ↔ value.SelfContained) := by
  constructor
  · intro own
    rw [commentsFirst_iff, own]
    exact Comment.areComments_block_iff noReturn
  · intro earlier text later documented
    have present : c.members ≠ [] := by
      rw [documented.members_eq]
      simp
    refine ⟨c.render_eq present, ?_⟩
    rw [documented.commentsBefore_iff]
    exact Comment.areComments_block_iff noReturn

/-- A contract with one state variable, both with the same documentation. -/
def pool (docs : String) : ContractProjection where
  name := "Pool"
  docs := docs
  kind := "contract"
  isAbstract := false
  bases := []
  header := ""
  modifiers := []
  stateVariables := [⟨"total", docs, "uint256", "uint256 total;"⟩]
  functions := []

/-- Documentation that is a comment already, on a contract and on a state variable. -/
theorem documentation_contained_pool :
    '\r' ∉ (Json.string "// all\n/* of\n   it */").documentationText.toList
      ∧ (pool "// all\n/* of\n   it */").CommentsFirst
      ∧ (pool "// all\n/* of\n   it */").CommentsBefore [] "uint256 total;" [] := by
  have noReturn : '\r' ∉ (Json.string "// all\n/* of\n   it */").documentationText.toList := by
    decide
  have comment : (Json.string "// all\n/* of\n   it */").SelfContained := by
    rintro docs ⟨⟩ -
    decide
  have total : (pool "// all\n/* of\n   it */").stateVariables
      = [] ++ ⟨"total", "// all\n/* of\n   it */", "uint256", "uint256 total;"⟩ :: [] := rfl
  obtain ⟨first, before⟩ := documentation_contained_iff noReturn (pool "// all\n/* of\n   it */")
  exact ⟨noReturn, (first rfl).2 comment, (before _ _ _ (.ofVariable total)).2.2 comment⟩

/-- A text whose first line looks like a comment takes the next one with it. -/
theorem documentation_not_always_contained :
    ¬ ∀ (value : Json) (c : ContractProjection), '\r' ∉ value.documentationText.toList →
      c.docs = Solidity.documentation (some value) → c.CommentsFirst := by
  intro always
  have first := always (.string "// kept for later:\nselfdestruct(owner);")
    (pool "// kept for later:\nselfdestruct(owner);") (by decide) rfl
  rw [commentsFirst_iff] at first
  exact absurd first (by decide)

end ContractProjection

end FuzzBundle
